import NestedJoin.Value
set_option autoImplicit false

/-!
# What a table may be asked for by

A caller names a table by a plain value (as a rule its name), by a model class mapped to
it, or by a declared table.
-/

namespace NestedJoin

/-- A table as a schema declares it. -/
structure Declaration where
  name : String
  /-- the namespace the table lives in, if it is not the default one -/
  schema : Option String
  columns : List String
  primaryKey : List String
  deriving DecidableEq, Repr, Inhabited

namespace Declaration

/-- A declared table; a column that its primary key lists twice counts once. -/
def make (name : String) (schema : Option String) (columns primaryKey : List String) :
    Declaration :=
  ⟨name, schema, columns, primaryKey.eraseDups⟩

/-- The name a schema files the table under. -/
def fullName (d : Declaration) : String :=
  match d.schema with
  | none => d.name
  | some s => s ++ "." ++ d.name

/-- The written form of a column. -/
def columnText (d : Declaration) (column : String) : String :=
  "Column(" ++ Text.quoted column ++ ", Integer(), table=<" ++ d.name ++ ">" ++
    (if column ∈ d.primaryKey then ", primary_key=True, nullable=False)" else ")")

/-- The written form of a declared table. -/
def text (d : Declaration) : String :=
  "Table(" ++ ", ".intercalate
    ([Text.quoted d.name, "MetaData()"] ++ d.columns.map d.columnText ++
      ["schema=" ++ (match d.schema with | none => "None" | some s => Text.quoted s)]) ++ ")"

end Declaration

/-- A class that may be mapped to a table. -/
structure Model where
  /-- the class's name, with the module it lives in -/
  name : String
  /-- the table name the class states: none stated, or stated and possibly null -/
  tableName : Option (Option String)
  /-- the description of the table the class carries: no table, or one with a description that
  is possibly null -/
  description : Option (Option String)
  /-- whether the class is mapped to a declared table, whose name it then states -/
  isMapped : Bool
  deriving DecidableEq, Repr, Inhabited

namespace Model

/-- The written form of a class. -/
def text (m : Model) : String := "<class '" ++ m.name ++ "'>"

end Model

/-- What a table is asked for by. -/
inductive Subject where
  | value (v : Value)
  | model (m : Model)
  | declared (d : Declaration)
  deriving Repr, Inhabited

namespace Subject

/-- Where the table name of a subject comes from. -/
inductive NameOrigin where
  /-- a caller or a class gives it as a text -/
  | stated
  /-- a declared table carries it -/
  | declared
  deriving DecidableEq, Repr, Inhabited

/-- Where the table name of a subject comes from. -/
def nameOrigin : Subject → NameOrigin
  | .value _ => .stated
  | .model m => if m.isMapped then .declared else .stated
  | .declared _ => .declared

/-- A table asked for by name. -/
def named (name : String) : Subject := .value (.str name)

/-- The written form of a subject. -/
def text : Subject → String
  | .value v => v.text
  | .model m => m.text
  | .declared d => d.text

/-- The plain form of a subject. -/
def display : Subject → String
  | .value v => v.display
  | .model m => m.text
  | .declared d => d.fullName

/-- Whether two subjects are the same: values by equality, classes and tables by identity. -/
def same : Subject → Subject → Bool
  | .value v, .value w => v.same w
  | .model m, .model n => m == n
  | .declared d, .declared e => d == e
  | _, _ => false

end Subject

end NestedJoin
