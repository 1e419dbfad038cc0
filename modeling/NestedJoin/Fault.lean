import NestedJoin.Subject
set_option autoImplicit false

/-!
# Faults

Why a step failed, and the text that says so.  The causes are grouped by the part of the
library that finds them; `Fault.message` holds every wording.  The wordings that a caller
may also use are about things in their written forms, whatever the things are.
-/

namespace NestedJoin

/-- Why a step failed. -/
inductive Fault where
  /-- a table was given an empty alias -/
  | emptyAlias
  /-- a table has no fields -/
  | noFields (aliasName : String)
  /-- a field is listed twice -/
  | duplicateFields (aliasName : String) (fields : List String)
  /-- a table has no primary key -/
  | noPrimaryKey (aliasName : String)
  /-- a primary-key field is not a field -/
  | primaryKeyNotField (aliasName field : String)
  /-- a relation was given a kind that does not exist -/
  | invalidKind (kind : Value)
  /-- a joined table says nowhere to put its rows -/
  | noContainer (aliasName : String)
  /-- a join was given a type that does not exist -/
  | invalidJoinType (joinType : Value) (aliasName : String)
  /-- a join pairs no columns -/
  | noJoinColumns (aliasName : String)
  /-- a join column is not a field of its table -/
  | joinColumnNotField (column : Value) (aliasName : String)
  /-- a join was given nothing in the place of its parameters -/
  | noParameters
  /-- a join was given a parameter whose name is not a text -/
  | parameterNameNotText (name : Value)
  /-- an alias is taken already -/
  | duplicateAlias (aliasName : String)
  /-- an alias is not known -/
  | unknownAlias (aliasName : String) (available : List String)
  /-- no table answers to a subject -/
  | unknownSubject (subject : Subject)
  /-- a result column would be produced twice -/
  | columnClash (column aliasName owner : String)
  /-- a graph has no root table -/
  | noRoot
  /-- a row lacks a column of the key chain -/
  | keyColumnMissing (aliasName column : String)
  /-- a relation of a kind that attaches nothing was met -/
  | unattachable (kind : Value)
  /-- a map has no such key -/
  | missingKey (key : Value)
  /-- a list or dictionary was used as a key -/
  | notHashable
  /-- a value has no size -/
  | notSized
  /-- a value cannot be added up -/
  | notSummable
  /-- a container that is not a list was to take another item -/
  | notAppendable
  /-- a frozen value was to be changed -/
  | frozen
  /-- a frozen map was to be changed -/
  | frozenMap
  /-- something was to be assigned that has no parts by that name -/
  | noSuchPart (part : String)
  /-- a function was given arguments that it does not take -/
  | wrongArguments
  /-- a column reference has no point -/
  | malformedReference (ref : String)
  /-- an alias has no such column -/
  | columnNotFound (column aliasName : String) (available : List String)
  /-- a statement reads from no such alias -/
  | aliasNotFound (aliasName : String) (available : List String)
  /-- a comparison does not apply to its value -/
  | invalidComparison
  /-- a value has no literal form -/
  | noLiteral
  /-- a list of values has no literal form -/
  | noListLiteral
  /-- a generated placeholder would meet a named one -/
  | placeholderClash (name : String)
  /-- an empty identifier has no written form -/
  | emptyIdentifier
  /-- two shared queries of one statement have one name -/
  | repeatedQuery (name : String)
  /-- a class carries no table -/
  | noMappedTable
  /-- a class's table has no name -/
  | unnamedTable (model : Model)
  /-- a column of a declared table has no name -/
  | unnamedColumn (table : String)
  /-- a declared table lists a column twice -/
  | repeatedColumn (column table : String)
  /-- a declared table's primary key names no column -/
  | keyNotColumn (column table : String)
  /-- a table is declared twice -/
  | repeatedTable (table : String)
  /-- a class is mapped to a table without a primary key -/
  | unmappable (model : String)
  /-- a live database has no table to drop -/
  | missingTable (namespaceName : Option String) (table : String)
  /-- a schema that keeps nothing was to forget it -/
  | nothingCached
  /-- what a schema was to be built from declares no tables -/
  | notSchemaBase
  /-- the registry was used before it was initialised -/
  | registryEmpty
  /-- a registry's schema was read though it has none -/
  | noSchema
  /-- no connection was passed or configured -/
  | noConnection
  /-- a modifier gave up -/
  | modifierFailed (message : String)
  /-- a connection could not execute a statement -/
  | executionFailed (message : String)
  deriving Repr, Inhabited

namespace Fault

/-- The join types, as messages list them. -/
def joinTypeNames : List String := ["inner", "left", "right"]

/-- Why nothing is assigned to a part of a frozen thing with parts of some names. -/
def ofAssignment (partNames : List String) (part : String) : Fault :=
  if part ∈ partNames then .frozen else .noSuchPart part

/-! ## Wordings about written forms -/

/-- An alias is taken already. -/
def duplicateAliasText (aliasName : String) : String := "Duplicate table alias " ++ aliasName

/-- An alias is not known; the known ones are listed if there are any. -/
def unknownAliasText (aliasName : String) (available : List String) : String :=
  "Unknown table alias " ++ aliasName ++
    if available.isEmpty then "" else ". Available: " ++ Text.squareBrackets available

/-- No table answers to a subject. -/
def unknownSubjectText (subject : String) : String :=
  "Cannot describe entity " ++ subject ++ ": no such table"

/-- A result column would be produced twice. -/
def columnClashText (column aliasName owner : String) : String :=
  "Result column " ++ column ++ " of " ++ aliasName ++ " clashes with a column of " ++ owner

/-- A primary-key field is not a field. -/
def primaryKeyNotFieldText (aliasName field : String) : String :=
  "Primary key field " ++ field ++ " of " ++ aliasName ++ " not found in field list"

/-- A row lacks a column of the key chain. -/
def keyColumnMissingText (aliasName column : String) : String :=
  "No primary key column " ++ column ++ " found in row for " ++ aliasName

/-- A relation is of a kind that attaches nothing. -/
def unattachableText (kind : String) : String := "Unknown relation kind " ++ kind

/-! ## Wordings of faults -/

/-- The wording of a fault. -/
def message : Fault → String
  | .emptyAlias => "Table alias must not be empty"
  | .noFields a => "Table " ++ Text.quoted a ++ " has no fields"
  | .duplicateFields a fs =>
    "Table " ++ Text.quoted a ++ " has duplicate fields: " ++ Text.quotedList fs
  | .noPrimaryKey a => "Table " ++ Text.quoted a ++ " has no primary key"
  | .primaryKeyNotField a f => primaryKeyNotFieldText (Text.quoted a) (Text.quoted f)
  | .invalidKind k => k.text ++ " is not a valid JoinKind"
  | .noContainer a => "Joined table " ++ Text.quoted a ++ " needs a container field"
  | .invalidJoinType t a =>
    "Unknown join type " ++ t.text ++ " for " ++ Text.quoted a ++ ". Expected one of " ++
      Text.quotedList joinTypeNames
  | .noJoinColumns a => "Join of " ++ Text.quoted a ++ " has no join columns"
  | .joinColumnNotField c a => "Join column " ++ c.text ++ " not found in " ++ Text.quoted a
  | .noParameters => "the join has no parameters to read"
  | .parameterNameNotText n => "the parameter name " ++ n.text ++ " is not a text"
  | .duplicateAlias a => duplicateAliasText (Text.quoted a)
  | .unknownAlias a as => unknownAliasText (Text.quoted a) (as.map Text.quoted)
  | .unknownSubject s => unknownSubjectText s.text
  | .columnClash c a o => columnClashText (Text.quoted c) (Text.quoted a) (Text.quoted o)
  | .noRoot => "Join graph has no root table"
  | .keyColumnMissing a c => keyColumnMissingText (Text.quoted a) (Text.quoted c)
  | .unattachable k => unattachableText k.text
  | .missingKey k => k.text
  | .notHashable => "a list or dictionary cannot be part of a key"
  | .notSized => "the value has no size"
  | .notSummable => "the values cannot be added up"
  | .notAppendable => "the container is not a list"
  | .frozen => "the value is frozen"
  | .frozenMap => "the map is frozen"
  | .noSuchPart p => "there is no part " ++ Text.quoted p
  | .wrongArguments => "the arguments do not fit"
  | .malformedReference r => "Expected 'alias.column' format, got " ++ Text.quoted r
  | .columnNotFound c a as =>
    "Column " ++ Text.quoted c ++ " not found in alias " ++ Text.quoted a ++ ". Available: " ++
      Text.quotedList as
  | .aliasNotFound a as =>
    "Alias " ++ Text.quoted a ++ " not found in query. Available: " ++ Text.quotedList as
  | .invalidComparison => "only equality applies to null and truth values"
  | .noLiteral => "the value has no literal form"
  | .noListLiteral => "the list of values has no literal form"
  | .placeholderClash n => "Bind parameter " ++ Text.quoted n ++ " conflicts with another"
  | .emptyIdentifier => "string index out of range"
  | .repeatedQuery n => "More than one shared query is named " ++ Text.quoted n
  | .noMappedTable => "the class carries no table"
  | .unnamedTable m => "Cannot determine tablename for " ++ m.text
  | .unnamedColumn t => "Table " ++ Text.quoted t ++ " has a column without a name"
  | .repeatedColumn c t =>
    "Table " ++ Text.quoted t ++ " lists column " ++ Text.quoted c ++ " twice"
  | .keyNotColumn c t =>
    "The primary key of " ++ Text.quoted t ++ " names no column " ++ Text.quoted c
  | .repeatedTable t => "Table " ++ Text.quoted t ++ " is declared twice"
  | .unmappable m => "The table of class " ++ Text.quoted m ++ " has no primary key"
  | .missingTable n t => Text.roundBrackets [(n.map Text.quoted).getD "None", Text.quoted t]
  | .nothingCached => "the schema keeps no descriptions"
  | .notSchemaBase => "base must be a subclass of orm.DeclarativeBase or a sa.MetaData"
  | .registryEmpty => "Registry is not initialized: call init_registry() first"
  | .noSchema => ""
  | .noConnection =>
    "No connection available: pass one to all() or set a default bind " ++
      "with init_registry(schema, bind=...)"
  | .modifierFailed m => m
  | .executionFailed m => m

end Fault

/-- A fold that keeps a property of what is done so far succeeds with the property of all. -/
theorem foldlM_prefix {α β : Type} {step : β → α → Except Fault β} {xs : List α}
    (inv : List α → β → Prop)
    (hstep : ∀ done x rest, xs = done ++ x :: rest → ∀ s, inv done s →
      ∃ s', step s x = .ok s' ∧ inv (done ++ [x]) s')
    {s : β} (hs : inv [] s) : ∃ s', xs.foldlM step s = .ok s' ∧ inv xs s' := by
  suffices run : ∀ rest done s, xs = done ++ rest → inv done s →
      ∃ s', rest.foldlM step s = .ok s' ∧ inv xs s' from run xs [] s rfl hs
  intro rest
  induction rest with
  | nil =>
    intro done s hxs hinv
    rw [List.append_nil] at hxs
    exact ⟨s, rfl, hxs ▸ hinv⟩
  | cons x rest ih =>
    intro done s hxs hinv
    obtain ⟨next, hnext, hinv'⟩ := hstep done x rest hxs s hinv
    obtain ⟨last, hlast, hinv''⟩ := ih (done ++ [x]) next (by rw [hxs]; simp) hinv'
    refine ⟨last, ?_, hinv''⟩
    rw [List.foldlM_cons, hnext]
    exact hlast

end NestedJoin
