import NestedJoin.Source
import NestedJoin.Sql.Identifier
import NestedJoin.Sql.Placeholder
import NestedJoin.Sql.Literal
set_option autoImplicit false

/-!
# Statements

A statement selects columns from a source, under conditions, in an order, up to a limit.
It is printed in two ways: with placeholders, where each value of a condition gets a name
of its own, and with every value written out as a literal.  Both go through one list of
pieces, so in one dialect they differ in nothing but the values.

A generated placeholder is named by the column it is compared with and a number that
counts the placeholders of that column from left to right.  A name that would be too long
keeps its beginning, with a number that counts the names cut so far.

What a statement reads from can be looked at only if it can be written with placeholders.

Main statement: `numbered_map_fst`, numbering keeps the pieces.
-/

namespace NestedJoin.Sql

/-! ## Conditions -/

/-- A comparison of a column with a value. -/
inductive Comparison where
  | eq
  | ne
  | lt
  | le
  | gt
  | ge
  | like
  | member
  | notMember
  deriving DecidableEq, Repr, Inhabited

namespace Comparison

/-- The spelling of a comparison. -/
def symbol : Comparison → String
  | .eq => "="
  | .ne => "!="
  | .lt => "<"
  | .le => "<="
  | .gt => ">"
  | .ge => ">="
  | .like => "LIKE"
  | .member => "IN"
  | .notMember => "NOT IN"

end Comparison

/-- The left side of a comparison: a column, or a column given as raw text. -/
inductive Operand where
  | column (ref : ColumnRef)
  | literal (text : String)
  deriving DecidableEq, Repr, Inhabited

namespace Operand

/-- The name of the column. -/
def columnName : Operand → String
  | .column r => r.column
  | .literal t => t

end Operand

/-- A condition on rows. -/
inductive Condition where
  /-- raw text -/
  | raw (text : BoundText)
  /-- the operand is null, or it is not -/
  | isNull (operand : Operand) (negated : Bool)
  /-- the operand equals a truth value, or it does not -/
  | isTruth (operand : Operand) (negated : Bool) (value : Bool)
  /-- the operand compares with a value -/
  | compare (operand : Operand) (op : Comparison) (value : Value)
  /-- the operand is among some values, or it is not -/
  | member (operand : Operand) (negated : Bool) (values : List Value)
  deriving Repr, Inhabited

namespace Condition

/-- The condition that compares an operand with a value.  Null and truth values can only be
tested for equality, and membership needs a collection. -/
def make (operand : Operand) (op : Comparison) (value : Value) : Except Fault Condition :=
  match op, value with
  | .member, v => match v.members? with
    | some vs => .ok (.member operand false vs)
    | none => .error .invalidComparison
  | .notMember, v => match v.members? with
    | some vs => .ok (.member operand true vs)
    | none => .error .invalidComparison
  | .eq, .null => .ok (.isNull operand false)
  | .ne, .null => .ok (.isNull operand true)
  | .eq, .bool b => .ok (.isTruth operand false b)
  | .ne, .bool b => .ok (.isTruth operand true b)
  | _, .null => .error .invalidComparison
  | _, .bool _ => .error .invalidComparison
  | op, v => .ok (.compare operand op v)

end Condition

/-- The condition of a join: pairs of equal columns, and raw text. -/
structure OnClause where
  pairs : List (ColumnRef × ColumnRef)
  extra : Option BoundText
  deriving Repr, Inhabited

/-- A selected column and the name of the result column. -/
structure OutputColumn where
  source : ColumnRef
  label : String
  deriving DecidableEq, Repr, Inhabited

/-- A statement that selects columns. -/
structure Statement where
  columns : List OutputColumn
  source : Source OnClause
  conditions : List Condition := []
  /-- columns to order by, each with whether the order is descending -/
  ordering : List (ColumnRef × Bool) := []
  limit : Option Int := none
  deriving Repr

/-! ## Pieces -/

/-- A piece of a printed statement. -/
inductive Piece where
  | verbatim (text : String)
  | identifier (name : String)
  /-- a column given as raw text -/
  | column (text : String)
  | raw (text : BoundText)
  | truth (value : Bool)
  /-- a value compared with a column -/
  | value (column : String) (v : Value)
  /-- the values after a membership test -/
  | values (column : String) (negated : Bool) (vs : List Value)
  | limit (count : Int)
  deriving Repr, Inhabited

/-- The lists of pieces with a piece between each two. -/
def separated (sep : String) : List (List Piece) → List Piece
  | [] => []
  | [ps] => ps
  | ps :: rest => ps ++ .verbatim sep :: separated sep rest

namespace ColumnRef

/-- The pieces of a column of a named source. -/
def pieces (r : ColumnRef) : List Piece :=
  [.identifier r.owner, .verbatim ".", .identifier r.column]

end ColumnRef

namespace Operand

/-- The pieces of an operand. -/
def pieces : Operand → List Piece
  | .column r => ColumnRef.pieces r
  | .literal t => [.column t]

end Operand

namespace Condition

/-- The pieces of a condition. -/
def pieces : Condition → List Piece
  | .raw t => if t.text = "" then [] else [.raw t]
  | .isNull o negated => o.pieces ++ [.verbatim (if negated then " IS NOT NULL" else " IS NULL")]
  | .isTruth o negated b => o.pieces ++ [.verbatim (if negated then " != " else " = "), .truth b]
  | .compare o op v =>
    o.pieces ++ [.verbatim (" " ++ op.symbol ++ " "), .value o.columnName v]
  | .member o false vs => o.pieces ++ [.verbatim " IN ", .values o.columnName false vs]
  | .member o true vs =>
    .verbatim "(" :: o.pieces ++ [.verbatim " NOT IN ", .values o.columnName true vs, .verbatim ")"]

end Condition

namespace OnClause

/-- The pieces of a join's condition: equal pairs and raw text, AND-ed. -/
def pieces (c : OnClause) : List Piece :=
  separated " AND " <|
    c.pairs.map (fun p => ColumnRef.pieces p.1 ++ .verbatim " = " :: ColumnRef.pieces p.2) ++
      c.extra.toList.map fun t => [.raw t]

end OnClause

/-- The pieces of a source; a query stands there by its name. -/
def sourcePieces : Source OnClause → List Piece
  | .table n _ => [.identifier n]
  | .aliased n s => sourcePieces s ++ [.verbatim " AS ", .identifier n]
  | .join l r outer on =>
    sourcePieces l ++ .verbatim (if outer then " LEFT OUTER JOIN " else " JOIN ") ::
      (sourcePieces r ++ .verbatim " ON " :: on.pieces)
  | .grouped s => .verbatim "(" :: (sourcePieces s ++ [.verbatim ")"])
  | .query _ n _ => [.identifier n]

namespace OutputColumn

/-- The pieces of a selected column. -/
def pieces (c : OutputColumn) : List Piece :=
  ColumnRef.pieces c.source ++ [.verbatim " AS ", .identifier c.label]

end OutputColumn

namespace Statement

/-- A clause that starts with a word, if it says anything. -/
def clause (word : String) (sep : String) (parts : List (List Piece)) : List Piece :=
  match parts.filter (fun p => !p.isEmpty) with
  | [] => []
  | said => .verbatim word :: separated sep said

/-- The pieces of an order. -/
def orderPieces (o : ColumnRef × Bool) : List Piece :=
  ColumnRef.pieces o.1 ++ if o.2 then [.verbatim " DESC"] else []

/-- The pieces of a statement from left to right. -/
def pieces (s : Statement) : List Piece :=
  .verbatim "SELECT " :: separated ", " (s.columns.map OutputColumn.pieces) ++
    .verbatim " \nFROM " :: sourcePieces s.source ++
    clause " \nWHERE " " AND " (s.conditions.map Condition.pieces) ++
    clause " ORDER BY " ", " (s.ordering.map orderPieces) ++
    s.limit.toList.map Piece.limit

end Statement

/-! ## Generated placeholders -/

/-- The column by which a piece's placeholder is named, if the piece has a placeholder. -/
def Piece.column? : Piece → Option String
  | .value c _ => some c
  | .values c _ _ => some c
  | .limit _ => some "param"
  | _ => none

/-- Whether a character cannot stand in a generated name; a run of them becomes an underscore. -/
def isForeign (c : Char) : Bool := c == '%' || c == '(' || c == ')' || c == ' ' || c == '$'

/-- The text with each run of foreign characters replaced by an underscore. -/
def joinForeign : Bool → List Char → List Char
  | _, [] => []
  | inRun, c :: cs =>
    if isForeign c then (if inRun then joinForeign true cs else '_' :: joinForeign true cs)
    else c :: joinForeign false cs

/-- What the placeholders of a column are named by: no underscore stands at either end. -/
def placeholderBase (column : String) : String :=
  String.ofList (Text.trim (· == '_') (joinForeign false column.toList))

/-- The name of the placeholder of a base with a number. -/
def placeholderName (base : String) (number : Nat) : String := base ++ "_" ++ toString number

/-- How many characters of a generated name are kept. -/
def nameLimit : Nat := 9993

/-- A name that is too long: its beginning, with a hexadecimal number. -/
def cutName (name : String) (number : Nat) : String :=
  String.ofList (name.toList.take nameLimit ++ '_' :: Nat.toDigits 16 number)

/-- Every piece with the name of its generated placeholder, given the bases used before and how
many names were cut. -/
def numberedFrom (used : List String) (cut : Nat) : List Piece → List (Piece × Option String)
  | [] => []
  | p :: ps =>
    match p.column? with
    | none => (p, none) :: numberedFrom used cut ps
    | some c =>
      let base := placeholderBase c
      let name := placeholderName base (used.count base + 1)
      if name.length ≤ nameLimit then (p, some name) :: numberedFrom (base :: used) cut ps
      else (p, some (cutName name (cut + 1))) :: numberedFrom (base :: used) (cut + 1) ps

/-- Every piece with the name of its generated placeholder. -/
def numbered (ps : List Piece) : List (Piece × Option String) := numberedFrom [] 0 ps

theorem numberedFrom_map_fst (used : List String) (cut : Nat) (ps : List Piece) :
    (numberedFrom used cut ps).map Prod.fst = ps := by
  induction ps generalizing used cut with
  | nil => rfl
  | cons p ps ih =>
    cases hc : p.column? with
    | none => simp [numberedFrom, hc, ih]
    | some c =>
      simp only [numberedFrom, hc]
      split <;> simp [ih]

/-- Numbering keeps the pieces. -/
theorem numbered_map_fst (ps : List Piece) : (numbered ps).map Prod.fst = ps :=
  numberedFrom_map_fst [] 0 ps

/-- A character of a generated name as it is printed. -/
def printedNameChar (c : Char) : Char :=
  if c = '%' then 'P'
  else if c = '(' then 'A'
  else if c = ')' then 'Z'
  else if c = ':' then 'C'
  else if c = '.' || c = '[' || c = ']' || c = ' ' then '_'
  else c

/-- A generated name as it is printed. -/
def printedName (name : String) : String := String.ofList (name.toList.map printedNameChar)

namespace Statement

/-- The names that the statement's raw texts use as placeholders. -/
def namedPlaceholders (s : Statement) : List String :=
  s.pieces.flatMap fun p => match p with
    | .raw t => t.placeholders
    | _ => []

/-- The generated names of the statement's placeholders. -/
def generatedPlaceholders (s : Statement) : List String :=
  (numbered s.pieces).filterMap Prod.snd

/-! ## Printing -/

/-- The written form of an identifier that is not empty. -/
def identifierText (d : Dialect) (name : String) : Except Fault String :=
  if name = "" then .error .emptyIdentifier else .ok (identifier d name)

/-- The written form of a column given as raw text. -/
def columnText (d : Dialect) (text : String) : String :=
  String.ofList (text.toList.flatMap d.copied)

/-- A piece of the statement with placeholders. -/
def pieceText : Piece × Option String → Except Fault String
  | (.verbatim t, _) => .ok t
  | (.identifier n, _) => identifierText .standard n
  | (.column t, _) => .ok (columnText .standard t)
  | (.raw t, _) => .ok (t.print .standard fun name _ => ":" ++ name)
  | (.truth b, _) => .ok (Dialect.standard.truth b)
  | (.value _ _, name) => .ok (":" ++ printedName (name.getD ""))
  | (.values _ _ _, name) => .ok ("(__[POSTCOMPILE_" ++ printedName (name.getD "") ++ "])")
  | (.limit _, name) => .ok (Dialect.standard.limit (":" ++ printedName (name.getD "")))

/-- The statement with placeholders.  A generated name must not be one that raw text uses. -/
def text (s : Statement) : Except Fault String :=
  match (numbered s.pieces).mapM pieceText with
  | .error f => .error f
  | .ok ts =>
    match s.generatedPlaceholders.find? s.namedPlaceholders.contains with
    | some n => .error (.placeholderClash n)
    | none => .ok ("".intercalate ts)

/-- What the statement shows to be read from.  It shows nothing unless it can be written. -/
def sources (s : Statement) : Except Fault (List (Source OnClause)) :=
  s.text.map fun _ => [s.source]

/-- The literals after a membership test.  No list is written for no values: a list of null
stands there, with a condition that settles the test. -/
def valuesLiteral (d : Dialect) (negated : Bool) (vs : List Value) : Except Fault String :=
  if vs.isEmpty then .ok (if negated then "(NULL) OR (1 = 1)" else "(NULL) AND (1 != 1)")
  else (memberLiterals d vs).map fun ts => "(" ++ ", ".intercalate ts ++ ")"

/-- The first value of a raw text's placeholders that has no literal form. -/
def rawFault? (d : Dialect) (t : BoundText) : Option Fault :=
  t.placeholders.findSome? fun n => match t.values.lookup n with
    | none => none
    | some v => match valueLiteral d v with
      | .ok _ => none
      | .error f => some f

/-- The literal of a placeholder's value; one without a value stands for null. -/
def rawLiteral (d : Dialect) (v : Option Value) : String :=
  match valueLiteral d (v.getD .null) with
  | .ok s => s
  | .error _ => ""

/-- A piece of the statement with literals. -/
def pieceLiteral (d : Dialect) : Piece → Except Fault String
  | .verbatim t => .ok t
  | .identifier n => identifierText d n
  | .column t => .ok (columnText d t)
  | .raw t => match rawFault? d t with
    | some f => .error f
    | none => .ok (t.print d fun _ v => rawLiteral d v)
  | .truth b => .ok (d.truth b)
  | .value _ v => valueLiteral d v
  | .values _ negated vs => valuesLiteral d negated vs
  | .limit n => .ok (d.limit (toString n))

/-- The statement with every value written out. -/
def literal (d : Dialect) (s : Statement) : Except Fault String :=
  (s.pieces.mapM (pieceLiteral d)).map "".intercalate

end Statement

end NestedJoin.Sql
