import NestedJoin.Fault
import NestedJoin.Text.Blank
import NestedJoin.Text.Digit
set_option autoImplicit false

/-!
# Literals

The text that stands for a value in a statement with its values written out.  What a value
is written as depends on the type of the place: for a single value its own type, for the
members of a list the type of the first member.  Null is written the same at every type.
Values without a literal form at their type are faults.

Single quotes inside a text are doubled, and so are the characters that the dialect writes
twice.  A byte string is written as the text that it encodes.
-/

namespace NestedJoin.Sql

/-- The type that a value gives to its place. -/
def typeOf : Value → LiteralType
  | .bool _ => .truth
  | .int _ => .integer
  | .float _ => .number
  | .str _ => .text
  | .bytes _ => .bytes
  | .foreign x _ => x.literalType
  | _ => .untyped

/-! ## Integers -/

/-- The blanks that may stand around a numeral: those of ASCII. -/
def isNumeralBlank (c : Char) : Bool := c == ' ' || (0x9 ≤ c.toNat && c.toNat ≤ 0xd)

/-- A character of a text as a numeral may hold it: outside ASCII a blank counts as a space and
a digit as the ASCII digit of its value. -/
def numeralChar (c : Char) : Char :=
  if c.toNat < 0x80 then c
  else if Text.isBlank c then ' '
  else match Text.digitValue? c with
    | some n => Nat.digitChar n
    | none => c

/-- The most digits a numeral may have. -/
def maxDigits : Nat := 4300

/-- The digits of a numeral, which single underscores between digits may group. -/
def ungrouped : List Char → Option (List Char)
  | [] => none
  | [c] => if c.isDigit then some [c] else none
  | c :: '_' :: rest => if c.isDigit then (ungrouped rest).map (c :: ·) else none
  | c :: rest => if c.isDigit then (ungrouped rest).map (c :: ·) else none

/-- The integer that characters stand for: blanks around a sign and a numeral. -/
def integerOfChars? (cs : List Char) : Option Int := do
  let (negative, cs) := Decimal.Binary64.splitSign (Text.trim isNumeralBlank cs)
  let digits ← ungrouped cs
  let n ← if digits.length ≤ maxDigits then Decimal.Binary64.digitsValue? digits else none
  return if negative then -(n : Int) else n

/-- The integer a value is turned into where an integer is expected. -/
def integerOf? : Value → Option Int
  | .bool b => some (if b then 1 else 0)
  | .int n => some n
  | .float (.finite negative m e) => some (Decimal.Binary64.truncate negative m e)
  | .str s => integerOfChars? (s.toList.map numeralChar)
  | .bytes bs => integerOfChars? (bs.map fun b => Char.ofNat b.toNat)
  | _ => none

/-! ## Texts and truth values -/

/-- Characters in single quotes, with single quotes inside doubled. -/
def singleQuoted (cs : List Char) : String :=
  String.ofList ('\x27' :: (cs.flatMap fun c => if c = '\x27' then [c, c] else [c]) ++ ['\x27'])

/-- The truth value a value stands for: a truth value, or a number equal to one. -/
def truthOf? (v : Value) : Option Bool :=
  if v.same (.bool true) then some true
  else if v.same (.bool false) then some false
  else none

/-- The text a byte string encodes in UTF-8. -/
def textOfBytes? (bs : List UInt8) : Option String := String.fromUTF8? ⟨bs.toArray⟩

/-! ## Literals -/

/-- The literal of a value other than null at a type. -/
def literalAt (d : Dialect) (type : LiteralType) (v : Value) : Option String :=
  match v, type with
  | .foreign x _, type => x.literal? d type
  | v, .truth => (truthOf? v).map d.truth
  | v, .integer => (integerOf? v).map fun n => toString n
  | v, .number => some v.display
  | .str s, .text => some (singleQuoted (s.toList.flatMap d.copied))
  | .bytes bs, .bytes => (textOfBytes? bs).map fun s => singleQuoted s.toList
  | _, _ => none

/-- The literal of a value at a type. -/
def literal (d : Dialect) (type : LiteralType) (v : Value) : Except Fault String :=
  match v with
  | .null => .ok "NULL"
  | v => match literalAt d type v with
    | some s => .ok (d.escaped s)
    | none => .error .noLiteral

/-- The literal of a value at its own type. -/
def valueLiteral (d : Dialect) (v : Value) : Except Fault String := literal d (typeOf v) v

/-- The literals of the members of a list, at the type of the first one. -/
def memberLiterals (d : Dialect) : List Value → Except Fault (List String)
  | [] => .ok []
  | .list _ :: _ => .error .noListLiteral
  | v :: vs => (v :: vs).mapM (literal d (typeOf v))

end NestedJoin.Sql
