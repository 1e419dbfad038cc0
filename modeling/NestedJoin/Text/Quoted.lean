import NestedJoin.Text.Printable
set_option autoImplicit false

/-!
# Quoted texts

A text shown in messages stands in quotes.  Single quotes are used unless the text holds
a single quote and no double one.  Inside, the backslash and the chosen quote are
escaped, the three common controls have short names, and every other unprintable
character is written by its code point in lower-case hexadecimal, in the shortest of the
widths two, four and eight that holds it.

Main statement: `escapeChar_of_plain`, an ordinary printable character is written as
itself.
-/

namespace NestedJoin.Text

/-! ## Hexadecimal digits -/

/-- The lower-case hexadecimal digit of a number below sixteen. -/
def hexDigit (n : Nat) : Char := Nat.digitChar n

/-- The last `width` hexadecimal digits of a number, most significant first. -/
def hex : Nat → Nat → List Char
  | 0, _ => []
  | width + 1, n => hex width (n / 16) ++ [hexDigit (n % 16)]

/-! ## Choice of the quote -/

/-- The single quote. -/
def singleQuote : Char := '\x27'

/-- The double quote. -/
def doubleQuote : Char := '\x22'

/-- Double quotes only around a text with a single quote and without a double one. -/
def quoteFor (hasSingle hasDouble : Bool) : Char :=
  if hasSingle && !hasDouble then doubleQuote else singleQuote

/-! ## Texts -/

/-- The written form of one character between the given quotes. -/
def escapeChar (quote c : Char) : List Char :=
  if c = quote || c = '\\' then ['\\', c]
  else if c = '\n' then ['\\', 'n']
  else if c = '\r' then ['\\', 'r']
  else if c = '\t' then ['\\', 't']
  else if isPrintable c then [c]
  else if c.toNat < 0x100 then '\\' :: 'x' :: hex 2 c.toNat
  else if c.toNat < 0x10000 then '\\' :: 'u' :: hex 4 c.toNat
  else '\\' :: 'U' :: hex 8 c.toNat

/-- A printable character that is neither the quote nor a backslash is written as itself. -/
theorem escapeChar_of_plain {quote c : Char} (hp : isPrintable c = true) (hq : c ≠ quote)
    (hb : c ≠ '\\') : escapeChar quote c = [c] := by
  have hn : c ≠ '\n' := by rintro rfl; exact absurd hp (by decide)
  have hr : c ≠ '\r' := by rintro rfl; exact absurd hp (by decide)
  have ht : c ≠ '\t' := by rintro rfl; exact absurd hp (by decide)
  simp [escapeChar, hp, hq, hb, hn, hr, ht]

/-- The quoted form of a text. -/
def quoted (s : String) : String :=
  let cs := s.toList
  let q := quoteFor (cs.contains singleQuote) (cs.contains doubleQuote)
  String.ofList (q :: (cs.flatMap (escapeChar q) ++ [q]))

/-! ## Byte strings -/

/-- The written form of one byte between the given quotes: ASCII shows, the rest is hexadecimal. -/
def escapeByte (quote : Char) (b : UInt8) : List Char :=
  let c := Char.ofNat b.toNat
  if c = quote || c = '\\' then ['\\', c]
  else if c = '\n' then ['\\', 'n']
  else if c = '\r' then ['\\', 'r']
  else if c = '\t' then ['\\', 't']
  else if 0x20 ≤ b.toNat ∧ b.toNat < 0x7f then [c]
  else '\\' :: 'x' :: hex 2 b.toNat

/-- The quoted form of a byte string, marked by a leading letter. -/
def quotedBytes (bs : List UInt8) : String :=
  let q := quoteFor (bs.contains 0x27) (bs.contains 0x22)
  String.ofList ('b' :: q :: (bs.flatMap (escapeByte q) ++ [q]))

/-! ## Lists -/

/-- Written forms in square brackets. -/
def squareBrackets (items : List String) : String := "[" ++ ", ".intercalate items ++ "]"

/-- Written forms in round brackets; a single one is followed by a comma. -/
def roundBrackets : List String → String
  | [item] => "(" ++ item ++ ",)"
  | items => "(" ++ ", ".intercalate items ++ ")"

/-- A list of names in square brackets. -/
def quotedList (names : List String) : String := squareBrackets (names.map quoted)

/-- A list of names in round brackets. -/
def quotedTuple (names : List String) : String := roundBrackets (names.map quoted)

end NestedJoin.Text
