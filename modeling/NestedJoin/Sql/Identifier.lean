import NestedJoin.Sql.Dialect
import NestedJoin.Text.Word
set_option autoImplicit false

/-!
# Identifiers

A name stands in a statement as it is if it consists of lower-case letters, digits,
underscores and dollar signs, starts with neither a digit nor a dollar sign, and is no
reserved word of the dialect.  Any other name stands in double quotes, with double quotes inside
doubled, and the characters that the dialect writes twice.

The lower-case letters here are those of ASCII, the long s and the dotless i: the last two
are what a case-insensitive test against the ASCII letters also admits.  Such a test looks
at one line, so a line break at the very end goes unnoticed.

Main statement: `identifier_of_not_needsQuotes`, a plain name is written as itself.
-/

namespace NestedJoin.Sql

/-- Whether a character may stand in an unquoted name. -/
def isPlainChar (c : Char) : Bool :=
  c.isLower || c.isDigit || c == '_' || c == '$' || c.toNat == 0x131 || c.toNat == 0x17f

/-- The characters of a name without one line break at its end. -/
def dropFinalBreak (cs : List Char) : List Char :=
  if cs.getLast? = some '\n' then cs.dropLast else cs

/-- Whether a name has to be quoted. -/
def needsQuotes (d : Dialect) (name : String) : Bool :=
  let cs := name.toList
  let body := dropFinalBreak cs
  d.reservedWords.contains name || body.isEmpty || !body.all isPlainChar ||
    body.head?.any fun c => c.isDigit || c == '$'

/-- The written form of a name. -/
def identifier (d : Dialect) (name : String) : String :=
  if needsQuotes d name then
    let cs := name.toList.flatMap d.copied
    String.ofList ('\x22' :: (cs.flatMap fun c => if c = '\x22' then [c, c] else [c]) ++ ['\x22'])
  else name

/-- A plain name is written as itself. -/
theorem identifier_of_not_needsQuotes {d : Dialect} {name : String}
    (h : needsQuotes d name = false) : identifier d name = name := by
  simp [identifier, h]

end NestedJoin.Sql
