import NestedJoin.Text.Word
import NestedJoin.Value
set_option autoImplicit false

/-!
# Placeholders in raw text

A raw condition may hold placeholders: a colon and a name.  Two readings of a text meet
here.  The *names* of a text are found with a colon that follows neither a colon, a word
character nor a backslash, and a run of word characters that is not itself followed by a
colon; a run that is gives up its last character.  When the text is printed, only a whole
run of word characters and dollar signs counts, between characters that are neither a
colon nor part of a run; if it is one of the names, it is a *placeholder*.  A backslash
escapes a colon and is dropped.  Other characters are copied as the dialect wants them.

Main statement: `mem_names_of_placeholder`, every placeholder is one of the names.
-/

namespace NestedJoin.Sql

open NestedJoin.Text

/-! ## Characters around a placeholder -/

/-- Whether a character may be part of a run. -/
def isRunChar (c : Char) : Bool := isWord c || c == '$'

/-- Whether a colon may start a name after a character; the start of a text counts as a blank. -/
def opensName (before : Char) : Bool := !(before == ':' || isWord before || before == '\\')

/-- Whether a colon may start a run after a character. -/
def opensRun (before : Char) : Bool := opensName before && before != '$'

/-- What counts as the character before the start of a text. -/
def textStart : Char := ' '

/-! ## The names of a text -/

/-- The name after a colon: the run of word characters, less its last one before a colon. -/
def nameAfter (rest : List Char) : List Char :=
  let run := rest.takeWhile isWord
  if (rest.dropWhile isWord).head? = some ':' then run.dropLast else run

/-- The names of a text, from left to right; `before` is the character in front of it. -/
def namesFrom (before : Char) : List Char → List (List Char)
  | [] => []
  | c :: rest =>
    let name := nameAfter rest
    if c = ':' ∧ opensName before = true ∧ name ≠ [] then name :: namesFrom c rest
    else namesFrom c rest

/-- The names of a text, from left to right. -/
def names (cs : List Char) : List (List Char) := namesFrom textStart cs

/-! ## The placeholders of a text -/

/-- The run after a colon, if it is one of the known names and no colon follows it. -/
def runAfter? (known : List (List Char)) (rest : List Char) : Option (List Char) :=
  let run := rest.takeWhile isRunChar
  if run ≠ [] ∧ (rest.dropWhile isRunChar).head? ≠ some ':' ∧ known.contains run then some run
  else none

/-- The placeholders of a text, from left to right, among known names. -/
def placeholdersFrom (known : List (List Char)) (before : Char) : List Char → List (List Char)
  | [] => []
  | c :: rest =>
    if c = ':' ∧ opensRun before = true then
      match runAfter? known rest with
      | some run => run :: placeholdersFrom known c rest
      | none => placeholdersFrom known c rest
    else placeholdersFrom known c rest

/-- The placeholders of a text, from left to right. -/
def placeholders (cs : List Char) : List (List Char) := placeholdersFrom (names cs) textStart cs

theorem mem_of_placeholdersFrom {known : List (List Char)} {before : Char} {cs : List Char}
    {run : List Char} (h : run ∈ placeholdersFrom known before cs) : run ∈ known := by
  induction cs generalizing before with
  | nil => simp [placeholdersFrom] at h
  | cons c rest ih =>
    simp only [placeholdersFrom] at h
    split at h
    · split at h
      · next r hr =>
        rcases List.mem_cons.1 h with rfl | h
        · simp only [runAfter?] at hr
          split at hr
          · next hk =>
            obtain rfl := Option.some.inj hr
            simpa using hk.2.2
          · cases hr
        · exact ih h
      · exact ih h
    · exact ih h

/-- Every placeholder of a text is one of its names. -/
theorem mem_names_of_placeholder {cs run : List Char} (h : run ∈ placeholders cs) :
    run ∈ names cs :=
  mem_of_placeholdersFrom h

/-! ## Printing -/

/-- The text with every placeholder replaced and every other character copied.  The counter says
how many characters of a replaced run are still to be passed over. -/
def replaceFrom (d : Dialect) (known : List (List Char)) (f : List Char → List Char)
    (before : Char) : Nat → List Char → List Char
  | _, [] => []
  | skip + 1, c :: rest => replaceFrom d known f c skip rest
  | 0, c :: rest =>
    if c = ':' ∧ opensRun before = true then
      match runAfter? known rest with
      | some run => f run ++ replaceFrom d known f c run.length rest
      | none => d.copied c ++ replaceFrom d known f c 0 rest
    else d.copied c ++ replaceFrom d known f c 0 rest

/-- The text without the backslashes that escape a colon.  A run after the colon that is
followed by another colon keeps the backslash. -/
def unescape : List Char → List Char
  | [] => []
  | c :: rest =>
    match c, rest with
    | '\\', ':' :: after =>
      if (after.dropWhile isRunChar).head? = some ':' then c :: unescape rest else unescape rest
    | _, _ => c :: unescape rest

/-- A raw text printed with its placeholders replaced. -/
def printRaw (d : Dialect) (f : List Char → List Char) (cs : List Char) : List Char :=
  unescape (replaceFrom d (names cs) f textStart 0 cs)

/-! ## Bound texts -/

/-- A raw text with values for some of its names. -/
structure BoundText where
  text : String
  values : List (String × Value)
  deriving Repr, Inhabited

namespace BoundText

/-- A raw text without values. -/
def plain (text : String) : BoundText := ⟨text, []⟩

/-- The names of a raw text without repetition. -/
def nameList (text : String) : List String := ((names text.toList).map String.ofList).eraseDups

/-- A raw text with the values that some parameters have for its names. -/
def bind (params : OrderedMap String Value) (text : String) : BoundText :=
  ⟨text, (nameList text).filterMap fun n => (params.get? n).map fun v => (n, v)⟩

/-- The placeholders that the printed text holds. -/
def placeholders (t : BoundText) : List String :=
  (Sql.placeholders t.text.toList).map String.ofList

/-- The printed text, with `f` printing a placeholder from its name and its value, if it has one. -/
def print (d : Dialect) (f : String → Option Value → String) (t : BoundText) : String :=
  String.ofList <| printRaw d
    (fun run => (f (String.ofList run) (t.values.lookup (String.ofList run))).toList) t.text.toList

end BoundText

end NestedJoin.Sql
