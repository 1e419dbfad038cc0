import NestedJoin.Text.CharRange
set_option autoImplicit false

/-!
# Blank characters

White space in the wide sense: the ASCII blanks and control separators, the next-line
control, and every space and line or paragraph separator of Unicode.
-/

namespace NestedJoin.Text

/-- The blanks, as ranges of code points. -/
def blankRanges : CharRanges :=
  [(0x9, 0xd), (0x1c, 0x20), (0x85, 0x85), (0xa0, 0xa0), (0x1680, 0x1680), (0x2000, 0x200a),
   (0x2028, 0x2029), (0x202f, 0x202f), (0x205f, 0x205f), (0x3000, 0x3000)]

/-- Whether a character is white space. -/
def isBlank (c : Char) : Bool := blankRanges.holds c

/-- The text without the blanks at its start. -/
def dropBlanks (cs : List Char) : List Char := cs.dropWhile isBlank

/-- The text without the characters of a class at both ends. -/
def trim (isOuter : Char → Bool) (cs : List Char) : List Char :=
  ((cs.dropWhile isOuter).reverse.dropWhile isOuter).reverse

/-- The text without the blanks at both ends. -/
def strip (cs : List Char) : List Char := trim isBlank cs

/-- A text without its leading blanks does not start with one. -/
theorem isBlank_head_dropBlanks {cs r : List Char} {c : Char} (h : dropBlanks cs = c :: r) :
    isBlank c = false := by
  induction cs with
  | nil => simp [dropBlanks] at h
  | cons d ds ih =>
    by_cases hd : isBlank d = true
    · exact ih (by simpa [dropBlanks, List.dropWhile_cons, hd] using h)
    · simp only [dropBlanks, List.dropWhile_cons, hd, if_neg, Bool.false_eq_true,
        not_false_eq_true] at h
      obtain ⟨rfl, _⟩ := List.cons.inj h
      simpa using hd

end NestedJoin.Text
