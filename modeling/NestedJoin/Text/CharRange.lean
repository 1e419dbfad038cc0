set_option autoImplicit false

/-!
# Character classes as lists of ranges

A class of characters is given by the closed ranges of code points that belong to it.
-/

namespace NestedJoin.Text

/-- A class of characters: the closed ranges of its code points. -/
abbrev CharRanges : Type := List (Nat × Nat)

namespace CharRanges

/-- Whether a character lies in one of the ranges. -/
def holds (rs : CharRanges) (c : Char) : Bool :=
  rs.any fun r => r.1 ≤ c.toNat && c.toNat ≤ r.2

/-- A character is in the class exactly when some range of it spans the character. -/
theorem holds_iff (rs : CharRanges) (c : Char) :
    rs.holds c = true ↔ ∃ r ∈ rs, r.1 ≤ c.toNat ∧ c.toNat ≤ r.2 := by
  simp [holds, List.any_eq_true]

end CharRanges

end NestedJoin.Text
