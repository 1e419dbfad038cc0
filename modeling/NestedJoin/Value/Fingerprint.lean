import NestedJoin.Value
set_option autoImplicit false

/-!
# Fingerprints

A fingerprint is what a hash keeps of a scalar.  Equal scalars have equal fingerprints, but
not the other way round: a number counts only modulo a prime, and a text and a byte string
count only as the bytes they are stored in.  A text is stored in one, two or four bytes a
character, as few as all its characters fit in.

A hash of several things does not see their order, and two things with one fingerprint
cancel out in it.

Main statements: `fingerprint?_of_same`, `residue_shiftLeft`, the residue is that of the
quotient, and `agree_of_perm`, the order does not count.
-/

namespace NestedJoin

/-- What a hash keeps of a scalar. -/
inductive Fingerprint where
  | null
  | number (residue : Int)
  | content (bytes : List UInt8)
  | undefined (mark : Nat)
  | thing (number : Nat)
  deriving DecidableEq, Repr, Inhabited

namespace Fingerprint

/-! ## Numbers -/

/-- The prime that numbers are taken modulo. -/
def modulus : Nat := 1 <<< 61 - 1

/-- The residue of `n` / 2 ^ `k`.  The 61st power of two is one modulo the prime, so that
dividing by a power of two is multiplying by another. -/
def residue (n k : Nat) : Nat := n <<< (61 - k % 61) % modulus

theorem shiftLeft_mod_modulus (n q : Nat) : n <<< (61 * q) % modulus = n % modulus := by
  induction q with
  | zero => rfl
  | succ q ih =>
    rw [Nat.mul_succ, Nat.shiftLeft_add, ← ih]
    generalize n <<< (61 * q) = m
    simp only [Nat.shiftLeft_eq, modulus, Nat.reducePow, Nat.reduceMul, Nat.reduceSub]
    omega

/-- The residue is that of the quotient. -/
theorem residue_shiftLeft (n k : Nat) : residue n k <<< k % modulus = n % modulus := by
  have hk : 61 - k % 61 + k = 61 * (k / 61 + 1) := by omega
  rw [residue, Nat.shiftLeft_eq, Nat.mod_mul_mod, ← Nat.shiftLeft_eq, ← Nat.shiftLeft_add, hk,
    shiftLeft_mod_modulus]

/-- The fingerprint of ± `magnitude`; minus one is no fingerprint and makes way. -/
def ofResidue (negative : Bool) (magnitude : Nat) : Fingerprint :=
  let r : Int := if negative then -magnitude else magnitude
  .number (if r = -1 then -2 else r)

/-- The fingerprint of an infinite number. -/
def ofInfinite (negative : Bool) : Fingerprint := ofResidue negative 314159

/-! ## Texts and byte strings -/

/-- The fingerprint of stored bytes; no bytes count as the number zero. -/
def ofBytes : List UInt8 → Fingerprint
  | [] => ofResidue false 0
  | bs => .content bs

/-- The last `width` bytes of a number, least significant first. -/
def littleEndian : Nat → Nat → List UInt8
  | 0, _ => []
  | width + 1, n => UInt8.ofNat n :: littleEndian width (n / 256)

/-- How many bytes each character of a text is stored in. -/
def storedWidth (cs : List Char) : Nat :=
  if cs.all (·.toNat < 0x100) then 1 else if cs.all (·.toNat < 0x10000) then 2 else 4

/-- The bytes that a text is stored in. -/
def storedBytes (s : String) : List UInt8 :=
  s.toList.flatMap fun c => littleEndian (storedWidth s.toList) c.toNat

/-! ## Several things -/

/-- Whether two lists have one hash: there are equally many things in them, and each occurs
an even number of times in the two together. -/
def agree {α : Type} [DecidableEq α] (xs ys : List α) : Bool :=
  xs.length == ys.length && (xs ++ ys).all fun x => (xs ++ ys).count x % 2 == 0

/-- The order does not count. -/
theorem agree_of_perm {α : Type} [DecidableEq α] {xs ys : List α} (h : xs.Perm ys) :
    agree xs ys = true := by
  simp only [agree, h.length_eq, beq_self_eq_true, Bool.true_and, List.all_eq_true, beq_iff_eq]
  intro x _
  rw [List.count_append, h.count_eq]
  omega

end Fingerprint

/-- The fingerprint of what a scalar denotes. -/
def Atom.fingerprint : Atom → Fingerprint
  | .null => .null
  | .number n k => .ofResidue (n < 0) (Fingerprint.residue n.natAbs k)
  | .infinite negative => .ofInfinite negative
  | .undefined mark => .undefined mark
  | .str s => .ofBytes (Fingerprint.storedBytes s)
  | .bytes bs => .ofBytes bs
  | .thing n => .thing n

namespace Value

/-- The fingerprint of a scalar; other values have none. -/
def fingerprint? (v : Value) : Option Fingerprint := v.atom?.map Atom.fingerprint

/-- Equal scalars have equal fingerprints. -/
theorem fingerprint?_of_same {v w : Value} (hv : v.isScalar = true) (hw : w.isScalar = true)
    (h : v.same w = true) : w.fingerprint? = v.fingerprint? := by
  rw [fingerprint?, fingerprint?, atom?_eq_of_same h hv hw]

/-- The fingerprints of pairs of scalars. -/
def pairFingerprints? (es : List (Value × Value)) : Option (List (Fingerprint × Fingerprint)) :=
  es.mapM fun e => do return (← e.1.fingerprint?, ← e.2.fingerprint?)

end Value

end NestedJoin
