set_option autoImplicit false

/-!
# Binary floating-point numbers

A finite number is a signed product of a natural number and a power of two, so equality
of numbers is a matter of exact arithmetic.  Reading a decimal text rounds to the nearest
number with 53 significant bits, a tie going to the even one.

Main statement: `roundHalfEven_within`, rounding a quotient moves it by half a unit at
most.
-/

namespace NestedJoin.Decimal

/-- A floating-point number.  Two undefined results are one only if they have one mark. -/
inductive Binary64 where
  /-- the number ± `significand` · 2 ^ `exponent` -/
  | finite (negative : Bool) (significand : Nat) (exponent : Int)
  /-- an infinity -/
  | infinite (negative : Bool)
  /-- an undefined result -/
  | undefined (mark : Nat)
  deriving DecidableEq, Repr, Inhabited

/-! ## Rounding a quotient -/

/-- The natural number nearest to `n / d`; a half goes to the even neighbour. -/
def roundHalfEven (n d : Nat) : Nat :=
  let q := n / d
  let r := n % d
  if 2 * r < d then q
  else if d < 2 * r then q + 1
  else if q % 2 = 0 then q else q + 1

/-- Rounding moves a quotient by half a unit at most. -/
theorem roundHalfEven_within (n d : Nat) (hd : 0 < d) :
    2 * n ≤ 2 * (roundHalfEven n d * d) + d ∧ 2 * (roundHalfEven n d * d) ≤ 2 * n + d := by
  have h := Nat.div_add_mod n d
  have hr := Nat.mod_lt n hd
  have hc : d * (n / d) = n / d * d := Nat.mul_comm _ _
  have hs : (n / d + 1) * d = n / d * d + d := by rw [Nat.add_mul, Nat.one_mul]
  simp only [roundHalfEven]
  split
  · omega
  · split
    · omega
    · split <;> omega

namespace Binary64

/-! ## Reading -/

/-- The least exponent of a finite number. -/
def minExponent : Int := -1074

/-- The greatest exponent of a finite number. -/
def maxExponent : Int := 971

/-- The quotient `n / d` divided by a power of two, as numerator and denominator. -/
def scaleDown (n d : Nat) : Int → Nat × Nat
  | .ofNat e => (n, d <<< e)
  | .negSucc e => (n <<< (e + 1), d)

/-- The exponent that leaves the quotient `n / d` 53 bits before the point, or the least one. -/
def exponentFor (n d : Nat) : Int :=
  let e : Int := (Nat.log2 n : Int) - (Nat.log2 d : Int) - 53
  let (n', d') := scaleDown n d e
  max minExponent (if n' < d' <<< 53 then e else e + 1)

/-- The number nearest to ± `n / d`. -/
def ofQuotient (negative : Bool) (n d : Nat) : Binary64 :=
  if n = 0 then .finite negative 0 minExponent
  else
    let e := exponentFor n d
    let (n', d') := scaleDown n d e
    let m := roundHalfEven n' d'
    let (m, e) := if m = 1 <<< 53 then (1 <<< 52, e + 1) else (m, e)
    if maxExponent < e then .infinite negative else .finite negative m e

/-- The value of a text of decimal digits. -/
def digitsValue? (cs : List Char) : Option Nat :=
  if cs.isEmpty || cs.any (fun c => !c.isDigit) then none
  else some (cs.foldl (fun n c => 10 * n + (c.toNat - 48)) 0)

/-- A sign, if the text starts with one, and the rest. -/
def splitSign : List Char → Bool × List Char
  | '-' :: cs => (true, cs)
  | '+' :: cs => (false, cs)
  | cs => (false, cs)

/-- The value of a signed text of decimal digits; no text stands for zero. -/
def exponentValue? : List Char → Option Int
  | [] => some 0
  | _ :: cs =>
    let (negative, ds) := splitSign cs
    (digitsValue? ds).map fun n => if negative then -(n : Int) else n

/-- The number nearest to a decimal text: a sign, digits, a point and digits, an exponent. -/
def ofDecimal? (cs : List Char) : Option Binary64 := do
  let (negative, cs) := splitSign cs
  let isMark : Char → Bool := fun c => c == 'e' || c == 'E'
  let mantissa := cs.takeWhile (fun c => !isMark c)
  let exponent ← exponentValue? (cs.dropWhile (fun c => !isMark c))
  let whole := mantissa.takeWhile (· != '.')
  let fraction := (mantissa.dropWhile (· != '.')).drop 1
  let n ← digitsValue? (whole ++ fraction)
  match exponent - (fraction.length : Int) with
  | .ofNat k => some (ofQuotient negative (n * Nat.pow 10 k) 1)
  | .negSucc k => some (ofQuotient negative n (Nat.pow 10 (k + 1)))

/-- The number a text stands for; `mark` is used for an undefined result. -/
def ofText? (mark : Nat) (s : String) : Option Binary64 :=
  let (negative, cs) := splitSign s.toList
  if cs = ['i', 'n', 'f'] then some (.infinite negative)
  else if cs = ['n', 'a', 'n'] then some (.undefined mark)
  else ofDecimal? s.toList

/-! ## Exact values -/

/-- A natural number over a power of two in lowest terms: halves both while the number is even. -/
def lowestTerms : Nat → Nat → Nat × Nat
  | m, 0 => (m, 0)
  | m, k + 1 => if m % 2 = 0 then lowestTerms (m / 2) k else (m, k + 1)

/-- The magnitude `m` · 2 ^ `e` as a natural number over a power of two in lowest terms. -/
def magnitude (m : Nat) : Int → Nat × Nat
  | .ofNat e => (m <<< e, 0)
  | .negSucc e => lowestTerms m (e + 1)

/-- A number without its fraction, toward zero. -/
def truncate (negative : Bool) (m : Nat) (e : Int) : Int :=
  let (n, d) := scaleDown m 1 (-e)
  let q : Int := ((n / d : Nat) : Int)
  if negative then -q else q

end Binary64

end NestedJoin.Decimal
