import NestedJoin.Decimal.Binary64
set_option autoImplicit false

/-!
# Shortest decimal texts

A finite number is written with the fewest digits that read back as itself.  The reals
that round to a number form an interval around it; for one digit, two, and so on, the two
neighbours of the number on the grid of decimals of that many digits are tested, the
nearer first, and the first grid with a neighbour in the interval gives the digits.

Numbers whose first digit stands at a power of ten from `-4` to `15` are written with a
point, all others with an exponent of two digits or more.
-/

namespace NestedJoin.Decimal

/-! ## The interval of a number -/

/-- The reals that round to a number, around its value, all over one denominator. -/
structure Rounding where
  /-- numerator of the lower end -/
  low : Nat
  /-- numerator of the value -/
  value : Nat
  /-- numerator of the upper end -/
  high : Nat
  /-- common denominator -/
  scale : Nat
  /-- whether the ends belong to the interval -/
  closed : Bool
  deriving Repr

namespace Rounding

/-- The interval of `m` · 2 ^ `e`.  Below a power of two the neighbour is half as far away. -/
def ofBinary (m : Nat) (e : Int) : Rounding :=
  let narrow := m = 1 <<< 52 ∧ Binary64.minExponent < e
  let step : Nat × Nat := Binary64.scaleDown 1 1 (2 - e)
  ⟨(4 * m - if narrow then 1 else 2) * step.1, 4 * m * step.1, (4 * m + 2) * step.1, step.2,
    m % 2 == 0⟩

/-- Whether the quotient `n / d` lies in the interval. -/
def spans (r : Rounding) (n d : Nat) : Bool :=
  if r.closed then r.low * d ≤ n * r.scale && n * r.scale ≤ r.high * d
  else r.low * d < n * r.scale && n * r.scale < r.high * d

/-- The power of ten of a number's first digit, above one. -/
def firstDigitAbove (n : Nat) : Nat := (Nat.toDigits 10 n).length - 1

/-- The least `j`, from a given one on, with `1 ≤ 10 ^ j * n / d`. -/
def firstDigitBelow (n d : Nat) : Nat → Nat → Nat
  | 0, j => j
  | fuel + 1, j => if d ≤ n * Nat.pow 10 j then j else firstDigitBelow n d fuel (j + 1)

/-- The power of ten of the value's first digit. -/
def firstDigit (r : Rounding) : Int :=
  if r.scale ≤ r.value then (firstDigitAbove (r.value / r.scale) : Int)
  else -(firstDigitBelow r.value r.scale 400 1 : Int)

/-- The number of grid units nearest to the value among those in the interval, if any is. -/
def onGrid (r : Rounding) (power : Int) : Option Nat :=
  let unit : Nat × Nat :=
    match power with
    | .ofNat k => (Nat.pow 10 k, 1)
    | .negSucc k => (1, Nat.pow 10 (k + 1))
  let below := r.value * unit.2 / (r.scale * unit.1)
  let inside := fun t => r.spans (t * unit.1) unit.2
  let lowerGap := r.value * unit.2 - below * unit.1 * r.scale
  let upperGap := (below + 1) * unit.1 * r.scale - r.value * unit.2
  let nearer := if lowerGap < upperGap || (lowerGap == upperGap && below % 2 == 0) then below
    else below + 1
  let farther := if nearer = below then below + 1 else below
  if inside nearer then some nearer else if inside farther then some farther else none

/-- Digits and the power of ten of the last one, on the coarsest grid that hits the interval. -/
def search (r : Rounding) : Nat → Nat → Nat × Int
  | 0, _ => (r.value / r.scale, 0)
  | fuel + 1, digits =>
    let power := r.firstDigit - (digits : Int) + 1
    match r.onGrid power with
    | some t => (t, power)
    | none => r.search fuel (digits + 1)

end Rounding

/-! ## Layout of the text -/

/-- Where a decimal text turns from a point to an exponent, and how an exponent is padded. -/
structure Layout where
  /-- least power of ten of a first digit written with a point -/
  leastPlain : Int
  /-- least power of ten, above that, of a first digit written with an exponent -/
  leastScaled : Int
  /-- least number of digits of an exponent -/
  exponentDigits : Nat

/-- A point from `1e-4` up to below `1e16`, and exponents of two digits or more. -/
def layout : Layout := ⟨-4, 16, 2⟩

/-- Zeros at the end of the digits move into the power of ten. -/
def dropZeros : Nat → Nat → Int → Nat × Int
  | 0, t, power => (t, power)
  | fuel + 1, t, power =>
    if t ≠ 0 ∧ t % 10 = 0 then dropZeros fuel (t / 10) (power + 1) else (t, power)

/-- The exponent of a scaled text: a sign and its padded digits. -/
def exponentText (e : Int) : List Char :=
  let ds := Nat.toDigits 10 e.natAbs
  (if e < 0 then '-' else '+') :: (List.replicate (layout.exponentDigits - ds.length) '0' ++ ds)

/-- The text of digits whose first stands at a power of ten. -/
def digitsText (ds : List Char) (first : Int) : List Char :=
  if first < layout.leastPlain ∨ layout.leastScaled ≤ first then
    match ds with
    | [d] => d :: 'e' :: exponentText first
    | d :: r => d :: '.' :: (r ++ 'e' :: exponentText first)
    | [] => []
  else if first < 0 then
    '0' :: '.' :: (List.replicate (first.natAbs - 1) '0' ++ ds)
  else
    let whole := first.natAbs + 1
    if ds.length ≤ whole then ds ++ List.replicate (whole - ds.length) '0' ++ ['.', '0']
    else ds.take whole ++ '.' :: ds.drop whole

namespace Binary64

/-- The shortest text of a number that reads back as itself. -/
def text : Binary64 → String
  | .undefined _ => "nan"
  | .infinite negative => if negative then "-inf" else "inf"
  | .finite negative m e =>
    let sign := if negative then ['-'] else []
    if m = 0 then String.ofList (sign ++ ['0', '.', '0'])
    else
      let found := (Rounding.ofBinary m e).search 20 1
      let (t, power) := dropZeros 20 found.1 found.2
      let ds := Nat.toDigits 10 t
      String.ofList (sign ++ digitsText ds (power + (ds.length : Int) - 1))

end Binary64

end NestedJoin.Decimal
