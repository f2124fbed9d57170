import ToolCatalog.Number.Binary64

/-!
# The shortest decimal that reads back

A finite number is written with the fewest significant digits that still round to it, and of
those decimals with the nearest one.  On each decimal grid only the two grid points next to the
number can be the answer, so `shortestDecimal` tests those two on coarser grids first.
-/

namespace ToolCatalog.Binary64

/-- Multiply a fraction by a power of ten, as a pair of numerator and denominator. -/
def scaleDecimal (n d : Nat) (power : Int) : Nat × Nat :=
  if 0 ≤ power then (n * Nat.pow 10 power.toNat, d) else (n, d * Nat.pow 10 (-power).toNat)

/-- The exponent of the largest power of ten that is at most `n / d`, found from below: `guess`
is not above it, and `fuel` bounds how far below it is. -/
def floorLog10From (n d : Nat) : Nat → Int → Int
  | 0, guess => guess
  | fuel + 1, guess =>
    let (n', d') := scaleDecimal n d (-(guess + 1))
    if d' ≤ n' then floorLog10From n d fuel (guess + 1) else guess

def floorLog10 (n d : Nat) : Int :=
  floorLog10From n d 4 ((floorLog2 n d * 30103) / 100000 - 2)

/-- The decimals that round to a number: an interval with a common denominator for its lower end,
its centre and its upper end.  The ends belong to it when the significand is even. -/
structure RoundingInterval where
  lower : Nat
  centre : Nat
  upper : Nat
  denominator : Nat
  closed : Bool

/-- The rounding interval of a positive finite number.  The gap below a power of two is half as
wide as the gap above it, except at the subnormal end. -/
def roundingInterval (x : Binary64) : RoundingInterval :=
  let m := x.significand
  let lowerGap := if x.fraction = 0 ∧ 1 < x.exponentField then 1 else 2
  let (unit, d) := scaleFraction 1 1 (x.scale - 2)
  { lower := (4 * m - lowerGap) * unit
    centre := 4 * m * unit
    upper := (4 * m + 2) * unit
    denominator := d
    closed := m % 2 = 0 }

/-- Whether the grid point `digits * 10 ^ exponent` lies in the interval. -/
def RoundingInterval.holds (i : RoundingInterval) (digits : Nat) (exponent : Int) : Bool :=
  let (n, d) := scaleDecimal digits 1 exponent
  let point := n * i.denominator
  if i.closed then i.lower * d ≤ point && point ≤ i.upper * d
  else i.lower * d < point && point < i.upper * d

/-- The nearest grid point of the grid `10 ^ exponent` that lies in the interval, if there is
one.  Of two equally near points the even one is taken. -/
def RoundingInterval.onGrid? (i : RoundingInterval) (exponent : Int) : Option Nat :=
  let (n, d) := scaleDecimal i.centre i.denominator (-exponent)
  let below := n / d
  match i.holds below exponent, i.holds (below + 1) exponent with
  | true, true => some (divideToEven n d)
  | true, false => some below
  | false, true => some (below + 1)
  | false, false => none

/-- Try the grids from `exponent` down, each ten times finer than the one before. -/
def RoundingInterval.firstOnGrid (i : RoundingInterval) : Nat → Int → Nat × Int
  | 0, exponent => (i.centre / i.denominator, exponent)
  | fuel + 1, exponent =>
    match i.onGrid? exponent with
    | some digits => (digits, exponent)
    | none => i.firstOnGrid fuel (exponent - 1)

/-- Drop trailing zeros of the digits into the exponent. -/
def dropTrailingZeros : Nat → Nat → Int → Nat × Int
  | 0, digits, exponent => (digits, exponent)
  | fuel + 1, digits, exponent =>
    if digits % 10 = 0 ∧ digits ≠ 0 then dropTrailingZeros fuel (digits / 10) (exponent + 1)
    else (digits, exponent)

/-- **The shortest decimal** `digits * 10 ^ exponent` that rounds to the magnitude of a finite
number.  Seventeen digits always suffice. -/
def shortestDecimal (x : Binary64) : Nat × Int :=
  if x.isNonzero then
    let i := x.roundingInterval
    let (digits, exponent) := i.firstOnGrid 18 (floorLog10 i.centre i.denominator)
    dropTrailingZeros 18 digits exponent
  else (0, 0)

end ToolCatalog.Binary64
