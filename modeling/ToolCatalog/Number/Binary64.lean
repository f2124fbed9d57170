/-!
# Binary floating point of 64 bits

A floating point number is kept as its bit pattern, so two of them are told apart exactly: the
two zeros are different and a not-a-number is equal to itself.  The arithmetic here is exact
arithmetic on natural numbers followed by one rounding, `Binary64.nearest`, which takes the
closest number and, halfway between two, the one with the even significand.  Decimal numerals
and sums are read through that rounding.
-/

namespace ToolCatalog

/-- A 64-bit floating point number: one sign bit, eleven exponent bits, 52 fraction bits. -/
structure Binary64 where
  bits : UInt64
deriving DecidableEq, Inhabited

namespace Binary64

/-- The number with the given sign and the given low 63 bits. -/
def ofMagnitude (negative : Bool) (magnitude : Nat) : Binary64 :=
  ⟨UInt64.ofNat (magnitude + if negative then Nat.pow 2 63 else 0)⟩

/-- The infinity of the given sign: all exponent bits set and no fraction. -/
def infinity (negative : Bool) : Binary64 :=
  ofMagnitude negative (2047 * Nat.pow 2 52)

/-- The positive zero. -/
def zero : Binary64 := ⟨0⟩

/-- The quiet not-a-number with a payload, which tells it from others and has no other meaning. -/
def nanWith (payload : Nat) : Binary64 :=
  ofMagnitude false (2047 * Nat.pow 2 52 + Nat.pow 2 51 + payload)

/-- The quiet not-a-number without a payload. -/
def nan : Binary64 := nanWith 0

def negative (x : Binary64) : Bool := decide (Nat.pow 2 63 ≤ x.bits.toNat)

/-- The biased exponent field. -/
def exponentField (x : Binary64) : Nat := x.bits.toNat / Nat.pow 2 52 % Nat.pow 2 11

def fraction (x : Binary64) : Nat := x.bits.toNat % Nat.pow 2 52

def isFinite (x : Binary64) : Bool := x.exponentField != 2047

def isNaN (x : Binary64) : Bool := x.exponentField == 2047 && x.fraction != 0

/-- The integral significand of a finite number; the hidden bit is set unless it is subnormal. -/
def significand (x : Binary64) : Nat :=
  if x.exponentField = 0 then x.fraction else x.fraction + Nat.pow 2 52

/-- The power of two that scales the integral significand of a finite number. -/
def scale (x : Binary64) : Int :=
  (max x.exponentField 1 : Nat) - (1075 : Int)

/-- Neither of the two zeros. -/
def isNonzero (x : Binary64) : Bool := x.bits.toNat % Nat.pow 2 63 != 0

/-- The same number with the other sign. -/
def negate (x : Binary64) : Binary64 :=
  ofMagnitude (!x.negative) (x.bits.toNat % Nat.pow 2 63)

/-- Multiply a fraction `n / d` by a power of two, as a pair of numerator and denominator. -/
def scaleFraction (n d : Nat) (power : Int) : Nat × Nat :=
  if 0 ≤ power then (n * Nat.pow 2 power.toNat, d) else (n, d * Nat.pow 2 (-power).toNat)

/-- The quotient rounded to the nearest natural number; a half goes to the even neighbour. -/
def divideToEven (n d : Nat) : Nat :=
  let quotient := n / d
  let twice := 2 * (n % d)
  if twice < d then quotient
  else if d < twice then quotient + 1
  else if quotient % 2 = 0 then quotient else quotient + 1

/-- The exponent of the largest power of two that is at most `n / d`. -/
def floorLog2 (n d : Nat) : Int :=
  let guess : Int := (n.log2 : Int) - d.log2
  let (n', d') := scaleFraction n d (-guess)
  if n' < d' then guess - 1 else guess

/-- **The nearest number** to the fraction `n / d` with the given sign: a tie goes to the even
significand, and a magnitude beyond the largest finite number gives an infinity. -/
def nearest (isNegative : Bool) (n d : Nat) : Binary64 :=
  if n = 0 then ofMagnitude isNegative 0
  else
    let power := max (floorLog2 n d - 52) (-1074)
    let (n', d') := scaleFraction n d (-power)
    let rounded := divideToEven n' d'
    -- A carry out of the significand runs into the exponent field, which is what it should do.
    let magnitude := rounded + Nat.pow 2 52 * (power + 1074).toNat
    if 2047 * Nat.pow 2 52 ≤ magnitude then infinity isNegative
    else ofMagnitude isNegative magnitude

/-- The number nearest to `digits * 10 ^ exponent`.  Exponents far outside the range are settled
by the number of digits alone, so that no huge power is computed. -/
def ofDecimal (isNegative : Bool) (digits : Nat) (exponent : Int) : Binary64 :=
  let leading : Int := exponent + (Nat.toDigits 10 digits).length
  if digits = 0 then ofMagnitude isNegative 0
  else if 400 < leading then infinity isNegative
  else if leading < -400 then ofMagnitude isNegative 0
  else if 0 ≤ exponent then nearest isNegative (digits * Nat.pow 10 exponent.toNat) 1
  else nearest isNegative digits (Nat.pow 10 (-exponent).toNat)

/-- The number nearest to an integer. -/
def ofInt (i : Int) : Binary64 := nearest (i < 0) i.natAbs 1

/-- The exact value of a finite number as a signed numerator over a power of two. -/
def toFraction (x : Binary64) : Int × Nat :=
  let (n, d) := scaleFraction x.significand 1 x.scale
  (if x.negative then -(n : Int) else n, d)

/-- The sum of two numbers, rounded once.  Infinities of different signs have none, and a sum of
zero is negative only if both numbers are. -/
def add (x y : Binary64) : Binary64 :=
  if x.isNaN || y.isNaN then nan
  else if !x.isFinite then
    if !y.isFinite && x.negative != y.negative then nan else x
  else if !y.isFinite then y
  else
    let (n, d) := x.toFraction
    let (n', d') := y.toFraction
    let sum := n * d' + n' * d
    nearest (if sum = 0 then x.negative && y.negative else sum < 0) sum.natAbs (d * d')

/-- The product of two numbers, rounded once.  Zero and an infinity have none. -/
def multiply (x y : Binary64) : Binary64 :=
  let isNegative := x.negative != y.negative
  if x.isNaN || y.isNaN then nan
  else if !x.isFinite || !y.isFinite then
    if x.isNonzero && y.isNonzero then infinity isNegative else nan
  else
    let (n, d) := x.toFraction
    let (n', d') := y.toFraction
    nearest isNegative (n * n').natAbs (d * d')

/-- The order of two numbers by value; a not-a-number is below nothing. -/
def less (x y : Binary64) : Bool :=
  if x.isNaN || y.isNaN then false
  else if !x.isFinite then x.negative && x != y
  else if !y.isFinite then !y.negative
  else
    let (n, d) := x.toFraction
    let (n', d') := y.toFraction
    decide (n * d' < n' * d)

end Binary64

end ToolCatalog
