import ToolCatalog.Number.Shortest

/-!
# The written form of a floating point number

`Layout` holds the decisions a format makes about a number whose digits are known: which
exponents are written positionally, whether a whole number keeps its point, how wide an exponent
is.  `Binary64.write` puts the shortest digits into a layout.
-/

namespace ToolCatalog

/-- How the digits of a floating point number are laid out. -/
structure Layout where
  /-- The least power of ten of the leading digit that is written positionally. -/
  positionalFrom : Int
  /-- The first power of ten of the leading digit that is no longer written positionally. -/
  positionalBelow : Int
  /-- The fraction written after a whole number in positional form. -/
  wholeFraction : String
  /-- The least number of digits of an exponent, which always has a sign. -/
  exponentWidth : Nat
  notANumber : String
  infinite : String

/-- Numbers of documents and tools: positional from 0.0001 up to below 10^16, a whole number
keeps `.0`, and an exponent has a sign and at least two digits. -/
def Layout.document : Layout where
  positionalFrom := -4
  positionalBelow := 16
  wholeFraction := ".0"
  exponentWidth := 2
  notANumber := "nan"
  infinite := "inf"

/-- Lay out `digits * 10 ^ exponent`. -/
def Layout.decimal (l : Layout) (digits : Nat) (exponent : Int) : String :=
  let ds := Nat.toDigits 10 digits
  let leading : Int := exponent + ds.length - 1
  if leading < l.positionalFrom ∨ l.positionalBelow ≤ leading then
    let tail := ds.drop 1
    let exponentDigits := Nat.toDigits 10 leading.natAbs
    let padding := List.replicate (l.exponentWidth - exponentDigits.length) '0'
    String.ofList (ds.take 1 ++ (if tail.isEmpty then [] else '.' :: tail)
      ++ ['e', if leading < 0 then '-' else '+'] ++ padding ++ exponentDigits)
  else if leading < 0 then
    String.ofList ('0' :: '.' :: (List.replicate (-leading - 1).toNat '0' ++ ds))
  else
    let whole := ds.take (leading.toNat + 1)
    let tail := ds.drop (leading.toNat + 1)
    let zeros := List.replicate (leading.toNat + 1 - ds.length) '0'
    if tail.isEmpty then String.ofList (whole ++ zeros) ++ l.wholeFraction
    else String.ofList (whole ++ '.' :: tail)

/-- The written form of a number in a layout. -/
def Binary64.write (l : Layout) (x : Binary64) : String :=
  if x.isNaN then l.notANumber
  else
    let magnitude :=
      if x.isFinite then
        let (digits, exponent) := x.shortestDecimal
        l.decimal digits exponent
      else l.infinite
    if x.negative then "-" ++ magnitude else magnitude

end ToolCatalog
