import ToolCatalog.Number.Binary64
import ToolCatalog.Number.Integer

/-!
# Decimal numerals of floating point numbers

A numeral is split into its whole digits, its fraction and its exponent; the number is the nearest
one to the decimal these spell.
-/

namespace ToolCatalog

/-- The parts of an unsigned decimal numeral. -/
structure DecimalParts where
  whole : List Nat
  fraction : List Nat
  exponent : Int

namespace DecimalParts

/-- The nearest number to the spelled decimal, with a sign. -/
def toBinary64 (isNegative : Bool) (p : DecimalParts) : Binary64 :=
  .ofDecimal isNegative (Numeral.ofDigits 10 (p.whole ++ p.fraction))
    (p.exponent - p.fraction.length)

end DecimalParts

namespace Numeral

/-- The ASCII digits a text begins with, and the rest. -/
def spanDigits : List Char → List Nat × List Char
  | [] => ([], [])
  | c :: rest =>
    if '0' ≤ c ∧ c ≤ '9' then
      let (ds, rest') := spanDigits rest
      ((c.toNat - '0'.toNat) :: ds, rest')
    else ([], c :: rest)

/-- The exponent a text begins with: a letter `e` of either case, a sign or none, and digits. -/
def spanExponent? : List Char → Option (Int × List Char)
  | e :: rest =>
    if e = 'e' ∨ e = 'E' then
      let (isNegative, body) := splitSign rest
      match spanDigits body with
      | ([], _) => none
      | (ds, rest') =>
        let n := ofDigits 10 ds
        some (if isNegative then -(n : Int) else n, rest')
    else none
  | [] => none

/-- Drop single underscores between digits of any script and write the digits in ASCII; an
underscore elsewhere is refused. -/
def plainDigits? (afterDigit : Bool) : List Char → Option (List Char)
  | [] => some []
  | '_' :: c :: rest =>
    match afterDigit, Text.digitValue? c with
    | true, some d => (plainDigits? true rest).map (Nat.digitChar d :: ·)
    | _, _ => none
  | c :: rest =>
    match Text.digitValue? c with
    | some d => (plainDigits? true rest).map (Nat.digitChar d :: ·)
    | none => if c = '_' then none else (plainDigits? false rest).map (c :: ·)

/-- Read a decimal without a sign: digits with at most one point among or around them and an
optional exponent. -/
def decimal? (cs : List Char) : Option DecimalParts :=
  let (whole, rest) := spanDigits cs
  let (fraction, rest) := match rest with
    | '.' :: rest' => spanDigits rest'
    | _ => ([], rest)
  if whole.isEmpty ∧ fraction.isEmpty then none
  else match rest with
    | [] => some ⟨whole, fraction, 0⟩
    | _ =>
      match spanExponent? rest with
      | some (e, []) => some ⟨whole, fraction, e⟩
      | _ => none

/-- Read a floating point number, surrounded by white space or not, with a sign or without one; the
words for infinity and for not-a-number are read too. -/
def float? (cs : List Char) : Option Binary64 := do
  let (isNegative, body) := splitSign (Text.trimBoth Text.isNumeralBlank cs)
  let word := String.ofList (body.map Char.toLower)
  if word = "inf" ∨ word = "infinity" then return .infinity isNegative
  else if word = "nan" then return .nan
  else
    let parts ← decimal? (← plainDigits? false body)
    return parts.toBinary64 isNegative

end Numeral

end ToolCatalog
