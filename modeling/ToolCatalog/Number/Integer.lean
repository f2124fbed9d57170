import ToolCatalog.Text.Blank
import ToolCatalog.Text.Digit

/-!
# Integer numerals

A numeral may be surrounded by white space, may have a sign, may have single underscores between
digits, and may use the decimal digits of any script.  In bases two, eight and sixteen the usual
two-character mark of the base may stand before the digits.
-/

namespace ToolCatalog.Numeral

/-- The digits of a numeral in a base, with single underscores allowed between two of them. -/
def digits? (base : Nat) : List Char → Option (List Nat)
  | [] => none
  | [c] => (digit c).map ([·])
  | c :: '_' :: rest => do
    let d ← digit c
    let ds ← digits? base rest
    return d :: ds
  | c :: rest => do
    let d ← digit c
    let ds ← digits? base rest
    return d :: ds
where
  digit (c : Char) : Option Nat := (Text.alphanumericValue? c).filter (· < base)

/-- The number with the given digits, most significant first. -/
def ofDigits (base : Nat) (ds : List Nat) : Nat := ds.foldl (fun n d => base * n + d) 0

/-- The letter that marks a base, after a zero. -/
def baseMark? : Nat → Option Char
  | 2 => some 'b'
  | 8 => some 'o'
  | 16 => some 'x'
  | _ => none

/-- Drop the mark of a base, and one underscore after it. -/
def dropBaseMark (base : Nat) : List Char → List Char
  | '0' :: c :: rest =>
    if (baseMark? base).any (· == c.toLower) then
      match rest with
      | '_' :: rest' => rest'
      | _ => rest
    else '0' :: c :: rest
  | cs => cs

/-- Split a sign off a numeral; the flag is set for a minus. -/
def splitSign : List Char → Bool × List Char
  | '-' :: rest => (true, rest)
  | '+' :: rest => (false, rest)
  | cs => (false, cs)

/-- The most digits a decimal numeral may have. -/
def maxDecimalDigits : Nat := 4300

/-- Whether a number has no more decimal digits than a numeral may have. -/
def isModerate (n : Nat) : Bool := n < Nat.pow 10 maxDecimalDigits

/-- Read an integer in a base.  Decimal numerals of immoderate length are refused. -/
def integer? (base : Nat) (cs : List Char) : Option Int := do
  let (isNegative, body) := splitSign (Text.trimBoth Text.isNumeralBlank cs)
  let ds ← digits? base (dropBaseMark base body)
  if base = 10 ∧ maxDecimalDigits < ds.length then none
  else
    let n := ofDigits base ds
    return if isNegative then -(n : Int) else n

end ToolCatalog.Numeral
