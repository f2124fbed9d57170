/-!
# Base 64

Four characters of the alphabet carry three bytes.  Characters outside the alphabet are passed over;
an incomplete group at the end is filled up with equals signs.
-/

namespace ToolCatalog.Yaml.Base64

/-- The six bits a character of the alphabet carries. -/
def bits? (c : Char) : Option Nat :=
  if 'A' ≤ c ∧ c ≤ 'Z' then some (c.toNat - 'A'.toNat)
  else if 'a' ≤ c ∧ c ≤ 'z' then some (c.toNat - 'a'.toNat + 26)
  else if '0' ≤ c ∧ c ≤ '9' then some (c.toNat - '0'.toNat + 52)
  else if c = '+' then some 62
  else if c = '/' then some 63
  else none

/-- Decode, knowing how many characters of the current group have come, the bits that are left of
them, and how many fillers. -/
def decodeFrom : Nat → Nat → Nat → List Char → Option (List UInt8)
  | place, _, _, [] => if place = 0 then some [] else none
  | place, left, fillers, c :: rest =>
    if c = '=' then
      if 2 ≤ place ∧ 4 ≤ place + fillers + 1 then some []
      else decodeFrom place left (if 2 ≤ place then fillers + 1 else fillers) rest
    else match bits? c with
      | none => decodeFrom place left fillers rest
      | some b =>
        match place with
        | 0 => decodeFrom 1 b 0 rest
        | 1 => (decodeFrom 2 (b % 16) 0 rest).map (UInt8.ofNat (left * 4 + b / 16) :: ·)
        | 2 => (decodeFrom 3 (b % 4) 0 rest).map (UInt8.ofNat (left * 16 + b / 4) :: ·)
        | _ => (decodeFrom 0 0 0 rest).map (UInt8.ofNat (left * 64 + b) :: ·)

/-- The bytes a text carries; nothing if its last group is incomplete. -/
def decode? (cs : List Char) : Option (List UInt8) := decodeFrom 0 0 0 cs

end ToolCatalog.Yaml.Base64
