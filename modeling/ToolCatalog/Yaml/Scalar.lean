import ToolCatalog.Number.Decimal
import ToolCatalog.Value.Basic
import ToolCatalog.Yaml.Base64
import ToolCatalog.Yaml.Cursor
import ToolCatalog.Yaml.Tag

/-!
# The values of scalars

Each scalar type reads the text of a scalar in its own way.  A type that was found by the form of
the text nearly always has a value; one that a tag asks for need not.
-/

namespace ToolCatalog.Yaml

namespace Tag

/-- A number, or the failure that its text has none. -/
def orImpossible {α : Type} (a : Option α) : Except Failure α :=
  match a with
  | some a => .ok a
  | none => .error .impossible

/-- The truth value of a word. -/
def boolOf (s : String) : Except Failure Bool :=
  let word := s.map Char.toLower
  if ["yes", "true", "on"].contains word then .ok true
  else if ["no", "false", "off"].contains word then .ok false
  else .error .unlistedWord

/-- The sign of a number and the rest of its text. -/
def signOf (cs : List Char) : Except Failure (Bool × List Char) :=
  match cs with
  | [] => .error .emptyNumber
  | _ => .ok (Numeral.splitSign cs)

/-- The value of digits to the base sixty, most significant first. -/
def sexagesimal (digits : List Int) : Int := digits.foldl (fun n d => 60 * n + d) 0

/-- The magnitude of an integer, its base given by how it begins. -/
def magnitudeOf (body : List Char) : Except Failure Int :=
  match body with
  | '0' :: 'b' :: rest => orImpossible (Numeral.integer? 2 rest)
  | '0' :: 'x' :: rest => orImpossible (Numeral.integer? 16 rest)
  | ['0'] => .ok 0
  | '0' :: _ => orImpossible (Numeral.integer? 8 body)
  | [] => .error .emptyNumber
  | _ =>
    if body.contains ':' then do
      return sexagesimal (← (cutAtColon body).mapM fun part =>
        orImpossible (Numeral.integer? 10 part))
    else orImpossible (Numeral.integer? 10 body)

/-- The integer a text spells. -/
def intOf (cs : List Char) : Except Failure Int := do
  let (isNegative, body) ← signOf (cs.filter (· != '_'))
  let n ← magnitudeOf body
  return if isNegative then -n else n

/-- The sum of floating point digits to the base sixty, taken from the least significant one up and
rounded at each step.  What a place counts for has to be a finite number. -/
def sexagesimalSum : List Binary64 → Nat → Binary64 → Except Failure Binary64
  | [], _, sum => .ok sum
  | digit :: rest, place, sum =>
    let weight := Binary64.ofInt place
    if weight.isFinite then sexagesimalSum rest (place * 60) (sum.add (digit.multiply weight))
    else .error .excessivePlace

/-- The one not-a-number that has a word of its own. -/
def namedNaN : Binary64 := .nanWith 1

/-- The floating point number a text spells.  Where it is not a number, but not by that word, it is
the not-a-number with the given payload. -/
def floatOf (payload : Nat) (cs : List Char) : Except Failure Binary64 := do
  let (isNegative, body) ← signOf ((cs.filter (· != '_')).map Char.toLower)
  if body = ".nan".toList then return namedNaN
  else
    let x ←
      if body = ".inf".toList then pure (Binary64.infinity false)
      else if body.contains ':' then do
        let digits ← (cutAtColon body).mapM fun part => orImpossible (Numeral.float? part)
        sexagesimalSum digits.reverse 1 .zero
      else orImpossible (Numeral.float? body)
    return if x.isNaN then .nanWith payload else if isNegative then x.negate else x

/-- The number that decimal digits spell. -/
def numberOf (cs : List Char) : Nat := cs.foldl (fun n c => 10 * n + (c.toNat - '0'.toNat)) 0

/-- The fraction of a second in microseconds, from its first six digits. -/
def microsecondsOf (digits : List Char) : Nat :=
  let six := digits.take 6
  numberOf (six ++ List.replicate (6 - six.length) '0')

/-- The offset of a zone in minutes; it is less than a day. -/
def offsetOf (isWest : Bool) (hours minutes : List Char) : Except Failure Int :=
  let n : Int := numberOf hours * 60 + numberOf minutes
  if n < 24 * 60 then .ok (if isWest then -n else n) else .error .impossible

/-- The day or the moment a text spells. -/
def calendarOf (cs : List Char) : Except Failure Scalar :=
  match timestampParts? (withoutFinalBreak cs) with
  | none => .error .formlessTimestamp
  | some p => do
    let date : Date := ⟨numberOf p.year, numberOf p.month, numberOf p.day⟩
    match p.time with
    | none => if date.isValid then return .date date else throw .impossible
    | some (hour, minute, second) =>
      let offset ← match p.zone with
        | some (isWest, hours, minutes) => some <$> offsetOf isWest hours minutes
        | none => pure none
      let t : Timestamp := {
        date, offset
        hour := numberOf hour
        minute := numberOf minute
        second := numberOf second
        microsecond := microsecondsOf p.fraction }
      if t.isValid then return .timestamp t else throw .impossible

/-- The bytes a text carries. -/
def bytesOf (cs : List Char) : Except Failure (List UInt8) :=
  match if cs.all (·.toNat < 128) then Base64.decode? cs else none with
  | some bs => .ok bs
  | none => .error .malformed

/-- **The value of a scalar** of a type, which is the scalar of the node with a number.  Collections,
and the types that only mean something for keys, have no scalars.  A value that is not a number is
the same as no other, so its payload is taken from the number of its node. -/
def read (t : Tag) (number : Nat) (text : String) : Except Failure Scalar :=
  match t with
  | null => .ok .null
  | bool => .bool <$> boolOf text
  | int => .int <$> intOf text.toList
  | float => .float <$> floatOf (number + 2) text.toList
  | binary => .bytes <$> bytesOf text.toList
  | timestamp => calendarOf text.toList
  | .text => .ok (.text text)
  | orderedMap | pairs | set | sequence | mapping | merge | value | unknown => .error .malformed

end Tag

end ToolCatalog.Yaml
