import ToolCatalog.Fault
import ToolCatalog.Number.Integer
import ToolCatalog.Number.Layout
import ToolCatalog.Text.Hex
import ToolCatalog.Text.Printable

/-!
# The shown form of a value

A value that is put into a message, a URL or a name is shown as text.  A text is shown as it is;
inside a collection it is quoted, with the quotation mark it does not contain and with escapes for
what is not printable.  A part of a document that is met again inside itself is shown as three dots.

`shown` is the text of any value.  Where the text is to become part of something a user reads,
`show?` is used, which has no text for integers of immoderate length.
-/

namespace ToolCatalog

/-- The calendar form of a day. -/
def Date.iso (d : Date) : String :=
  Text.decimal 4 d.year ++ "-" ++ Text.decimal 2 d.month ++ "-" ++ Text.decimal 2 d.day

namespace Timestamp

/-- The distance from universal time as sign, hours and minutes. -/
def isoOffset (minutes : Int) : String :=
  (if minutes < 0 then "-" else "+") ++ Text.decimal 2 (minutes.natAbs / 60) ++ ":"
    ++ Text.decimal 2 (minutes.natAbs % 60)

/-- Day and time of day, with six decimals if the second has a fraction, without the offset. -/
def isoLocal (separator : String) (t : Timestamp) : String :=
  t.date.iso ++ separator ++ Text.decimal 2 t.hour ++ ":" ++ Text.decimal 2 t.minute ++ ":"
    ++ Text.decimal 2 t.second
    ++ (if t.microsecond = 0 then "" else "." ++ Text.decimal 6 t.microsecond)

/-- The calendar form of a moment, with its offset in hours and minutes. -/
def iso (separator : String) (t : Timestamp) : String :=
  t.isoLocal separator ++ (match t.offset with
    | some minutes => isoOffset minutes
    | none => "")

/-- The distance from universal time in a tool's schema: none is written `Z`, and the sign is that of
the whole hours, so less than an hour has a plus in both directions. -/
def zuluOffset (minutes : Int) : String :=
  if minutes = 0 then "Z"
  else if minutes.natAbs < 60 then isoOffset minutes.natAbs
  else isoOffset minutes

/-- The form of a moment in a tool's schema. -/
def isoZulu (t : Timestamp) : String :=
  t.isoLocal "T" ++ (match t.offset with
    | some minutes => zuluOffset minutes
    | none => "")

end Timestamp

namespace Text

/-- The escape of a character that is not shown as itself. -/
def escapeCode (n : Nat) : List Char :=
  if n < 0x100 then '\\' :: 'x' :: hex 2 n
  else if n < 0x10000 then '\\' :: 'u' :: hex 4 n
  else '\\' :: 'U' :: hex 8 n

/-- A character as it stands between quotation marks. -/
def quoteChar (mark c : Char) : List Char :=
  if c == mark || c == '\\' then ['\\', c]
  else if c == '\t' then ['\\', 't']
  else if c == '\n' then ['\\', 'n']
  else if c == '\r' then ['\\', 'r']
  else if isPrintable c then [c]
  else escapeCode c.toNat

/-- The quotation mark for a text: the single one unless only the double one is free. -/
def quotationMark (cs : List Char) : Char :=
  if cs.contains '\'' && !cs.contains '"' then '"' else '\''

/-- A text between quotation marks. -/
def quoted (s : String) : String :=
  let mark := quotationMark s.toList
  String.ofList (mark :: s.toList.flatMap (quoteChar mark) ++ [mark])

/-- Bytes between quotation marks: printable ASCII as itself, all else escaped. -/
def quotedBytes (bs : List UInt8) : String :=
  let cs := bs.map fun b => Char.ofNat b.toNat
  let mark := quotationMark cs
  let quoteByte := fun (c : Char) =>
    if 127 ≤ c.toNat then escapeCode c.toNat else quoteChar mark c
  String.ofList ('b' :: mark :: cs.flatMap quoteByte ++ [mark])

end Text

namespace Scalar

/-- The parts of a calendar value as the arguments of its constructor. -/
def shownParts (name : String) (parts : List String) : String :=
  name ++ "(" ++ ", ".intercalate parts ++ ")"

/-- A zone at a fixed distance from universal time. -/
def shownZone (minutes : Int) : String :=
  if minutes = 0 then "datetime.timezone.utc"
  else
    let seconds := (minutes * 60) % 86400
    let duration :=
      if 0 < minutes then ["seconds=" ++ toString seconds]
      else if seconds = 0 then ["days=-1"] else ["days=-1", "seconds=" ++ toString seconds]
    shownParts "datetime.timezone" [shownParts "datetime.timedelta" duration]

/-- A scalar inside a collection. -/
def quoted : Scalar → String
  | null => "None"
  | bool b => if b then "True" else "False"
  | int i => toString i
  | float x => x.write .document
  | text s => Text.quoted s
  | date d => shownParts "datetime.date" [toString d.year, toString d.month, toString d.day]
  | timestamp t =>
    let seconds :=
      if t.microsecond ≠ 0 then [toString t.second, toString t.microsecond]
      else if t.second ≠ 0 then [toString t.second] else []
    let zone := match t.offset with
      | some minutes => ["tzinfo=" ++ shownZone minutes]
      | none => []
    shownParts "datetime.datetime"
      ([toString t.date.year, toString t.date.month, toString t.date.day, toString t.hour,
        toString t.minute] ++ seconds ++ zone)
  | bytes bs => Text.quotedBytes bs

/-- A scalar on its own. -/
def shown : Scalar → String
  | text s => s
  | date d => d.iso
  | timestamp t => t.iso " "
  | s => s.quoted

/-- Whether a scalar is no integer with more decimal digits than a numeral may have. -/
def isModerate : Scalar → Bool
  | int i => Numeral.isModerate i.natAbs
  | _ => true

end Scalar

namespace Value

/-- What stands for a collection that is being shown already. -/
def ellipsis : Value → String
  | .map _ | .set _ => "\x7b...\x7d"
  | .pair _ _ => "(...)"
  | .part _ body => (body ()).ellipsis
  | .list _ | .scalar _ => "[...]"

mutual

/-- A value inside a collection, while the parts with the given numbers are being shown. -/
def quotedWithin (around : List Nat) : Value → String
  | .scalar s => s.quoted
  | .list vs => "[" ++ ", ".intercalate (quotedItems around vs) ++ "]"
  | .map es => "\x7b" ++ ", ".intercalate (quotedEntries around es) ++ "\x7d"
  | .pair a b => "(" ++ quotedWithin around a ++ ", " ++ quotedWithin around b ++ ")"
  | .set ms =>
    if ms.isEmpty then "set()"
    else "\x7b" ++ ", ".intercalate (ms.map Scalar.quoted) ++ "\x7d"
  | .part n body =>
    if around.contains n then (body ()).ellipsis else quotedWithin (n :: around) (body ())

/-- The items of a list, each as it stands inside a collection. -/
def quotedItems (around : List Nat) : List Value → List String
  | [] => []
  | v :: vs => quotedWithin around v :: quotedItems around vs

/-- The entries of a mapping, key and value apart by a colon. -/
def quotedEntries (around : List Nat) : List (Scalar × Value) → List String
  | [] => []
  | (k, v) :: rest =>
    (k.quoted ++ ": " ++ quotedWithin around v) :: quotedEntries around rest

end

/-- A value inside a collection. -/
def quoted (v : Value) : String := v.quotedWithin []

/-- A value on its own. -/
def shown : Value → String
  | .scalar s => s.shown
  | v => v.quoted

mutual

/-- Whether no integer in a value is of immoderate length; parts with the given numbers are being
looked into already. -/
def isModerate (around : List Nat) : Value → Bool
  | .scalar s => s.isModerate
  | .list vs => areModerate around vs
  | .map es => areModerateEntries around es
  | .pair a b => isModerate around a && isModerate around b
  | .set ms => ms.all Scalar.isModerate
  | .part n body => around.contains n || isModerate (n :: around) (body ())

/-- Whether no integer in the items of a list is of immoderate length. -/
def areModerate (around : List Nat) : List Value → Bool
  | [] => true
  | v :: vs => isModerate around v && areModerate around vs

/-- Whether no integer in the entries of a mapping is of immoderate length. -/
def areModerateEntries (around : List Nat) : List (Scalar × Value) → Bool
  | [] => true
  | (k, v) :: rest =>
    k.isModerate && isModerate around v && areModerateEntries around rest

end

/-- **A value as a user reads it**, on its own. -/
def show? (v : Value) : Except Fault String :=
  if v.isModerate [] then .ok v.shown else .error .excessiveDigits

/-- The word for the kind of a value in messages. -/
def kindName : Value → String
  | .scalar .null => "NoneType"
  | .scalar (.bool _) => "bool"
  | .scalar (.int _) => "int"
  | .scalar (.float _) => "float"
  | .scalar (.text _) => "str"
  | .scalar (.date _) => "date"
  | .scalar (.timestamp _) => "datetime"
  | .scalar (.bytes _) => "bytes"
  | .list _ => "list"
  | .map _ => "dict"
  | .pair _ _ => "tuple"
  | .set _ => "set"
  | .part _ body => (body ()).kindName

end Value

end ToolCatalog
