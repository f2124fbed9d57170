/-!
# Tags

A tag names the type of a node.  A plain scalar without a tag gets one from its text: `implicit`
tries the written forms of truth values, numbers, null and timestamps in a fixed order, and what
has none of these forms is a text.
-/

namespace ToolCatalog.Yaml

/-- The types of nodes. -/
inductive Tag where
  | null
  | bool
  | int
  | float
  | binary
  | timestamp
  | orderedMap
  | pairs
  | set
  | text
  | sequence
  | mapping
  /-- The key under which a mapping takes over the entries of others. -/
  | merge
  /-- The key under which a mapping has its value as a scalar. -/
  | value
  | unknown
deriving DecidableEq, Inhabited

namespace Tag

/-- What the names of the standard tags begin with. -/
def standard : String := "tag:yaml.org,2002:"

/-- The standard tags, by the ends of their names. -/
def names : List (String × Tag) :=
  [("null", null), ("bool", bool), ("int", int), ("float", float), ("binary", binary),
   ("timestamp", timestamp), ("omap", orderedMap), ("pairs", pairs), ("set", set), ("str", text),
   ("seq", sequence), ("map", mapping), ("merge", merge), ("value", value)]

/-- The tag with the given full name. -/
def ofName (name : String) : Tag :=
  match names.find? fun n => standard ++ n.1 == name with
  | some (_, t) => t
  | none => unknown

/-! ### Written forms of scalars -/

def isDigit (c : Char) : Bool := '0' ≤ c && c ≤ '9'

def isDigitOrUnderscore (c : Char) : Bool := isDigit c || c == '_'

/-- A text without its sign. -/
def unsigned : List Char → List Char
  | '-' :: rest => rest
  | '+' :: rest => rest
  | cs => cs

/-- Cut a text at every colon. -/
def cutAtColon : List Char → List (List Char)
  | [] => [[]]
  | ':' :: rest => [] :: cutAtColon rest
  | c :: rest =>
    match cutAtColon rest with
    | [] => [[c]]
    | first :: others => (c :: first) :: others

/-- A digit to the base sixty: at most 59 in one or two decimal digits. -/
def isSixtieth : List Char → Bool
  | [c] => isDigit c
  | [a, b] => '0' ≤ a && a ≤ '5' && isDigit b
  | _ => false

/-- A nonempty text of digits and underscores that begins with a digit. -/
def isGrouped (cs : List Char) : Bool :=
  match cs with
  | c :: rest => isDigit c && rest.all isDigitOrUnderscore
  | [] => false

/-- The words for truth values. -/
def truthWords : List String :=
  ["yes", "Yes", "YES", "no", "No", "NO", "true", "True", "TRUE", "false", "False", "FALSE",
   "on", "On", "ON", "off", "Off", "OFF"]

/-- A number to the base sixty, its digits apart by colons, the first one in decimal digits. -/
def isSexagesimal (first : List Char → Bool) (cs : List Char) : Bool :=
  match cutAtColon cs with
  | head :: tail => first head && !tail.isEmpty && tail.all isSixtieth
  | [] => false

/-- The written forms of integers: binary, octal after a zero, decimal, hexadecimal, and to the base
sixty. -/
def isInteger (cs : List Char) : Bool :=
  let body := unsigned cs
  (match body with
    | '0' :: 'b' :: rest => !rest.isEmpty && rest.all fun c => c == '0' || c == '1' || c == '_'
    | '0' :: 'x' :: rest =>
      !rest.isEmpty && rest.all fun c =>
        isDigitOrUnderscore c || ('a' ≤ c && c ≤ 'f') || ('A' ≤ c && c ≤ 'F')
    | '0' :: rest => rest.all fun c => ('0' ≤ c && c ≤ '7') || c == '_'
    | _ => isGrouped body)
  || isSexagesimal (fun head => isGrouped head && head.head? != some '0') body

/-- An exponent, which has to have a sign, or nothing. -/
def isExponent : List Char → Bool
  | [] => true
  | e :: mark :: rest =>
    (e == 'e' || e == 'E') && (mark == '-' || mark == '+') && !rest.isEmpty && rest.all isDigit
  | _ => false

/-- The written forms of floating point numbers; all but infinity and not-a-number have a
point. -/
def isFloat (cs : List Char) : Bool :=
  let body := unsigned cs
  let whole := body.takeWhile (· != '.')
  match body.drop whole.length with
  | '.' :: rest =>
    let fraction := rest.takeWhile isDigitOrUnderscore
    let ending := rest.drop fraction.length
    (isGrouped whole && isExponent ending)
    || (body == cs && whole.isEmpty && isGrouped fraction && isExponent ending)
    || (isSexagesimal isGrouped whole && ending.isEmpty)
    || (whole.isEmpty && ["inf", "Inf", "INF"].contains (String.ofList rest))
    || (body == cs && whole.isEmpty && ["nan", "NaN", "NAN"].contains (String.ofList rest))
  | _ => false

/-- The parts of a timestamp, as decimal digits. -/
structure TimestampParts where
  year : List Char
  month : List Char
  day : List Char
  time : Option (List Char × List Char × List Char) := none
  fraction : List Char := []
  /-- The offset: whether it is to the west, the hours and the minutes. -/
  zone : Option (Bool × List Char × List Char) := none

/-- Between one and two digits at the front of a text. -/
def shortNumber? (cs : List Char) : Option (List Char × List Char) :=
  match cs with
  | a :: b :: rest =>
    if isDigit a then (if isDigit b then some ([a, b], rest) else some ([a], b :: rest)) else none
  | [a] => if isDigit a then some ([a], []) else none
  | [] => none

/-- Exactly two digits at the front of a text. -/
def twoDigits? (cs : List Char) : Option (List Char × List Char) :=
  match cs with
  | a :: b :: rest => if isDigit a && isDigit b then some ([a, b], rest) else none
  | _ => none

/-- A given character at the front of a text. -/
def expect? (c : Char) : List Char → Option (List Char)
  | d :: rest => if c == d then some rest else none
  | [] => none

/-- The zone at the end of a timestamp, which may be missing. -/
def zone? (cs : List Char) : Option (Option (Bool × List Char × List Char)) :=
  if cs.isEmpty then some none
  else match cs.dropWhile fun c => c == ' ' || c == '\t' with
    | ['Z'] => some (some (false, ['0'], ['0']))
    | mark :: rest =>
      if mark == '-' || mark == '+' then do
        let (hours, rest) ← shortNumber? rest
        match rest with
        | [] => return some (mark == '-', hours, ['0'])
        | ':' :: rest =>
          let (minutes, rest) ← twoDigits? rest
          if rest.isEmpty then return some (mark == '-', hours, minutes) else none
        | _ => none
      else none
    | [] => none

/-- The time of day and the zone of a timestamp, after its day. -/
def timeParts? (date : TimestampParts) (cs : List Char) : Option TimestampParts := do
  let body ← match cs with
    | 'T' :: rest => some rest
    | 't' :: rest => some rest
    | c :: _ =>
      if c == ' ' || c == '\t' then some (cs.dropWhile fun c => c == ' ' || c == '\t') else none
    | [] => none
  let (hour, rest) ← shortNumber? body
  let (minute, rest) ← twoDigits? (← expect? ':' rest)
  let (second, rest) ← twoDigits? (← expect? ':' rest)
  let (fraction, rest) := match rest with
    | '.' :: rest =>
      let digits := rest.takeWhile isDigit
      (digits, rest.drop digits.length)
    | _ => ([], rest)
  let zone ← zone? rest
  return { date with time := some (hour, minute, second), fraction, zone }

/-- Split a text of the form of a timestamp: a day, and after a `T` or blanks perhaps a time. -/
def timestampParts? (cs : List Char) : Option TimestampParts := do
  let (century, rest) ← twoDigits? cs
  let (years, rest) ← twoDigits? rest
  let (month, rest) ← shortNumber? (← expect? '-' rest)
  let (day, rest) ← shortNumber? (← expect? '-' rest)
  let date : TimestampParts := { year := century ++ years, month, day }
  if rest.isEmpty then return date else timeParts? date rest

/-- The written forms of timestamps: with a time, or a day with two digits each for its month and
its number. -/
def isTimestamp (cs : List Char) : Bool :=
  match timestampParts? cs with
  | some p => p.time.isSome || (p.month.length == 2 && p.day.length == 2)
  | none => false

/-- A text without the end of a line after it, if something is in front of that. -/
def withoutFinalBreak (cs : List Char) : List Char :=
  match cs.getLast? with
  | some '\n' => if cs.length = 1 then cs else cs.dropLast
  | _ => cs

/-- **The type that a text has by its form.**  The end of a line after it does not count.  The marks
of tags, anchors and aliases by themselves are set aside for a type that nothing reads. -/
def implicit (text : String) : Tag :=
  let cs := withoutFinalBreak text.toList
  let s := String.ofList cs
  if truthWords.contains s then bool
  else if isFloat cs then float
  else if isInteger cs then int
  else if s == "<<" then merge
  else if ["", "~", "null", "Null", "NULL"].contains s then null
  else if isTimestamp cs then timestamp
  else if s == "=" then value
  else if ["!", "&", "*"].contains s then unknown
  else .text

end Tag

end ToolCatalog.Yaml
