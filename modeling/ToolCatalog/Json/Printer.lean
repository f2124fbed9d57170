import ToolCatalog.Value.Display

/-!
# Writing JSON

A value is written on one line or with an indent of two blanks a level.  Only quotation marks,
backslashes and control characters are escaped.  A key that is not a text is written as the text
it is shown as.
-/

namespace ToolCatalog.Json

/-- A character inside a string. -/
def escapeChar (c : Char) : List Char :=
  if c == '"' then ['\\', '"']
  else if c == '\\' then ['\\', '\\']
  else if c == '\n' then ['\\', 'n']
  else if c == '\r' then ['\\', 'r']
  else if c == '\t' then ['\\', 't']
  else if c == '\x08' then ['\\', 'b']
  else if c == '\x0c' then ['\\', 'f']
  else if c.toNat < 0x20 then '\\' :: 'u' :: Text.hex 4 c.toNat
  else [c]

/-- A string with its quotation marks. -/
def writeString (s : String) : String :=
  String.ofList ('"' :: s.toList.flatMap escapeChar ++ ['"'])

/-- The layout of numbers in JSON. -/
def numberLayout : Layout :=
  { Layout.document with notANumber := "NaN", infinite := "Infinity" }

/-- A scalar as a JSON value. -/
def writeScalar : Scalar → String
  | .null => "null"
  | .bool b => if b then "true" else "false"
  | .int i => toString i
  | .float x => x.write numberLayout
  | s => writeString s.shown

/-- A scalar as the name of a member. -/
def writeKey (k : Scalar) : String := writeString k.shown

/-- Items between brackets, separated by `comma`, with `padding` inside the brackets. -/
def bracket (opening closing comma inner outer : String) (items : List String) : String :=
  if items.isEmpty then opening ++ closing
  else opening ++ inner ++ comma.intercalate items ++ outer ++ closing

/-- The break before a line at some depth, or nothing on one line. -/
def lineBreak (indented : Bool) (depth : Nat) : String :=
  if indented then "\n" ++ String.ofList (List.replicate (2 * depth) ' ') else ""

mutual

/-- Write a value that stands at some depth. -/
def writeAt (indented : Bool) (depth : Nat) : Value → String
  | .scalar s => writeScalar s
  | .list vs =>
    bracket "[" "]" ("," ++ lineBreak indented (depth + 1)) (lineBreak indented (depth + 1))
      (lineBreak indented depth) (writeItems indented (depth + 1) vs)
  | .map es =>
    bracket "\x7b" "\x7d" ("," ++ lineBreak indented (depth + 1))
      (lineBreak indented (depth + 1)) (lineBreak indented depth)
      (writeMembers indented (depth + 1) es)
  | .pair a b =>
    bracket "[" "]" ("," ++ lineBreak indented (depth + 1)) (lineBreak indented (depth + 1))
      (lineBreak indented depth) [writeAt indented (depth + 1) a, writeAt indented (depth + 1) b]
  | .set ms =>
    bracket "[" "]" ("," ++ lineBreak indented (depth + 1)) (lineBreak indented (depth + 1))
      (lineBreak indented depth) (ms.map writeScalar)
  | .part _ body => writeAt indented depth (body ())

/-- Write the items of an array. -/
def writeItems (indented : Bool) (depth : Nat) : List Value → List String
  | [] => []
  | v :: vs => writeAt indented depth v :: writeItems indented depth vs

/-- Write the members of an object. -/
def writeMembers (indented : Bool) (depth : Nat) : List (Scalar × Value) → List String
  | [] => []
  | (k, v) :: rest =>
    (writeKey k ++ ": " ++ writeAt indented depth v) :: writeMembers indented depth rest

end

/-- **Write a value on one line.** -/
def compact (v : Value) : String := writeAt false 0 v

/-- **Write a value with an indent of two blanks a level.** -/
def pretty (v : Value) : String := writeAt true 0 v

end ToolCatalog.Json
