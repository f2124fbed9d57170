/-!
# Positions in a YAML text

YAML gives meaning to where a character stands: to its column and to the line it is on.  A cursor
is what is left of a text together with that position.  Lexical rules are steps on a cursor that
may fail.
-/

namespace ToolCatalog.Yaml

/-- Why a YAML text has no value. -/
inductive Failure where
  /-- It breaks a rule of the language. -/
  | malformed
  /-- A scalar cannot be a value of its type: digits that are none, a day that is in no
  calendar, a code beyond all characters. -/
  | impossible
  /-- The code of an escaped character has more than 31 bits. -/
  | excessiveCode
  /-- A scalar tagged as a truth value is none of the words for one. -/
  | unlistedWord
  /-- A scalar tagged as a number has no digits at all. -/
  | emptyNumber
  /-- A scalar tagged as a timestamp does not have the form of one. -/
  | formlessTimestamp
  /-- A mapping is tagged as a timestamp. -/
  | structuredTimestamp
  /-- A digit of a floating point number to the base sixty counts for more than any such number. -/
  | excessivePlace
deriving DecidableEq, Inhabited

/-- The end of a line. -/
def isBreak (c : Char) : Bool :=
  c == '\n' || c == '\r' || c == '\u0085' || c == '\u2028' || c == '\u2029'

/-- A blank within a line. -/
def isSpace (c : Char) : Bool := c == ' ' || c == '\t'

/-- A blank or the end of a line. -/
def isGap (c : Char) : Bool := isSpace c || isBreak c

/-- A letter or digit of ASCII, or one of the two marks that may be in names. -/
def isNameChar (c : Char) : Bool := c.isAlphanum || c == '-' || c == '_'

/-- Whether a text may contain a character at all. -/
def isAllowed (c : Char) : Bool :=
  c == '\t' || c == '\n' || c == '\r' || (' ' ≤ c && c ≤ '~') || c == '\u0085'
    || ('\u00a0' ≤ c && c.toNat ≤ 0xFFFD) || 0x10000 ≤ c.toNat

/-- What is left of a text, and where it stands. -/
structure Cursor where
  rest : List Char
  line : Nat := 0
  column : Nat := 0
  index : Nat := 0

/-- A step of reading. -/
abbrev Scan := StateT Cursor (Except Failure)

namespace Cursor

/-- The position behind a character that is followed by `after`.  A carriage return counts as the
end of a line unless a line feed follows, and a byte-order mark takes no column. -/
def behind (c : Char) (after : List Char) (cur : Cursor) : Cursor :=
  if (isBreak c && c != '\r') || (c == '\r' && after.head? != some '\n') then
    { rest := after, line := cur.line + 1, column := 0, index := cur.index + 1 }
  else if c == '\uFEFF' then { cur with rest := after, index := cur.index + 1 }
  else { cur with rest := after, column := cur.column + 1, index := cur.index + 1 }

/-- Go on by up to `n` characters. -/
def skip : Nat → Cursor → Cursor
  | 0, cur => cur
  | n + 1, cur =>
    match cur.rest with
    | [] => cur
    | c :: after => skip n (cur.behind c after)

/-- The character `n` places ahead. -/
def ahead (cur : Cursor) (n : Nat) : Option Char := (cur.rest.drop n).head?

/-- Whether there is a gap or the end of the text `n` places ahead. -/
def gapAhead (cur : Cursor) (n : Nat) : Bool := (cur.ahead n).all isGap

/-- Whether a line that begins here is the mark of a document's start or end. -/
def atDocumentMark (cur : Cursor) : Bool :=
  (['-', '-', '-'].isPrefixOf cur.rest || ['.', '.', '.'].isPrefixOf cur.rest) && cur.gapAhead 3

end Cursor

namespace Scan

/-- The next character, if the text has not ended. -/
def peek : Scan (Option Char) := return (← get).rest.head?

/-- Go on by `n` characters. -/
def skip (n : Nat) : Scan Unit := modify (Cursor.skip n)

/-- Fail because a rule of the language is broken. -/
def refuse {α : Type} : Scan α := throw .malformed

/-- Go on only if a condition holds. -/
def require (holds : Bool) : Scan Unit := if holds then return () else refuse

/-- Take the characters ahead that satisfy `p`. -/
def takeWhile (p : Char → Bool) : Scan (List Char) := do
  let taken := (← get).rest.takeWhile p
  skip taken.length
  return taken

/-- Skip the characters ahead that satisfy `p`. -/
def skipWhile (p : Char → Bool) : Scan Unit := do
  let _ ← takeWhile p

/-- Require that the text ends here or goes on with a character that satisfies `p`. -/
def requireNext (p : Char → Bool) : Scan Unit := do
  require ((← peek).all p)

/-- Take the end of a line, if there is one here.  The three usual ones all read as a line
feed. -/
def lineBreak : Scan (List Char) := do
  match (← get).rest with
  | '\r' :: '\n' :: _ => skip 2; return ['\n']
  | c :: _ =>
    if c == '\u2028' || c == '\u2029' then do skip 1; return [c]
    else if isBreak c then do skip 1; return ['\n']
    else return []
  | [] => return []

/-- Skip blanks and a comment up to the end of the line, which has to follow, and the end of the
line. -/
def endLine : Scan Unit := do
  skipWhile (· == ' ')
  if (← peek) == some '#' then skipWhile (!isBreak ·)
  requireNext isBreak
  let _ ← lineBreak

end Scan

end ToolCatalog.Yaml
