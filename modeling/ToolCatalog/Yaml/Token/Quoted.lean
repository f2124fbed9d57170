import ToolCatalog.Text.Hex
import ToolCatalog.Yaml.Token

/-!
# Quoted scalars

In single quotes a quote is written twice and nothing else is special.  In double quotes a
backslash begins an escape.  In both, the end of a line with the blanks around it reads as one
blank, and further ends of lines are kept.
-/

namespace ToolCatalog.Yaml.Scan

/-- The character that an escape letter stands for. -/
def escapeLetter? : Char → Option Char
  | '0' => some '\x00'
  | 'a' => some '\x07'
  | 'b' => some '\x08'
  | 't' => some '\t'
  | '\t' => some '\t'
  | 'n' => some '\n'
  | 'v' => some '\x0b'
  | 'f' => some '\x0c'
  | 'r' => some '\r'
  | 'e' => some '\x1b'
  | ' ' => some ' '
  | '"' => some '"'
  | '\\' => some '\\'
  | '/' => some '/'
  | 'N' => some '\u0085'
  | '_' => some '\u00a0'
  | 'L' => some '\u2028'
  | 'P' => some '\u2029'
  | _ => none

/-- How many hexadecimal digits follow an escape letter. -/
def escapeWidth? : Char → Option Nat
  | 'x' => some 2
  | 'u' => some 4
  | 'U' => some 8
  | _ => none

/-- Whether a code is one of the units that make up a character in pairs. -/
def isPairUnit (n : Nat) : Bool := 0xD800 ≤ n && n < 0xE000

/-- The code written by the digits of an escape after its letter. -/
def escapeCode (width : Nat) : Scan Nat := do
  let digits := (← get).rest.take width
  require (digits.length == width)
  match Text.hexNumber? digits with
  | some n => skip width; return n
  | none => refuse

/-- The character of a code.  Two units that make up a pair are joined, and a unit on its own
reads as the replacement character. -/
def escapedChar (code : Nat) : Scan Char := do
  if 0x7FFFFFFF < code then throw .excessiveCode
  else if 0x10FFFF < code then throw .impossible
  else if !isPairUnit code then return Char.ofNat code
  else
    match (← get).rest with
    | '\\' :: 'u' :: rest =>
      match Text.hexNumber? (rest.take 4) with
      | some low =>
        if code < 0xDC00 ∧ 0xDC00 ≤ low ∧ low < 0xE000 ∧ 4 ≤ rest.length then
          skip 6
          return Char.ofNat (0x10000 + (code - 0xD800) * 0x400 + (low - 0xDC00))
        else return '\uFFFD'
      | none => return '\uFFFD'
    | _ => return '\uFFFD'

/-- The empty lines ahead within a quoted scalar; the mark of a document must not be met.  The
characters ahead bound their number. -/
def quotedBreaks : List Char → Scan (List Char)
  | [] => do
    require (!(← get).atDocumentMark)
    return []
  | _ :: bound => do
    require (!(← get).atDocumentMark)
    skipWhile isSpace
    if (← peek).any isBreak then
      let b ← lineBreak
      return b ++ (← quotedBreaks bound)
    else return []

/-- The blanks ahead within a quoted scalar, with the ends of lines among them. -/
def quotedSpaces : Scan (List Char) := do
  let blanks ← takeWhile isSpace
  match ← peek with
  | none => refuse
  | some c =>
    if isBreak c then
      let first ← lineBreak
      let others ← quotedBreaks (← get).rest
      if first != ['\n'] then return first ++ others
      else if others.isEmpty then return [' ']
      else return others
    else return blanks

/-- A character that stands for itself in quotes of either kind. -/
def isQuotedPlain (c : Char) : Bool := !isGap c && c != '\'' && c != '"' && c != '\\'

/-- What a backslash and the characters after it stand for in double quotes. -/
def escaped : Scan (List Char) := do
  skip 1
  match ← peek with
  | none => refuse
  | some letter =>
    match escapeLetter? letter, escapeWidth? letter with
    | some c, _ =>
      skip 1
      return [c]
    | none, some width =>
      skip 1
      return [← escapedChar (← escapeCode width)]
    | none, none =>
      if isBreak letter then
        let _ ← lineBreak
        quotedBreaks (← get).rest
      else refuse

/-- The next piece of a quoted scalar before a gap or the closing quote: a run of characters that
stand for themselves, a quote or backslash without special meaning, or an escape.  Nothing is
given in front of a gap or the closing quote. -/
def quotedPiece (mark : Char) : Scan (List Char) := do
  match (← get).rest with
  | '\'' :: '\'' :: _ =>
    skip (if mark == '\'' then 2 else 1)
    return ['\'']
  | c :: _ =>
    if c == '\\' && mark == '"' then escaped
    else if c == '\\' || ((c == '\'' || c == '"') && c != mark) then
      skip 1
      return [c]
    else takeWhile isQuotedPlain
  | [] => return []

/-- The characters ahead within a quoted scalar up to a gap or the closing quote. -/
def quotedRun (mark : Char) : List Char → Scan (List Char)
  | [] => return []
  | _ :: bound => do
    let before := (← get).index
    let piece ← quotedPiece mark
    if (← get).index == before then return []
    else return piece ++ (← quotedRun mark bound)

/-- The rest of a quoted scalar from a gap or its closing quote on. -/
def quotedRest (mark : Char) : List Char → Scan (List Char)
  | [] => refuse
  | _ :: bound => do
    if (← peek) == some mark then
      skip 1
      return []
    else
      let gap ← quotedSpaces
      let run ← quotedRun mark (← get).rest
      return gap ++ run ++ (← quotedRest mark bound)

/-- A quoted scalar. -/
def quoted (mark : Char) : Scan String := do
  skip 1
  let run ← quotedRun mark (← get).rest
  return String.ofList (run ++ (← quotedRest mark (← get).rest))

end ToolCatalog.Yaml.Scan
