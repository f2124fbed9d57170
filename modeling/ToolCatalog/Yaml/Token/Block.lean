import ToolCatalog.Yaml.Token

/-!
# Block scalars

A block scalar is the indented lines after its mark.  After a bar their ends are kept; after an
angle bracket the end of a line between two lines of text reads as one blank.  An indicator says
what becomes of the ends of lines after the last line of text: all but one are dropped, all are,
or none is.
-/

namespace ToolCatalog.Yaml.Scan

/-- What becomes of the ends of lines at the end of a block scalar. -/
inductive Chomping where
  | clip
  | strip
  | keep
deriving DecidableEq

/-- The indicators behind the mark, in either order: chomping, and how much the lines are
indented. -/
def blockIndicators : Scan (Chomping × Option Nat) := do
  let chomping : Scan Chomping := do
    match ← peek with
    | some '+' => skip 1; return .keep
    | some '-' => skip 1; return .strip
    | _ => return .clip
  let indent : Scan (Option Nat) := do
    match ← peek with
    | some c =>
      if c.isDigit then
        require (c != '0')
        skip 1
        return some (c.toNat - '0'.toNat)
      else return none
    | none => return none
  let first ← chomping
  let width ← indent
  let last ← if first == .clip && width.isSome then chomping else pure first
  requireNext fun c => c == ' ' || isBreak c
  return (last, width)

/-- The empty lines at the start of a block scalar, and how far the blanks reach that stand in
front of its first line of text and on the lines before.  The characters ahead bound the number of
steps. -/
def leadingBreaks (widest : Nat) : List Char → Scan (List Char × Nat)
  | [] => return ([], widest)
  | _ :: bound => do
    match ← peek with
    | some c =>
      if c == ' ' then
        skip 1
        leadingBreaks (max widest (← get).column) bound
      else if isBreak c then
        let b ← lineBreak
        let (others, reach) ← leadingBreaks widest bound
        return (b ++ others, reach)
      else return ([], widest)
    | none => return ([], widest)

/-- Skip blanks up to a column. -/
def skipTo (column : Nat) : Scan Unit := do
  let cur ← get
  skip ((cur.rest.take (column - cur.column)).takeWhile (· == ' ')).length

/-- The empty lines between lines that are indented to a column. -/
def emptyLines (column : Nat) : List Char → Scan (List Char)
  | [] => return []
  | _ :: bound => do
    skipTo column
    if (← peek).any isBreak then
      let b ← lineBreak
      return b ++ (← emptyLines column bound)
    else return []

/-- Whether a line of the scalar begins here. -/
def atLine (column : Nat) : Scan Bool := do
  let cur ← get
  return cur.column == column && !cur.rest.isEmpty

/-- The lines of a block scalar: their text, and the end of the last line and the empty lines
after it. -/
def blockLines (folded : Bool) (column : Nat) :
    List Char → Scan (List Char × List Char × List Char)
  | [] => return ([], [], [])
  | _ :: bound => do
    let indented := (← peek).any isSpace
    let line ← takeWhile (!isBreak ·)
    let ending ← lineBreak
    let between ← emptyLines column (← get).rest
    if ← atLine column then
      let joint :=
        if folded && ending == ['\n'] && !indented && !(← peek).any isSpace then
          if between.isEmpty then [' '] else []
        else ending
      let (text, last, after) ← blockLines folded column bound
      return (line ++ joint ++ between ++ text, last, after)
    else return (line, ending, between)

/-- A block scalar in a block that is indented to `parent`. -/
def block (parent : Int) : Scan String := do
  let folded := (← peek) == some '>'
  skip 1
  let (chomping, width) ← blockIndicators
  endLine
  let least := (max (parent + 1) 1).toNat
  let (column, before) ← match width with
    | some n => do
      let column := least + n - 1
      pure (column, ← emptyLines column (← get).rest)
    | none => do
      let (breaks, widest) ← leadingBreaks 0 (← get).rest
      pure (max least widest, breaks)
  let (text, ending, after) ←
    if ← atLine column then do
      let (text, ending, after) ← blockLines folded column (← get).rest
      pure (before ++ text, ending, after)
    else pure ([], [], before)
  return String.ofList (match chomping with
    | .strip => text
    | .clip => text ++ ending
    | .keep => text ++ ending ++ after)

end ToolCatalog.Yaml.Scan
