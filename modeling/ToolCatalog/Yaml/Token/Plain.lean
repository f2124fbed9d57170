import ToolCatalog.Yaml.Token

/-!
# Plain scalars

A plain scalar is text without quotes.  It ends before a colon or a comment that a gap sets off,
before a line that is indented too little and, inside flow collections, before their marks.
-/

namespace ToolCatalog.Yaml.Scan

/-- The marks of flow collections. -/
def isFlowMark (c : Char) : Bool := ",[]\x7b\x7d".toList.contains c

/-- Whether a colon that is followed by these characters ends a plain scalar. -/
def colonEnds (inFlow : Bool) (after : List Char) : Bool :=
  match after with
  | [] => true
  | c :: _ => isGap c || (inFlow && isFlowMark c)

/-- The characters of a plain scalar up to the next gap. -/
def plainRun (inFlow : Bool) : List Char → List Char
  | [] => []
  | c :: rest =>
    if isGap c || (c == ':' && colonEnds inFlow rest) || (inFlow && (isFlowMark c || c == '?'))
    then []
    else c :: plainRun inFlow rest

/-- Whether plain text can begin with a character. -/
def beginsPlain (inFlow : Bool) (cur : Cursor) : Bool :=
  match cur.rest with
  | [] => false
  | c :: _ =>
    !(isGap c || "-?:,[]\x7b\x7d#&*!|>'\"%@\x60".toList.contains c)
      || (!cur.gapAhead 1 && (c == '-' || (!inFlow && (c == '?' || c == ':'))))

/-- The empty lines within a plain scalar.  Nothing is given if the mark of a document is met.  The
characters ahead bound the number of steps. -/
def plainBreaks : List Char → Scan (Option (List Char))
  | [] => return some []
  | _ :: bound => do
    match ← peek with
    | some c =>
      if c == ' ' then
        skip 1
        plainBreaks bound
      else if isBreak c then
        let b ← lineBreak
        if (← get).atDocumentMark then return none
        else return (← plainBreaks bound).map (b ++ ·)
      else return some []
    | none => return some []

/-- The gap ahead within a plain scalar: what it reads as, and whether it has the end of a line.
An empty gap ends the scalar. -/
def plainGap : Scan (List Char × Bool) := do
  let blanks ← takeWhile (· == ' ')
  if (← peek).any isBreak then
    let first ← lineBreak
    if (← get).atDocumentMark then return ([], true)
    else
      match ← plainBreaks (← get).rest with
      | none => return ([], true)
      | some others =>
        if first != ['\n'] then return (first ++ others, true)
        else if others.isEmpty then return ([' '], true)
        else return (others, true)
  else return (blanks, false)

/-- The runs of a plain scalar whose lines reach at least to a column, after a gap.  The flag says
whether the last gap had the end of a line, so that a key may follow. -/
def plainRuns (inFlow : Bool) (column : Nat) (gap : List Char) (broken : Bool) :
    List Char → Scan (List Char × Bool)
  | [] => return ([], broken)
  | _ :: bound => do
    let run := plainRun inFlow (← get).rest
    if run.isEmpty then return ([], broken)
    else
      skip run.length
      let (next, broken) ← plainGap
      let cur ← get
      if next.isEmpty || cur.rest.head? == some '#' || (!inFlow && cur.column < column) then
        return (gap ++ run, broken)
      else
        let (text, broken) ← plainRuns inFlow column next broken bound
        return (gap ++ run ++ text, broken)

/-- A plain scalar in a block that is indented to `parent`, and whether a key may follow it. -/
def plain (inFlow : Bool) (parent : Int) : Scan (String × Bool) := do
  let (text, broken) ← plainRuns inFlow (parent + 1).toNat [] false (← get).rest
  return (String.ofList text, broken)

end ToolCatalog.Yaml.Scan
