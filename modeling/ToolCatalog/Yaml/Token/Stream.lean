import ToolCatalog.Yaml.Token.Block
import ToolCatalog.Yaml.Token.Name
import ToolCatalog.Yaml.Token.Plain
import ToolCatalog.Yaml.Token.Quoted

/-!
# The tokens of a text

A text is cut into tokens from left to right.  Two things look back.  A change of indentation opens
or closes block collections.  And a colon may turn out to follow a key that has been read already:
the token of the key is then put in front of it, so the lexer remembers, for each flow collection it
is in, where a key could have begun.
-/

namespace ToolCatalog.Yaml

/-- A place where a key may have begun. -/
structure KeyPlace where
  /-- How many tokens stand before it. -/
  position : Nat
  /-- Whether a key has to be there, as nothing else can stand in this column. -/
  required : Bool
  line : Nat
  column : Nat
  index : Nat

/-- The state of cutting a text into tokens. -/
structure Lexer where
  cursor : Cursor
  /-- The column of the current block, below zero outside all blocks. -/
  indent : Int := -1
  /-- The columns of the blocks around it. -/
  outer : List Int := []
  /-- Whether a key may begin here. -/
  keyAllowed : Bool := true
  /-- The possible key of the innermost flow collection, or of the blocks outside all. -/
  place : Option KeyPlace := none
  /-- The possible keys of the flow collections around it, innermost first. -/
  outerPlaces : List (Option KeyPlace) := []
  /-- The tokens so far, last one first. -/
  tokens : List Token := []
  count : Nat := 0

/-- A step of cutting a text into tokens. -/
abbrev Lex := StateT Lexer (Except Failure)

namespace Lex

def refuse {α : Type} : Lex α := throw .malformed

def require (holds : Bool) : Lex Unit := if holds then return () else refuse

/-- Run a step of reading on the lexer's cursor. -/
def scan {α : Type} (step : Scan α) : Lex α := do
  let s ← get
  match step.run s.cursor with
  | .ok (a, cursor) => set { s with cursor }; return a
  | .error e => throw e

def inFlow : Lex Bool := return !(← get).outerPlaces.isEmpty

def emit (t : Token) : Lex Unit :=
  modify fun s => { s with tokens := t :: s.tokens, count := s.count + 1 }

/-- Put a token behind the first `position` ones. -/
def insert (position : Nat) (t : Token) : Lex Unit :=
  modify fun s =>
    let later := s.count - position
    { s with
      tokens := s.tokens.take later ++ t :: s.tokens.drop later
      count := s.count + 1 }

def allowKey (allowed : Bool) : Lex Unit := modify fun s => { s with keyAllowed := allowed }

/-- Give up the possible key of this collection; a required one must not be missing. -/
def dropPlace : Lex Unit := do
  match (← get).place with
  | some p => require !p.required
  | none => pure ()
  modify fun s => { s with place := none }

/-- Remember that a key may begin here. -/
def savePlace : Lex Unit := do
  let s ← get
  if s.keyAllowed then
    dropPlace
    modify fun s => { s with place := some {
      position := s.count
      required := s.outerPlaces.isEmpty && s.indent == s.cursor.column
      line := s.cursor.line
      column := s.cursor.column
      index := s.cursor.index } }

/-- Whether a key that began at a place can no longer end: it has to fit on one line and in 1024
characters. -/
def isStale (cursor : Cursor) (p : KeyPlace) : Bool :=
  p.line != cursor.line || 1024 < cursor.index - p.index

/-- Forget a possible key if it is stale. -/
def freshen (cursor : Cursor) (p : Option KeyPlace) : Lex (Option KeyPlace) := do
  match p with
  | some place =>
    if isStale cursor place then
      require !place.required
      return none
    else return p
  | none => return none

/-- Forget all possible keys that are stale. -/
def freshenAll : Lex Unit := do
  let s ← get
  let place ← freshen s.cursor s.place
  let outerPlaces ← s.outerPlaces.mapM (freshen s.cursor)
  modify fun s => { s with place, outerPlaces }

/-- The blocks that are still open in a column, and how many end before it. -/
def openBlocks (column : Int) (indent : Int) : List Int → Nat × Int × List Int
  | [] => (0, indent, [])
  | around :: outer =>
    if column < indent then
      let (closed, indent', outer') := openBlocks column around outer
      (closed + 1, indent', outer')
    else (0, indent, around :: outer)

/-- Close the blocks that are indented further than a column.  Inside flow collections indentation
has no meaning. -/
def closeBlocks (column : Int) : Lex Unit := do
  if !(← inFlow) then
    let s ← get
    let (closed, indent, outer) := openBlocks column s.indent s.outer
    set { s with indent, outer }
    for _ in List.range closed do emit .blockEnd

/-- Open a block in a column unless the current one is indented as far; tells whether it did. -/
def openBlock (column : Int) : Lex Bool := do
  let s ← get
  if s.indent < column then
    set { s with indent := column, outer := s.indent :: s.outer }
    return true
  else return false

/-- Skip blanks, comments and ends of lines up to the next token.  Outside flow collections a key
may begin on a new line.  The characters ahead bound the number of lines. -/
def toNextToken : List Char → Lex Unit
  | [] => return ()
  | _ :: bound => do
    scan (Scan.skipWhile (· == ' '))
    if (← scan Scan.peek) == some '#' then scan (Scan.skipWhile (!isBreak ·))
    let ending ← scan Scan.lineBreak
    if ending.isEmpty then return ()
    else
      if !(← inFlow) then allowKey true
      toNextToken bound

/-- A token that may be the beginning of a key. -/
def keyStart (step : Scan Token) : Lex Unit := do
  savePlace
  allowKey false
  emit (← scan step)

/-- The mark of a document's start or end, or a directive: all blocks end before it. -/
def betweenDocuments (step : Scan Token) : Lex Unit := do
  closeBlocks (-1)
  dropPlace
  allowKey false
  emit (← scan step)

/-- The start of a flow collection. -/
def flowStart (t : Token) : Lex Unit := do
  savePlace
  allowKey true
  modify fun s => { s with place := none, outerPlaces := s.place :: s.outerPlaces }
  scan (Scan.skip 1)
  emit t

/-- The end of a flow collection. -/
def flowEnd (t : Token) : Lex Unit := do
  dropPlace
  allowKey false
  match (← get).outerPlaces with
  | place :: outerPlaces => modify fun s => { s with place, outerPlaces }
  | [] => refuse
  scan (Scan.skip 1)
  emit t

/-- A comma in a flow collection. -/
def flowEntry : Lex Unit := do
  allowKey true
  dropPlace
  scan (Scan.skip 1)
  emit .flowEntry

/-- Outside flow collections, an indicator opens a block in its column; it must stand where a key
may begin. -/
def openBlockHere (start : Token) : Lex Unit := do
  if !(← inFlow) then
    require (← get).keyAllowed
    if ← openBlock (← get).cursor.column then emit start

/-- The dash of an entry of a block sequence. -/
def blockEntry : Lex Unit := do
  openBlockHere .blockSequenceStart
  allowKey true
  dropPlace
  scan (Scan.skip 1)
  emit .blockEntry

/-- The mark of a key that is written out. -/
def explicitKey : Lex Unit := do
  openBlockHere .blockMappingStart
  allowKey !(← inFlow)
  dropPlace
  scan (Scan.skip 1)
  emit .key

/-- The colon in front of a value.  If a key may have begun before it, that is where the key was,
and in a block where a mapping may have begun. -/
def valueMark : Lex Unit := do
  match (← get).place with
  | some p =>
    modify fun s => { s with place := none }
    insert p.position .key
    if !(← inFlow) then
      if ← openBlock p.column then insert p.position .blockMappingStart
    allowKey false
  | none =>
    openBlockHere .blockMappingStart
    allowKey !(← inFlow)
    dropPlace
  scan (Scan.skip 1)
  emit .value

/-- A block scalar. -/
def blockScalar : Lex Unit := do
  allowKey true
  dropPlace
  let indent := (← get).indent
  emit (.scalar false (← scan (Scan.block indent)))

/-- A plain scalar. -/
def plainScalar : Lex Unit := do
  savePlace
  let indent := (← get).indent
  let (text, keyMayFollow) ← scan (Scan.plain (← inFlow) indent)
  allowKey keyMayFollow
  emit (.scalar true text)

/-- Take one token, or several if blocks end.  Tells whether the text has ended. -/
def step : Lex Bool := do
  toNextToken (← get).cursor.rest
  freshenAll
  closeBlocks (← get).cursor.column
  let cur := (← get).cursor
  let flow ← inFlow
  match cur.rest with
  | [] =>
    closeBlocks (-1)
    dropPlace
    emit .streamEnd
    return true
  | c :: _ =>
    let marksHere := flow || cur.gapAhead 1
    if c == '%' && cur.column == 0 then betweenDocuments (.directive <$> Scan.directive)
    else if c == '-' && cur.column == 0 && cur.atDocumentMark then
      betweenDocuments (do Scan.skip 3; return .documentStart)
    else if c == '.' && cur.column == 0 && cur.atDocumentMark then
      betweenDocuments (do Scan.skip 3; return .documentEnd)
    else if c == '[' then flowStart .flowSequenceStart
    else if c == '{' then flowStart .flowMappingStart
    else if c == ']' then flowEnd .flowSequenceEnd
    else if c == '}' then flowEnd .flowMappingEnd
    else if c == ',' then flowEntry
    else if c == '-' && cur.gapAhead 1 then blockEntry
    else if c == '?' && marksHere then explicitKey
    else if c == ':' && marksHere then valueMark
    else if c == '*' then keyStart (.alias <$> Scan.anchorName)
    else if c == '&' then keyStart (.anchor <$> Scan.anchorName)
    else if c == '!' then keyStart (.tag <$> Scan.tagName)
    else if c == '|' && !flow then blockScalar
    else if c == '>' && !flow then blockScalar
    else if c == '\'' || c == '"' then keyStart (.scalar false <$> Scan.quoted c)
    else if Scan.beginsPlain flow cur then plainScalar
    else refuse
    return false

/-- The tokens that are settled: those in front of the first place where a key may have begun.  What
comes behind it has to wait for the colon that tells. -/
def settled (s : Lexer) : List Token :=
  let places := (s.place :: s.outerPlaces).filterMap (·.filter (!isStale s.cursor ·))
  s.tokens.reverse.take (places.foldl (fun n p => min n p.position) s.count)

/-- Take tokens up to the end of the text, at most `fuel` times.  Gives the tokens and, if the text
could not be cut up to its end, why; of the tokens before such a place only the settled ones. -/
def steps : Nat → Lexer → List Token × Option Failure
  | 0, s => (settled s, some .malformed)
  | fuel + 1, s =>
    match step.run s with
    | .ok (true, s') => (s'.tokens.reverse, none)
    | .ok (false, s') => steps fuel s'
    | .error e => (settled s, some e)

end Lex

/-- **The tokens of a text**, and what keeps the rest of the text from being cut into tokens.  Each
step takes a character at least, so the length of the text bounds their number. -/
def tokens (text : String) : List Token × Option Failure :=
  let cs := text.toList
  if cs.all isAllowed then
    let body := match cs with
      | '\uFEFF' :: rest => rest
      | _ => cs
    Lex.steps (cs.length + 2) { cursor := { rest := body } }
  else ([], some .malformed)

end ToolCatalog.Yaml
