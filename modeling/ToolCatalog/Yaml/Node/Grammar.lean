import ToolCatalog.Yaml.Node
import ToolCatalog.Yaml.Token

/-!
# Nodes from tokens

The grammar of documents over tokens.  A node is an alias, a scalar, a flow or a block collection,
with an anchor and a tag in front of it in either order; where a node is left out an empty scalar
stands.  A text has at most one document.

A collection has its number from its start on, so that an alias inside it can stand for it.
-/

namespace ToolCatalog.Yaml

/-- The state of reading nodes: the tokens ahead, why they end early if they do, the nodes that are
complete, how many numbers have been given to nodes, and the numbers of the nodes with anchors. -/
structure Reading where
  tokens : List Token
  failure : Option Failure
  nodes : List (Nat × Node) := []
  count : Nat := 0
  anchors : List (String × Nat) := []
  handles : List (String × String) := []

/-- A step of reading nodes. -/
abbrev Read := StateT Reading (Except Failure)

namespace Read

def refuse {α : Type} : Read α := throw .malformed

/-- The next token; the end of the tokens is the failure that ended them. -/
def peek : Read Token := do
  let s ← get
  match s.tokens with
  | t :: _ => return t
  | [] => throw (s.failure.getD .malformed)

def next : Read Token := do
  let t ← peek
  modify fun s => { s with tokens := s.tokens.drop 1 }
  return t

/-- Take the given token if it is the next one. -/
def accept (t : Token) : Read Bool := do
  if (← peek) == t then
    let _ ← next
    return true
  else return false

/-- Require the given token. -/
def expect (t : Token) : Read Unit := do
  if !(← accept t) then refuse

/-- Whether the next token is one of the given ones. -/
def isNext (ts : List Token) : Read Bool := return ts.contains (← peek)

/-- What stands in front of a node. -/
structure Properties where
  anchor : Option String := none
  tag : Option TagName := none

/-- The anchor and the tag in front of a node, in either order. -/
def properties : Read Properties := do
  match ← peek with
  | .anchor a =>
    let _ ← next
    match ← peek with
    | .tag t => let _ ← next; return { anchor := some a, tag := some t }
    | _ => return { anchor := some a }
  | .tag t =>
    let _ ← next
    match ← peek with
    | .anchor a => let _ ← next; return { anchor := some a, tag := some t }
    | _ => return { tag := some t }
  | _ => return {}

/-- The full name of a tag.  The mark alone is no name: it leaves the type to be found. -/
def fullName (t : TagName) : Read (Option String) := do
  let name ← match t.handle with
    | some handle =>
      match (← get).handles.find? (·.1 == handle) with
      | some (_, expansion) => pure (expansion ++ t.suffix)
      | none => refuse
    | none => pure t.suffix
  return if name == "!" then none else some name

/-- The type of a scalar: by its tag, or by its form if it is plain or has the mark alone. -/
def scalarTag (name : Option String) (marked plain : Bool) (text : String) : Tag :=
  match name with
  | some n => Tag.ofName n
  | none => if plain || marked then Tag.implicit text else .text

/-- The type of a collection. -/
def collectionTag (name : Option String) (default : Tag) : Tag :=
  match name with
  | some n => Tag.ofName n
  | none => default

/-- Begin a node: it gets a number, which its anchor stands for from here on.  An anchor is used only
once. -/
def begin (anchor : Option String) : Read Nat := do
  let number := (← get).count
  modify fun s => { s with count := s.count + 1 }
  match anchor with
  | some a =>
    if (← get).anchors.any (·.1 == a) then refuse
    modify fun s => { s with anchors := (a, number) :: s.anchors }
  | none => pure ()
  return number

/-- Complete the node with a number. -/
def complete (number : Nat) (node : Node) : Read Nat := do
  modify fun s => { s with nodes := (number, node) :: s.nodes }
  return number

/-- A node without an anchor that is complete at once. -/
def add (node : Node) : Read Nat := do
  complete (← begin none) node

/-- The node an alias stands for. -/
def aliased (name : String) : Read Nat := do
  match (← get).anchors.find? (·.1 == name) with
  | some (_, number) => return number
  | none => refuse

/-- Where a node stands. -/
inductive Place where
  /-- In a block, where any node can be. -/
  | block
  /-- In a block mapping, where a sequence needs no indentation of its own. -/
  | entry
  /-- In a flow collection, where no block can be. -/
  | flow
deriving DecidableEq

mutual

/-- Read a node. -/
def node (place : Place) : Nat → Read Nat
  | 0 => refuse
  | fuel + 1 => do
    match ← peek with
    | .alias name => let _ ← next; aliased name
    | _ =>
      let p ← properties
      let name ← match p.tag with
        | some t => fullName t
        | none => pure none
      match ← peek with
      | .scalar plain text =>
        let _ ← next
        complete (← begin p.anchor) (.scalar (scalarTag name p.tag.isSome plain text) text)
      | .flowSequenceStart =>
        let _ ← next
        let number ← begin p.anchor
        let items ← flowItems true fuel
        complete number (.sequence (collectionTag name .sequence) items)
      | .flowMappingStart =>
        let _ ← next
        let number ← begin p.anchor
        let entries ← flowEntries true fuel
        complete number (.mapping (collectionTag name .mapping) entries)
      | .blockEntry =>
        if place == .entry then
          let number ← begin p.anchor
          let items ← looseItems fuel
          complete number (.sequence (collectionTag name .sequence) items)
        else bare p name
      | .blockSequenceStart =>
        if place == .flow then bare p name
        else
          let _ ← next
          let number ← begin p.anchor
          let items ← blockItems fuel
          complete number (.sequence (collectionTag name .sequence) items)
      | .blockMappingStart =>
        if place == .flow then bare p name
        else
          let _ ← next
          let number ← begin p.anchor
          let entries ← blockEntries fuel
          complete number (.mapping (collectionTag name .mapping) entries)
      | _ => bare p name
where
  /-- An anchor or a tag without a node has an empty scalar; nothing at all is no node. -/
  bare (p : Properties) (name : Option String) : Read Nat := do
    if p.anchor.isNone && p.tag.isNone then refuse
    complete (← begin p.anchor) (.scalar (scalarTag name p.tag.isSome true "") "")

/-- Read a node, or an absent one in front of one of the given tokens. -/
def optional (place : Place) (stops : List Token) : Nat → Read Nat
  | 0 => refuse
  | fuel + 1 => do
    if ← isNext stops then add .absent else node place fuel

/-- Read the value after a key, which may be left out with or without its mark. -/
def valueOf (place : Place) (stops : List Token) : Nat → Read Nat
  | 0 => refuse
  | fuel + 1 => do
    if ← accept .value then optional place stops fuel else add .absent

/-- Read the items of a block sequence up to its end. -/
def blockItems : Nat → Read (List Nat)
  | 0 => refuse
  | fuel + 1 => do
    if ← accept .blockEntry then
      let item ← optional .block [.blockEntry, .blockEnd] fuel
      return item :: (← blockItems fuel)
    else
      expect .blockEnd
      return []

/-- Read the items of a block sequence that is not indented. -/
def looseItems : Nat → Read (List Nat)
  | 0 => refuse
  | fuel + 1 => do
    if ← accept .blockEntry then
      let item ← optional .block [.blockEntry, .key, .value, .blockEnd] fuel
      return item :: (← looseItems fuel)
    else return []

/-- Read the entries of a block mapping up to its end. -/
def blockEntries : Nat → Read (List (Nat × Nat))
  | 0 => refuse
  | fuel + 1 => do
    if ← accept .key then
      let key ← optional .entry [.key, .value, .blockEnd] fuel
      let value ← valueOf .entry [.key, .value, .blockEnd] fuel
      return (key, value) :: (← blockEntries fuel)
    else
      expect .blockEnd
      return []

/-- Read the items of a flow sequence up to its end.  A key makes an item a mapping with a single
entry. -/
def flowItems (first : Bool) : Nat → Read (List Nat)
  | 0 => refuse
  | fuel + 1 => do
    if ← accept .flowSequenceEnd then return []
    else
      if !first then expect .flowEntry
      if ← accept .key then
        let key ← optional .flow [.value, .flowEntry, .flowSequenceEnd] fuel
        let value ← valueOf .flow [.flowEntry, .flowSequenceEnd] fuel
        let item ← add (.mapping .mapping [(key, value)])
        return item :: (← flowItems false fuel)
      else if ← accept .flowSequenceEnd then return []
      else
        let item ← node .flow fuel
        return item :: (← flowItems false fuel)

/-- Read the entries of a flow mapping up to its end.  A node without the mark of a key is a key
without a value. -/
def flowEntries (first : Bool) : Nat → Read (List (Nat × Nat))
  | 0 => refuse
  | fuel + 1 => do
    if ← accept .flowMappingEnd then return []
    else
      if !first then expect .flowEntry
      if ← accept .key then
        let key ← optional .flow [.value, .flowEntry, .flowMappingEnd] fuel
        let value ← valueOf .flow [.flowEntry, .flowMappingEnd] fuel
        return (key, value) :: (← flowEntries false fuel)
      else if ← accept .flowMappingEnd then return []
      else
        let key ← node .flow fuel
        let value ← add .absent
        return (key, value) :: (← flowEntries false fuel)

end

/-- The directives in front of a document: at most one version, of the first major one, and each
handle once. -/
def directives : Nat → Bool → List (String × String) → Read (List (String × String))
  | 0, _, _ => refuse
  | fuel + 1, versioned, handles => do
    match ← peek with
    | .directive d =>
      let _ ← next
      match d with
      | .version major _ =>
        if versioned || major != 1 then refuse else directives fuel true handles
      | .tag handle expansion =>
        if handles.any (·.1 == handle) then refuse
        else directives fuel versioned (handles ++ [(handle, expansion)])
      | .other => directives fuel versioned handles
    | _ => return handles

/-- The handles that need no directive. -/
def defaultHandles : List (String × String) := [("!", "!"), ("!!", Tag.standard)]

/-- Skip the marks of a document's end. -/
def skipEnds : Nat → Read Unit
  | 0 => return ()
  | fuel + 1 => do
    if ← accept .documentEnd then skipEnds fuel

/-- Require that nothing follows a document.  The beginning of another one is read before it is
refused. -/
def finish (fuel : Nat) : Read Unit := do
  skipEnds fuel
  if !(← accept .streamEnd) then
    let _ ← directives fuel false []
    expect .documentStart
    refuse

/-- Whether the content of a document is left out. -/
def isContentAbsent : Read Bool := do
  match ← peek with
  | .directive _ | .documentStart | .documentEnd | .streamEnd => return true
  | _ => return false

/-- Read a document after its directives and its mark. -/
def explicitDocument (fuel : Nat) : Read Nat := do
  let handles ← directives fuel false []
  expect .documentStart
  modify fun s => { s with handles := handles ++ defaultHandles }
  let root ← if ← isContentAbsent then add .absent else node .block fuel
  finish fuel
  return root

/-- Read the one document of a text, if it has one. -/
def document (fuel : Nat) : Read (Option Nat) := do
  match ← peek with
  | .streamEnd => return none
  | .directive _ | .documentStart => some <$> explicitDocument fuel
  | _ =>
    modify fun s => { s with handles := defaultHandles }
    let root ← node .block fuel
    finish fuel
    return some root

end Read

/-- **The one document that tokens spell**, if there is one.  Every step of the grammar takes a
token or is one of a few in a row that lead to one, which bounds their number. -/
def Graph.ofTokens (tokens : List Token) (failure : Option Failure) :
    Except Failure (Option Graph) := do
  let (root, s) ← (Read.document (4 * tokens.length + 8)).run { tokens, failure }
  return root.map fun root => { nodes := .ofList s.count s.nodes, root }

end ToolCatalog.Yaml
