import ToolCatalog.Yaml.Node.Merge
import ToolCatalog.Yaml.Object
import ToolCatalog.Yaml.Scalar

/-!
# Building objects

The objects of a document are built from the outside in.  A collection is empty at first and waits
to be filled; the collections in it then wait behind all that were waiting before.  So of two
failures the one at the lesser depth counts, and of two at one depth the first.  A scalar is made
when it is met.  A node that is met again stands for the object it has already.
-/

namespace ToolCatalog.Yaml

/-- The state of building the objects of a document. -/
structure Building where
  nodes : Nodes
  objects : Array (Option Object)
  /-- The collections that wait to be filled, last one first. -/
  waiting : List Nat := []
  /-- The bound for taking over entries. -/
  mergeBound : Nat

/-- A step of building. -/
abbrev Build := StateT Building (Except Failure)

namespace Build

def refuse {α : Type} : Build α := throw .malformed

def nodeAt (n : Nat) : Build Node := return (← get).nodes.node n

/-- The object of a node, if it has one already. -/
def objectAt? (n : Nat) : Build (Option Object) := return (← get).objects[n]?.join

/-- Give a node its object. -/
def store (n : Nat) (o : Object) : Build Unit :=
  modify fun s => { s with objects := s.objects.setIfInBounds n (some o) }

/-- A collection that waits to be filled, if a type is that of collections. -/
def emptyOf? : Tag → Option Object
  | .sequence => some (.list [])
  | .mapping => some (.map [])
  | .set => some (.set [])
  | .orderedMap | .pairs => some (.pairs [])
  | _ => none

/-- The text that a scalar type reads: that of a scalar, or that of the scalar which stands under the
key `=` of a mapping. -/
def textAt : Nat → Nat → Build String
  | 0, _ => refuse
  | fuel + 1, n => do
    match ← nodeAt n with
    | .scalar _ text => return text
    | .sequence _ _ => refuse
    | .mapping _ entries =>
      let nodes := (← get).nodes
      match entries.find? fun e => nodes.tagAt e.1 == .value with
      | some (_, value) => textAt fuel value
      | none => refuse

/-- The scalar of a node.  A timestamp is read from the node itself, which has to be a scalar. -/
def scalarAt (n : Nat) : Build Scalar := do
  let node ← nodeAt n
  let text ← textAt ((← get).nodes.size + 1) n
  match node.tag, node with
  | .timestamp, .mapping _ _ => throw .structuredTimestamp
  | tag, _ => tag.read n text

/-- Begin the object of a node unless it has one. -/
def meet (n : Nat) : Build Unit := do
  if (← objectAt? n).isNone then
    match emptyOf? (← nodeAt n).tag with
    | some o =>
      store n o
      modify fun s => { s with waiting := n :: s.waiting }
    | none => store n (.scalar (← scalarAt n))

/-- The key that a node is.  A collection cannot be one. -/
def keyAt (n : Nat) : Build Scalar := do
  meet n
  match ← objectAt? n with
  | some (.scalar k) => return k
  | _ => refuse

/-- The entries of a mapping, with those it takes over. -/
def entriesAt (n : Nat) : Build (List (Scalar × Nat)) := do
  let s ← get
  let (entries, nodes) ← (do
    Rework.settle s.mergeBound n
    Rework.entriesAt n : Rework (List (Nat × Nat))).run s.nodes
  set { s with nodes }
  entries.mapM fun e => do
    let k ← keyAt e.1
    meet e.2
    return (k, e.2)

/-- The one entry that a mapping in an ordered mapping has. -/
def pairAt (n : Nat) : Build (Nat × Nat) := do
  match ← nodeAt n with
  | .mapping _ [(key, value)] =>
    meet key
    meet value
    return (key, value)
  | _ => refuse

/-- Fill a collection from its node. -/
def fill (n : Nat) : Build Unit := do
  match ← objectAt? n, ← nodeAt n with
  | some (.list _), .sequence _ items =>
    items.forM meet
    store n (.list items)
  | some (.map _), .mapping _ _ => store n (.map (Keyed.ofList (← entriesAt n)))
  | some (.set _), .mapping _ _ => store n (.set (Keyed.ofList (← entriesAt n)).keys)
  | some (.pairs _), .sequence _ items => store n (.pairs (← items.mapM pairAt))
  | _, _ => refuse

/-- Fill all collections that wait, in rounds: those that begin to wait in one are filled in the
next. -/
def fillAll : Nat → Build Unit
  | 0 => return ()
  | rounds + 1 => do
    let batch := (← get).waiting.reverse
    if !batch.isEmpty then
      modify fun s => { s with waiting := [] }
      batch.forM fill
      fillAll rounds

end Build

/-- **The objects of a document.**  In every round a collection is filled that was not, so their
number bounds the rounds. -/
def Objects.ofGraph (g : Graph) : Except Failure Objects := do
  let start : Building := {
    nodes := g.nodes
    objects := Array.replicate g.nodes.size none
    mergeBound := g.nodes.mergeBound }
  let (_, s) ← (do Build.meet g.root; Build.fillAll (g.nodes.size + 1) : Build Unit).run start
  return s.objects.map (·.getD (.scalar .null))

end ToolCatalog.Yaml
