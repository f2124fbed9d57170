import ToolCatalog.Value.Basic

/-!
# Objects

What the nodes of a document stand for.  Like nodes, objects are known by numbers: an object that
two aliases stand for is in two places, and one may hold itself.  `valueOf` makes the value of an
object.  An object that leads to no cycle has a value without parts, made once; on the way to a
cycle every object is a part.
-/

namespace ToolCatalog.Yaml

/-- What a node stands for; the objects in it are given by their numbers. -/
inductive Object where
  | scalar (s : Scalar)
  | list (items : List Nat)
  | map (entries : Keyed Nat)
  /-- The entries of an ordered mapping. -/
  | pairs (entries : List (Nat × Nat))
  | set (members : List Scalar)
deriving Inhabited

namespace Object

/-- The objects in an object. -/
def inner : Object → List Nat
  | scalar _ | set _ => []
  | list items => items
  | map es => es.map (·.2)
  | pairs es => es.flatMap fun e => [e.1, e.2]

/-- The value of an object, given those of the objects in it. -/
def toValue (valueOf : Nat → Value) : Object → Value
  | scalar s => .scalar s
  | list items => .list (items.map valueOf)
  | map es => .map (es.map fun e => (e.1, valueOf e.2))
  | pairs es => .list (es.map fun e => .pair (valueOf e.1) (valueOf e.2))
  | set ms => .set ms

end Object

/-- The objects of a document, by number. -/
abbrev Objects := Array Object

namespace Objects

/-- What is known of an object while the objects in it are visited. -/
inductive Visit where
  | ahead
  /-- Its visit has begun. -/
  | begun
  /-- It leads to a cycle. -/
  | knotted
  | tree (v : Value)
deriving Inhabited

/-- What is known of the object with a number. -/
def Visit.of (visits : Array Visit) (n : Nat) : Visit := visits[n]?.getD .knotted

/-- The value of an object that leads to no cycle. -/
def Visit.value? : Visit → Option Value
  | tree v => some v
  | _ => none

/-- What is known of an object once the objects in it have been visited. -/
def conclude (o : Object) (visits : Array Visit) : Visit :=
  if o.inner.all fun n => (Visit.of visits n).value?.isSome then
    .tree (o.toValue fun n => (Visit.of visits n).value?.getD .null)
  else .knotted

/-- Visit an object and the objects in it.  One whose visit has begun is met again only on a
cycle. -/
def visit (objects : Objects) : Nat → Nat → StateM (Array Visit) Unit
  | 0, _ => return ()
  | fuel + 1, n => do
    match Visit.of (← get) n, objects[n]? with
    | .ahead, some o =>
      modify fun visits => visits.setIfInBounds n .begun
      o.inner.forM (visit objects fuel)
      modify fun visits => visits.setIfInBounds n (conclude o visits)
    | _, _ => return ()

/-- What is known of all objects once the one with the given number has been visited. -/
def visitsFrom (objects : Objects) (root : Nat) : Array Visit :=
  ((visit objects (objects.size + 1) root).run (Array.replicate objects.size .ahead)).2

/-- The value of an object.  Parts are made inside each other at most `levels` times. -/
def valueWithin (objects : Objects) (visits : Array Visit) : Nat → Nat → Value
  | 0, _ => .null
  | levels + 1, n =>
    match (Visit.of visits n).value?, objects[n]? with
    | some v, _ => v
    | none, some o => .part n fun _ => o.toValue (valueWithin objects visits levels)
    | none, none => .null

/-- More levels than a text of any length can name. -/
def maxLevels : Nat := Nat.pow 2 62

/-- **The value of the object with a number.** -/
def valueOf (objects : Objects) (root : Nat) : Value :=
  valueWithin objects (visitsFrom objects root) maxLevels root

end Objects

end ToolCatalog.Yaml
