import ToolCatalog.Value.Keyed

/-!
# Values

A document is a tree of values: scalars, lists and mappings.  Two more kinds come only from tagged
YAML, pairs (the entries of an ordered mapping) and sets; no rule on schemas looks inside them.
Mappings keep their entries in order.

A YAML document may also hold itself: an alias may stand inside the node it names.  Such a tree has
no end, so the collections on the way to the alias are `part`s: each has a number, by which it is
known when it is met again, and a body that is made when it is looked into.  Every question about a
value sees through parts.

This file has the type, the induction principle for it, equality up to the order of entries, and
the conditions that rules ask of a value: whether it counts as true, whether it may be a key.
-/

namespace ToolCatalog

/-- A value of a document. -/
inductive Value where
  | scalar (s : Scalar)
  | list (items : List Value)
  | map (entries : List (Scalar × Value))
  | pair (first second : Value)
  | set (members : List Scalar)
  /-- A collection that leads back to itself, or to one that does. -/
  | part (number : Nat) (body : Unit → Value)
deriving Inhabited

namespace Value

@[match_pattern] abbrev null : Value := .scalar .null
@[match_pattern] abbrev bool (b : Bool) : Value := .scalar (.bool b)
@[match_pattern] abbrev int (i : Int) : Value := .scalar (.int i)
@[match_pattern] abbrev text (s : String) : Value := .scalar (.text s)

/-- **Induction on values**, their lists of items and their lists of entries together. -/
theorem induction_on {motive : Value → Prop} {items : List Value → Prop}
    {entries : List (Scalar × Value) → Prop} (v : Value)
    (scalar : ∀ s, motive (.scalar s))
    (list : ∀ vs, items vs → motive (.list vs))
    (map : ∀ es, entries es → motive (.map es))
    (pair : ∀ a b, motive a → motive b → motive (.pair a b))
    (set : ∀ ms, motive (.set ms))
    (part : ∀ n body, motive (body ()) → motive (.part n body))
    (nil : items []) (cons : ∀ v vs, motive v → items vs → items (v :: vs))
    (noEntries : entries [])
    (entry : ∀ k v es, motive v → entries es → entries ((k, v) :: es)) : motive v :=
  @Value.rec motive items entries (fun e => motive e.2) scalar list map pair set
    (fun n body h => part n body (h ())) nil cons noEntries
    (fun head tail h t => entry head.1 head.2 tail h t) (fun _ _ h => h) v

/-- A value as it is under the parts around it. -/
def opened : Value → Value
  | .part _ body => (body ()).opened
  | v => v

/-- Whether a value is the part with a number. -/
def isPart (number : Nat) : Value → Bool
  | .part n _ => n == number
  | _ => false

mutual

/-- **Equality of values**: mappings are compared without regard to the order of their entries, and
a part is the same as itself. -/
def same : Value → Value → Bool
  | .scalar s, w =>
    match w.opened with
    | .scalar t => s.same t
    | _ => false
  | .list vs, w =>
    match w.opened with
    | .list ws => sameItems vs ws
    | _ => false
  | .map es, w =>
    match w.opened with
    | .map fs => es.length == fs.length && sameEntries es fs
    | _ => false
  | .pair a b, w =>
    match w.opened with
    | .pair c d => a.same c && b.same d
    | _ => false
  | .set ms, w =>
    match w.opened with
    | .set ns => ms.length == ns.length && ms.all fun m => ns.any m.same
    | _ => false
  | .part n body, w => w.isPart n || (body ()).same w

/-- Equality item by item. -/
def sameItems : List Value → List Value → Bool
  | [], [] => true
  | v :: vs, w :: ws => v.same w && sameItems vs ws
  | _, _ => false

/-- Whether every entry of the first list has an equal entry in the second. -/
def sameEntries : List (Scalar × Value) → List (Scalar × Value) → Bool
  | [], _ => true
  | (k, v) :: rest, fs =>
    (match Keyed.find? fs k with
      | some w => v.same w
      | none => false) && sameEntries rest fs

end

/-- Whether a value counts as true in a condition: an empty collection does not. -/
def truthy : Value → Bool
  | .scalar s => s.truthy
  | .list vs => !vs.isEmpty
  | .map es => !es.isEmpty
  | .pair _ _ => true
  | .set ms => !ms.isEmpty
  | .part _ body => (body ()).truthy

/-- The value itself if it counts as true, else the given one. -/
def orElse (v w : Value) : Value := if v.truthy then v else w

/-- Whether a value may serve as a key or be looked up among keys: collections may not, and a part is
a collection. -/
def isKey : Value → Bool
  | .scalar _ => true
  | .pair a b => a.isKey && b.isKey
  | .list _ | .map _ | .set _ | .part _ _ => false

/-- Whether an equal value is among the given ones. -/
def isAmong (v : Value) (vs : List Value) : Bool := vs.any v.same

/-- Append a value unless an equal one is there. -/
def addNew (vs : List Value) (v : Value) : List Value :=
  if v.isAmong vs then vs else vs ++ [v]

/-- Append those of the values that have no equal yet. -/
def union (vs ws : List Value) : List Value := ws.foldl addNew vs

/-- The entry of a mapping under a name, null if there is none. -/
def field (es : Keyed Value) (name : String) : Value := (es.find? (.text name)).getD .null

/-- A mapping from names. -/
def record (fields : List (String × Value)) : Value :=
  .map (fields.map fun f => (.text f.1, f.2))

/-- What a value has under a name, if it is a mapping. -/
def get? (v : Value) (name : String) : Option Value :=
  match v.opened with
  | .map es => Keyed.find? es (.text name)
  | _ => none

/-- A text as a text: either it is one or it is its encoded bytes. -/
def text? : Value → Option String
  | .text s => some s
  | .scalar (.bytes bs) => String.fromUTF8? ⟨bs.toArray⟩
  | _ => none

end Value

end ToolCatalog
