import ToolCatalog.Fault

/-!
# Looking into values

The questions that rules ask of a value without knowing its kind: its fields, its items, whether
a text is in it and what is under that text.  A value of a kind that cannot answer is a fault.
-/

namespace ToolCatalog.Value

/-- The entries of a mapping. -/
def fields (v : Value) : Except Fault (Keyed Value) :=
  match v.opened with
  | .map es => .ok es
  | _ => .error .notMapping

/-- The bytes of a value as integers. -/
def ofByte (b : UInt8) : Value := .int b.toNat

/-- The items of a collection: the keys of a mapping, the characters of a text. -/
def items : Value → Except Fault (List Value)
  | .list vs => .ok vs
  | .map es => .ok (es.map fun e => .scalar e.1)
  | .text s => .ok (s.toList.map fun c => .text (String.ofList [c]))
  | .scalar (.bytes bs) => .ok (bs.map ofByte)
  | .pair a b => .ok [a, b]
  | .set ms => .ok (ms.map .scalar)
  | .part _ body => (body ()).items
  | .scalar _ => .error .notCollection

/-- Whether one list of characters occurs in another as a run of neighbours. -/
def occursIn (needle : List Char) : List Char → Bool
  | [] => needle.isEmpty
  | c :: cs => needle.isPrefixOf (c :: cs) || occursIn needle cs

/-- Whether a text is in a value: as a key of a mapping, as an item of a list, as a part of a
text. -/
def holds (name : String) : Value → Except Fault Bool
  | .map es => .ok (Keyed.has es (.text name))
  | .list vs => .ok (vs.any (same (.text name)))
  | .pair a b => .ok ([a, b].any (same (.text name)))
  | .set ms => .ok (ms.any (Scalar.same (.text name)))
  | .text s => .ok (occursIn name.toList s.toList)
  | .part _ body => (body ()).holds name
  | .scalar _ => .error .notSearchable

/-- What is under a text that is in the value; only mappings have something under a text. -/
def under (name : String) (v : Value) : Except Fault Value :=
  match v.opened with
  | .map es =>
    match Keyed.find? es (.text name) with
    | some v => .ok v
    | none => .error .missingEntry
  | _ => .error .notSearchable

/-- A value used as an entry of a mapping to be built: two items, the first of which may be a
key.  A pair may be one too; as nothing is ever looked up under a pair, null stands for it. -/
def asEntry (v : Value) : Except Fault (Scalar × Value) :=
  match v.items with
  | .error e => .error e
  | .ok [k, w] =>
    match k with
    | .scalar s => .ok (s, w)
    | k => if k.isKey then .ok (.null, w) else .error .notKey
  | .ok _ => .error .notEntry

/-- A value used as a mapping: it is one, or its items are entries. -/
def toEntries (v : Value) : Except Fault (Keyed Value) :=
  match v.opened with
  | .map es => .ok es
  | v => do
    let es ← (← v.items).mapM asEntry
    return Keyed.ofList es

/-- Whether the first scalar sorts before the second.  Numbers are ordered by value, texts and bytes
by code, calendar values in time. -/
def lessScalar (s t : Scalar) : Except Fault Bool :=
  match s, t with
  | .text a, .text b => .ok (a < b)
  | .bytes a, .bytes b => .ok (decide (a < b))
  | .date a, .date b => .ok (a.toDays < b.toDays)
  | .timestamp a, .timestamp b =>
    if a.offset.isSome == b.offset.isSome then .ok (a.toMicroseconds < b.toMicroseconds)
    else .error .notOrdered
  | .float x, .float y => .ok (x.less y)
  | .float x, t =>
    match t.integer? with
    | some j => .ok (x.less (Binary64.ofInt j))
    | none => .error .notOrdered
  | s, .float y =>
    match s.integer? with
    | some i => .ok ((Binary64.ofInt i).less y)
    | none => .error .notOrdered
  | s, t =>
    match s.integer?, t.integer? with
    | some i, some j => .ok (i < j)
    | _, _ => .error .notOrdered

mutual

/-- Whether the first value sorts before the second: scalars by `lessScalar`, lists by their first
difference, sets by inclusion. -/
def less : Value → Value → Except Fault Bool
  | .scalar s, w =>
    match w.opened with
    | .scalar t => lessScalar s t
    | _ => .error .notOrdered
  | .list vs, w =>
    match w.opened with
    | .list ws => lessItems vs ws
    | _ => .error .notOrdered
  | .pair a b, w =>
    match w.opened with
    | .pair c d => if a.same c then b.less d else a.less c
    | _ => .error .notOrdered
  | .set ms, w =>
    match w.opened with
    | .set ns => .ok (ms.length < ns.length && ms.all fun m => ns.any m.same)
    | _ => .error .notOrdered
  | .map _, _ => .error .notOrdered
  | .part _ body, w => (body ()).less w

/-- The order of two lists by their first difference; a shorter one comes first. -/
def lessItems : List Value → List Value → Except Fault Bool
  | _, [] => .ok false
  | [], _ :: _ => .ok true
  | v :: vs, w :: ws => if v.same w then lessItems vs ws else v.less w

end

/-- Where a value belongs among the places from `low` to `high` of a sorted list, behind those that
do not sort after it, found by halving. -/
def placeIn (sorted : Array Value) (v : Value) (low high : Nat) : Except Fault Nat :=
  if h : low < high then do
    let middle := low + (high - low) / 2
    if ← v.less (sorted.getD middle .null) then placeIn sorted v low middle
    else placeIn sorted v (middle + 1) high
  else .ok low
termination_by high - low

/-- Put a value into a sorted list. -/
def insertSorted (sorted : List Value) (v : Value) : Except Fault (List Value) := do
  let place ← placeIn sorted.toArray v 0 sorted.length
  return sorted.take place ++ v :: sorted.drop place

/-- The beginning of a list that goes on in one direction from the value before it, and the rest. -/
def cutRun (falls : Bool) (last : Value) : List Value → Except Fault (List Value × List Value)
  | [] => .ok ([], [])
  | v :: vs => do
    if (← v.less last) == falls then
      let (run, rest) ← cutRun falls v vs
      return (v :: run, rest)
    else return ([], v :: vs)

/-- **The values in order**; values that cannot be compared are a fault.  The list begins with a run
that rises or falls; turned to rise, it is what the others are put into, one after another. -/
def sorted : List Value → Except Fault (List Value)
  | [] => .ok []
  | [v] => .ok [v]
  | v :: w :: rest => do
    let falls ← w.less v
    let (run, others) ← cutRun falls w rest
    let start := v :: w :: run
    others.foldlM insertSorted (if falls then start.reverse else start)

end ToolCatalog.Value
