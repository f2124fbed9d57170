import ToolCatalog.Schema.Keyword

/-!
# Putting schemas together

`fold` puts the keywords of one schema into another: properties and required names are united, and
for every other keyword either the newcomer wins or the first.  `finish` then puts the list of
required names in order: it holds no name twice, none that was left out, and none that may be null.
-/

namespace ToolCatalog.Schema

/-- A schema on its way to its final form, and the property names that were left out of it, so
that a schema around it can keep them out of its own required names. -/
structure Merged where
  schema : Value
  dropped : List Scalar
deriving Inhabited

/-- The same for a schema that is a mapping. -/
structure Parts where
  entries : Keyed Value
  dropped : List Scalar
deriving Inhabited

/-- A mapping as a schema. -/
def Parts.toMerged (p : Parts) : Merged := ⟨.map p.entries, p.dropped⟩

/-- The properties a schema has, if they are a mapping. -/
def propertiesOf (es : Keyed Value) : Keyed Value :=
  match Keyed.find? es (.text "properties") with
  | some (.map ps) => ps
  | _ => []

/-- The property mapping that further properties are added to.  A missing or empty one is a fresh
mapping; anything else that is not a mapping cannot be added to. -/
def openProperties (es : Keyed Value) : Except Fault (Keyed Value) :=
  match Keyed.find? es (.text "properties") with
  | some (.map ps) => .ok ps
  | some v => if v.truthy then .error .notCollection else .ok []
  | none => .ok []

/-- The required names that further names are added to. -/
def openRequired (es : Keyed Value) : List Value :=
  match Keyed.find? es (.text "required") with
  | some (.list names) => names
  | _ => []

/-- Put one keyword of a schema into another schema. -/
def foldEntry (overrides : Bool) (into : Keyed Value) (k : Scalar) (v : Value) :
    Except Fault (Keyed Value) :=
  match k, v with
  | .text "properties", .map ps => do
    let existing ← openProperties into
    return Keyed.put into k (.map (Keyed.putAll existing ps))
  | .text "required", .list names =>
    .ok (Keyed.put into k (.list (Value.union (openRequired into) names)))
  | k, v => .ok (if overrides || !Keyed.has into k then Keyed.put into k v else into)

/-- **Put the keywords of one schema into another.**  Properties and required names are united;
another keyword that both have is taken from the newcomer if it `overrides`, else it stays. -/
def fold (overrides : Bool) : Keyed Value → Keyed Value → Except Fault (Keyed Value)
  | into, [] => .ok into
  | into, (k, v) :: rest => do
    fold overrides (← foldEntry overrides into k v) rest

/-- Whether a required name goes: its property was left out or removed, or may be null. -/
def isWaived (settings : Settings) (properties : Keyed Value) (dropped : List Scalar)
    (name : Scalar) : Bool :=
  dropped.any name.same || settings.isRemoved name
    || (Keyed.find? properties name).any isNullable

/-- The required names that stay, after those in `kept`: no name twice and no waived one.  A
collection cannot be a name. -/
def keepRequired (settings : Settings) (properties : Keyed Value) (dropped : List Scalar) :
    List Value → List Value → Except Fault (List Value)
  | kept, [] => .ok kept
  | kept, name :: rest =>
    if name.isAmong kept then keepRequired settings properties dropped kept rest
    else match name with
      | .scalar k =>
        if isWaived settings properties dropped k then
          keepRequired settings properties dropped kept rest
        else keepRequired settings properties dropped (kept ++ [name]) rest
      | name =>
        if name.isKey then keepRequired settings properties dropped (kept ++ [name]) rest
        else .error .notKey

/-- **Put the required names in order** and keep account of the property names that are still
missing: a name left out in one part but defined in another is not. -/
def finish (settings : Settings) (p : Parts) : Except Fault Parts :=
  let properties := propertiesOf p.entries
  let missing := p.dropped.filter fun name => !Keyed.has properties name
  match Keyed.find? p.entries (.text "required") with
  | some (.list names) => do
    let kept ← keepRequired settings properties missing [] names
    return ⟨if kept.isEmpty then Keyed.without p.entries (.text "required")
      else Keyed.put p.entries (.text "required") (.list kept), missing⟩
  | _ => .ok ⟨p.entries, missing⟩

end ToolCatalog.Schema
