import ToolCatalog.Outcome
import ToolCatalog.Schema.Fold
import ToolCatalog.Schema.Reference

/-!
# Merging schemas

A schema of a document refers to others, is composed of parts by `allOf`, and carries entries that
no tool should see.  Merging gives the one concrete schema it stands for.

* A deprecated mapping becomes the empty schema.
* A mapping with `$ref` becomes its target, overlaid with the keywords beside the reference.
* A mapping with `allOf` becomes its other keywords with the parts folded in, one after another.
* Any other mapping keeps its keywords, without vendor extensions and without excluded properties,
  and what stands under each keyword is merged in turn.

What stands under a keyword is merged in the `Role` that the keyword gives it, by `mergeAs`.  This is
the recursion on the node alone: how a reference is resolved is a parameter, so the recursion is
structural.  `resolveFrom` ties the knot.  It carries the references that are open and a bound on
how many more can be opened; `merge` and `resolve` take that bound from the references that the
document and the node spell, and it is never what ends a resolution.
-/

namespace ToolCatalog.Schema

/-- Drop required names that are not a list; parts folded in later may bring a list. -/
def withoutStrayRequired (es : Keyed Value) : Keyed Value :=
  match Keyed.find? es (.text "required") with
  | none | some (.list _) => es
  | some _ => Keyed.without es (.text "required")

/-- Whether a mapping is composed of parts. -/
def isComposed (es : Keyed Value) : Bool :=
  match (Keyed.find? es (.text "allOf")).map Value.opened with
  | some (.list _) => true
  | _ => false

/-- Whether a mapping is a reference. -/
def isReference (es : Keyed Value) : Bool := (reference? (.map es)).isSome

/-- Whether a mapping has keywords beside its reference. -/
def hasSiblings (es : Keyed Value) : Bool := es.any fun e => e.1 != .text "$ref"

/-- The keywords of a mapping that are not merged as such: the reference it is and the list of
parts it is composed of. -/
def isStructural (es : Keyed Value) (k : Scalar) : Bool :=
  (isReference es && k == .text "$ref") || (isComposed es && k == .text "allOf")

/-- Bring the own keywords of a mapping into final form and, if it is composed, fold its parts
into them. -/
def compose (settings : Settings) (es : Keyed Value) (own : Parts)
    (foldParts : Parts → Outcome Parts) : Outcome Parts := do
  let rest ← finish settings own
  if isComposed es then
    let whole ← foldParts ⟨withoutStrayRequired rest.entries, rest.dropped⟩
    finish settings whole
  else return rest

/-- Overlay the target of a reference with the keywords beside the reference.  A target that is
not a mapping is not touched, and neither is one whose reference stands alone. -/
def overlay (settings : Settings) (es : Keyed Value) (target : Merged)
    (beside : Unit → Outcome Parts) : Outcome Merged :=
  match target.schema with
  | .map base =>
    if hasSiblings es then do
      let own ← beside ()
      let whole ← fold true base own.entries
      let done ← finish settings ⟨whole, target.dropped ++ own.dropped⟩
      return done.toMerged
    else return target
  | _ => return target

section

variable (settings : Settings) (follow : String → Outcome Merged)
  (deprecated : Value → Except Fault Bool)

mutual

/-- Merge what has a role, resolving references with `follow`.  Data stays as it is; a mapping of
properties or of other names has their schemas merged; anything else is merged as a schema. -/
def mergeAs (role : Role) : Value → Outcome Merged
  | .part n body =>
    match role with
    | .literal => pure ⟨.part n body, []⟩
    | role => mergeAs role (body ())
  | .list vs =>
    match role with
    | .literal => pure ⟨.list vs, []⟩
    | _ => do
      let ws ← mergeItems vs
      return ⟨.list ws, []⟩
  | .map es =>
    match role with
    | .literal => pure ⟨.map es, []⟩
    | .properties => do
      let ps ← mergeProperties es
      return ps.toMerged
    | .names => do
      let ns ← mergeNamed es
      return ⟨.map ns, []⟩
    | .schema =>
      if Settings.isDeprecated es then pure ⟨.map [], []⟩
      else
        let beside := fun (_ : Unit) => do
          let own ← mergeEntries (isStructural es) es
          compose settings es own fun rest => mergeBranchesIn es rest
        match reference? (.map es) with
        | some ref => do
          let target ← follow ref
          overlay settings es target beside
        | none => do
          let whole ← beside ()
          return whole.toMerged
  | v => pure ⟨v, []⟩

/-- Merge the items of a list as schemas. -/
def mergeItems : List Value → Outcome (List Value)
  | [] => pure []
  | v :: vs => do
    let merged ← mergeAs .schema v
    let ws ← mergeItems vs
    return merged.schema :: ws

/-- Fold what stands under `allOf` into a schema. -/
def mergeBranchesIn : List (Scalar × Value) → Parts → Outcome Parts
  | [], into => pure into
  | (k, v) :: rest, into =>
    if k = .text "allOf" then mergeBranchesOf v into else mergeBranchesIn rest into

/-- Fold parts into a schema, if they are a list. -/
def mergeBranchesOf : Value → Parts → Outcome Parts
  | .part _ body, into => mergeBranchesOf (body ()) into
  | .list branches, into => mergeBranches branches into
  | _, into => pure into

/-- Fold parts into a schema, one after another. -/
def mergeBranches : List Value → Parts → Outcome Parts
  | [], into => pure into
  | b :: bs, into => do
    let branch ← mergeAs .schema b
    let dropped := into.dropped ++ branch.dropped
    match branch.schema with
    | .map es =>
      let entries ← fold false into.entries es
      mergeBranches bs ⟨entries, dropped⟩
    | _ => mergeBranches bs ⟨into.entries, dropped⟩

/-- Merge what stands under each keyword that is not skipped.  Names that are left out of the
properties count as left out of the schema. -/
def mergeEntries (skips : Scalar → Bool) : List (Scalar × Value) → Outcome Parts
  | [] => pure ⟨[], []⟩
  | (k, v) :: rest =>
    if skips k then mergeEntries skips rest
    else match k with
      | .text keyword =>
        if settings.isVendor keyword then mergeEntries skips rest
        else do
          let role := roleOf keyword
          let merged ← mergeAs role v
          let others ← mergeEntries skips rest
          let dropped := if role = .properties then merged.dropped else []
          return ⟨(k, merged.schema) :: others.entries, dropped ++ others.dropped⟩
      | .bytes _ => .fail .notText
      | _ => .fail .keyNotText

/-- Merge the schemas of properties, without those that are excluded and those that refer to a
deprecated schema. -/
def mergeProperties : List (Scalar × Value) → Outcome Parts
  | [] => pure ⟨[], []⟩
  | (name, schema) :: rest => do
    if settings.excludes name schema then
      .report (.propertyDropped name)
      let others ← mergeProperties rest
      return ⟨others.entries, name :: others.dropped⟩
    else
      let merged ← mergeAs .schema schema
      if ← deprecated schema then
        .report (.deprecatedReferenceDropped name)
        let others ← mergeProperties rest
        return ⟨others.entries, name :: others.dropped⟩
      else
        let others ← mergeProperties rest
        return ⟨(name, merged.schema) :: others.entries, others.dropped⟩

/-- Merge the schemas that names stand for. -/
def mergeNamed : List (Scalar × Value) → Outcome (Keyed Value)
  | [] => pure []
  | (name, schema) :: rest => do
    let merged ← mergeAs .schema schema
    let others ← mergeNamed rest
    return (name, merged.schema) :: others

end

/-- Merge a node as a schema. -/
def mergeNode (node : Value) : Outcome Merged := mergeAs settings follow deprecated .schema node

end

/-- Resolve a local reference and merge its target.  `visited` holds the references that are open
on this branch, and `bound` limits how many more can be opened. -/
def resolveFrom (settings : Settings) (document : Value) :
    Bound → List String → String → Outcome Merged
  | bound, visited, ref =>
    if !Pointer.isLocal ref then .fail (.unsupportedReference ref)
    else if visited.contains ref then .fail (.circularReference ref)
    else match bound with
      | .reached => .fail (.circularReference ref)
      | .further rest => do
        let target ← Pointer.walk document ref
        mergeNode settings (resolveFrom settings document (rest ()) (ref :: visited))
          (leadsToDeprecated document) target

/-- Merge a node while the references in `visited` are open.  A branch opens each reference of the
document and of the node at most once, so their number is a sufficient bound. -/
def mergeVisited (settings : Settings) (document : Value) (visited : List String) (node : Value) :
    Outcome Merged :=
  let bound := Bound.ofCount fun _ => (references document).length + (references node).length
  mergeNode settings (resolveFrom settings document bound visited) (leadsToDeprecated document)
    node

/-- **The concrete schema a node stands for.** -/
def merge (settings : Settings) (document : Value) (visited : List String) (node : Value) :
    Outcome Value := do
  return (← mergeVisited settings document visited node).schema

/-- **The concrete schema a reference stands for.** -/
def resolve (settings : Settings) (document : Value) (visited : List String) (ref : String) :
    Outcome Value := do
  let merged ← resolveFrom settings document (chainBound document) visited ref
  return merged.schema

end ToolCatalog.Schema
