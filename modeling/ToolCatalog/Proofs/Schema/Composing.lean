import ToolCatalog.Proofs.Schema.Beside
import ToolCatalog.Proofs.Schema.Regrouping
import ToolCatalog.Proofs.Value.Stacked

/-!
# What a composed schema comes to

A mapping with `allOf` is merged in one accumulating fold: what stands beside the list is finished, the
merged parts are folded in one after another, and the whole is finished.  `Composed` says what this comes to
without a fold.  Under a keyword the first of the schemas decides that has it.  Of the properties the last
that defines one decides, and its name stands where it first appeared.  The required names are those of all
schemas, as far as they may be required beside the properties of the whole.

* `merge_composes`: merging a mapping with `allOf` composes what stands beside the list and its parts.
-/

namespace ToolCatalog.Schema

/-! ## Names that may be required -/

/-- Whether a name may be required beside properties, when names were left out: it is not removed, its
property may not be null, and it was not left out unless a property of that name is there. -/
def mayRequire (settings : Settings) (properties : Keyed Value) (dropped : List Scalar) : Value → Bool
  | .scalar k =>
    !settings.isRemoved k && !(Keyed.find? properties k).any isNullable &&
      !(dropped.any k.same && !Keyed.has properties k)
  | _ => true

/-- The required names of several schemas that may be required beside properties, in the order in which
they first appear. -/
def requiredOf (settings : Settings) (properties : Keyed Value) (ms : List Merged) : List Value :=
  (Value.union [] (ms.flatMap fun m => openRequired m.entries)).filter
    (mayRequire settings properties (ms.flatMap (·.dropped)))

/-- The names that stay when a schema is finished are those that may be required. -/
theorem staysRequired_stillMissing (settings : Settings) (p : Parts) :
    staysRequired settings (propertiesOf p.entries) (stillMissing p) =
      mayRequire settings (propertiesOf p.entries) p.dropped := by
  funext v
  cases v with
  | scalar k =>
    rw [staysRequired, mayRequire, isWaived, any_stillMissing]
    cases settings.isRemoved k <;> cases (Keyed.find? (propertiesOf p.entries) k).any isNullable <;>
      cases p.dropped.any k.same <;> cases Keyed.has (propertiesOf p.entries) k <;> rfl
  | _ => rfl

/-- Keys that are the same may be required together. -/
theorem mayRequire_congr {settings : Settings} {properties : Keyed Value} {dropped : List Scalar}
    {v w : Value} (hv : v.isKey = true) (hw : w.isKey = true) (h : v.same w = true) :
    mayRequire settings properties dropped v = mayRequire settings properties dropped w := by
  have hstays := staysRequired_stillMissing settings ⟨[(propertiesKey, .map properties)], dropped⟩
  replace hstays : staysRequired settings properties
      (stillMissing ⟨[(propertiesKey, .map properties)], dropped⟩) =
        mayRequire settings properties dropped := hstays
  rw [← hstays]
  exact staysRequired_congr hv hw h

/-! ## Schemas folded into a schema -/

/-- What schemas without required names come to that are folded into one. -/
structure FoldsAll (into : Keyed Value) (ms : List Merged) (r : Keyed Value) : Prop where
  bare : Bare r
  keys : Keyed.keys r =
    Keyed.joined (Keyed.keys into) (Keyed.joinedAll (ms.map fun m => Keyed.keys m.bare))
  properties : propertiesOf r = (ms.map Merged.properties).foldl Keyed.putAll (propertiesOf into)
  others : ∀ q, propertiesKey.same q = false →
    Keyed.find? r q = (Keyed.find? into q).or (ms.findSome? fun m => Keyed.find? m.bare q)

/-- **Folding schemas in**, one after another. -/
theorem foldlM_foldsAll {into r : Keyed Value} {ms : List Merged} (hinto : Bare into)
    (hms : ∀ m ∈ ms, Bare m.bare)
    (h : ms.foldlM (fun es m => fold false es m.bare) into = .ok r) : FoldsAll into ms r := by
  induction ms generalizing into with
  | nil =>
    obtain rfl := Except.ok.inj h
    exact ⟨hinto, by simp [Keyed.joinedAll, Keyed.joined], rfl, fun q _ => Option.or_none.symm⟩
  | cons m rest ih =>
    obtain ⟨next, hnext, hbare, hfolds⟩ := fold_folds hinto (hms m List.mem_cons_self)
    rw [List.foldlM_cons, hnext] at h
    obtain ⟨hr, hkeys, hproperties, hothers⟩ :=
      ih hbare (fun m' hm' => hms m' (List.mem_cons_of_mem _ hm')) h
    refine ⟨hr, ?_, ?_, fun q hq => ?_⟩
    · rw [hkeys, hfolds.keys, List.map_cons, Keyed.joinedAll_cons, Keyed.joined_assoc]
    · rw [hproperties, hfolds.properties, Merged.bare, propertiesOf_without]
      rfl
    · rw [hothers q hq, hfolds.others q hq, List.findSome?_cons, Option.or_assoc]
      cases Keyed.find? m.bare q <;> rfl

/-- **What schemas come to that are composed**: the keywords of the first that has them, the properties of
the last that defines them, and the required names of all that may be required then. -/
structure Composed (settings : Settings) (ms : List Merged) (es : Keyed Value) : Prop where
  keys : Keyed.keys (Keyed.without es requiredKey) =
    Keyed.joinedAll (ms.map fun m => Keyed.keys (Keyed.without m.entries requiredKey))
  others : ∀ k, propertiesKey.same k = false → requiredKey.same k = false →
    Keyed.find? es k = ms.findSome? fun m => Keyed.find? m.entries k
  properties : ∀ v, Keyed.find? es propertiesKey = some v → v = .map (propertiesOf es)
  property_names : Keyed.keys (propertiesOf es) =
    Keyed.joinedAll (ms.map fun m => Keyed.keys m.properties)
  property : ∀ k, Keyed.find? (propertiesOf es) k =
    ms.reverse.findSome? fun m => Keyed.find? m.properties k
  required : Keyed.find? es requiredKey =
    if (requiredOf settings (propertiesOf es) ms).isEmpty then none
    else some (.list (requiredOf settings (propertiesOf es) ms))

/-- A keyword is found without the required names. -/
theorem find?_without_required {es : Keyed Value} {k : Scalar} (h : requiredKey.same k = false) :
    Keyed.find? (Keyed.without es requiredKey) k = Keyed.find? es k := by
  rw [Keyed.find?_without, if_neg (by simp [h])]

section

variable {settings : Settings} {ms : List Merged} {into whole : Parts}

/-- The names that stay in a schema are those of all schemas that may be required, if its required names are
united from theirs and its account of names is theirs. -/
theorem stayingNames_eq {p : Parts} {m : Merged} (hm : ∀ v ∈ openRequired m.entries, v.isKey = true)
    (hms : ∀ n ∈ ms, ∀ v ∈ openRequired n.entries, v.isKey = true)
    (hrequired : openRequired p.entries =
      Value.union (openRequired m.entries) (ms.flatMap fun n => openRequired n.entries))
    (hdropped : p.dropped = m.dropped ++ ms.flatMap (·.dropped)) :
    stayingNames settings p = requiredOf settings (propertiesOf p.entries) (m :: ms) := by
  have hothers : ∀ v ∈ ms.flatMap fun n => openRequired n.entries, v.isKey = true := by
    intro v hv
    obtain ⟨n, hn, hv⟩ := List.mem_flatMap.1 hv
    exact hms n hn v hv
  have hfilter : ∀ {vs : List Value}, (∀ v ∈ vs, v.isKey = true) → ∀ v ∈ vs.filter (mayRequire settings
      (propertiesOf p.entries) p.dropped), v.isKey = true :=
    fun hvs v hv => hvs v (List.mem_filter.1 hv).1
  have hall : ∀ v ∈ openRequired m.entries ++ ms.flatMap fun n => openRequired n.entries,
      v.isKey = true := fun v hv => (List.mem_append.1 hv).elim (hm v) (hothers v)
  rw [requiredOf, List.flatMap_cons, List.flatMap_cons, ← hdropped,
    Value.filter_union (fun _ _ => mayRequire_congr) (by simp) hall, List.filter_append,
    Value.union_append, List.filter_nil, ← Value.union_assoc (by simp) (hfilter hm) (hfilter hothers),
    ← Value.filter_union (fun _ _ => mayRequire_congr) hm hothers, ← hrequired,
    ← staysRequired_stillMissing]
  rfl

/-- **What gathered schemas are finished to is composed of them.** -/
theorem Gathered.composed (hinto : Foldable into.toMerged) (hms : ∀ m ∈ ms, Foldable m)
    (h : Gathered ms into whole) :
    Composed settings (into.toMerged :: ms) (finished settings whole).entries := by
  have hall := foldlM_foldsAll hinto.bare (fun m hm => (hms m hm).bare) h.bare
  have hwithout : Keyed.without (finished settings whole).entries requiredKey = whole.toMerged.bare :=
    without_setRequired _ _
  have hproperties : propertiesOf (finished settings whole).entries = propertiesOf whole.entries := by
    rw [← propertiesOf_without, hwithout, Merged.bare, propertiesOf_without]
    rfl
  have hputAll : propertiesOf whole.entries =
      (ms.map Merged.properties).foldl Keyed.putAll into.toMerged.properties := by
    rw [← propertiesOf_without, show Keyed.without whole.entries requiredKey = whole.toMerged.bare from rfl,
      hall.properties, Merged.bare, propertiesOf_without]
    rfl
  have hdistinct : ∀ ps ∈ ms.map Merged.properties, Keyed.Distinct ps := by
    intro ps hps
    obtain ⟨m, hm, rfl⟩ := List.mem_map.1 hps
    exact (hms m hm).distinct_properties
  refine ⟨?_, fun k hproperty hrequired => ?_, fun v hv => ?_, ?_, fun k => ?_, ?_⟩
  · rw [hwithout, hall.keys, List.map_cons, Keyed.joinedAll_cons]
    rfl
  · rw [← find?_without_required hrequired, hwithout, hall.others k hproperty, List.findSome?_cons]
    simp only [Merged.bare, find?_without_required hrequired]
    cases Keyed.find? into.toMerged.entries k <;> rfl
  · rw [← find?_properties_without, hwithout] at hv
    obtain ⟨ps, rfl, -⟩ := hall.bare.properties v hv
    rw [hproperties, ← propertiesOf_without, propertiesOf,
      show Keyed.find? (Keyed.without whole.entries requiredKey) (.text "properties") =
        some (.map ps) from hv]
  · rw [hproperties, hputAll, Keyed.keys_foldl_putAll hdistinct, List.map_cons, Keyed.joinedAll_cons,
      List.map_map]
    rfl
  · rw [hproperties, hputAll, Keyed.find?_foldl_putAll hdistinct, List.reverse_cons, List.findSome?_append,
      ← List.map_reverse, List.findSome?_map, List.findSome?_singleton]
    rfl
  · rw [hproperties, ← stayingNames_eq (m := into.toMerged) hinto.keys (fun n hn => (hms n hn).keys)
      h.required h.dropped]
    exact find?_setRequired _ _

end

/-! ## Parts that merge -/

/-- Whether a merged schema is a mapping. -/
def Merged.isMapping (m : Merged) : Bool :=
  match m.schema with
  | .map _ => true
  | _ => false

theorem Merged.isMapping_iff {m : Merged} : m.isMapping = true ↔ ∃ es, m.schema = .map es := by
  unfold isMapping
  split
  · next es hes => simp [hes]
  · next hnot => simpa using hnot

/-- Schemas that are no mappings and report nothing as left out may be passed over. -/
theorem foldMerged_filter {ms : List Merged} {into : Parts}
    (h : ∀ m ∈ ms, m.isMapping = false → m.dropped = []) :
    foldMerged (ms.filter Merged.isMapping) into = foldMerged ms into := by
  induction ms generalizing into with
  | nil => rfl
  | cons m rest ih =>
    have ih := fun {into} => @ih into fun m' hm' => h m' (List.mem_cons_of_mem _ hm')
    rw [List.filter_cons, foldMerged]
    cases hm : m.isMapping with
    | true =>
      rw [if_pos rfl, foldMerged]
      simp only [ih]
    | false =>
      have hentries : m.entries = [] := Merged.entries_of_not_map fun es hes => by
        rw [Merged.isMapping_iff.2 ⟨es, hes⟩] at hm
        cases hm
      rw [if_neg (by simp), hentries, h m List.mem_cons_self hm, List.append_nil, ih]
      rfl

section

variable {settings : Settings} {follow : String → Outcome Merged}
  {deprecated : Value → Except Fault Bool}

/-- **Parts are merged one after another**, and what they merge to is folded in. -/
theorem mergeBranches_ok {bs : List Value} {into whole : Parts}
    (h : (mergeBranches settings follow deprecated bs into).result = .ok whole) :
    ∃ ms, List.Forall₂
        (fun b m => (mergeAs settings follow deprecated .schema b).result = .ok m) bs ms ∧
      foldMerged ms into = .ok whole := by
  induction bs generalizing into with
  | nil =>
    rw [mergeBranches_nil] at h
    exact ⟨[], .nil, h⟩
  | cons b rest ih =>
    rw [mergeBranches_cons] at h
    obtain ⟨m, hm, h⟩ := Outcome.result_bind_ok.1 h
    split at h
    · next es hes =>
      obtain ⟨entries, hentries, h⟩ := Outcome.result_bind_ok.1 h
      obtain ⟨ms, hms, hwhole⟩ := ih h
      have hfold : fold false into.entries m.entries = .ok entries := by
        rw [Merged.entries, hes]
        exact hentries
      refine ⟨m :: ms, .cons hm hms, ?_⟩
      rw [foldMerged, hfold]
      exact hwhole
    · next hnot =>
      obtain ⟨ms, hms, hwhole⟩ := ih h
      refine ⟨m :: ms, .cons hm hms, ?_⟩
      rw [foldMerged, Merged.entries_of_not_map hnot]
      exact hwhole

/-- **A composed mapping** comes to what is finished of its own keywords, with its merged parts folded in. -/
theorem mergeBeside_composed {es : Keyed Value} {p : Parts} (hcomposed : isComposed es = true)
    (h : (mergeBeside settings follow deprecated es).result = .ok p) :
    ∃ own rest ms whole,
      (mergeEntries settings follow deprecated (isStructural es) es).result = .ok own ∧
      finish settings own = .ok rest ∧
      List.Forall₂ (fun b m => (mergeAs settings follow deprecated .schema b).result = .ok m)
        (branchesOf es) ms ∧
      foldMerged ms ⟨withoutStrayRequired rest.entries, rest.dropped⟩ = .ok whole ∧
      finish settings whole = .ok p := by
  obtain ⟨own, rest, hown, hrest, ⟨hnot, -⟩ | ⟨-, whole, hwhole, hp⟩⟩ := mergeBeside_ok h
  · rw [hcomposed] at hnot
    cases hnot
  · obtain ⟨ms, hms, hfold⟩ := mergeBranches_ok hwhole
    exact ⟨own, rest, ms, whole, hown, hrest, hms, hfold, hp⟩

end

/-! ## Merging a composed mapping -/

/-- What is on the right of pairwise related lists has something related on the left. -/
theorem exists_of_mem_right {α β : Type} {R : α → β → Prop} {as : List α} {bs : List β}
    (h : List.Forall₂ R as bs) : ∀ b ∈ bs, ∃ a ∈ as, R a b := by
  induction h with
  | nil => simp
  | cons hab _ ih =>
    intro b hb
    rcases List.mem_cons.1 hb with rfl | hb
    · exact ⟨_, List.mem_cons_self, hab⟩
    · obtain ⟨a, ha, hR⟩ := ih b hb
      exact ⟨a, List.mem_cons_of_mem _ ha, hR⟩

/-- **A composed mapping merges piece by piece**: what stands beside the list merges by itself and so does
every part, and the parts are folded in behind it. -/
theorem mergeVisited_composed {settings : Settings} {document : Value} {visited : List String}
    {es : Keyed Value} {m : Merged} (hcomposed : isComposed es = true)
    (hnone : reference? (.map es) = none) (hdeprecated : Settings.isDeprecated es = false)
    (h : (mergeVisited settings document visited (.map es)).result = .ok m) :
    ∃ (beside : Parts) (parts : List Merged) (whole p : Parts),
      (mergeVisited settings document visited (.map (Keyed.without es (.text "allOf")))).result =
        .ok beside.toMerged ∧
      List.Forall₂ (fun b m => Value.Within b (.map es) ∧
        (mergeVisited settings document visited b).result = .ok m) (branchesOf es) parts ∧
      foldMerged parts ⟨withoutStrayRequired beside.entries, beside.dropped⟩ = .ok whole ∧
      finish settings whole = .ok p ∧ m = p.toMerged := by
  rw [mergeVisited, mergeNode_of_plain hnone hdeprecated] at h
  obtain ⟨p, hp, h⟩ := Outcome.result_bind_ok.1 h
  obtain rfl := Except.ok.inj h
  obtain ⟨own, rest, parts, whole, hown, hrest, hparts, hfold, hfinish⟩ :=
    mergeBeside_composed hcomposed hp
  refine ⟨rest, parts, whole, p, ?_, ?_, hfold, hfinish, rfl⟩
  · rw [mergeVisited_of_references_le (references_without_sublist es _).length_le,
      mergeNode_of_plain (reference?_without_allOf.trans hnone)
        (isDeprecated_without_allOf.trans hdeprecated),
      mergeBeside_without_allOf hnone hcomposed]
    exact Outcome.result_bind_ok.2 ⟨rest, Outcome.result_bind_ok.2 ⟨own, hown, hrest⟩, rfl⟩
  · have hwithin : ∀ b ∈ branchesOf es, Value.Within b (.map es) := fun b => within_of_mem_branchesOf
    refine ((List.forall₂_and_left _ _).2 ⟨hwithin, hparts⟩).imp fun b m hbm => ⟨hbm.1, ?_⟩
    rw [mergeVisited_of_references_le (references_within_sublist hbm.1).length_le]
    exact hbm.2

/-- **`allOf` composes.**  If a mapping with a list under `allOf`, which is no reference and not deprecated,
merges, then so do the mapping without the list and every part.  If those of the merged parts that are
mappings and what stands beside them are regular, then what the mapping merges to is composed of them, what
stands beside first. -/
theorem merge_composes (settings : Settings) (document : Value) (visited : List String)
    (es : Keyed Value) (branches : List Value) (r : Value) (hdocument : document.WellFormed)
    (hes : (Value.map es).WellFormed)
    (hbranches : (Keyed.find? es (.text "allOf")).map Value.opened = some (.list branches))
    (hnone : reference? (.map es) = none) (hdeprecated : Settings.isDeprecated es = false)
    (hmerge : (merge settings document visited (.map es)).result = .ok r) :
    ∃ beside parts,
      (mergeVisited settings document visited (.map (Keyed.without es (.text "allOf")))).result =
        .ok beside ∧
      List.Forall₂ (fun b m => (mergeVisited settings document visited b).result = .ok m) branches
        parts ∧
      ((∀ m ∈ beside :: parts.filter Merged.isMapping, m.IsRegular) →
        ∃ entries, r = .map entries ∧
          Composed settings (beside :: parts.filter Merged.isMapping) entries) := by
  have hcomposed : isComposed es = true := by rw [isComposed, hbranches]
  have hlist : branchesOf es = branches := by rw [branchesOf, hbranches]
  obtain ⟨m, hm, rfl⟩ := merge_ok hmerge
  obtain ⟨beside, parts, whole, p, hbeside, hparts, hfold, hfinish, rfl⟩ :=
    mergeVisited_composed hcomposed hnone hdeprecated hm
  have hpart : ∀ m ∈ parts, ∃ b, Value.Within b (.map es) ∧
      (mergeVisited settings document visited b).result = .ok m :=
    fun m hm => (exists_of_mem_right hparts m hm).imp fun b hb => hb.2
  refine ⟨beside.toMerged, parts, hbeside, hlist ▸ hparts.imp fun _ _ => And.right, fun hregular => ?_⟩
  have hinto : Foldable beside.toMerged := foldable_of_mergeVisited hdocument
    (hereditary_distinct.map_without hes _) hbeside (hregular _ List.mem_cons_self)
  have hfoldable : ∀ m ∈ parts.filter Merged.isMapping, Foldable m := by
    intro m hm
    obtain ⟨b, hb, hbm⟩ := hpart m (List.mem_filter.1 hm).1
    exact foldable_of_mergeVisited hdocument (hes.within hb) hbm (hregular m (List.mem_cons_of_mem _ hm))
  have hdropped : ∀ m ∈ parts, m.isMapping = false → m.dropped = [] := by
    intro m hm hnot
    obtain ⟨b, -, hbm⟩ := hpart m hm
    refine dropped_of_not_map hbm fun gs hgs => ?_
    rw [Merged.isMapping_iff.2 ⟨gs, hgs⟩] at hnot
    cases hnot
  -- The keywords beside have no stray required names, and what is no mapping plays no role.
  have hlisted : Listed beside.entries := hinto.listed
  rw [withoutStrayRequired_of_listed hlisted, ← foldMerged_filter hdropped] at hfold
  obtain ⟨whole', hwhole, hgathered⟩ := foldMerged_gathered hinto hfoldable
  obtain rfl := Except.ok.inj (hwhole.symm.trans hfold)
  obtain rfl := Except.ok.inj ((finish_foldable hgathered.foldable settings).symm.trans hfinish)
  exact ⟨_, rfl, hgathered.composed hinto hfoldable⟩

/-- An object composed of a part that defines `name` and one that leaves `secret` out. -/
def objectOfParts : Keyed Value :=
  [(.text "type", .text "object"), (.text "allOf", .list [namePart, secretPart])]

/-- What stands beside the parts of the object. -/
def mergedType : Merged := ⟨.record [("type", .text "object")], []⟩

/-- What the first part merges to. -/
def mergedName : Merged :=
  ⟨.record [("properties", .record [("name", .record [("type", .text "string")])]),
    ("required", .list [.text "name", .text "secret"])], []⟩

/-- What the second part merges to. -/
def mergedSecret : Merged :=
  ⟨.record [("properties", .record []), ("required", .list [.text "name"])], [.text "secret"]⟩

theorem isRegular_mergedName : mergedName.IsRegular :=
  ⟨fun _ hv => ⟨_, (Option.some.inj hv).symm⟩, fun _ hv => ⟨_, (Option.some.inj hv).symm⟩⟩

theorem isRegular_mergedSecret : mergedSecret.IsRegular :=
  ⟨fun _ hv => ⟨_, (Option.some.inj hv).symm⟩, fun _ hv => ⟨_, (Option.some.inj hv).symm⟩⟩

/-- What the object merges to: it requires `name`, but not `secret`, which one part requires and the other
leaves out. -/
def mergedObject : Value :=
  .record [("type", .text "object"),
    ("properties", .record [("name", .record [("type", .text "string")])]),
    ("required", .list [.text "name"])]

/-- The object is composed of its type and of what its two parts merge to. -/
theorem merge_composes_object : ∃ entries, mergedObject = .map entries ∧
    Composed {} [mergedType, mergedName, mergedSecret] entries := by
  have hes : (Value.map objectOfParts).WellFormed := by
    show (Value.record [("type", .text "object"), ("allOf", .list [namePart, secretPart])]).WellFormed
    simp [namePart, secretPart, Value.WellFormed, Value.keysEverywhere_record,
      Value.keysEverywhere_list, Value.keysEverywhere_scalar, Scalar.same]
  obtain ⟨beside, parts, hbeside, hparts, hcomposed⟩ := merge_composes {} .null [] objectOfParts
    [namePart, secretPart] mergedObject (Value.keysEverywhere_scalar _) hes rfl rfl rfl rfl
  have htype : (mergeVisited {} .null [] (.map (Keyed.without objectOfParts (.text "allOf")))).result =
    .ok mergedType := rfl
  have hname : (mergeVisited {} .null [] namePart).result = .ok mergedName := rfl
  have hsecret : (mergeVisited {} .null [] secretPart).result = .ok mergedSecret := rfl
  obtain rfl := Except.ok.inj (htype.symm.trans hbeside)
  obtain rfl : parts = [mergedName, mergedSecret] := by
    obtain ⟨m, ms, hm, hms, rfl⟩ := List.forall₂_cons_left_iff.1 hparts
    obtain ⟨n, ns, hn, hns, rfl⟩ := List.forall₂_cons_left_iff.1 hms
    obtain rfl := List.forall₂_nil_left_iff.1 hns
    rw [Except.ok.inj (hm.symm.trans hname), Except.ok.inj (hn.symm.trans hsecret)]
  refine hcomposed fun m hm => ?_
  replace hm : m ∈ [mergedType, mergedName, mergedSecret] := hm
  simp only [List.mem_cons, List.not_mem_nil, or_false] at hm
  rcases hm with rfl | rfl | rfl
  · refine ⟨fun v hv => ?_, fun v hv => ?_⟩ <;> cases hv
  · exact isRegular_mergedName
  · exact isRegular_mergedSecret

end ToolCatalog.Schema
