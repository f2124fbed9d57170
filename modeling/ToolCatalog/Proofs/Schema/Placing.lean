import ToolCatalog.Proofs.Schema.Giving
import ToolCatalog.Proofs.Schema.LeftOut
import ToolCatalog.Proofs.Schema.Overlaying

/-!
# Where the schemas of a node come to stand

Merging takes a node apart and puts it together again, and what a schema in it comes to stands where the schema
stood: under the same keys, in the same item of a list.  Parts under `allOf` and the keywords beside a reference
have no place of their own.  They come to stand where the whole stands, as far as no other part has the keyword
before them, or the property behind them.

* `StandsAt.merges`: what a schema that stands in a node comes to by itself is found at its place.
* `ShowsAt.stands`: what a part has under a keyword stands in the whole, if the part gives the whole the keyword.
-/

namespace ToolCatalog

/-! ## Places -/

namespace Value

/-- A step from a collection to what stands in it. -/
inductive Step where
  | entry (key : Scalar)
  | item (index : Nat)

/-- What a step leads to. -/
def step? : Value → Step → Option Value
  | .map es, .entry k => Keyed.find? es k
  | .list vs, .item i => vs[i]?
  | _, _ => none

/-- What stands at the end of steps, one after another. -/
def at? : Value → List Step → Option Value
  | v, [] => some v
  | v, s :: rest => (v.step? s).bind fun w => w.at? rest

theorem at?_append (v : Value) (p q : List Step) :
    v.at? (p ++ q) = (v.at? p).bind fun w => w.at? q := by
  induction p generalizing v with
  | nil => rfl
  | cons s rest ih =>
    rw [List.cons_append, at?, at?, Option.bind_assoc]
    congr 1
    funext w
    exact ih w

theorem at?_entry (es : Keyed Value) (k : Scalar) (p : List Step) :
    (map es).at? (.entry k :: p) = (Keyed.find? es k).bind fun w => w.at? p := rfl

end Value

namespace Schema

/-! ## Schemas that stand in a node -/

/-- A mapping that is merged keyword by keyword: it is not deprecated, no reference and not composed. -/
structure IsSimple (es : Keyed Value) : Prop where
  current : Settings.isDeprecated es = false
  alone : reference? (.map es) = none
  uncomposed : isComposed es = false

/-- What stands under a keyword is merged as a schema: there is none under a keyword for data, and a mapping
from names is none. -/
def IsSchemaUnder (keyword : String) (v : Value) : Prop :=
  roleOf keyword = .schema ∨ roleOf keyword ≠ .literal ∧ ∀ es, v.opened ≠ .map es

section

variable (settings : Settings) (document : Value) (visited : List String)

/-- **Schemas that stand in a node.**  `StandsAt v p w`: what the schema `w` comes to stands at the place `p` of
what the node `v` comes to, and no reference is followed on the way from `v` to `w`. -/
inductive StandsAt : Value → List Value.Step → Value → Prop
  | here (v : Value) : StandsAt v [] v
  | opened {v w : Value} {p : List Value.Step} : StandsAt v.opened p w → StandsAt v p w
  | item {vs : List Value} {i : Nat} {v w : Value} {p : List Value.Step} :
    vs[i]? = some v → StandsAt v p w → StandsAt (.list vs) (.item i :: p) w
  /-- A list under `required` holds names, and is put in order. -/
  | keyword {es : Keyed Value} {keyword : String} {v w : Value} {p : List Value.Step} :
    IsSimple es → (.text keyword, v) ∈ es → settings.isVendor keyword = false →
    IsSchemaUnder keyword v →
    (keyword = "required" → ∀ m names,
      (mergeVisited settings document visited v).result = .ok m → m.schema ≠ .list names) →
    StandsAt v p w → StandsAt (.map es) (.entry (.text keyword) :: p) w
  | name {es names : Keyed Value} {keyword : String} {name : Scalar} {v u w : Value}
    {p : List Value.Step} :
    IsSimple es → (.text keyword, v) ∈ es → settings.isVendor keyword = false →
    keyword ∈ nameMapKeywords → v.opened = .map names → (name, u) ∈ names →
    StandsAt u p w → StandsAt (.map es) (.entry (.text keyword) :: .entry name :: p) w
  | property {es ps : Keyed Value} {name : Scalar} {v u w : Value} {p : List Value.Step} :
    IsSimple es → (propertiesKey, v) ∈ es → settings.isVendor "properties" = false →
    v.opened = .map ps → (name, u) ∈ ps → settings.excludes name u = false →
    leadsToDeprecated document u = .ok false →
    StandsAt u p w → StandsAt (.map es) (.entry propertiesKey :: .entry name :: p) w
  /-- Of what stands beside `allOf` and of the parts, the first has a keyword. -/
  | part {es : Keyed Value} {keyword : String} {before after : List Value} {b w : Value}
    {p : List Value.Step} :
    Settings.isDeprecated es = false → reference? (.map es) = none → isComposed es = true →
    .map (Keyed.without es (.text "allOf")) :: branchesOf es = before ++ b :: after →
    keyword ∉ ["properties", "required"] →
    (∀ c ∈ before, ∀ m, (mergeVisited settings document visited c).result = .ok m →
      Keyed.has m.entries (.text keyword) = false) →
    StandsAt b (.entry (.text keyword) :: p) w → StandsAt (.map es) (.entry (.text keyword) :: p) w
  /-- Of these, the last has a property. -/
  | partProperty {es : Keyed Value} {name : Scalar} {before after : List Value} {b w : Value}
    {p : List Value.Step} :
    Settings.isDeprecated es = false → reference? (.map es) = none → isComposed es = true →
    .map (Keyed.without es (.text "allOf")) :: branchesOf es = before ++ b :: after →
    (∀ c ∈ after, ∀ m, (mergeVisited settings document visited c).result = .ok m →
      Keyed.has m.properties name = false) →
    StandsAt b (.entry propertiesKey :: .entry name :: p) w →
    StandsAt (.map es) (.entry propertiesKey :: .entry name :: p) w
  /-- What stands beside a reference has its keywords and its properties, over a target that is a mapping. -/
  | beside {es base : Keyed Value} {ref keyword : String} {w : Value} {p : List Value.Step} :
    Settings.isDeprecated es = false → reference? (.map es) = some ref →
    (resolve settings document visited ref).result = .ok (.map base) →
    keyword ∉ ["properties", "required"] →
    StandsAt (.map (Keyed.without es (.text "$ref"))) (.entry (.text keyword) :: p) w →
    StandsAt (.map es) (.entry (.text keyword) :: p) w
  | besideProperty {es base : Keyed Value} {ref : String} {name : Scalar} {w : Value}
    {p : List Value.Step} :
    Settings.isDeprecated es = false → reference? (.map es) = some ref →
    (resolve settings document visited ref).result = .ok (.map base) →
    StandsAt (.map (Keyed.without es (.text "$ref"))) (.entry propertiesKey :: .entry name :: p) w →
    StandsAt (.map es) (.entry propertiesKey :: .entry name :: p) w

/-- **Mappings that give a node a keyword.**  `ShowsAt keyword v p es`: what the mapping `es` has under the keyword
is what the node `v` comes to have under it at the place `p`, where `es` stands itself, or is a part or what is
beside a reference. -/
inductive ShowsAt (keyword : String) (v : Value) (p : List Value.Step) : Keyed Value → Prop
  | here {es : Keyed Value} : StandsAt settings document visited v p (.map es) → ShowsAt keyword v p es
  | part {es fs : Keyed Value} {before after : List Value} {b : Value} :
    ShowsAt keyword v p es →
    Settings.isDeprecated es = false → reference? (.map es) = none → isComposed es = true →
    .map (Keyed.without es (.text "allOf")) :: branchesOf es = before ++ b :: after →
    keyword ∉ ["properties", "required"] →
    (∀ c ∈ before, ∀ m, (mergeVisited settings document visited c).result = .ok m →
      Keyed.has m.entries (.text keyword) = false) →
    b.opened = .map fs → ShowsAt keyword v p fs
  | beside {es base : Keyed Value} {ref : String} :
    ShowsAt keyword v p es → Settings.isDeprecated es = false → reference? (.map es) = some ref →
    (resolve settings document visited ref).result = .ok (.map base) →
    keyword ∉ ["properties", "required"] →
    ShowsAt keyword v p (Keyed.without es (.text "$ref"))

end

section

variable {settings : Settings} {document : Value} {visited : List String}

/-- What stands in something that stands in a node stands in the node. -/
theorem StandsAt.trans {v w u : Value} {p q : List Value.Step}
    (h : StandsAt settings document visited v p w) (hu : StandsAt settings document visited w q u) :
    StandsAt settings document visited v (p ++ q) u := by
  induction h with
  | here v => exact hu
  | opened _ ih => exact .opened (ih hu)
  | item hv _ ih => exact .item hv (ih hu)
  | keyword hes hv hvendor hschema hlist _ ih => exact .keyword hes hv hvendor hschema hlist (ih hu)
  | name hes hv hvendor hkeyword hnames hname _ ih =>
    exact .name hes hv hvendor hkeyword hnames hname (ih hu)
  | property hes hv hvendor hps hname hkept hcurrent _ ih =>
    exact .property hes hv hvendor hps hname hkept hcurrent (ih hu)
  | part hdeprecated hnone hcomposed hparts hkeyword hbefore _ ih =>
    exact .part hdeprecated hnone hcomposed hparts hkeyword hbefore (ih hu)
  | partProperty hdeprecated hnone hcomposed hparts hafter _ ih =>
    exact .partProperty hdeprecated hnone hcomposed hparts hafter (ih hu)
  | beside hdeprecated href htarget hkeyword _ ih =>
    exact .beside hdeprecated href htarget hkeyword (ih hu)
  | besideProperty hdeprecated href htarget _ ih => exact .besideProperty hdeprecated href htarget (ih hu)

/-- What stands under a keyword that a mapping gives to a node stands in the node. -/
theorem ShowsAt.stands {keyword : String} {v w : Value} {p q : List Value.Step} {es : Keyed Value}
    (h : ShowsAt settings document visited keyword v p es)
    (hw : StandsAt settings document visited (.map es) (.entry (.text keyword) :: q) w) :
    StandsAt settings document visited v (p ++ .entry (.text keyword) :: q) w := by
  induction h with
  | here hes => exact hes.trans hw
  | part _ hdeprecated hnone hcomposed hparts hkeyword hbefore hopened ih =>
    exact ih (.part hdeprecated hnone hcomposed hparts hkeyword hbefore (.opened (hopened ▸ hw)))
  | beside _ hdeprecated href htarget hkeyword ih =>
    exact ih (.beside hdeprecated href htarget hkeyword hw)

end

/-! ## One step -/

section

variable {settings : Settings} {follow : String → Outcome Merged}
  {deprecated : Value → Except Fault Bool}

/-- What stands under a keyword and is a schema there is merged as one. -/
theorem mergeAs_roleOf {keyword : String} {v : Value} (h : IsSchemaUnder keyword v) :
    mergeAs settings follow deprecated (roleOf keyword) v =
      mergeAs settings follow deprecated .schema v := by
  rcases h with h | ⟨hrole, hmap⟩
  · rw [h]
  · induction v using Value.induction with
    | map es => exact absurd rfl (hmap es)
    | list vs => rw [mergeAs_list _ _ _ hrole, mergeAs_list _ _ _ (by simp)]
    | part n body ih =>
      rw [mergeAs_part _ _ _ hrole, mergeAs_part _ _ _ (by simp)]
      exact ih hmap
    | _ => rfl

/-- Each item is merged in its place. -/
theorem getElem?_mergeItems {vs ws : List Value} {i : Nat} {v : Value}
    (h : (mergeItems settings follow deprecated vs).result = .ok ws) (hv : vs[i]? = some v) :
    ∃ m, (mergeAs settings follow deprecated .schema v).result = .ok m ∧ ws[i]? = some m.schema := by
  induction vs generalizing i ws with
  | nil => simp at hv
  | cons u rest ih =>
    rw [mergeItems_cons] at h
    obtain ⟨m, hm, h⟩ := Outcome.result_bind_ok.1 h
    obtain ⟨others, hothers, h⟩ := Outcome.result_bind_ok.1 h
    obtain rfl := Except.ok.inj h
    cases i with
    | zero =>
      obtain rfl := Option.some.inj hv
      exact ⟨m, hm, rfl⟩
    | succ i =>
      obtain ⟨n, hn, hi⟩ := ih hothers hv
      exact ⟨n, hn, hi⟩

/-- Each schema that a name stands for is merged under the name. -/
theorem mem_mergeNamed {es ns : Keyed Value} {name : Scalar} {v : Value}
    (h : (mergeNamed settings follow deprecated es).result = .ok ns) (hv : (name, v) ∈ es) :
    ∃ m, (mergeAs settings follow deprecated .schema v).result = .ok m ∧ (name, m.schema) ∈ ns := by
  induction es generalizing ns with
  | nil => cases hv
  | cons e rest ih =>
    obtain ⟨k, u⟩ := e
    rw [mergeNamed_cons] at h
    obtain ⟨m, hm, h⟩ := Outcome.result_bind_ok.1 h
    obtain ⟨others, hothers, h⟩ := Outcome.result_bind_ok.1 h
    obtain rfl := Except.ok.inj h
    rcases List.mem_cons.1 hv with heq | hv
    · obtain ⟨rfl, rfl⟩ := Prod.mk.inj heq
      exact ⟨m, hm, List.mem_cons_self⟩
    · obtain ⟨n, hn, hmem⟩ := ih hothers hv
      exact ⟨n, hn, List.mem_cons_of_mem _ hmem⟩

/-- Each property that is not left out is merged under its name. -/
theorem mem_mergeProperties {es : Keyed Value} {q : Parts} {name : Scalar} {v : Value}
    (h : (mergeProperties settings follow deprecated es).result = .ok q) (hv : (name, v) ∈ es)
    (hkept : settings.excludes name v = false) (hcurrent : deprecated v = .ok false) :
    ∃ m, (mergeAs settings follow deprecated .schema v).result = .ok m ∧
      (name, m.schema) ∈ q.entries := by
  induction es generalizing q with
  | nil => cases hv
  | cons e rest ih =>
    obtain ⟨k, u⟩ := e
    rcases List.mem_cons.1 hv with heq | hv
    · obtain ⟨rfl, rfl⟩ := Prod.mk.inj heq
      rw [mergeProperties_cons, if_neg (by simp [hkept])] at h
      obtain ⟨m, hm, h⟩ := Outcome.result_bind_ok.1 h
      obtain ⟨gone, hgone, h⟩ := Outcome.result_bind_ok.1 h
      obtain rfl : false = gone := Except.ok.inj (hcurrent.symm.trans hgone)
      obtain ⟨others, -, h⟩ := Outcome.result_bind_ok.1 h
      obtain rfl := Except.ok.inj h
      exact ⟨m, hm, List.mem_cons_self⟩
    · obtain ⟨others, hothers, hq⟩ := mergeProperties_cons_ok h
      obtain ⟨m, hm, hmem⟩ := ih hothers hv
      refine ⟨m, hm, ?_⟩
      rcases hq with rfl | ⟨-, n, -, rfl⟩
      · exact hmem
      · exact List.mem_cons_of_mem _ hmem

omit settings follow deprecated in
theorem roleOf_of_mem_nameMapKeywords {keyword : String} (h : keyword ∈ nameMapKeywords) :
    roleOf keyword = .names ∧ keyword ≠ "required" := by
  simp only [nameMapKeywords, List.mem_cons, List.not_mem_nil, or_false] at h
  rcases h with rfl | rfl | rfl | rfl <;> decide

omit settings follow deprecated in
theorem within_of_opened_eq_map {v : Value} {es : Keyed Value} (h : v.opened = .map es) :
    Value.Within (.map es) v := by
  refine .of_opened ?_
  rw [h]
  exact .self

/-! ### Concrete mappings -/

theorem IsSimple.not_structural {es : Keyed Value} (h : IsSimple es) (k : Scalar) :
    isStructural es k = false := by
  simp [isStructural, isReference_of_none h.alone, h.uncomposed]

/-- **A concrete mapping** comes to its merged keywords, finished. -/
theorem IsSimple.mergeAs_ok {es : Keyed Value} {m : Merged} (h : IsSimple es)
    (hm : (mergeAs settings follow deprecated .schema (.map es)).result = .ok m) :
    ∃ own done, (mergeEntries settings follow deprecated (isStructural es) es).result = .ok own ∧
      finish settings own = .ok done ∧ m = done.toMerged := by
  rcases mergeAs_schema_ok hm with ⟨hdeprecated, -⟩ | ⟨-, ⟨ref, -, href, -⟩ | ⟨-, whole, hwhole, rfl⟩⟩
  · rw [h.current] at hdeprecated
    cases hdeprecated
  · rw [h.alone] at href
    cases href
  · obtain ⟨own, rest, hown, hrest, ⟨-, rfl⟩ | ⟨hcomposed, -⟩⟩ := mergeBeside_ok hwhole
    · exact ⟨own, whole, hown, hrest, rfl⟩
    · rw [h.uncomposed] at hcomposed
      cases hcomposed

omit follow deprecated in
/-- Finishing leaves what stands under a keyword, but for a list of required names. -/
theorem find?_finish_of_not_listed {q r : Parts} {keyword : String}
    (hlist : keyword = "required" →
      ∀ names, Keyed.find? q.entries (.text keyword) ≠ some (.list names))
    (hr : finish settings q = .ok r) :
    Keyed.find? r.entries (.text keyword) = Keyed.find? q.entries (.text keyword) := by
  by_cases hkeyword : keyword = "required"
  · obtain ⟨-, ⟨-, hes⟩ | ⟨names, kept, hnames, -⟩⟩ := finish_ok hr
    · rw [hes]
    · rw [← hkeyword] at hnames
      exact absurd hnames (hlist hkeyword names)
  · exact find?_finish hkeyword hr

/-- **What stands under a keyword of a concrete mapping** is found, merged, in what the mapping comes to. -/
theorem IsSimple.find?_mergeAs {es : Keyed Value} {m : Merged} {keyword : String} {v : Value}
    (h : IsSimple es) (hes : Keyed.Distinct es) (hv : (.text keyword, v) ∈ es)
    (hvendor : settings.isVendor keyword = false)
    (hlist : keyword = "required" → ∀ n names,
      (mergeAs settings follow deprecated (roleOf keyword) v).result = .ok n → n.schema ≠ .list names)
    (hm : (mergeAs settings follow deprecated .schema (.map es)).result = .ok m) :
    ∃ gs n, m.schema = .map gs ∧
      (mergeAs settings follow deprecated (roleOf keyword) v).result = .ok n ∧
      Keyed.find? gs (.text keyword) = some n.schema := by
  obtain ⟨own, done, hown, hdone, rfl⟩ := h.mergeAs_ok hm
  obtain ⟨n, hn, hgives⟩ := (gives_of_mem hes hv).mergeEntries (h.not_structural _) hvendor hown
  refine ⟨done.entries, n, rfl, hn, ?_⟩
  rw [find?_finish_of_not_listed (fun hrequired names hnames => ?_) hdone, hgives.find?]
  rw [hgives.find?] at hnames
  exact hlist hrequired n names hn (Option.some.inj hnames)

end

/-! ### Pieces of a node -/

section

variable {settings : Settings} {document : Value} {visited : List String}

/-- A schema inside a node is merged in its place as it is by itself. -/
theorem mergeVisited_of_within {node piece : Value} (h : Value.Within piece node) :
    mergeAs settings (resolveFrom settings document
        (.ofCount fun _ => (references document).length + (references node).length) visited)
      (leadsToDeprecated document) .schema piece = mergeVisited settings document visited piece :=
  (mergeVisited_of_references_le (references_within_sublist h).length_le).symm

/-- The parts around a node make no difference. -/
theorem mergeVisited_opened (node : Value) :
    mergeVisited settings document visited node = mergeVisited settings document visited node.opened := by
  rw [← mergeVisited_of_within (.of_opened .self), ← mergeAs_opened _ _ _ (by simp)]
  rfl

theorem item_merges {vs : List Value} {i : Nat} {v : Value} {m : Merged} (hv : vs[i]? = some v)
    (hm : (mergeVisited settings document visited (.list vs)).result = .ok m) :
    ∃ n, (mergeVisited settings document visited v).result = .ok n ∧
      ∀ p, m.schema.at? (.item i :: p) = n.schema.at? p := by
  obtain ⟨ws, hws, rfl⟩ := mergeAs_list_ok rfl hm
  obtain ⟨n, hn, hitem⟩ := getElem?_mergeItems hws hv
  rw [mergeVisited_of_within (.item (List.mem_of_getElem? hv) .self)] at hn
  refine ⟨n, hn, fun p => ?_⟩
  rw [Value.at?, Value.step?, hitem, Option.bind_some]

section

variable {es : Keyed Value} {m : Merged} {keyword : String} {v : Value} (h : IsSimple es)
  (hes : (Value.map es).WellFormed) (hv : (.text keyword, v) ∈ es)
  (hvendor : settings.isVendor keyword = false)
  (hm : (mergeVisited settings document visited (.map es)).result = .ok m)

include h hes hv hvendor hm

theorem keyword_merges (hschema : IsSchemaUnder keyword v)
    (hlist : keyword = "required" → ∀ n names,
      (mergeVisited settings document visited v).result = .ok n → n.schema ≠ .list names) :
    ∃ n, (mergeVisited settings document visited v).result = .ok n ∧
      ∀ p, m.schema.at? (.entry (.text keyword) :: p) = n.schema.at? p := by
  have hwithin : Value.Within v (.map es) := .entry hv .self
  rw [← mergeVisited_of_within hwithin, ← mergeAs_roleOf hschema] at hlist ⊢
  obtain ⟨gs, n, hgs, hn, hfound⟩ :=
    h.find?_mergeAs (Value.keysEverywhere_map.1 hes).1 hv hvendor hlist hm
  refine ⟨n, hn, fun p => ?_⟩
  rw [hgs, Value.at?_entry, hfound, Option.bind_some]

theorem name_merges {names : Keyed Value} {name : Scalar} {u : Value}
    (hkeyword : keyword ∈ nameMapKeywords) (hnames : v.opened = .map names) (hu : (name, u) ∈ names) :
    ∃ n, (mergeVisited settings document visited u).result = .ok n ∧
      ∀ p, m.schema.at? (.entry (.text keyword) :: .entry name :: p) = n.schema.at? p := by
  obtain ⟨hrole, hrequired⟩ := roleOf_of_mem_nameMapKeywords hkeyword
  have hwithin := within_of_opened_eq_map hnames
  obtain ⟨gs, n, hgs, hn, hfound⟩ := h.find?_mergeAs (Value.keysEverywhere_map.1 hes).1 hv hvendor
    (fun heq => absurd heq hrequired) hm
  rw [hrole, mergeAs_opened _ _ _ (by simp), hnames, mergeAs_names] at hn
  obtain ⟨ns, hns, hn⟩ := Outcome.result_bind_ok.1 hn
  obtain rfl := Except.ok.inj hn
  obtain ⟨n, hn, hmem⟩ := mem_mergeNamed hns hu
  rw [mergeVisited_of_within (.entry hv (.trans (.entry hu .self) hwithin))] at hn
  have hdistinct : Keyed.Distinct ns := by
    rw [Keyed.Distinct, (mergeNamed_ok hns).1]
    exact hes _ (.entry hv hwithin)
  refine ⟨n, hn, fun p => ?_⟩
  rw [hgs, Value.at?_entry, hfound, Option.bind_some, Value.at?_entry, Keyed.find?_of_mem hmem hdistinct,
    Option.bind_some]

end

theorem property_merges {es ps : Keyed Value} {m : Merged} {name : Scalar} {v u : Value}
    (h : IsSimple es) (hes : (Value.map es).WellFormed) (hv : (propertiesKey, v) ∈ es)
    (hvendor : settings.isVendor "properties" = false) (hps : v.opened = .map ps) (hu : (name, u) ∈ ps)
    (hkept : settings.excludes name u = false) (hcurrent : leadsToDeprecated document u = .ok false)
    (hm : (mergeVisited settings document visited (.map es)).result = .ok m) :
    ∃ n, (mergeVisited settings document visited u).result = .ok n ∧
      ∀ p, m.schema.at? (.entry propertiesKey :: .entry name :: p) = n.schema.at? p := by
  have hwithin := within_of_opened_eq_map hps
  obtain ⟨gs, n, hgs, hn, hfound⟩ := h.find?_mergeAs (Value.keysEverywhere_map.1 hes).1 hv hvendor
    (fun heq => absurd heq (by decide)) hm
  rw [roleOf_properties] at hn
  obtain ⟨q, hq, rfl⟩ := mergeAs_properties_ok hps hn
  obtain ⟨n, hn, hmem⟩ := mem_mergeProperties hq hu hkept hcurrent
  rw [mergeVisited_of_within (.entry hv (.trans (.entry hu .self) hwithin))] at hn
  have hdistinct : Keyed.Distinct q.entries :=
    List.Pairwise.sublist (mergeProperties_ok hq).1 (hes _ (.entry hv hwithin))
  refine ⟨n, hn, fun p => ?_⟩
  rw [hgs, Value.at?_entry, hfound, Option.bind_some, Parts.toMerged, Value.at?_entry,
    Keyed.find?_of_mem hmem hdistinct, Option.bind_some]

end

/-! ## Parts and what stands beside a reference -/

theorem Merged.at?_entry (m : Merged) (k : Scalar) (p : List Value.Step) :
    m.schema.at? (.entry k :: p) = (Keyed.find? m.entries k).bind fun w => w.at? p := by
  unfold Merged.entries
  cases m.schema <;> rfl

theorem Merged.at?_property (m : Merged) (name : Scalar) (p : List Value.Step) :
    m.schema.at? (.entry propertiesKey :: .entry name :: p) =
      (Keyed.find? m.properties name).bind fun w => w.at? p := by
  rw [m.at?_entry, Merged.properties, propertiesOf]
  cases Keyed.find? m.entries propertiesKey with
  | none => rfl
  | some v => cases v <;> rfl

theorem propertiesOf_of_find? {es ps : Keyed Value}
    (h : Keyed.find? es propertiesKey = some (.map ps)) : propertiesOf es = ps := by
  rw [propertiesOf, h]

theorem propertiesOf_of_not_map {es : Keyed Value}
    (h : ∀ ps, Keyed.find? es propertiesKey ≠ some (.map ps)) : propertiesOf es = [] := by
  unfold propertiesOf
  split
  · next ps hps => exact absurd hps (h ps)
  · rfl

section

variable {overrides : Bool} {into es r : Keyed Value} {keyword : String} {name : Scalar}

/-- What a schema has under a keyword that is not united stays when others are folded in. -/
theorem find?_fold_behind (hdistinct : Keyed.Distinct es)
    (hkeyword : keyword ∉ ["properties", "required"]) (h : fold false into es = .ok r) :
    Keyed.find? r (.text keyword) =
      (Keyed.find? into (.text keyword)).or (Keyed.find? es (.text keyword)) := by
  simp only [List.mem_cons, List.not_mem_nil, or_false, not_or] at hkeyword
  rw [find?_fold hdistinct h]
  cases Keyed.find? es (.text keyword) with
  | none => simp
  | some v =>
    simp only
    rw [united_other (fun _ heq => absurd (Scalar.text.inj heq) hkeyword.1)
      (fun _ heq => absurd (Scalar.text.inj heq) hkeyword.2), if_neg (by simp)]
    cases Keyed.find? into (.text keyword) <;> rfl

/-- **What folding leaves of the properties**: those that are folded in are written over the others, but what
is no mapping may override them. -/
theorem propertiesOf_fold (hdistinct : Keyed.Distinct es) (h : fold overrides into es = .ok r) :
    propertiesOf r = Keyed.putAll (propertiesOf into) (propertiesOf es) ∨
      overrides = true ∧ propertiesOf es = [] := by
  have hr := find?_fold hdistinct h propertiesKey
  by_cases hmap : ∃ ps, Keyed.find? es propertiesKey = some (.map ps)
  · obtain ⟨ps, hps⟩ := hmap
    rw [hps] at hr
    rw [propertiesOf_of_find? hps]
    exact Or.inl (propertiesOf_of_find? hr)
  · have hnone : propertiesOf es = [] := propertiesOf_of_not_map fun ps hps => hmap ⟨ps, hps⟩
    cases overrides with
    | true => exact Or.inr ⟨rfl, hnone⟩
    | false =>
      refine Or.inl ?_
      rw [hnone]
      show propertiesOf r = propertiesOf into
      cases hv : Keyed.find? es propertiesKey with
      | none =>
        rw [hv] at hr
        exact propertiesOf_congr hr
      | some v =>
        rw [hv] at hr
        replace hr : Keyed.find? r propertiesKey =
            some ((Keyed.find? into propertiesKey).getD v) := hr.trans <| congrArg some <|
          united_other (fun ps _ hps => hmap ⟨ps, hps ▸ hv⟩) fun _ hk => absurd hk (by decide)
        cases hinto : Keyed.find? into propertiesKey with
        | some w =>
          rw [hinto] at hr
          exact propertiesOf_congr (hr.trans hinto.symm)
        | none =>
          have hempty : propertiesOf into = [] := propertiesOf_of_not_map (by simp [hinto])
          rw [hinto] at hr
          rw [hempty, propertiesOf_of_not_map fun ps hps => hmap ⟨ps, hv.trans (hr.symm.trans hps)⟩]

/-- The properties that are folded in win. -/
theorem find?_propertiesOf_fold {v : Value} (hes : (Value.map es).WellFormed)
    (h : fold overrides into es = .ok r) (hv : Keyed.find? (propertiesOf es) name = some v) :
    Keyed.find? (propertiesOf r) name = some v := by
  rcases propertiesOf_fold (Value.keysEverywhere_map.1 hes).1 h with hr | ⟨-, hnone⟩
  · rw [hr, Keyed.find?_putAll (distinct_propertiesOf hes), hv]
    rfl
  · rw [hnone] at hv
    cases hv

end

section

variable {keyword : String} {name : Scalar} {ms : List Merged} {into whole : Parts}

/-- Of a schema and what is folded into it, the first has a keyword. -/
theorem find?_foldMerged (hms : ∀ m ∈ ms, (Value.map m.entries).WellFormed)
    (hkeyword : keyword ∉ ["properties", "required"]) (h : foldMerged ms into = .ok whole) :
    Keyed.find? whole.entries (.text keyword) =
      (Keyed.find? into.entries (.text keyword)).or
        (ms.findSome? fun m => Keyed.find? m.entries (.text keyword)) := by
  induction ms generalizing into with
  | nil =>
    obtain rfl := Except.ok.inj h
    simp
  | cons m rest ih =>
    obtain ⟨next, hnext, h⟩ := bind_eq_ok.1 h
    have hdistinct := (Value.keysEverywhere_map.1 (hms m List.mem_cons_self)).1
    rw [ih (fun m' hm' => hms m' (List.mem_cons_of_mem _ hm')) h, List.findSome?_cons,
      find?_fold_behind hdistinct hkeyword hnext, Option.or_assoc]
    cases Keyed.find? m.entries (.text keyword) <;> rfl

/-- Of these, the last has a property. -/
theorem find?_propertiesOf_foldMerged (hms : ∀ m ∈ ms, (Value.map m.entries).WellFormed)
    (h : foldMerged ms into = .ok whole) :
    Keyed.find? (propertiesOf whole.entries) name =
      (ms.reverse.findSome? fun m => Keyed.find? m.properties name).or
        (Keyed.find? (propertiesOf into.entries) name) := by
  induction ms generalizing into with
  | nil =>
    obtain rfl := Except.ok.inj h
    rfl
  | cons m rest ih =>
    obtain ⟨next, hnext, h⟩ := bind_eq_ok.1 h
    have hm := hms m List.mem_cons_self
    have hproperties : propertiesOf next = Keyed.putAll (propertiesOf into.entries) m.properties :=
      (propertiesOf_fold (Value.keysEverywhere_map.1 hm).1 hnext).resolve_right (by simp)
    have hdistinct : Keyed.Distinct m.properties := distinct_propertiesOf hm
    rw [ih (fun m' hm' => hms m' (List.mem_cons_of_mem _ hm')) h, hproperties, Keyed.find?_putAll hdistinct,
      List.reverse_cons, List.findSome?_append, List.findSome?_singleton, Option.or_assoc]

end

/-! ### Schemas in place -/

theorem find?_withoutStrayRequired {es : Keyed Value} {keyword : String} (h : keyword ≠ "required") :
    Keyed.find? (withoutStrayRequired es) (.text keyword) = Keyed.find? es (.text keyword) := by
  unfold withoutStrayRequired
  split
  · rfl
  · rfl
  · exact find?_without_required (requiredKey_not_same h)

/-- Lists that are related item by item, taken apart at an item. -/
theorem exists_split_of_forall₂ {α β : Type} {R : α → β → Prop} {before after : List α} {a : α}
    {bs : List β} (h : List.Forall₂ R (before ++ a :: after) bs) :
    ∃ xs b ys, bs = xs ++ b :: ys ∧ List.Forall₂ R before xs ∧ R a b ∧ List.Forall₂ R after ys := by
  induction before generalizing bs with
  | nil =>
    obtain ⟨b, ys, hab, hys, rfl⟩ := List.forall₂_cons_left_iff.1 h
    exact ⟨[], b, ys, rfl, .nil, hab, hys⟩
  | cons c rest ih =>
    obtain ⟨d, ds, hcd, hds, rfl⟩ := List.forall₂_cons_left_iff.1 h
    obtain ⟨xs, b, ys, rfl, hxs, hab, hys⟩ := ih hds
    exact ⟨d :: xs, b, ys, rfl, .cons hcd hxs, hab, hys⟩

/-- A reference that stands alone has nothing beside it. -/
theorem without_ref_of_alone {es : Keyed Value} (h : hasSiblings es = false) :
    Keyed.without es (.text "$ref") = [] := by
  rw [Keyed.without, List.filter_eq_nil_iff]
  intro e he
  have hkey : e.1 = .text "$ref" := by simpa using List.any_eq_false.1 h e he
  simp [hkey, Scalar.same_refl]

/-- What stands beside `allOf` is well-formed with the whole, and so are the parts. -/
theorem wellFormed_of_part {es : Keyed Value} {before after : List Value} {b : Value}
    (hes : (Value.map es).WellFormed)
    (hparts : .map (Keyed.without es (.text "allOf")) :: branchesOf es = before ++ b :: after) :
    b.WellFormed := by
  have hb : b ∈ .map (Keyed.without es (.text "allOf")) :: branchesOf es := by simp [hparts]
  rcases List.mem_cons.1 hb with rfl | hb
  · exact hereditary_distinct.map_without hes _
  · exact hes.within (within_of_mem_branchesOf hb)

section

variable {settings : Settings} {document : Value} {visited : List String} {es : Keyed Value} {m : Merged}

/-- **A composed mapping has its keywords from the first, its properties from the last** of what stands beside
`allOf` and its parts. -/
theorem composed_layers (hdocument : document.WellFormed) (hes : (Value.map es).WellFormed)
    (hcomposed : isComposed es = true) (hnone : reference? (.map es) = none)
    (hdeprecated : Settings.isDeprecated es = false)
    (hm : (mergeVisited settings document visited (.map es)).result = .ok m) :
    ∃ ms, List.Forall₂ (fun c n => (mergeVisited settings document visited c).result = .ok n)
        (.map (Keyed.without es (.text "allOf")) :: branchesOf es) ms ∧
      (∀ keyword, keyword ∉ ["properties", "required"] → Keyed.find? m.entries (.text keyword) =
        ms.findSome? fun n => Keyed.find? n.entries (.text keyword)) ∧
      ∀ name, Keyed.find? m.properties name =
        ms.reverse.findSome? fun n => Keyed.find? n.properties name := by
  obtain ⟨beside, parts, whole, done, hbeside, hparts, hfold, hdone, rfl⟩ :=
    mergeVisited_composed hcomposed hnone hdeprecated hm
  have hwell : ∀ n ∈ parts, (Value.map n.entries).WellFormed := by
    intro n hn
    obtain ⟨b, -, hwithin, hb⟩ := exists_of_mem_right hparts n hn
    exact wellFormed_of_mergeVisited hdocument (hes.within hwithin) hb
  refine ⟨beside.toMerged :: parts, .cons hbeside (hparts.imp fun _ _ => And.right),
    fun keyword hkeyword => ?_, fun name => ?_⟩
  · have hrequired : keyword ≠ "required" := by
      rintro rfl
      exact hkeyword (by simp)
    rw [Parts.entries_toMerged, find?_finish hrequired hdone, find?_foldMerged hwell hkeyword hfold,
      find?_withoutStrayRequired hrequired, List.findSome?_cons, Parts.entries_toMerged]
    cases Keyed.find? beside.entries (.text keyword) <;> rfl
  · rw [Merged.properties, Parts.entries_toMerged, propertiesOf_finish hdone,
      find?_propertiesOf_foldMerged hwell hfold,
      propertiesOf_congr (find?_withoutStrayRequired (by decide)), List.reverse_cons,
      List.findSome?_append, List.findSome?_singleton]
    rfl

/-- What no schema has when it is merged, none of the merged schemas has. -/
theorem find?_eq_none_of_forall₂ {cs : List Value} {ms : List Merged} {entries : Merged → Keyed Value}
    {k : Scalar}
    (h : List.Forall₂ (fun c n => (mergeVisited settings document visited c).result = .ok n) cs ms)
    (hnone : ∀ c ∈ cs, ∀ n, (mergeVisited settings document visited c).result = .ok n →
      Keyed.has (entries n) k = false) : ∀ n ∈ ms, Keyed.find? (entries n) k = none := by
  intro n hn
  obtain ⟨c, hc, hcn⟩ := exists_of_mem_right h n hn
  simpa [Keyed.has] using hnone c hc n hcn

/-- **A part comes to stand in the whole**: under the keywords that none before it has, and for the properties
that none behind it defines. -/
theorem part_merges (hdocument : document.WellFormed) (hes : (Value.map es).WellFormed)
    (hcomposed : isComposed es = true) (hnone : reference? (.map es) = none)
    (hdeprecated : Settings.isDeprecated es = false)
    (hm : (mergeVisited settings document visited (.map es)).result = .ok m)
    {before after : List Value} {b : Value}
    (hparts : .map (Keyed.without es (.text "allOf")) :: branchesOf es = before ++ b :: after) :
    ∃ n, (mergeVisited settings document visited b).result = .ok n ∧
      (∀ keyword u, keyword ∉ ["properties", "required"] →
        (∀ c ∈ before, ∀ k, (mergeVisited settings document visited c).result = .ok k →
          Keyed.has k.entries (.text keyword) = false) →
        Keyed.find? n.entries (.text keyword) = some u → Keyed.find? m.entries (.text keyword) = some u) ∧
      ∀ name u, (∀ c ∈ after, ∀ k, (mergeVisited settings document visited c).result = .ok k →
          Keyed.has k.properties name = false) →
        Keyed.find? n.properties name = some u → Keyed.find? m.properties name = some u := by
  obtain ⟨ms, hms, hkeywords, hproperties⟩ :=
    composed_layers hdocument hes hcomposed hnone hdeprecated hm
  rw [hparts] at hms
  obtain ⟨xs, n, ys, rfl, hxs, hn, hys⟩ := exists_split_of_forall₂ hms
  refine ⟨n, hn, fun keyword u hkeyword hbefore hu => ?_, fun name u hafter hu => ?_⟩
  · have hfirst : (xs.findSome? fun k => Keyed.find? k.entries (.text keyword)) = none :=
      List.findSome?_eq_none_iff.2 (find?_eq_none_of_forall₂ hxs hbefore)
    rw [hkeywords keyword hkeyword, List.findSome?_append, hfirst, List.findSome?_cons, hu]
    rfl
  · have hlast : (ys.reverse.findSome? fun k => Keyed.find? k.properties name) = none :=
      List.findSome?_eq_none_iff.2 fun k hk =>
        find?_eq_none_of_forall₂ hys hafter k (List.mem_reverse.1 hk)
    rw [hproperties name, List.reverse_append, List.reverse_cons, List.append_assoc, List.findSome?_append,
      hlast, List.singleton_append, List.findSome?_cons, hu]
    rfl

/-- **What stands beside a reference comes to stand in the whole**, over a target that is a mapping. -/
theorem beside_merges {ref : String} {base : Keyed Value} (hdocument : document.WellFormed)
    (hes : (Value.map es).WellFormed) (href : reference? (.map es) = some ref)
    (hdeprecated : Settings.isDeprecated es = false)
    (htarget : (resolve settings document visited ref).result = .ok (.map base))
    (hm : (mergeVisited settings document visited (.map es)).result = .ok m) :
    ∃ n, (mergeVisited settings document visited (.map (Keyed.without es (.text "$ref")))).result =
        .ok n ∧
      (∀ keyword u, keyword ∉ ["properties", "required"] →
        Keyed.find? n.entries (.text keyword) = some u → Keyed.find? m.entries (.text keyword) = some u) ∧
      ∀ name u, Keyed.find? n.properties name = some u → Keyed.find? m.properties name = some u := by
  obtain ⟨target, hresolve, hbase⟩ := Outcome.result_bind_ok.1 htarget
  have hbound : (references document).length + 1 ≤ (Bound.ofCount fun _ =>
      (references document).length + (references (.map es)).length).length :=
    Nat.le_trans (Nat.add_le_add_left (List.length_pos_of_mem (mem_references_of_reference? href)) _)
      (Bound.le_length_ofCount fun _ => (references document).length + (references (.map es)).length)
  rw [resolveFrom_chainBound hbound] at hresolve
  rw [mergeVisited, mergeNode] at hm
  rcases mergeAs_schema_ok hm with
    ⟨hdeprecated', -⟩ | ⟨-, ⟨ref', target', href', htarget', hoverlay⟩ | ⟨hnone, -⟩⟩
  · rw [hdeprecated] at hdeprecated'
    cases hdeprecated'
  · obtain rfl := Option.some.inj (href.symm.trans href')
    obtain rfl := Except.ok.inj (hresolve.symm.trans htarget')
    rcases overlay_ok hoverlay with
      ⟨base, own, whole, done, -, -, hown, hwhole, hdone, rfl⟩ | ⟨-, hmap | halone⟩
    · have hbeside : (mergeVisited settings document visited
          (.map (Keyed.without es (.text "$ref")))).result = .ok own.toMerged := by
        rw [mergeVisited_of_references_le (references_without_sublist es _).length_le,
          mergeNode_of_plain reference?_without_ref (isDeprecated_without_ref.trans hdeprecated),
          mergeBeside_without_ref href]
        exact Outcome.result_bind_ok.2 ⟨own, hown, rfl⟩
      have hwell : (Value.map own.entries).WellFormed :=
        wellFormed_of_mergeVisited hdocument (hereditary_distinct.map_without hes _) hbeside
      refine ⟨own.toMerged, hbeside, fun keyword u hkeyword hu => ?_, fun name u hu => ?_⟩
      · simp only [List.mem_cons, List.not_mem_nil, or_false, not_or] at hkeyword
        have hgives := gives_of_mem (Value.keysEverywhere_map.1 hwell).1 (Keyed.mem_of_find?_text hu)
        rw [Parts.entries_toMerged, find?_finish hkeyword.2 hdone]
        exact hgives.find?_fold hkeyword.1 hkeyword.2 hwhole
      · rw [Merged.properties, Parts.entries_toMerged, propertiesOf_finish hdone]
        exact find?_propertiesOf_fold hwell hwhole hu
    · exact absurd (Except.ok.inj hbase) (hmap base)
    · -- Nothing stands beside the reference, and of nothing there is nothing to find.
      rw [without_ref_of_alone halone]
      refine ⟨⟨.map [], []⟩, rfl, fun keyword u _ hu => ?_, fun name u hu => ?_⟩ <;> cases hu
  · rw [href] at hnone
    cases hnone

/-- **What stands in a node comes to stand in its place**: it merges by itself, and what it comes to is found
there in what the node comes to. -/
theorem StandsAt.merges {node piece : Value} {place : List Value.Step} (hdocument : document.WellFormed)
    (h : StandsAt settings document visited node place piece) (hnode : node.WellFormed) {m : Merged}
    (hm : (mergeVisited settings document visited node).result = .ok m) :
    piece.WellFormed ∧ ∃ n, (mergeVisited settings document visited piece).result = .ok n ∧
      m.schema.at? place = some n.schema := by
  -- By induction on where the piece stands.  A step into a keyword or an item finds the whole of what stands
  -- there; a part has only some of the entries of the whole, so there the step after it has to be known as well.
  induction h generalizing m with
  | here v => exact ⟨hnode, m, hm, rfl⟩
  | opened _ ih =>
    rw [mergeVisited_opened] at hm
    exact ih (hnode.within (.of_opened .self)) hm
  | item hv _ ih =>
    obtain ⟨n, hn, hplace⟩ := item_merges hv hm
    rw [hplace]
    exact ih (hnode.within (.item (List.mem_of_getElem? hv) .self)) hn
  | keyword hes hv hvendor hschema hlist _ ih =>
    obtain ⟨n, hn, hplace⟩ := keyword_merges hes hnode hv hvendor hm hschema hlist
    rw [hplace]
    exact ih (hnode.within (.entry hv .self)) hn
  | name hes hv hvendor hkeyword hnames hu _ ih =>
    obtain ⟨n, hn, hplace⟩ := name_merges hes hnode hv hvendor hm hkeyword hnames hu
    rw [hplace]
    exact ih (hnode.within (.entry hv (.trans (.entry hu .self) (within_of_opened_eq_map hnames)))) hn
  | property hes hv hvendor hps hu hkept hcurrent _ ih =>
    obtain ⟨n, hn, hplace⟩ := property_merges hes hnode hv hvendor hps hu hkept hcurrent hm
    rw [hplace]
    exact ih (hnode.within (.entry hv (.trans (.entry hu .self) (within_of_opened_eq_map hps)))) hn
  | part hdeprecated hnone hcomposed hparts hkeyword hbefore _ ih =>
    obtain ⟨n, hn, hkeywords, -⟩ := part_merges hdocument hnode hcomposed hnone hdeprecated hm hparts
    obtain ⟨hpiece, w, hw, hplace⟩ := ih (wellFormed_of_part hnode hparts) hn
    rw [Merged.at?_entry] at hplace
    obtain ⟨u, hu, hplace⟩ := Option.bind_eq_some_iff.1 hplace
    rw [Merged.at?_entry, hkeywords _ u hkeyword hbefore hu]
    exact ⟨hpiece, w, hw, hplace⟩
  | partProperty hdeprecated hnone hcomposed hparts hafter _ ih =>
    obtain ⟨n, hn, -, hproperties⟩ := part_merges hdocument hnode hcomposed hnone hdeprecated hm hparts
    obtain ⟨hpiece, w, hw, hplace⟩ := ih (wellFormed_of_part hnode hparts) hn
    rw [Merged.at?_property] at hplace
    obtain ⟨u, hu, hplace⟩ := Option.bind_eq_some_iff.1 hplace
    rw [Merged.at?_property, hproperties _ u hafter hu]
    exact ⟨hpiece, w, hw, hplace⟩
  | beside hdeprecated href htarget hkeyword _ ih =>
    obtain ⟨n, hn, hkeywords, -⟩ := beside_merges hdocument hnode href hdeprecated htarget hm
    obtain ⟨hpiece, w, hw, hplace⟩ := ih (hereditary_distinct.map_without hnode _) hn
    rw [Merged.at?_entry] at hplace
    obtain ⟨u, hu, hplace⟩ := Option.bind_eq_some_iff.1 hplace
    rw [Merged.at?_entry, hkeywords _ u hkeyword hu]
    exact ⟨hpiece, w, hw, hplace⟩
  | besideProperty hdeprecated href htarget _ ih =>
    obtain ⟨n, hn, -, hproperties⟩ := beside_merges hdocument hnode href hdeprecated htarget hm
    obtain ⟨hpiece, w, hw, hplace⟩ := ih (hereditary_distinct.map_without hnode _) hn
    rw [Merged.at?_property] at hplace
    obtain ⟨u, hu, hplace⟩ := Option.bind_eq_some_iff.1 hplace
    rw [Merged.at?_property, hproperties _ u hu]
    exact ⟨hpiece, w, hw, hplace⟩

end

end Schema

end ToolCatalog
