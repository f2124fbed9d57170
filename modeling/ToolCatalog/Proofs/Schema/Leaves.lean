import ToolCatalog.Proofs.Schema.Hereditary
import ToolCatalog.Proofs.Value.Json

/-!
# Merging makes nothing but lists and mappings

Whatever stands in a merged schema and is no list and no mapping stood in the document or in the node
before.  So a property that lists and mappings have if their members have it, and that whatever stands
inside a value inherits from it, goes from the document and the node to the merged schema.  One such
property is to be of the kinds that JSON has.

* `isJson_merge`: a JSON schema of a JSON document is merged to a JSON schema.
-/

namespace ToolCatalog.Schema

/-- A property of values that is decided by their members: what stands inside a value has it if the value
does, and a list or a mapping has it if all that stands in it does. -/
structure Memberwise (p : Value → Prop) : Prop where
  within : ∀ {w v}, Value.Within w v → p v → p w
  list : ∀ {vs}, (∀ v ∈ vs, p v) → p (.list vs)
  map : ∀ {es}, (∀ k v, (k, v) ∈ es → p v) → p (.map es)

/-- To be of the kinds that JSON has is decided by the members. -/
theorem memberwise_plain : Memberwise fun v => ∀ w, Value.Within w v → w.isPlain = true := by
  constructor
  · exact fun hw h u hu => h u (hu.trans hw)
  · intro vs h w hw
    rcases Value.within_list.1 hw with rfl | ⟨v, hv, hw⟩
    · rfl
    · exact h v hv w hw
  · intro es h w hw
    rcases Value.within_map.1 hw with rfl | ⟨k, v, hv, hw⟩
    · rfl
    · exact h k v hv w hw

namespace Memberwise

variable {p : Value → Prop} (hp : Memberwise p)

include hp

theorem item {vs : List Value} (h : p (.list vs)) : ∀ v ∈ vs, p v :=
  fun _ hv => hp.within (.item hv .self) h

theorem entry {es : Keyed Value} (h : p (.map es)) : ∀ k v, (k, v) ∈ es → p v :=
  fun _ _ hv => hp.within (.entry hv .self) h

theorem of_find? {es : Keyed Value} {q : Scalar} {v : Value} (h : p (.map es))
    (hv : Keyed.find? es q = some v) : p v := by
  obtain ⟨k, hk, -⟩ := Keyed.mem_of_find? hv
  exact hp.entry h k v hk

/-! ## Folding and finishing -/

theorem put {es : Keyed Value} {q : Scalar} {v : Value} (hes : p (.map es)) (hv : p v) :
    p (.map (Keyed.put es q v)) := by
  refine hp.map fun k w hw => ?_
  rcases Keyed.mem_put hw with hw | ⟨rfl, -, -⟩
  · exact hp.entry hes k w hw
  · exact hv

theorem putAll {es news : Keyed Value} (hes : p (.map es)) (hnews : p (.map news)) :
    p (.map (Keyed.putAll es news)) := by
  refine hp.map fun k w hw => ?_
  rcases Keyed.mem_putAll hw with hw | ⟨k', hk', -⟩
  · exact hp.entry hes k w hw
  · exact hp.entry hnews k' w hk'

theorem without {es : Keyed Value} (hes : p (.map es)) (q : Scalar) :
    p (.map (Keyed.without es q)) :=
  hp.map fun k w hw => hp.entry hes k w (Keyed.mem_without.1 hw).1

theorem withoutStrayRequired {es : Keyed Value} (hes : p (.map es)) :
    p (.map (Schema.withoutStrayRequired es)) := by
  unfold Schema.withoutStrayRequired
  split
  · exact hes
  · exact hes
  · exact hp.without hes _

theorem openProperties {es existing : Keyed Value} (hes : p (.map es))
    (h : Schema.openProperties es = .ok existing) : p (.map existing) := by
  unfold Schema.openProperties at h
  split at h
  · next ps hps =>
    obtain rfl := Except.ok.inj h
    exact hp.of_find? hes hps
  · split at h
    · cases h
    · obtain rfl := Except.ok.inj h
      exact hp.map (by simp)
  · obtain rfl := Except.ok.inj h
    exact hp.map (by simp)

theorem openRequired {es : Keyed Value} (hes : p (.map es)) : ∀ v ∈ Schema.openRequired es, p v := by
  unfold Schema.openRequired
  split
  · next names hnames => exact hp.item (hp.of_find? hes hnames)
  · simp

theorem fold {overrides : Bool} {into es r : Keyed Value} (hinto : p (.map into))
    (hes : p (.map es)) (h : Schema.fold overrides into es = .ok r) : p (.map r) := by
  refine fold_induction (p := fun r => p (.map r)) ?_ hinto h
  intro into k v r hkv hinto hr
  have hv := hp.entry hes k v hkv
  rcases foldEntry_ok hr with ⟨ps, existing, -, rfl, ho, rfl⟩ | ⟨names, -, rfl, rfl⟩ | rfl | rfl
  · exact hp.put hinto (hp.putAll (hp.openProperties hinto ho) hv)
  · refine hp.put hinto (hp.list fun w hw => ?_)
    exact (Value.mem_union hw).elim (hp.openRequired hinto w) (hp.item hv w)
  · exact hp.put hinto hv
  · exact hinto

theorem finish {settings : Settings} {q r : Parts} (hq : p (.map q.entries))
    (h : Schema.finish settings q = .ok r) : p (.map r.entries) := by
  obtain ⟨-, ⟨-, hes⟩ | ⟨names, kept, hnames, hkept, hes⟩⟩ := finish_ok h
  · rwa [hes]
  · rw [hes]
    split
    · exact hp.without hq _
    · have hitems := hp.item (hp.of_find? hq hnames)
      exact hp.put hq (hp.list fun v hv => hitems v (mem_of_keepRequired hkept v hv))

/-! ## Merging -/

section

variable {settings : Settings} {follow : String → Outcome Merged}
  {deprecated : Value → Except Fault Bool}

theorem mergeBeside {es : Keyed Value} {q : Parts}
    (hes : ∀ k v, (k, v) ∈ es → ∀ role m,
      (mergeAs settings follow deprecated role v).result = .ok m → p m.schema)
    (hbs : ∀ b ∈ branchesOf es, ∀ m,
      (mergeAs settings follow deprecated .schema b).result = .ok m → p m.schema)
    (h : (Schema.mergeBeside settings follow deprecated es).result = .ok q) :
    p (.map q.entries) := by
  obtain ⟨own, rest, hown, hrest, hq⟩ := mergeBeside_ok h
  have hown' : p (.map own.entries) := by
    refine hp.map fun k w hw => ?_
    obtain ⟨keyword, v, m, -, hv, -, -, hm, rfl⟩ := (mergeEntries_ok hown).2 k w hw
    exact hes k v hv _ m hm
  have hrest' := hp.finish hown' hrest
  rcases hq with ⟨-, rfl⟩ | ⟨-, whole, hwhole, hq⟩
  · exact hrest'
  · refine hp.finish ?_ hq
    refine mergeBranches_induction (p := fun q => p (.map q.entries)) ?_
      (hp.withoutStrayRequired hrest') hwhole
    intro b hb m hm into hinto
    refine ⟨fun fs entries hfs hfold => ?_, fun _ => hinto⟩
    have hm' := hbs b hb m hm
    rw [hfs] at hm'
    exact hp.fold hinto hm' hfold

theorem overlay {es : Keyed Value} {target m : Merged} {beside : Unit → Outcome Parts}
    (htarget : p target.schema)
    (hbeside : ∀ q, (beside ()).result = .ok q → p (.map q.entries))
    (h : (Schema.overlay settings es target beside).result = .ok m) : p m.schema := by
  rcases overlay_ok h with ⟨base, own, whole, done, hbase, -, hown, hwhole, hdone, rfl⟩ | ⟨rfl, -⟩
  · rw [hbase] at htarget
    exact hp.finish (q := ⟨whole, _⟩) (hp.fold htarget (hbeside own hown) hwhole) hdone
  · exact htarget

/-- **Merging keeps a property of the members**, if references do. -/
theorem mergeAs (hfollow : ∀ ref m, (follow ref).result = .ok m → p m.schema) {role : Role}
    {v : Value} {m : Merged} (hv : p v)
    (h : (Schema.mergeAs settings follow deprecated role v).result = .ok m) : p m.schema := by
  refine mergeAs_induction (motive := fun _ v w => p v → p w) (fun _ => id) (fun _ _ => id)
    (fun _ _ _ => id) (fun _ _ => id) ?list ?part ?properties ?names ?dropped ?reference ?beside h hv
  case list =>
    intro role vs ws _ hws hvs
    refine hp.list fun w hw => ?_
    obtain ⟨v, hv, hw⟩ := hws w hw
    exact hw (hp.item hvs v hv)
  case part => exact fun role n body w hw hbody => hw (hp.within (.part .self) hbody)
  case properties =>
    intro es ps _ hps hes
    refine hp.map fun k w hw => ?_
    obtain ⟨v, hv, -, hw⟩ := hps k w hw
    exact hw (hp.entry hes k v hv)
  case names =>
    intro es ns _ hns hes
    refine hp.map fun k w hw => ?_
    obtain ⟨v, hv, hw⟩ := hns k w hw
    exact hw (hp.entry hes k v hv)
  case dropped => exact fun _ _ => hp.map (by simp)
  case reference =>
    intro es ref target m htarget hbeside h hes
    exact hp.overlay (hfollow ref target htarget) (fun q hq => hbeside q hq hes) h
  case beside =>
    intro es q _ hentry hbranch h hes
    exact hp.mergeBeside (fun k v hv role m hm => hentry k v hv role m hm (hp.entry hes k v hv))
      (fun b hb m hm => hbranch b hb m hm (hp.within (within_of_mem_branchesOf hb) hes)) h

end

/-- **Merged schemas have what the members of the document and of the node have.** -/
theorem merge {settings : Settings} {document node r : Value} {visited : List String}
    (hdocument : p document) (hnode : p node)
    (h : (Schema.merge settings document visited node).result = .ok r) : p r := by
  obtain ⟨m, hm, rfl⟩ := merge_ok h
  exact mergeVisited_induction (q := p) (p := fun m => p m.schema)
    (fun _ _ hwalk => hp.within (Pointer.within_of_walk hwalk) hdocument)
    (fun _ hfollow _ _ hv hm => hp.mergeAs hfollow hv hm) hnode hm

end Memberwise

/-- **JSON schemas are merged to JSON schemas.** -/
theorem isJson_merge {settings : Settings} {document node r : Value} {visited : List String}
    (hdocument : document.IsJson) (hnode : node.IsJson)
    (h : (merge settings document visited node).result = .ok r) : r.IsJson :=
  ⟨hereditary_texts.merge hdocument.keys hnode.keys h,
    memberwise_plain.merge hdocument.plain hnode.plain h⟩

end ToolCatalog.Schema
