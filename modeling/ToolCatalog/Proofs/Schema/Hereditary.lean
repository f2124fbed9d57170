import ToolCatalog.Proofs.Schema.Merging
import ToolCatalog.Proofs.Schema.References

/-!
# What merged schemas inherit from the document

Merging invents no keys.  It leaves keys out and puts keys of one mapping behind those of another, so
a property of key lists that survives both is inherited by merged schemas from the document and the
node.  Two such properties are that no key comes twice and that all keys are texts.
-/

namespace ToolCatalog.Schema

/-- A property of key lists that the empty one has, that is kept when keys are left out, and when a key
of one list that is new to another is added to it. -/
structure Hereditary (p : List Scalar → Prop) : Prop where
  nil : p []
  sublist : ∀ {ks qs}, qs.Sublist ks → p ks → p qs
  append : ∀ {ks qs q}, p ks → p qs → q ∈ qs → (∀ k ∈ ks, q.same k = false) → p (ks ++ [q])

/-- No key comes twice. -/
theorem hereditary_distinct :
    Hereditary fun ks => ks.Pairwise fun k q => k.same q = false := by
  constructor
  · exact List.Pairwise.nil
  · intro ks qs hsub hks
    exact hks.sublist hsub
  · intro ks qs q hks _ _ hnew
    refine List.pairwise_append.2 ⟨hks, List.pairwise_singleton _ _, fun k hk q' hq' => ?_⟩
    rw [List.mem_singleton.1 hq', Scalar.same_comm]
    exact hnew k hk

/-- All keys are texts. -/
theorem hereditary_texts : Hereditary fun ks => ∀ k ∈ ks, ∃ s, k = .text s := by
  constructor
  · simp
  · intro ks qs hsub hks k hk
    exact hks k (hsub.subset hk)
  · intro ks qs q hks hqs hq _ k hk
    rcases List.mem_append.1 hk with hk | hk
    · exact hks k hk
    · rw [List.mem_singleton.1 hk]
      exact hqs q hq

/-- What is found in a mapping has the property everywhere if the mapping has. -/
theorem keysEverywhere_of_find? {p : List Scalar → Prop} {es : Keyed Value} {q : Scalar} {v : Value}
    (hes : (Value.map es).KeysEverywhere p) (hv : Keyed.find? es q = some v) :
    v.KeysEverywhere p := by
  obtain ⟨k, hk, -⟩ := Keyed.mem_of_find? hv
  exact (Value.keysEverywhere_map.1 hes).2 k v hk

/-- A mapping that is found in one in which no key comes twice has each key once. -/
theorem distinct_of_find? {es ps : Keyed Value} {q : Scalar} (hes : (Value.map es).WellFormed)
    (hps : Keyed.find? es q = some (.map ps)) : Keyed.Distinct ps :=
  (Value.keysEverywhere_map.1 (keysEverywhere_of_find? hes hps)).1

/-- What has properties has a mapping of them, each name once. -/
theorem distinct_propertiesOf {es : Keyed Value} (h : (Value.map es).WellFormed) :
    Keyed.Distinct (propertiesOf es) := by
  unfold propertiesOf
  split
  · next ps hps => exact distinct_of_find? h hps
  · exact List.Pairwise.nil

section

variable {p : List Scalar → Prop} (hp : Hereditary p)

include hp

theorem Hereditary.map_nil : (Value.map []).KeysEverywhere p :=
  Value.keysEverywhere_map.2 ⟨hp.nil, by simp⟩

theorem Hereditary.put {es : Keyed Value} {qs : List Scalar} {q : Scalar} {v : Value}
    (hes : p (Keyed.keys es)) (hqs : p qs) (hq : q ∈ qs) : p (Keyed.keys (Keyed.put es q v)) := by
  rw [Keyed.keys_put]
  split
  · exact hes
  · next hnew =>
    refine hp.append hes hqs hq fun k hk => ?_
    by_cases hs : q.same k = true
    · exact absurd (Keyed.has_iff.2 ⟨k, hk, hs⟩) hnew
    · simpa using hs

theorem Hereditary.putAll {es news : Keyed Value} {qs : List Scalar} (hes : p (Keyed.keys es))
    (hqs : p qs) (hnews : Keyed.keys news ⊆ qs) : p (Keyed.keys (Keyed.putAll es news)) := by
  induction news generalizing es with
  | nil => exact hes
  | cons e rest ih =>
    obtain ⟨k, v⟩ := e
    rw [Keyed.keys_cons, List.cons_subset] at hnews
    exact ih (hp.put hes hqs hnews.1) hnews.2

/-! ## Folding and finishing -/

theorem Hereditary.map_put {es : Keyed Value} {qs : List Scalar} {q : Scalar} {v : Value}
    (hes : (Value.map es).KeysEverywhere p) (hqs : p qs) (hq : q ∈ qs) (hv : v.KeysEverywhere p) :
    (Value.map (Keyed.put es q v)).KeysEverywhere p := by
  rw [Value.keysEverywhere_map] at hes ⊢
  refine ⟨hp.put hes.1 hqs hq, fun k w hw => ?_⟩
  rcases Keyed.mem_put hw with hw | ⟨rfl, -, -⟩
  · exact hes.2 k w hw
  · exact hv

theorem Hereditary.map_putAll {es news : Keyed Value} (hes : (Value.map es).KeysEverywhere p)
    (hnews : (Value.map news).KeysEverywhere p) :
    (Value.map (Keyed.putAll es news)).KeysEverywhere p := by
  rw [Value.keysEverywhere_map] at hes hnews ⊢
  refine ⟨hp.putAll hes.1 hnews.1 (List.Subset.refl _), fun k w hw => ?_⟩
  rcases Keyed.mem_putAll hw with hw | ⟨k', hk', -⟩
  · exact hes.2 k w hw
  · exact hnews.2 k' w hk'

theorem Hereditary.map_without {es : Keyed Value} (hes : (Value.map es).KeysEverywhere p)
    (q : Scalar) : (Value.map (Keyed.without es q)).KeysEverywhere p := by
  rw [Value.keysEverywhere_map] at hes ⊢
  refine ⟨?_, fun k w hw => hes.2 k w (Keyed.mem_without.1 hw).1⟩
  rw [Keyed.keys_without]
  exact hp.sublist List.filter_sublist hes.1

theorem Hereditary.map_withoutStrayRequired {es : Keyed Value}
    (hes : (Value.map es).KeysEverywhere p) :
    (Value.map (withoutStrayRequired es)).KeysEverywhere p := by
  unfold withoutStrayRequired
  split
  · exact hes
  · exact hes
  · exact hp.map_without hes _

theorem Hereditary.openProperties {es existing : Keyed Value}
    (hes : (Value.map es).KeysEverywhere p) (h : openProperties es = .ok existing) :
    (Value.map existing).KeysEverywhere p := by
  unfold Schema.openProperties at h
  split at h
  · next ps hps =>
    obtain rfl := Except.ok.inj h
    exact keysEverywhere_of_find? hes hps
  · split at h
    · cases h
    · obtain rfl := Except.ok.inj h
      exact hp.map_nil
  · obtain rfl := Except.ok.inj h
    exact hp.map_nil

omit hp in
theorem keysEverywhere_openRequired {es : Keyed Value} (hes : (Value.map es).KeysEverywhere p) :
    ∀ v ∈ openRequired es, v.KeysEverywhere p := by
  unfold Schema.openRequired
  split
  · next names hnames =>
    exact Value.keysEverywhere_list.1 (keysEverywhere_of_find? hes hnames)
  · simp

theorem Hereditary.fold {overrides : Bool} {into es r : Keyed Value}
    (hinto : (Value.map into).KeysEverywhere p) (hes : (Value.map es).KeysEverywhere p)
    (h : fold overrides into es = .ok r) : (Value.map r).KeysEverywhere p := by
  refine fold_induction (p := fun r => (Value.map r).KeysEverywhere p) ?_ hinto h
  intro into k v r hkv hinto hr
  obtain ⟨hkeys, hentries⟩ := Value.keysEverywhere_map.1 hes
  have hk : k ∈ Keyed.keys es := Keyed.mem_keys_of_mem hkv
  have hv := hentries k v hkv
  rcases foldEntry_ok hr with ⟨ps, existing, -, rfl, ho, rfl⟩ | ⟨names, -, rfl, rfl⟩ | rfl | rfl
  · exact hp.map_put hinto hkeys hk (hp.map_putAll (hp.openProperties hinto ho) hv)
  · refine hp.map_put hinto hkeys hk (Value.keysEverywhere_list.2 fun w hw => ?_)
    rcases Value.mem_union hw with hw | hw
    · exact keysEverywhere_openRequired hinto w hw
    · exact Value.keysEverywhere_list.1 hv w hw
  · exact hp.map_put hinto hkeys hk hv
  · exact hinto

theorem Hereditary.finish {settings : Settings} {q r : Parts}
    (hq : (Value.map q.entries).KeysEverywhere p) (h : finish settings q = .ok r) :
    (Value.map r.entries).KeysEverywhere p := by
  obtain ⟨-, ⟨-, hes⟩ | ⟨names, kept, hnames, hkept, hes⟩⟩ := finish_ok h
  · rw [hes]
    exact hq
  · rw [hes]
    split
    · exact hp.map_without hq _
    · refine hp.map_put hq (Value.keysEverywhere_map.1 hq).1
        (Keyed.mem_keys_of_mem (Keyed.mem_of_find?_text hnames)) ?_
      have hl := Value.keysEverywhere_list.1 (keysEverywhere_of_find? hq hnames)
      exact Value.keysEverywhere_list.2 fun v hv => hl v (mem_of_keepRequired hkept v hv)

/-! ## Merging -/

section

variable {settings : Settings} {follow : String → Outcome Merged}
  {deprecated : Value → Except Fault Bool}

/-- What a mapping comes to by its own keywords inherits the property, if what stands inside does. -/
theorem Hereditary.mergeBeside {es : Keyed Value} {q : Parts} (hkeys : p (Keyed.keys es))
    (hes : ∀ k v, (k, v) ∈ es → ∀ role m,
      (mergeAs settings follow deprecated role v).result = .ok m → m.schema.KeysEverywhere p)
    (hbs : ∀ b ∈ branchesOf es, ∀ m,
      (mergeAs settings follow deprecated .schema b).result = .ok m → m.schema.KeysEverywhere p)
    (h : (mergeBeside settings follow deprecated es).result = .ok q) :
    (Value.map q.entries).KeysEverywhere p := by
  obtain ⟨own, rest, hown, hrest, hq⟩ := mergeBeside_ok h
  have hown' : (Value.map own.entries).KeysEverywhere p := by
    obtain ⟨hsub, hmem⟩ := mergeEntries_ok hown
    refine Value.keysEverywhere_map.2 ⟨hp.sublist hsub hkeys, fun k w hw => ?_⟩
    obtain ⟨keyword, v, m, -, hv, -, -, hm, rfl⟩ := hmem k w hw
    exact hes k v hv _ m hm
  have hrest' := hp.finish hown' hrest
  rcases hq with ⟨-, rfl⟩ | ⟨-, whole, hwhole, hq⟩
  · exact hrest'
  · refine hp.finish ?_ hq
    refine mergeBranches_induction (p := fun q => (Value.map q.entries).KeysEverywhere p) ?_
      (hp.map_withoutStrayRequired hrest') hwhole
    intro b hb m hm into hinto
    refine ⟨fun fs entries hfs hfold => ?_, fun _ => hinto⟩
    have hm' := hbs b hb m hm
    rw [hfs] at hm'
    exact hp.fold hinto hm' hfold

theorem Hereditary.overlay {es : Keyed Value} {target m : Merged} {beside : Unit → Outcome Parts}
    (htarget : target.schema.KeysEverywhere p)
    (hbeside : ∀ q, (beside ()).result = .ok q → (Value.map q.entries).KeysEverywhere p)
    (h : (overlay settings es target beside).result = .ok m) : m.schema.KeysEverywhere p := by
  rcases overlay_ok h with ⟨base, own, whole, done, hbase, -, hown, hwhole, hdone, rfl⟩ | ⟨rfl, -⟩
  · rw [hbase] at htarget
    exact hp.finish (q := ⟨whole, _⟩) (hp.fold htarget (hbeside own hown) hwhole) hdone
  · exact htarget

/-- **Merging keeps a hereditary property**, if references do. -/
theorem Hereditary.mergeAs
    (hfollow : ∀ ref m, (follow ref).result = .ok m → m.schema.KeysEverywhere p)
    {role : Role} {v : Value} {m : Merged} (hv : v.KeysEverywhere p)
    (h : (mergeAs settings follow deprecated role v).result = .ok m) :
    m.schema.KeysEverywhere p := by
  refine mergeAs_induction (motive := fun _ v w => v.KeysEverywhere p → w.KeysEverywhere p)
    (fun _ => id) (fun _ _ => id) (fun _ _ _ => id) (fun _ _ => id) ?list ?part ?properties ?names
    (fun _ _ => hp.map_nil) ?reference ?beside h hv
  case list =>
    intro role vs ws _ hws hvs
    refine Value.keysEverywhere_list.2 fun w hw => ?_
    obtain ⟨v, hv, hw⟩ := hws w hw
    exact hw (Value.keysEverywhere_list.1 hvs v hv)
  case part => exact fun role n body w hw hbody => hw (Value.keysEverywhere_part.1 hbody)
  case properties =>
    intro es ps hsub hps hes
    obtain ⟨hkeys, hentries⟩ := Value.keysEverywhere_map.1 hes
    refine Value.keysEverywhere_map.2 ⟨hp.sublist hsub hkeys, fun k w hw => ?_⟩
    obtain ⟨v, hv, -, hw⟩ := hps k w hw
    exact hw (hentries k v hv)
  case names =>
    intro es ns heq hns hes
    obtain ⟨hkeys, hentries⟩ := Value.keysEverywhere_map.1 hes
    refine Value.keysEverywhere_map.2 ⟨by rwa [heq], fun k w hw => ?_⟩
    obtain ⟨v, hv, hw⟩ := hns k w hw
    exact hw (hentries k v hv)
  case reference =>
    intro es ref target m htarget hbeside h hes
    exact hp.overlay (hfollow ref target htarget) (fun q hq => hbeside q hq hes) h
  case beside =>
    intro es q _ hentry hbranch h hes
    obtain ⟨hkeys, hentries⟩ := Value.keysEverywhere_map.1 hes
    exact hp.mergeBeside hkeys (fun k v hv role m hm => hentry k v hv role m hm (hentries k v hv))
      (fun b hb m hm => hbranch b hb m hm (hes.within (within_of_mem_branchesOf hb))) h

/-- What a mapping comes to by its own keywords inherits the property from it. -/
theorem Hereditary.mergeBeside_map
    (hfollow : ∀ ref m, (follow ref).result = .ok m → m.schema.KeysEverywhere p)
    {es : Keyed Value} {q : Parts} (hes : (Value.map es).KeysEverywhere p)
    (h : (Schema.mergeBeside settings follow deprecated es).result = .ok q) :
    (Value.map q.entries).KeysEverywhere p := by
  obtain ⟨hkeys, hentries⟩ := Value.keysEverywhere_map.1 hes
  refine hp.mergeBeside hkeys (fun k v hv role m hm => ?_) (fun b hb m hm => ?_) h
  · exact hp.mergeAs hfollow (hentries k v hv) hm
  · exact hp.mergeAs hfollow (hes.within (within_of_mem_branchesOf hb)) hm

end

/-- What a reference resolves to inherits hereditary properties from the document. -/
theorem Hereditary.resolveFrom {settings : Settings} {document : Value}
    (hdocument : document.KeysEverywhere p) {bound : Bound} {visited : List String} {ref : String}
    {m : Merged} (h : (resolveFrom settings document bound visited ref).result = .ok m) :
    m.schema.KeysEverywhere p :=
  resolveFrom_induction (q := fun v => v.KeysEverywhere p) (p := fun m => m.schema.KeysEverywhere p)
    (fun _ _ hwalk => hdocument.within (Pointer.within_of_walk hwalk))
    (fun _ hfollow _ _ hv hm => hp.mergeAs hfollow hv hm) bound visited ref m h

/-- **Merged schemas inherit hereditary properties** from the document and the node. -/
theorem Hereditary.merge {settings : Settings} {document node r : Value} {visited : List String}
    (hdocument : document.KeysEverywhere p) (hnode : node.KeysEverywhere p)
    (h : (merge settings document visited node).result = .ok r) : r.KeysEverywhere p := by
  obtain ⟨m, hm, rfl⟩ := merge_ok h
  exact hp.mergeAs (fun _ _ => hp.resolveFrom hdocument) hnode hm

end

end ToolCatalog.Schema
