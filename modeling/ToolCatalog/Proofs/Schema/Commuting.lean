import ToolCatalog.Proofs.Schema.Composing

/-!
# Parts may change places

The first of several parts decides on a keyword, the last on a property, and required names stand where they
first appeared, so the order of parts matters.  It does not matter for parts that are apart: no two of them
have a keyword in common that is not united, and none says anything about a property that another one
mentions.  They may still require what another part defines or leaves out.  In another order they come to a
schema that is alike, with the same required names in another order.

* `merge_allOf_perm`: merging commutes with every permutation of parts that are apart.
-/

namespace ToolCatalog

/-! ## Lists of the same values in another order -/

namespace Value

/-- **Equality of keys is symmetric.** -/
theorem same_comm_of_isKey {v w : Value} (hv : v.isKey = true) (hw : w.isKey = true) :
    v.same w = w.same v := by
  induction v using induction generalizing w with
  | scalar s =>
    cases w with
    | scalar t => exact Scalar.same_comm s t
    | pair c d => rfl
    | _ => cases hw
  | pair a b iha ihb =>
    cases w with
    | scalar t => rfl
    | pair c d =>
      rw [isKey, Bool.and_eq_true] at hv hw
      show (a.same c && b.same d) = (c.same a && d.same b)
      rw [iha hv.1 hw.1, ihb hv.2 hw.2]
    | _ => cases hw
  | _ => cases hv

/-- Two lists hold the same values, each in its own order. -/
def Matched (vs ws : List Value) : Prop :=
  ∃ us, ws.Perm us ∧ List.Forall₂ (fun v u => v.same u = true) vs us

theorem Matched.isEmpty {vs ws : List Value} (h : Matched vs ws) : vs.isEmpty = ws.isEmpty := by
  obtain ⟨us, hperm, hsame⟩ := h
  rw [Bool.eq_iff_iff, List.isEmpty_iff_length_eq_zero, List.isEmpty_iff_length_eq_zero,
    hperm.length_eq, hsame.length_eq]

/-- Lists of keys without repetition hold the same values if each has what the other has. -/
theorem matched_of_isAmong {vs ws : List Value} (hvs : ∀ v ∈ vs, v.isKey = true)
    (hws : ∀ w ∈ ws, w.isKey = true) (hdistinct : vs.Pairwise fun v w => w.same v = false)
    (hdistinct' : ws.Pairwise fun v w => w.same v = false) (h : ∀ v ∈ vs, v.isAmong ws = true)
    (h' : ∀ w ∈ ws, w.isAmong vs = true) : Matched vs ws := by
  induction vs generalizing ws with
  | nil =>
    cases ws with
    | nil => exact ⟨[], .refl _, .nil⟩
    | cons w rest => simpa [isAmong] using h' w List.mem_cons_self
  | cons v rest ih =>
    have hv := hvs v List.mem_cons_self
    obtain ⟨w, hw, hvw⟩ := List.any_eq_true.1 (h v List.mem_cons_self)
    obtain ⟨as, bs, rfl⟩ := List.append_of_mem hw
    have hwkey := hws w hw
    have hsub : (as ++ bs).Sublist (as ++ w :: bs) := (List.sublist_cons_self w bs).append_left as
    have hwv : w.same v = true := (same_comm_of_isKey hwkey hv).trans hvw
    rw [List.pairwise_cons] at hdistinct
    have hapart : ∀ u ∈ as ++ bs, w.same u = false := by
      rw [List.pairwise_append, List.pairwise_cons] at hdistinct'
      intro u hu
      rcases List.mem_append.1 hu with hu | hu
      · exact hdistinct'.2.2 u hu w List.mem_cons_self
      · exact (same_comm_of_isKey hwkey (hws u (hsub.subset (List.mem_append_right _ hu)))).trans
          (hdistinct'.2.1.1 u hu)
    -- What is the same as `v` is the same as `w`, so it is neither among the rest nor among the others.
    have hrest : ∀ x ∈ rest, x.isAmong (as ++ bs) = true := by
      intro x hx
      have hxw : x.same w = false := by
        refine Bool.eq_false_iff.2 fun hxw => ?_
        have hxv := hdistinct.1 x hx
        rw [same_trans_of_isKey (hvs x (List.mem_cons_of_mem _ hx)) hwkey hv hxw hwv] at hxv
        cases hxv
      simpa [isAmong, hxw] using h x (List.mem_cons_of_mem _ hx)
    have hothers : ∀ u ∈ as ++ bs, u.isAmong rest = true := by
      intro u hu
      have hukey := hws u (hsub.subset hu)
      have huv : u.same v = false := by
        refine Bool.eq_false_iff.2 fun huv => ?_
        have hwu := hapart u hu
        rw [same_comm_of_isKey hwkey hukey, same_trans_of_isKey hukey hv hwkey huv hvw] at hwu
        cases hwu
      simpa [isAmong, huv] using h' u (hsub.subset hu)
    obtain ⟨us, hperm, hsame⟩ := ih (fun x hx => hvs x (List.mem_cons_of_mem _ hx))
      (fun u hu => hws u (hsub.subset hu)) hdistinct.2 (hdistinct'.sublist hsub) hrest hothers
    exact ⟨w :: us, List.perm_middle.trans (hperm.cons w), .cons hvw hsame⟩

/-- **Keys in another order, each once**, are the same values in another order. -/
theorem matched_union {vs ws : List Value} {s : Value → Bool} (hperm : vs.Perm ws)
    (hvs : ∀ v ∈ vs, v.isKey = true)
    (hs : ∀ v w : Value, v.isKey = true → w.isKey = true → v.same w = true → s v = s w) :
    Matched ((union [] vs).filter s) ((union [] ws).filter s) := by
  have hkeys : ∀ {vs : List Value}, (∀ v ∈ vs, v.isKey = true) →
      ∀ v ∈ (union [] vs).filter s, v.isKey = true := by
    intro vs hvs v hv
    exact (mem_union (List.mem_filter.1 hv).1).elim (by simp) (hvs v)
  have hamong : ∀ {vs ws : List Value}, vs.Perm ws → (∀ v ∈ vs, v.isKey = true) →
      ∀ v ∈ (union [] vs).filter s, v.isAmong ((union [] ws).filter s) = true := by
    intro vs ws hperm hvs v hv
    have hws : ∀ w ∈ ws, w.isKey = true := fun w hw => hvs w (hperm.mem_iff.2 hw)
    have hvkey := hkeys hvs v hv
    obtain ⟨hv, hsv⟩ := List.mem_filter.1 hv
    have hmem : v ∈ ws := hperm.mem_iff.1 ((mem_union hv).elim (by simp) id)
    obtain ⟨w, hw, hvw⟩ := List.any_eq_true.1 (isAmong_union_of_mem [] hws hmem)
    have hwkey : w.isKey = true := (mem_union hw).elim (by simp) (hws w)
    rw [hs v w hvkey hwkey hvw] at hsv
    exact List.any_eq_true.2 ⟨w, List.mem_filter.2 ⟨hw, hsv⟩, hvw⟩
  have hws : ∀ w ∈ ws, w.isKey = true := fun w hw => hvs w (hperm.mem_iff.2 hw)
  have hdistinct : ∀ vs : List Value, ((union [] vs).filter s).Pairwise fun v w => w.same v = false :=
    fun vs => (union_distinct List.Pairwise.nil vs).sublist List.filter_sublist
  exact matched_of_isAmong (hkeys hvs) (hkeys hws) (hdistinct vs) (hdistinct ws) (hamong hperm hvs)
    (hamong hperm.symm hws)

end Value

namespace Schema

/-! ## Parts that are apart -/

/-- Two merged schemas are apart: they have no keyword in common that is not united, and neither says
anything about a property that the other mentions. -/
structure Merged.IsApart (m n : Merged) : Prop where
  keywords : ∀ k, Keyed.has m.entries k = true → Keyed.has n.entries k = true →
    k = propertiesKey ∨ k = requiredKey
  names : ∀ k, m.mentions k = true → n.mentions k = false

theorem Merged.IsApart.not_both {m n : Merged} {k : Scalar} (h : m.IsApart n) (hm : m.mentions k = true) :
    n.mentions k ≠ true := by
  rw [h.names k hm]
  exact Bool.false_ne_true

theorem Merged.IsApart.symm {m n : Merged} (h : m.IsApart n) : n.IsApart m :=
  ⟨fun k hk hk' => h.keywords k hk' hk, fun _ hn => Bool.eq_false_iff.2 fun hm => h.not_both hm hn⟩

/-- Equality up to the order of keys, and of the required names, each of which may be spelled as a key that
is the same. -/
structure AlikeButRequired (es fs : Keyed Value) : Prop where
  bare : Value.Alike (.map (Keyed.without es requiredKey)) (.map (Keyed.without fs requiredKey))
  required : Keyed.find? es requiredKey = none ∧ Keyed.find? fs requiredKey = none ∨
    ∃ names names', Keyed.find? es requiredKey = some (.list names) ∧
      Keyed.find? fs requiredKey = some (.list names') ∧ Value.Matched names names'

/-- What may be required depends on what is found under each name. -/
theorem mayRequire_eq {settings : Settings} {properties properties' : Keyed Value}
    {dropped dropped' : List Scalar}
    (hproperties : ∀ k, Keyed.find? properties k = Keyed.find? properties' k)
    (hdropped : ∀ k : Scalar, dropped.any k.same = dropped'.any k.same) :
    mayRequire settings properties dropped = mayRequire settings properties' dropped' := by
  funext v
  cases v with
  | scalar k => rw [mayRequire, mayRequire, Keyed.has, Keyed.has, hproperties, hdropped]
  | _ => rfl

section

variable {settings : Settings} {ms ns : List Merged} {es fs : Keyed Value}

/-- A finding about merged schemas that are apart is the same for all that have it. -/
theorem eq_of_found {α : Type} {f : Merged → Option α}
    (h : ∀ m ∈ ms, ∀ n ∈ ms, m ≠ n → ∀ v w, f m = some v → f n ≠ some w) :
    ∀ m ∈ ms, ∀ n ∈ ms, ∀ v w, f m = some v → f n = some w → v = w := by
  intro m hm n hn v w hv hw
  by_cases heq : m = n
  · subst heq
    exact Option.some.inj (hv.symm.trans hw)
  · exact absurd hw (h m hm n hn heq v w hv)

section

variable (hms : ∀ m ∈ ms, Foldable m) (hapart : ∀ m ∈ ms, ∀ n ∈ ms, m ≠ n → m.IsApart n)

include hms hapart

/-- Keys of schemas that are apart are spelled alike where they are the same. -/
theorem keys_spelled : ∀ ks ∈ ms.map fun m => Keyed.keys (Keyed.without m.entries requiredKey),
    ∀ qs ∈ ms.map fun m => Keyed.keys (Keyed.without m.entries requiredKey),
    ∀ k ∈ ks, ∀ q ∈ qs, k.same q = true → k = q := by
  intro ks hks qs hqs k hk q hq hsame
  obtain ⟨m, hm, rfl⟩ := List.mem_map.1 hks
  obtain ⟨n, hn, rfl⟩ := List.mem_map.1 hqs
  by_cases heq : m = n
  · subst heq
    exact Keyed.eq_of_same_of_distinct (hms m hm).bare.distinct hk hq hsame
  · have hhas : ∀ {m : Merged} {q : Scalar}, q ∈ Keyed.keys (Keyed.without m.entries requiredKey) →
        k.same q = true → Keyed.has m.entries k = true := by
      intro m q hq hsame
      rw [Keyed.keys_without] at hq
      exact Keyed.has_iff.2 ⟨q, (List.mem_filter.1 hq).1, hsame⟩
    rcases (hapart m hm n hn heq).keywords k (hhas hk (Scalar.same_refl k)) (hhas hq hsame) with
      rfl | rfl
    · exact ((Scalar.same_text _ _).1 hsame).symm
    · exact ((Scalar.same_text _ _).1 hsame).symm

/-- Names of properties of schemas that are apart are spelled alike where they are the same. -/
theorem names_spelled : ∀ ks ∈ ms.map fun m => Keyed.keys m.properties,
    ∀ qs ∈ ms.map fun m => Keyed.keys m.properties, ∀ k ∈ ks, ∀ q ∈ qs, k.same q = true → k = q := by
  intro ks hks qs hqs k hk q hq hsame
  obtain ⟨m, hm, rfl⟩ := List.mem_map.1 hks
  obtain ⟨n, hn, rfl⟩ := List.mem_map.1 hqs
  by_cases heq : m = n
  · subst heq
    exact Keyed.eq_of_same_of_distinct (hms m hm).distinct_properties hk hq hsame
  · have hmention : ∀ {m : Merged} {q : Scalar}, q ∈ Keyed.keys m.properties → k.same q = true →
        m.mentions k = true :=
      fun hq hsame => Merged.mentions_iff.2 (Or.inl (Keyed.has_iff.2 ⟨_, hq, hsame⟩))
    exact absurd (hmention hq hsame)
      ((hapart m hm n hn heq).not_both (hmention hk (Scalar.same_refl k)))

omit hms in
/-- Only one of several schemas that are apart has a keyword that is not united. -/
theorem keyword_agrees {k : Scalar} (hproperties : propertiesKey.same k = false)
    (hrequired : requiredKey.same k = false) : ∀ m ∈ ms, ∀ n ∈ ms, ∀ v w,
    Keyed.find? m.entries k = some v → Keyed.find? n.entries k = some w → v = w := by
  refine eq_of_found fun m hm n hn hne v w hv hw => ?_
  have hhas : ∀ {m : Merged} {v : Value}, Keyed.find? m.entries k = some v →
      Keyed.has m.entries k = true := fun hv => Option.isSome_iff_exists.2 ⟨_, hv⟩
  rcases (hapart m hm n hn hne).keywords k (hhas hv) (hhas hw) with rfl | rfl
  · rw [Scalar.same_refl] at hproperties
    cases hproperties
  · rw [Scalar.same_refl] at hrequired
    cases hrequired

omit hms in
/-- Only one of several schemas that are apart defines a property. -/
theorem property_agrees {k : Scalar} : ∀ m ∈ ms, ∀ n ∈ ms, ∀ v w,
    Keyed.find? m.properties k = some v → Keyed.find? n.properties k = some w → v = w := by
  refine eq_of_found fun m hm n hn hne v w hv hw => ?_
  have hmention : ∀ {m : Merged} {v : Value}, Keyed.find? m.properties k = some v →
      m.mentions k = true :=
    fun hv => Merged.mentions_iff.2 (Or.inl (Option.isSome_iff_exists.2 ⟨_, hv⟩))
  exact (hapart m hm n hn hne).not_both (hmention hv) (hmention hw)

end

/-! ## The order of what is composed -/

section

variable (hperm : ms.Perm ns) (hms : ∀ m ∈ ms, Foldable m)
  (hapart : ∀ m ∈ ms, ∀ n ∈ ms, m ≠ n → m.IsApart n) (hes : Composed settings ms es)
  (hfs : Composed settings ns fs)

include hperm hapart hes hfs

/-- The same is found under each name. -/
theorem find?_properties_perm (q : Scalar) :
    Keyed.find? (propertiesOf es) q = Keyed.find? (propertiesOf fs) q := by
  rw [hes.property, hfs.property]
  refine findSome?_perm ((List.reverse_perm ms).trans (hperm.trans (List.reverse_perm ns).symm)) ?_
  exact fun m hm n hn => property_agrees hapart m (List.mem_reverse.1 hm) n (List.mem_reverse.1 hn)

include hms

/-- The properties are alike. -/
theorem properties_perm : Value.Alike (.map (propertiesOf es)) (.map (propertiesOf fs)) := by
  refine .map ?_ fun q v w hv hw => ?_
  · rw [hes.property_names, hfs.property_names]
    refine Keyed.joinedAll_perm (hperm.map _) (fun ks hks => ?_) (names_spelled hms hapart)
    obtain ⟨m, hm, rfl⟩ := List.mem_map.1 hks
    exact (hms m hm).distinct_properties
  · rw [find?_properties_perm hperm hapart hes hfs q] at hv
    obtain rfl := Option.some.inj (hv.symm.trans hw)
    exact .refl v

/-- The keywords but for the required names are alike. -/
theorem bare_perm :
    Value.Alike (.map (Keyed.without es requiredKey)) (.map (Keyed.without fs requiredKey)) := by
  refine .map ?_ fun k v w hv hw => ?_
  · rw [hes.keys, hfs.keys]
    refine Keyed.joinedAll_perm (hperm.map _) (fun ks hks => ?_) (keys_spelled hms hapart)
    obtain ⟨m, hm, rfl⟩ := List.mem_map.1 hks
    exact (hms m hm).bare.distinct
  · rw [Keyed.find?_without] at hv hw
    cases hrequired : requiredKey.same k with
    | true =>
      rw [hrequired, if_pos rfl] at hv
      cases hv
    | false =>
      rw [hrequired, if_neg (by simp)] at hv hw
      cases hproperty : propertiesKey.same k with
      | true =>
        rw [← Keyed.find?_congr _ hproperty] at hv hw
        rw [hes.properties v hv, hfs.properties w hw]
        exact properties_perm hperm hms hapart hes hfs
      | false =>
        rw [hes.others k hproperty hrequired,
          findSome?_perm hperm (keyword_agrees hapart hproperty hrequired),
          ← hfs.others k hproperty hrequired] at hv
        obtain rfl := Option.some.inj (hv.symm.trans hw)
        exact .refl v

/-- The required names are the same in another order. -/
theorem requiredOf_perm : Value.Matched (requiredOf settings (propertiesOf es) ms)
    (requiredOf settings (propertiesOf fs) ns) := by
  rw [requiredOf, requiredOf, ← mayRequire_eq (find?_properties_perm hperm hapart hes hfs)
    fun k => (hperm.flatMap_right _).any_eq]
  refine Value.matched_union (hperm.flatMap_right _) (fun v hv => ?_) fun _ _ => mayRequire_congr
  obtain ⟨m, hm, hv⟩ := List.mem_flatMap.1 hv
  exact (hms m hm).keys v hv

/-- **What schemas that are apart come to** depends on their order in the order of keys and of required names
only. -/
theorem Composed.perm : AlikeButRequired es fs := by
  have hmatched := requiredOf_perm hperm hms hapart hes hfs
  refine ⟨bare_perm hperm hms hapart hes hfs, ?_⟩
  rw [hes.required, hfs.required, ← hmatched.isEmpty]
  split
  · exact Or.inl ⟨rfl, rfl⟩
  · exact Or.inr ⟨_, _, rfl, rfl, hmatched⟩

end

/-- An empty schema in front plays no role. -/
theorem Composed.of_nil_cons (h : Composed settings (Parts.toMerged ⟨[], []⟩ :: ms) es) :
    Composed settings ms es := by
  refine ⟨?_, h.others, h.properties, ?_, fun k => ?_, h.required⟩
  · rw [h.keys, List.map_cons, Keyed.joinedAll_cons]
    exact Keyed.joined_nil _
  · rw [h.property_names, List.map_cons, Keyed.joinedAll_cons]
    exact Keyed.joined_nil _
  · rw [h.property, List.reverse_cons, List.findSome?_append]
    exact Option.or_none

variable (settings) in
/-- **What merged schemas come to together** is composed of them. -/
theorem together_composed (hms : ∀ m ∈ ms, Foldable m) :
    ∃ p, together settings ms = .ok p ∧ Composed settings ms p.entries := by
  obtain ⟨whole, hwhole, h⟩ := foldMerged_gathered foldable_nil hms
  refine ⟨finished settings whole, ?_, (h.composed foldable_nil hms).of_nil_cons⟩
  rw [together, hwhole]
  exact finish_foldable h.foldable settings

end

/-! ## Merging -/

/-- **Parts that are apart commute.**  If the parts of a schema merge, to regular schemas any two of which are
apart, then it merges with its parts in any order, to the same but for the order of keys and of the required
names. -/
theorem merge_allOf_perm (settings : Settings) (document : Value) (visited : List String)
    (bs cs : List Value) (hperm : bs.Perm cs) (hdocument : document.WellFormed)
    (hwell : ∀ b ∈ bs, b.WellFormed)
    (hmerges : ∀ b ∈ bs, ∃ m,
      (mergeVisited settings document visited b).result = .ok m ∧ m.IsRegular)
    (hapart : ∀ b ∈ bs, ∀ c ∈ bs, b ≠ c → ∀ m n,
      (mergeVisited settings document visited b).result = .ok m →
      (mergeVisited settings document visited c).result = .ok n → m.IsApart n) :
    ∃ es fs, (merge settings document visited (allOf bs)).result = .ok (.map es) ∧
      (merge settings document visited (allOf cs)).result = .ok (.map fs) ∧ AlikeButRequired es fs := by
  have hok : ∀ b ∈ bs, ∃ m, (mergeVisited settings document visited b).result = .ok m :=
    fun b hb => (hmerges b hb).imp fun m hm => hm.1
  have hpart : ∀ b ∈ bs, (mergeVisited settings document visited b).result =
      .ok (mergedPart settings document visited b) := by
    intro b hb
    obtain ⟨m, hm⟩ := hok b hb
    rw [mergedPart_of_ok hm, hm]
  have hfoldable : ∀ m ∈ bs.map (mergedPart settings document visited), Foldable m := by
    intro m hm
    obtain ⟨b, hb, rfl⟩ := List.mem_map.1 hm
    obtain ⟨m, hm, hregular⟩ := hmerges b hb
    rw [mergedPart_of_ok hm]
    exact foldable_of_mergeVisited hdocument (hwell b hb) hm hregular
  have hparts := hperm.map (mergedPart settings document visited)
  obtain ⟨p, hp, hes⟩ := together_composed settings hfoldable
  obtain ⟨q, hq, hfs⟩ := together_composed settings fun m hm =>
    hfoldable m (hparts.mem_iff.2 hm)
  refine ⟨p.entries, q.entries, result_merge_of_together hok hp,
    result_merge_of_together (fun c hc => hok c (hperm.mem_iff.2 hc)) hq, ?_⟩
  refine hes.perm hparts hfoldable (fun m hm n hn hne => ?_) hfs
  obtain ⟨b, hb, rfl⟩ := List.mem_map.1 hm
  obtain ⟨c, hc, rfl⟩ := List.mem_map.1 hn
  exact hapart b hb c hc (fun heq => hne (by rw [heq])) _ _ (hpart b hb) (hpart c hc)

theorem mentions_mergedName (k : Scalar) : mergedName.mentions k = k.same (.text "name") := by
  cases h : k.same (.text "name") <;>
    simp [mergedName, Merged.mentions, Merged.properties, Merged.entries, Value.record, propertiesOf,
      Keyed.has, Scalar.same_refl, h]

theorem mentions_mergedSecret (k : Scalar) : mergedSecret.mentions k = k.same (.text "secret") := by
  simp [mergedSecret, Merged.mentions, Merged.properties, Merged.entries, Value.record, propertiesOf,
    Keyed.has, Scalar.same_refl]

theorem isApart_name_secret : mergedName.IsApart mergedSecret := by
  refine ⟨fun k hk _ => ?_, fun k hk => ?_⟩
  · obtain ⟨q, hq, hsame⟩ := Keyed.has_iff.1 hk
    replace hq : q ∈ [propertiesKey, requiredKey] := hq
    rw [Scalar.same_comm] at hsame
    simp only [List.mem_cons, List.not_mem_nil, or_false] at hq
    rcases hq with rfl | rfl
    · exact Or.inl ((Scalar.same_text _ k).1 hsame)
    · exact Or.inr ((Scalar.same_text _ k).1 hsame)
  · rw [mentions_mergedName] at hk
    rw [mentions_mergedSecret, Scalar.same_congr hk]
    decide

/-- The part that defines `name` and the one that leaves `secret` out may change places, although each
requires both. -/
theorem merge_allOf_perm_secret :
    ∃ es fs, (merge {} .null [] (allOf [namePart, secretPart])).result = .ok (.map es) ∧
      (merge {} .null [] (allOf [secretPart, namePart])).result = .ok (.map fs) ∧
      AlikeButRequired es fs := by
  have hname : (mergeVisited {} .null [] namePart).result = .ok mergedName := rfl
  have hsecret : (mergeVisited {} .null [] secretPart).result = .ok mergedSecret := rfl
  refine merge_allOf_perm {} .null [] [namePart, secretPart] [secretPart, namePart]
    (List.Perm.swap _ _ _) (Value.keysEverywhere_scalar _) ?_ ?_ ?_
  · simp [namePart, secretPart, Value.WellFormed, Value.keysEverywhere_record,
      Value.keysEverywhere_list, Value.keysEverywhere_scalar, Scalar.same]
  · intro b hb
    simp only [List.mem_cons, List.not_mem_nil, or_false] at hb
    rcases hb with rfl | rfl
    · exact ⟨_, hname, isRegular_mergedName⟩
    · exact ⟨_, hsecret, isRegular_mergedSecret⟩
  · intro b hb c hc hne m n hm hn
    simp only [List.mem_cons, List.not_mem_nil, or_false] at hb hc
    rcases hb with rfl | rfl <;> rcases hc with rfl | rfl
    · exact absurd rfl hne
    · obtain rfl := Except.ok.inj (hname.symm.trans hm)
      obtain rfl := Except.ok.inj (hsecret.symm.trans hn)
      exact isApart_name_secret
    · obtain rfl := Except.ok.inj (hsecret.symm.trans hm)
      obtain rfl := Except.ok.inj (hname.symm.trans hn)
      exact isApart_name_secret.symm
    · exact absurd rfl hne

end Schema

end ToolCatalog
