import ToolCatalog.Proofs.Schema.Hereditary
import ToolCatalog.Proofs.Schema.KeyOrder
import ToolCatalog.Proofs.Schema.Uniting

/-!
# The order of keys carries no meaning

Two documents and two nodes that are equal up to the order of keys are merged side by side.  Folding is
described by look-ups, and the functions that go through a mapping entry by entry give the same parts in
another order.  So one refinement lemma for each function of the merger relates the two runs: whatever the
one gives, the other gives with its keys in another order.  The names that were left out on the way come in
another order too, which no question about them can tell.

* `merge_alike`: merging returns on one side iff on the other, and the results are alike.
-/

namespace ToolCatalog.Schema

open Value (Reordered)

/-- Schemas on their way, with their keys and the names that were left out in another order. -/
structure Parts.Reordered (p q : Parts) : Prop where
  entries : Value.Reordered (.map p.entries) (.map q.entries)
  dropped : p.dropped.Perm q.dropped

/-- The same of merged schemas. -/
structure Merged.Reordered (m n : Merged) : Prop where
  schema : Value.Reordered m.schema n.schema
  dropped : m.dropped.Perm n.dropped

theorem Parts.Reordered.toMerged {p q : Parts} (h : p.Reordered q) : p.toMerged.Reordered q.toMerged :=
  ⟨h.entries, h.dropped⟩

/-! ## Folding -/

section

variable {es fs into into' : Keyed Value}

theorem propertiesOf_reordered (h : Reordered (.map es) (.map fs)) :
    Reordered (.map (propertiesOf es)) (.map (propertiesOf fs)) := by
  have hnil : Reordered (.map []) (.map []) :=
    Value.reordered_map.2 ⟨List.Pairwise.nil, .refl _, fun _ => .none⟩
  have hproperties := h.find? (.text "properties")
  unfold propertiesOf
  generalize Keyed.find? es (.text "properties") = found,
    Keyed.find? fs (.text "properties") = found' at hproperties
  cases hproperties with
  | none => exact hnil
  | some hvw =>
    cases hvw.alike with
    | map => exact hvw
    | _ => exact hnil

theorem openRequired_reordered (h : Reordered (.map es) (.map fs)) :
    List.Forall₂ Reordered (openRequired es) (openRequired fs) := by
  have hrequired := h.find? (.text "required")
  unfold openRequired
  generalize Keyed.find? es (.text "required") = found,
    Keyed.find? fs (.text "required") = found' at hrequired
  cases hrequired with
  | none => exact .nil
  | some hvw =>
    cases hvw.alike with
    | list => exact Value.reordered_list.1 hvw
    | _ => exact .nil

theorem extensible_reordered (h : Reordered (.map es) (.map fs)) : Extensible es ↔ Extensible fs := by
  have hproperties := h.find? (.text "properties")
  unfold Extensible openProperties propertiesOf
  generalize Keyed.find? es (.text "properties") = found,
    Keyed.find? fs (.text "properties") = found' at hproperties
  cases hproperties with
  | none => exact Iff.rfl
  | some hvw =>
    have htruthy := hvw.truthy
    cases hvw.alike with
    | map => simp
    | _ => simp [htruthy]

theorem united_reordered {overrides : Bool} {k : Scalar} {v w : Value}
    (hinto : Reordered (.map into) (.map into')) (h : Reordered v w) :
    Reordered (united overrides into k v) (united overrides into' k w) := by
  by_cases hproperties : k = propertiesKey ∧ ∃ ps, v = .map ps
  · obtain ⟨rfl, ps, rfl⟩ := hproperties
    cases h.alike with
    | map =>
      rw [united_properties, united_properties]
      exact (propertiesOf_reordered hinto).putAll h
  · by_cases hrequired : k = requiredKey ∧ ∃ names, v = .list names
    · obtain ⟨rfl, names, rfl⟩ := hrequired
      cases h.alike with
      | list =>
        rw [united_required, united_required]
        exact Value.reordered_list.2
          (Value.Reordered.union (openRequired_reordered hinto) (Value.reordered_list.1 h))
    · rw [united_other (fun ps hk hv => hproperties ⟨hk, ps, hv⟩)
        (fun names hk hv => hrequired ⟨hk, names, hv⟩), united_other]
      · split
        · exact h
        · have hk := hinto.find? k
          generalize Keyed.find? into k = found, Keyed.find? into' k = found' at hk
          cases hk with
          | none => exact h
          | some hold => exact hold
      · rintro qs hk rfl
        cases h.alike with
        | map => exact hproperties ⟨hk, _, rfl⟩
      · rintro names hk rfl
        cases h.alike with
        | list => exact hrequired ⟨hk, _, rfl⟩

/-- **Folding does not look at the order of keys.** -/
theorem fold_reordered {overrides : Bool} (hinto : Reordered (.map into) (.map into'))
    (h : Reordered (.map es) (.map fs)) :
    Outcome.Refines (fun r r' => Reordered (.map r) (.map r'))
      (liftM (fold overrides into es) : Outcome (Keyed Value)) (liftM (fold overrides into' fs)) := by
  intro r hr
  rw [Outcome.result_liftM] at hr
  have hopen : ∃ r', fold overrides into' fs = .ok r' := by
    refine (fold_ok_iff h.symm.distinct).2 fun qs hqs => ?_
    obtain ⟨v, hv, hvw⟩ := h.symm.find?_some hqs
    cases hvw.alike with
    | map => exact (extensible_reordered hinto).1 ((fold_ok_iff h.distinct).1 ⟨r, hr⟩ _ hv)
  obtain ⟨r', hr'⟩ := hopen
  refine ⟨r', hr', Value.reordered_map.2 ⟨?_, ?_, fun q => ?_⟩⟩
  · rw [Keyed.Distinct, keys_fold h.distinct hr]
    exact Keyed.joined_distinct hinto.distinct h.distinct
  · rw [keys_fold h.distinct hr, keys_fold h.symm.distinct hr']
    exact Keyed.joined_perm hinto.keys_perm h.keys_perm
  · rw [find?_fold h.distinct hr, find?_fold h.symm.distinct hr']
    have hq := h.find? q
    generalize Keyed.find? es q = found, Keyed.find? fs q = found' at hq
    cases hq with
    | none => exact hinto.find? q
    | some hvw => exact .some (united_reordered hinto hvw)

/-! ## Finishing -/

theorem withoutStrayRequired_reordered (h : Reordered (.map es) (.map fs)) :
    Reordered (.map (withoutStrayRequired es)) (.map (withoutStrayRequired fs)) := by
  have hrequired := h.find? (.text "required")
  unfold withoutStrayRequired
  generalize Keyed.find? es (.text "required") = found,
    Keyed.find? fs (.text "required") = found' at hrequired
  cases hrequired with
  | none => exact h
  | some hvw =>
    cases hvw.alike with
    | list => exact h
    | _ => exact h.without _

end

variable {settings : Settings}

theorem isWaived_reordered {properties properties' : Keyed Value} {dropped dropped' : List Scalar}
    (hproperties : Reordered (.map properties) (.map properties')) (hdropped : dropped.Perm dropped')
    (k : Scalar) :
    isWaived settings properties dropped k = isWaived settings properties' dropped' k := by
  have hk := hproperties.find? k
  unfold isWaived
  rw [hdropped.any_eq]
  generalize Keyed.find? properties k = found, Keyed.find? properties' k = found' at hk
  cases hk with
  | none => rfl
  | some hvw => rw [Option.any_some, Option.any_some, isNullable_reordered hvw]

theorem keepRequired_reordered {properties properties' : Keyed Value} {dropped dropped' : List Scalar}
    (hproperties : Reordered (.map properties) (.map properties')) (hdropped : dropped.Perm dropped')
    {kept kept' names names' result : List Value} (hkept : List.Forall₂ Reordered kept kept')
    (hnames : List.Forall₂ Reordered names names')
    (h : keepRequired settings properties dropped kept names = .ok result) :
    ∃ result', keepRequired settings properties' dropped' kept' names' = .ok result' ∧
      List.Forall₂ Reordered result result' := by
  induction hnames generalizing kept kept' with
  | nil =>
    obtain rfl := Except.ok.inj h
    exact ⟨kept', rfl, hkept⟩
  | @cons name name' rest rest' hname _ ih =>
    have hmore : List.Forall₂ Reordered (kept ++ [name]) (kept' ++ [name']) :=
      List.rel_append hkept (.cons hname .nil)
    have hamong := hname.isAmong hkept
    have hkey := hname.isKey
    have hwaived : ∀ k, isWaived settings properties dropped k =
        isWaived settings properties' dropped' k := isWaived_reordered hproperties hdropped
    unfold keepRequired at h ⊢
    split at h
    · next hthere =>
      rw [if_pos (hamong ▸ hthere)]
      exact ih hkept h
    · next hnew =>
      rw [if_neg (hamong ▸ hnew)]
      cases hname.alike with
      | scalar k =>
        simp only [hwaived] at h ⊢
        split at h
        · next hw =>
          rw [if_pos hw]
          exact ih hkept h
        · next hw =>
          rw [if_neg hw]
          exact ih hmore h
      | _ =>
        simp only at h
        split at h
        · next hk =>
          simp only [← hkey, hk, if_true]
          exact ih hmore h
        · cases h

/-- **Finishing does not look at the order of keys.** -/
theorem finish_reordered {p q : Parts} (h : p.Reordered q) :
    Outcome.Refines Parts.Reordered (liftM (finish settings p) : Outcome Parts)
      (liftM (finish settings q)) := by
  have hproperties := propertiesOf_reordered h.entries
  have hmissing : (p.dropped.filter fun name => !Keyed.has (propertiesOf p.entries) name).Perm
      (q.dropped.filter fun name => !Keyed.has (propertiesOf q.entries) name) := by
    have hhas : (fun name => !Keyed.has (propertiesOf p.entries) name) =
        fun name => !Keyed.has (propertiesOf q.entries) name :=
      funext fun name => by rw [hproperties.has]
    rw [hhas]
    exact h.dropped.filter _
  intro r hr
  rw [Outcome.result_liftM] at hr ⊢
  unfold finish at hr ⊢
  simp only at hr ⊢
  have hrequired := h.entries.find? (.text "required")
  generalize Keyed.find? p.entries (.text "required") = found,
    Keyed.find? q.entries (.text "required") = found' at hrequired hr
  cases hrequired with
  | none =>
    obtain rfl := Except.ok.inj hr
    exact ⟨_, rfl, h.entries, hmissing⟩
  | some hvw =>
    cases hvw.alike with
    | list =>
      obtain ⟨kept, hkept, hr⟩ := bind_eq_ok.1 hr
      obtain rfl := Except.ok.inj hr
      obtain ⟨kept', hkept', hsame⟩ := keepRequired_reordered hproperties hmissing .nil
        (Value.reordered_list.1 hvw) hkept
      refine ⟨_, bind_eq_ok.2 ⟨kept', hkept', rfl⟩, ?_, hmissing⟩
      cases hsame with
      | nil => exact h.entries.without _
      | cons hhead hrest =>
        exact h.entries.put _ (Value.reordered_list.2 (.cons hhead hrest))
    | _ =>
      obtain rfl := Except.ok.inj hr
      exact ⟨_, rfl, h.entries, hmissing⟩

/-! ## Going through entries -/

/-- A function that goes through entries one after another and puts together what it makes of each. -/
structure Collects (f : List (Scalar × Value) → Outcome Parts) : Prop where
  nil : (f []).result = .ok ⟨[], []⟩
  cons : ∀ e rest, (f (e :: rest)).result = (do
    let p ← (f [e]).result
    let q ← (f rest).result
    return ⟨p.entries ++ q.entries, p.dropped ++ q.dropped⟩)

/-- Schemas on their way that agree entry by entry, up to the order of keys inside. -/
structure Parts.Entrywise (p q : Parts) : Prop where
  entries : Keyed.Pointwise (fun _ => Value.Reordered) p.entries q.entries
  dropped : p.dropped.Perm q.dropped

namespace Collects

variable {f f' : List (Scalar × Value) → Outcome Parts}

theorem cons_ok (hf : Collects f) {e : Scalar × Value} {rest : List (Scalar × Value)} {p : Parts} :
    (f (e :: rest)).result = .ok p ↔ ∃ a q, (f [e]).result = .ok a ∧ (f rest).result = .ok q ∧
      p = ⟨a.entries ++ q.entries, a.dropped ++ q.dropped⟩ := by
  rw [hf.cons]
  constructor
  · intro h
    obtain ⟨a, ha, h⟩ := bind_eq_ok.1 h
    obtain ⟨q, hq, h⟩ := bind_eq_ok.1 h
    exact ⟨a, q, ha, hq, (Except.ok.inj h).symm⟩
  · rintro ⟨a, q, ha, hq, rfl⟩
    exact bind_eq_ok.2 ⟨a, ha, bind_eq_ok.2 ⟨q, hq, rfl⟩⟩

/-- **Entries in another order** give the same in another order. -/
theorem perm (hf : Collects f) {es gs : List (Scalar × Value)} {p : Parts} (h : es.Perm gs)
    (hp : (f es).result = .ok p) :
    ∃ q, (f gs).result = .ok q ∧ p.entries.Perm q.entries ∧ p.dropped.Perm q.dropped := by
  induction h generalizing p with
  | nil => exact ⟨p, hp, .refl _, .refl _⟩
  | cons e _ ih =>
    obtain ⟨a, p', ha, hp', rfl⟩ := hf.cons_ok.1 hp
    obtain ⟨q, hq, hentries, hdropped⟩ := ih hp'
    exact ⟨_, hf.cons_ok.2 ⟨a, q, ha, hq, rfl⟩, hentries.append_left _, hdropped.append_left _⟩
  | swap e e' rest =>
    obtain ⟨a, p', ha, hp', rfl⟩ := hf.cons_ok.1 hp
    obtain ⟨a', q, ha', hq, rfl⟩ := hf.cons_ok.1 hp'
    have hswap : ∀ {α : Type} (as bs cs : List α), (as ++ (bs ++ cs)).Perm (bs ++ (as ++ cs)) := by
      intro α as bs cs
      rw [← List.append_assoc, ← List.append_assoc]
      exact List.perm_append_comm.append_right _
    exact ⟨_, hf.cons_ok.2 ⟨a', _, ha', hf.cons_ok.2 ⟨a, q, ha, hq, rfl⟩, rfl⟩, hswap _ _ _,
      hswap _ _ _⟩
  | trans _ _ ih ih' =>
    obtain ⟨q, hq, hentries, hdropped⟩ := ih hp
    obtain ⟨q', hq', hentries', hdropped'⟩ := ih' hq
    exact ⟨q', hq', hentries.trans hentries', hdropped.trans hdropped'⟩

/-- Entries that correspond one by one give what corresponds one by one. -/
theorem pointwise (hf : Collects f) (hf' : Collects f') {gs fs : Keyed Value}
    (h : Keyed.Pointwise
      (fun k v w => (f [(k, v)]).Refines Parts.Entrywise (f' [(k, w)])) gs fs) :
    (f gs).Refines Parts.Entrywise (f' fs) := by
  induction h with
  | nil =>
    intro p hp
    rw [hf.nil] at hp
    obtain rfl := Except.ok.inj hp
    exact ⟨_, hf'.nil, .nil, .refl _⟩
  | cons k hvw _ ih =>
    intro p hp
    obtain ⟨a, p', ha, hp', rfl⟩ := hf.cons_ok.1 hp
    obtain ⟨a', ha', hhead⟩ := hvw a ha
    obtain ⟨q, hq, hrest⟩ := ih p' hp'
    exact ⟨_, hf'.cons_ok.2 ⟨a', q, ha', hq, rfl⟩, hhead.entries.append hrest.entries,
      hhead.dropped.append hrest.dropped⟩

/-- **Mappings with their keys in another order** give such parts, if their entries do one by one and no
key comes twice in what is given. -/
theorem reordered (hf : Collects f) (hf' : Collects f') {es fs : Keyed Value}
    (h : Reordered (.map es) (.map fs))
    (hkeys : ∀ p, (f es).result = .ok p → (Keyed.keys p.entries).Sublist (Keyed.keys es))
    (hstep : ∀ k v w, (k, v) ∈ es → Reordered v w →
      (f [(k, v)]).Refines Parts.Entrywise (f' [(k, w)])) :
    (f es).Refines Parts.Reordered (f' fs) := by
  obtain ⟨gs, hperm, hpointwise⟩ := h.exists_pointwise
  intro p hp
  obtain ⟨p', hp', hentries, hdropped⟩ := hf.perm hperm hp
  have hsteps : Keyed.Pointwise
      (fun k v w => (f [(k, v)]).Refines Parts.Entrywise (f' [(k, w)])) gs fs :=
    hpointwise.of_mem fun k v w hv hvw => hstep k v w (hperm.mem_iff.2 hv) hvw
  obtain ⟨q, hq, hsame⟩ := hf.pointwise hf' hsteps p' hp'
  have hdistinct : Keyed.Distinct p.entries := List.Pairwise.sublist (hkeys p hp) h.distinct
  exact ⟨q, hq, .of_perm hdistinct hentries hsame.entries, hdropped.trans hsame.dropped⟩

end Collects

/-! ## Merging -/

section

variable {follow follow' : String → Outcome Merged} {deprecated deprecated' : Value → Except Fault Bool}

/-- Where an entry comes to nothing, the rest is all there is. -/
theorem collects_nothing (x : Outcome Parts) : x.result = (do
    let p ← (pure ⟨[], []⟩ : Outcome Parts).result
    let q ← x.result
    return ⟨p.entries ++ q.entries, p.dropped ++ q.dropped⟩) := by
  cases x.result <;> rfl

theorem collects_mergeEntries (skips : Scalar → Bool) :
    Collects (mergeEntries settings follow deprecated skips) := by
  refine ⟨rfl, fun e rest => ?_⟩
  obtain ⟨k, v⟩ := e
  rw [mergeEntries_cons, mergeEntries_cons, mergeEntries_nil]
  split
  · exact collects_nothing _
  · split
    · split
      · exact collects_nothing _
      · simp only [Outcome.result_bind, Outcome.result_pure]
        cases (mergeAs settings follow deprecated (roleOf _) v).result with
        | error e => rfl
        | ok m =>
          cases (mergeEntries settings follow deprecated skips rest).result with
          | error e => rfl
          | ok q => simp [Except.bind, bind, pure, Except.pure]
    · rfl
    · rfl

theorem collects_mergeProperties : Collects (mergeProperties settings follow deprecated) := by
  refine ⟨rfl, fun e rest => ?_⟩
  obtain ⟨name, v⟩ := e
  rw [mergeProperties_cons, mergeProperties_cons, mergeProperties_nil]
  split
  · simp only [Outcome.result_bind, Outcome.result_pure, Outcome.result_report]
    cases (mergeProperties settings follow deprecated rest).result <;> rfl
  · simp only [Outcome.result_bind, Outcome.result_liftM]
    cases (mergeAs settings follow deprecated .schema v).result with
    | error e => rfl
    | ok m =>
      cases deprecated v with
      | error e => rfl
      | ok gone =>
        cases gone
        all_goals
          simp only [Except.bind, if_true, Bool.false_eq_true, if_false, Outcome.result_bind,
            Outcome.result_report]
          cases (mergeProperties settings follow deprecated rest).result <;> rfl

/-- Merging what names stand for, as a function that collects parts. -/
theorem collects_mergeNamed : Collects fun es => do
    let ns ← mergeNamed settings follow deprecated es
    return ⟨ns, []⟩ := by
  refine ⟨rfl, fun e rest => ?_⟩
  obtain ⟨name, v⟩ := e
  rw [mergeNamed_cons, mergeNamed_cons, mergeNamed_nil]
  simp only [Outcome.result_bind]
  cases (mergeAs settings follow deprecated .schema v).result with
  | error e => rfl
  | ok m => cases (mergeNamed settings follow deprecated rest).result <;> rfl

/-- What one entry of a mapping is merged to. -/
theorem mergeEntries_entry {skips : Scalar → Bool} {k : Scalar} {v w : Value}
    (hmerge : ∀ role, (mergeAs settings follow deprecated role v).Refines Merged.Reordered
      (mergeAs settings follow' deprecated' role w)) :
    (mergeEntries settings follow deprecated skips [(k, v)]).Refines Parts.Entrywise
      (mergeEntries settings follow' deprecated' skips [(k, w)]) := by
  have hnothing : (pure ⟨[], []⟩ : Outcome Parts).Refines Parts.Entrywise (pure ⟨[], []⟩) :=
    .pure ⟨.nil, .refl _⟩
  rw [mergeEntries_cons, mergeEntries_cons, mergeEntries_nil, mergeEntries_nil]
  split
  · exact hnothing
  · split
    · split
      · exact hnothing
      · refine (hmerge _).bind fun m n _ hmn => hnothing.bind fun p q _ hpq => .pure ?_
        refine ⟨.cons _ hmn.schema hpq.entries, List.Perm.append ?_ hpq.dropped⟩
        split
        · exact hmn.dropped
        · exact .refl _
    · exact fun p hp => nomatch hp
    · exact fun p hp => nomatch hp

/-- What one property comes to. -/
theorem mergeProperties_entry {name : Scalar} {v w : Value} (hvw : Reordered v w)
    (hdeprecated : ∀ gone, deprecated v = .ok gone → deprecated' w = .ok gone)
    (hmerge : (mergeAs settings follow deprecated .schema v).Refines Merged.Reordered
      (mergeAs settings follow' deprecated' .schema w)) :
    (mergeProperties settings follow deprecated [(name, v)]).Refines Parts.Entrywise
      (mergeProperties settings follow' deprecated' [(name, w)]) := by
  have hdrop : ∀ event, (Outcome.report event >>= fun _ => do
        let others ← (pure ⟨[], []⟩ : Outcome Parts)
        return Parts.mk others.entries (name :: others.dropped)).Refines Parts.Entrywise
      (Outcome.report event >>= fun _ => do
        let others ← (pure ⟨[], []⟩ : Outcome Parts)
        return Parts.mk others.entries (name :: others.dropped)) := by
    intro event p hp
    exact ⟨p, hp, by cases hp; exact ⟨.nil, .refl _⟩⟩
  rw [mergeProperties_cons, mergeProperties_cons, mergeProperties_nil, mergeProperties_nil,
    excludes_reordered settings name hvw]
  split
  · exact hdrop _
  · refine hmerge.bind fun m n _ hmn => ?_
    have hgone : (liftM (deprecated v) : Outcome Bool).Refines Eq (liftM (deprecated' w)) :=
      fun gone hgone => ⟨gone, hdeprecated gone hgone, rfl⟩
    refine hgone.bind ?_
    rintro gone _ - rfl
    split
    · exact hdrop _
    · exact .pure ⟨.cons name hmn.schema .nil, .refl _⟩

theorem mergeNamed_entry {name : Scalar} {v w : Value}
    (hmerge : (mergeAs settings follow deprecated .schema v).Refines Merged.Reordered
      (mergeAs settings follow' deprecated' .schema w)) :
    (do
      let ns ← mergeNamed settings follow deprecated [(name, v)]
      return Parts.mk ns []).Refines Parts.Entrywise (do
      let ns ← mergeNamed settings follow' deprecated' [(name, w)]
      return Parts.mk ns []) := by
  rw [mergeNamed_cons, mergeNamed_cons, mergeNamed_nil, mergeNamed_nil]
  simp only [pure_bind, bind_assoc]
  exact hmerge.bind fun m n _ hmn => .pure ⟨.cons name hmn.schema .nil, .refl _⟩

theorem mergeItems_reordered {vs ws : List Value} (h : List.Forall₂ Reordered vs ws)
    (hmerge : ∀ v ∈ vs, ∀ {w}, Reordered v w →
      (mergeAs settings follow deprecated .schema v).Refines Merged.Reordered
        (mergeAs settings follow' deprecated' .schema w)) :
    (mergeItems settings follow deprecated vs).Refines (List.Forall₂ Reordered)
      (mergeItems settings follow' deprecated' ws) := by
  induction h with
  | nil => exact .pure .nil
  | cons hvw _ ih =>
    rw [mergeItems_cons, mergeItems_cons]
    refine (hmerge _ List.mem_cons_self hvw).bind fun m n _ hmn => ?_
    refine (ih fun v hv => hmerge v (List.mem_cons_of_mem _ hv)).bind fun vs ws _ hvs => ?_
    exact .pure (.cons hmn.schema hvs)

theorem mergeBranches_reordered {bs cs : List Value} (h : List.Forall₂ Reordered bs cs)
    (hmerge : ∀ b ∈ bs, ∀ {c}, Reordered b c →
      (mergeAs settings follow deprecated .schema b).Refines Merged.Reordered
        (mergeAs settings follow' deprecated' .schema c))
    {into into' : Parts} (hinto : into.Reordered into') :
    (mergeBranches settings follow deprecated bs into).Refines Parts.Reordered
      (mergeBranches settings follow' deprecated' cs into') := by
  induction h generalizing into into' with
  | nil => exact .pure hinto
  | cons hbc _ ih =>
    have ih := fun {p q} => @ih (fun b hb => hmerge b (List.mem_cons_of_mem _ hb)) p q
    rw [mergeBranches_cons, mergeBranches_cons]
    refine (hmerge _ List.mem_cons_self hbc).bind fun branch branch' _ hbranch => ?_
    have hdropped := hinto.dropped.append hbranch.dropped
    obtain ⟨schema, dropped⟩ := branch
    obtain ⟨schema', dropped'⟩ := branch'
    have hschema : Reordered schema schema' := hbranch.schema
    cases hschema.alike with
    | map =>
      exact (fold_reordered hinto.entries hschema).bind fun r r' _ hr => ih ⟨hr, hdropped⟩
    | _ => exact ih ⟨hinto.entries, hdropped⟩

/-- What two mappings come to by their own keywords. -/
theorem mergeBeside_reordered {es fs : Keyed Value} (h : Reordered (.map es) (.map fs))
    (hes : ∀ k v w, (k, v) ∈ es → Reordered v w → ∀ role,
      (mergeAs settings follow deprecated role v).Refines Merged.Reordered
        (mergeAs settings follow' deprecated' role w))
    (hbs : ∀ b ∈ branchesOf es, ∀ {c}, Reordered b c →
      (mergeAs settings follow deprecated .schema b).Refines Merged.Reordered
        (mergeAs settings follow' deprecated' .schema c)) :
    (mergeBeside settings follow deprecated es).Refines Parts.Reordered
      (mergeBeside settings follow' deprecated' fs) := by
  rw [mergeBeside, mergeBeside, ← isStructural_reordered h]
  have hown : (mergeEntries settings follow deprecated (isStructural es) es).Refines Parts.Reordered
      (mergeEntries settings follow' deprecated' (isStructural es) fs) :=
    (collects_mergeEntries _).reordered (collects_mergeEntries _) h
      (fun p hp => (mergeEntries_ok hp).1)
      fun k v w hv hvw => mergeEntries_entry (hes k v w hv hvw)
  refine hown.bind fun own own' _ hown => ?_
  rw [compose, compose, ← isComposed_reordered h]
  refine (finish_reordered hown).bind fun rest rest' _ hrest => ?_
  split
  · rw [mergeBranchesIn_eq, mergeBranchesIn_eq]
    have hinto : Parts.Reordered ⟨withoutStrayRequired rest.entries, rest.dropped⟩
        ⟨withoutStrayRequired rest'.entries, rest'.dropped⟩ :=
      ⟨withoutStrayRequired_reordered hrest.entries, hrest.dropped⟩
    exact (mergeBranches_reordered (branchesOf_reordered h) hbs hinto).bind
      fun whole whole' _ hwhole => finish_reordered hwhole
  · exact .pure hrest

theorem overlay_reordered {es fs : Keyed Value} (h : Reordered (.map es) (.map fs))
    {target target' : Merged} (htarget : target.Reordered target')
    {beside beside' : Unit → Outcome Parts}
    (hbeside : (beside ()).Refines Parts.Reordered (beside' ())) :
    (overlay settings es target beside).Refines Merged.Reordered
      (overlay settings fs target' beside') := by
  obtain ⟨schema, dropped⟩ := target
  obtain ⟨schema', dropped'⟩ := target'
  have hschema : Reordered schema schema' := htarget.schema
  unfold overlay
  cases hschema.alike with
  | map =>
    simp only [← hasSiblings_reordered h]
    split
    · refine hbeside.bind fun own own' _ hown => ?_
      refine (fold_reordered hschema hown.entries).bind fun whole whole' _ hwhole => ?_
      have hparts : Parts.Reordered ⟨whole, dropped ++ own.dropped⟩
          ⟨whole', dropped' ++ own'.dropped⟩ := ⟨hwhole, htarget.dropped.append hown.dropped⟩
      exact (finish_reordered hparts).bind fun done done' _ hdone => .pure hdone.toMerged
    · exact .pure htarget
  | _ => exact .pure htarget

/-- **Merging nodes with their keys in another order** gives such schemas, if references do. -/
theorem mergeAs_reordered
    (hfollow : ∀ ref, (follow ref).Refines Merged.Reordered (follow' ref))
    (hdeprecated : ∀ {v w}, Reordered v w → ∀ gone, deprecated v = .ok gone →
      deprecated' w = .ok gone)
    {v w : Value} (h : Reordered v w) (role : Role) :
    (mergeAs settings follow deprecated role v).Refines Merged.Reordered
      (mergeAs settings follow' deprecated' role w) := by
  have hliteral : ∀ {v w}, Reordered v w → (mergeAs settings follow deprecated .literal v).Refines
      Merged.Reordered (mergeAs settings follow' deprecated' .literal w) := by
    intro v w h
    rw [mergeAs_literal, mergeAs_literal]
    exact .pure ⟨h, .refl _⟩
  induction v using node_induction generalizing w role with
  | scalar s =>
    cases h.alike
    rw [mergeAs_scalar, mergeAs_scalar]
    exact .pure ⟨h, .refl _⟩
  | set ms =>
    cases h.alike
    rw [mergeAs_set, mergeAs_set]
    exact .pure ⟨h, .refl _⟩
  | pair a b _ _ =>
    cases h.alike with
    | pair =>
      rw [mergeAs_pair, mergeAs_pair]
      exact .pure ⟨h, .refl _⟩
  | list vs ih =>
    cases h.alike with
    | list =>
      by_cases hr : role = .literal
      · subst hr
        exact hliteral h
      · rw [mergeAs_list _ _ _ hr, mergeAs_list _ _ _ hr]
        refine (mergeItems_reordered (Value.reordered_list.1 h)
          fun v hv _ hvw => ih v hv hvw .schema).bind fun vs' ws' _ hvs => ?_
        exact .pure ⟨Value.reordered_list.2 hvs, .refl _⟩
  | part n body ih =>
    obtain ⟨halike, hwellFormed⟩ := h
    cases halike with
    | @part _ _ body' hbody =>
      by_cases hr : role = .literal
      · subst hr
        exact hliteral ⟨.part hbody, hwellFormed⟩
      · rw [mergeAs_part _ _ _ hr, mergeAs_part _ _ _ hr]
        exact ih ⟨hbody, Value.keysEverywhere_part.1 hwellFormed⟩ role
  | map es ih ihbranches =>
    cases h.alike with
    | map =>
      have hes : ∀ k v w, (k, v) ∈ es → Reordered v w → ∀ role,
          (mergeAs settings follow deprecated role v).Refines Merged.Reordered
            (mergeAs settings follow' deprecated' role w) :=
        fun k v w hv hvw role => ih k v hv hvw role
      cases role with
      | literal => exact hliteral h
      | properties =>
        rw [mergeAs_properties, mergeAs_properties]
        refine (collects_mergeProperties.reordered collects_mergeProperties h
          (fun p hp => (mergeProperties_ok hp).1) fun k v w hv hvw => ?_).bind
            fun p q _ hpq => .pure hpq.toMerged
        exact mergeProperties_entry hvw (hdeprecated hvw) (hes k v w hv hvw .schema)
      | names =>
        have hparts : ∀ x : Outcome (Keyed Value),
            (do let ns ← x; return Merged.mk (.map ns) []) =
              (do let p ← (do let ns ← x; return Parts.mk ns []); return p.toMerged) :=
          fun x => by simp only [bind_assoc, pure_bind]; rfl
        rw [mergeAs_names, mergeAs_names, hparts, hparts]
        refine (collects_mergeNamed.reordered collects_mergeNamed h (fun p hp => ?_)
          fun k v w hv hvw => mergeNamed_entry (hes k v w hv hvw .schema)).bind
            fun p q _ hpq => .pure hpq.toMerged
        obtain ⟨ns, hns, hp⟩ := Outcome.result_bind_ok.1 hp
        obtain rfl := Except.ok.inj hp
        rw [(mergeNamed_ok hns).1]
      | schema =>
        have hbeside := mergeBeside_reordered h hes fun b hb _ hbc => ihbranches b hb hbc .schema
        rw [mergeAs_schema, mergeAs_schema, isDeprecated_reordered h, reference?_reordered h]
        split
        · exact .pure ⟨Value.Reordered.refl (hereditary_distinct.map_nil), .refl _⟩
        · split
          · next ref _ =>
            exact (hfollow ref).bind fun target target' _ htarget =>
              overlay_reordered h htarget hbeside
          · exact hbeside.bind fun p q _ hpq => .pure hpq.toMerged

end

/-! ## Whole merges -/

section

variable {document document' : Value}

theorem resolveFrom_reordered (h : Reordered document document') (bound : Bound)
    (visited : List String) (ref : String) :
    (resolveFrom settings document bound visited ref).Refines Merged.Reordered
      (resolveFrom settings document' bound visited ref) := by
  induction bound generalizing visited ref with
  | reached =>
    rw [resolveFrom_eq, resolveFrom_eq]
    split
    · exact fun m hm => nomatch hm
    · split <;> exact fun m hm => nomatch hm
  | further rest ih =>
    rw [resolveFrom_eq, resolveFrom_eq]
    split
    · exact fun m hm => nomatch hm
    · split
      · exact fun m hm => nomatch hm
      · have hwalk : (liftM (Pointer.walk document ref) : Outcome Value).Refines Reordered
            (liftM (Pointer.walk document' ref)) := fun target htarget => walk_reordered h htarget
        refine hwalk.bind fun target target' _ htarget => ?_
        exact mergeAs_reordered (fun ref' => ih () (ref :: visited) ref')
          (fun hvw _ => leadsToDeprecated_reordered h hvw) htarget .schema

theorem mergeVisited_reordered (h : Reordered document document') {node node' : Value}
    (hnode : Reordered node node') (visited : List String) :
    (mergeVisited settings document visited node).Refines Merged.Reordered
      (mergeVisited settings document' visited node') := by
  rw [mergeVisited, mergeVisited, (references_perm h).length_eq, (references_perm hnode).length_eq]
  exact mergeAs_reordered (resolveFrom_reordered h _ visited)
    (fun hvw _ => leadsToDeprecated_reordered h hvw) hnode .schema

theorem merge_reordered (h : Reordered document document') {node node' : Value}
    (hnode : Reordered node node') (visited : List String) :
    (merge settings document visited node).Refines Reordered
      (merge settings document' visited node') :=
  (mergeVisited_reordered h hnode visited).bind fun _ _ _ hmn => .pure hmn.schema

end

/-- **The order of keys carries no meaning.**  For documents and nodes without repeated keys that are equal
up to the order of keys, merging returns on one side iff it returns on the other, and what it returns is
equal up to the order of keys, with all lists in the same order. -/
theorem merge_alike (settings : Settings) (visited : List String) (document document' node node' : Value)
    (hdocument : document.Alike document') (hnode : node.Alike node')
    (hdistinct : document.WellFormed) (hdistinct' : node.WellFormed) :
    ((∃ r, (merge settings document visited node).result = .ok r) ↔
      ∃ r, (merge settings document' visited node').result = .ok r) ∧
    ∀ r r', (merge settings document visited node).result = .ok r →
      (merge settings document' visited node').result = .ok r' → r.Alike r' := by
  have hleft : Reordered document document' := ⟨hdocument, hdistinct⟩
  have hright : Reordered node node' := ⟨hnode, hdistinct'⟩
  have hto : (merge settings document visited node).Refines Reordered
      (merge settings document' visited node') := merge_reordered hleft hright visited
  have hfrom : (merge settings document' visited node').Refines Reordered
      (merge settings document visited node) := merge_reordered hleft.symm hright.symm visited
  obtain ⟨hboth, hsame⟩ := hto.both hfrom
  exact ⟨hboth, fun r r' hr hr' => (hsame r r' hr hr').alike⟩

/-- A target and the keywords beside a reference to it, each in two orders: the title comes last in the
merged schema, as it is laid over the target, and the rest as it stands there. -/
theorem merge_alike_reference :
    Value.Alike
      (.record [("required", .list [.text "id"]), ("properties", .record [("id", .record [])]),
        ("title", .text "Pet")])
      (.record [("properties", .record [("id", .record [])]), ("required", .list [.text "id"]),
        ("title", .text "Pet")]) := by
  have hswap : ∀ {s t : String} {a b : Value}, s ≠ t →
      Value.Alike (.record [(s, a), (t, b)]) (.record [(t, b), (s, a)]) :=
    fun hst => .of_rearranged (.swap _ _ _ hst)
  refine (merge_alike {} []
    (.record [("Pet", .record [("required", .list [.text "id"]),
      ("properties", .record [("id", .record [])])])])
    (.record [("Pet", .record [("properties", .record [("id", .record [])]),
      ("required", .list [.text "id"])])])
    (.record [("$ref", .text "#/Pet"), ("title", .text "Pet")])
    (.record [("title", .text "Pet"), ("$ref", .text "#/Pet")])
    (.map_cons (hswap (by decide)) (.refl _)) (hswap (by decide)) ?_ ?_).2 _ _ (by rfl) (by rfl)
  all_goals
    simp [Value.WellFormed, Value.keysEverywhere_record, Value.keysEverywhere_list,
      Value.keysEverywhere_scalar, Scalar.same]

end ToolCatalog.Schema
