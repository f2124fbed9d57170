import ToolCatalog.Proofs.Schema.Folding

/-!
# Putting merged schemas together

Merged schemas are folded one after another, and what they come to is finished once at the end.  A
group of them may be folded and finished first.  Apart from the required names that makes no
difference, as folding is associative.  The required names are finished twice then; nothing is lost by
that if a name that the group waives would be waived at the end anyway, which is so if no schema
outside the group says anything about the properties of those inside.

* `regroup`: with a group and without it, the schemas come to the same.
-/

namespace ToolCatalog.Schema

/-! ## Required names in order -/

section

variable {settings : Settings} {properties : Keyed Value} {dropped : List Scalar}

theorem isWaived_congr {k q : Scalar} (h : k.same q = true) :
    isWaived settings properties dropped k = isWaived settings properties dropped q := by
  have hsame : k.same = q.same := funext fun r => Scalar.same_congr h r
  rw [isWaived, isWaived, hsame, isRemoved_congr h, Keyed.find?_congr properties h]

/-- Equal keys stay together. -/
theorem staysRequired_congr {v w : Value} (hv : v.isKey = true) (hw : w.isKey = true)
    (h : v.same w = true) :
    staysRequired settings properties dropped v = staysRequired settings properties dropped w := by
  cases v with
  | scalar k =>
    rw [Value.same, Value.opened_of_isKey hw] at h
    cases w with
    | scalar q => rw [staysRequired, staysRequired, isWaived_congr h]
    | _ => cases h
  | pair a b =>
    rw [Value.same, Value.opened_of_isKey hw] at h
    cases w with
    | pair c d => rfl
    | _ => cases h
  | _ => cases hv

/-- **Putting keys in order** leaves those that stay, each once. -/
theorem keepRequired_eq_union {kept names : List Value} (h : ∀ v ∈ names, v.isKey = true) :
    keepRequired settings properties dropped kept names =
      .ok (Value.union kept (names.filter (staysRequired settings properties dropped))) := by
  induction names generalizing kept with
  | nil => rfl
  | cons name rest ih =>
    have ih := fun {kept} => @ih kept fun v hv => h v (List.mem_cons_of_mem _ hv)
    have hname := h name List.mem_cons_self
    have hadd : ∀ more, Value.union kept (name :: more) =
        Value.union (if name.isAmong kept then kept else kept ++ [name]) more := fun _ => rfl
    unfold keepRequired
    rw [List.filter_cons, ih]
    cases hamong : name.isAmong kept with
    | true =>
      rw [if_pos rfl]
      split
      · rw [hadd, hamong, if_pos rfl]
      · rfl
    | false =>
      rw [if_neg (by simp)]
      split
      · next k =>
        by_cases hwaived : isWaived settings properties dropped k = true
        · rw [if_pos hwaived, if_neg (by simp [staysRequired, hwaived])]
        · rw [if_neg hwaived, if_pos (by simp [staysRequired, hwaived]), hadd, hamong,
            if_neg (by simp), ih]
      · next hscalar =>
        have hstays : staysRequired settings properties dropped name = true := by
          cases name with
          | scalar k => exact absurd rfl (hscalar k)
          | _ => rfl
        rw [if_pos hname, if_pos hstays, hadd, hamong, if_neg (by simp), ih]

end

/-- All required names of a schema are keys. -/
def NamesAreKeys (es : Keyed Value) : Prop :=
  ∀ names, Keyed.find? es requiredKey = some (.list names) → ∀ v ∈ names, v.isKey = true

theorem NamesAreKeys.openRequired {es : Keyed Value} (h : NamesAreKeys es) :
    ∀ v ∈ openRequired es, v.isKey = true := by
  intro v hv
  unfold Schema.openRequired at hv
  split at hv
  · next names hnames => exact h names hnames v hv
  · cases hv

theorem namesAreKeys_nil : NamesAreKeys [] := by
  intro names h
  cases h

/-- Finishing keeps nothing else in the list. -/
theorem finish_namesAreKeys {settings : Settings} {p q : Parts} (h : finish settings p = .ok q) :
    NamesAreKeys q.entries := by
  intro names hnames
  obtain ⟨before, hkept⟩ := keepRequired_of_finish h hnames
  refine keepRequired_induction (p := fun vs => ∀ v ∈ vs, v.isKey = true) ?_ (by simp) hkept
  intro vs name _ hvs _ _ hkey v hv
  rcases List.mem_append.1 hv with hv | hv
  · exact hvs v hv
  · rwa [List.mem_singleton.1 hv]

/-! ## Merged schemas -/

/-- The keywords of a merged schema but for the required names. -/
def Merged.bare (m : Merged) : Keyed Value := Keyed.without m.entries requiredKey

/-- A merged schema that can be put together with others. -/
structure Foldable (m : Merged) : Prop where
  distinct : Keyed.Distinct m.entries
  bare : Bare m.bare
  listed : Listed m.entries
  keys : ∀ v ∈ openRequired m.entries, v.isKey = true

theorem Foldable.distinct_properties {m : Merged} (h : Foldable m) : Keyed.Distinct m.properties := by
  have hdistinct := h.bare.distinct_properties
  rwa [Merged.bare, propertiesOf_without] at hdistinct

/-- Fold merged schemas into a schema, one after another. -/
def foldMerged : List Merged → Parts → Except Fault Parts
  | [], into => .ok into
  | m :: ms, into => do
    let entries ← fold false into.entries m.entries
    foldMerged ms ⟨entries, into.dropped ++ m.dropped⟩

/-- What folding merged schemas into a schema gives. -/
structure Gathered (ms : List Merged) (into whole : Parts) : Prop where
  foldable : Foldable whole.toMerged
  bare : ms.foldlM (fun es m => fold false es m.bare) into.toMerged.bare =
    .ok whole.toMerged.bare
  dropped : whole.dropped = into.dropped ++ ms.flatMap (·.dropped)
  required : openRequired whole.entries =
    Value.union (openRequired into.entries) (ms.flatMap fun m => openRequired m.entries)
  has : ∀ k, Keyed.has (propertiesOf whole.entries) k =
    (Keyed.has (propertiesOf into.entries) k || ms.any fun m => Keyed.has m.properties k)
  find : ∀ k v, Keyed.find? (propertiesOf whole.entries) k = some v →
    Keyed.find? (propertiesOf into.entries) k = some v ∨
      ∃ m ∈ ms, Keyed.find? m.properties k = some v

theorem fold_distinct {overrides : Bool} {into es r : Keyed Value} (h : Keyed.Distinct into)
    (hr : fold overrides into es = .ok r) : Keyed.Distinct r := by
  refine fold_induction (p := Keyed.Distinct) ?_ h hr
  intro into k v r _ hinto hr
  rcases foldEntry_ok hr with ⟨ps, existing, -, -, -, rfl⟩ | ⟨names, -, -, rfl⟩ | rfl | rfl
  · exact Keyed.distinct_put hinto _ _
  · exact Keyed.distinct_put hinto _ _
  · exact Keyed.distinct_put hinto _ _
  · exact hinto

/-- **One merged schema** is folded in. -/
theorem fold_foldable {into : Parts} {m : Merged} (hinto : Foldable into.toMerged)
    (hm : Foldable m) :
    ∃ r, fold false into.entries m.entries = .ok r ∧
      Foldable (Parts.toMerged ⟨r, into.dropped ++ m.dropped⟩) ∧
      fold false into.toMerged.bare m.bare = .ok (Keyed.without r requiredKey) ∧
      openRequired r = Value.union (openRequired into.entries) (openRequired m.entries) ∧
      propertiesOf r = Keyed.putAll (propertiesOf into.entries) m.properties := by
  obtain ⟨b, hb, hbare, hfolds⟩ := fold_folds hinto.bare hm.bare
  have hwithout := fold_without false into.entries m.entries
  rw [show fold false (Keyed.without into.entries requiredKey)
    (Keyed.without m.entries requiredKey) = .ok b from hb] at hwithout
  cases hr : fold false into.entries m.entries with
  | error e =>
    rw [hr] at hwithout
    cases hwithout
  | ok r =>
    rw [hr] at hwithout
    obtain rfl := Except.ok.inj hwithout
    obtain ⟨hlisted, hrequired⟩ := fold_listed hm.distinct hinto.listed hm.listed hr
    refine ⟨r, rfl, ⟨fold_distinct hinto.distinct hr, hbare, hlisted, fun v hv => ?_⟩, hb, hrequired,
      ?_⟩
    · replace hv : v ∈ openRequired r := hv
      rw [hrequired] at hv
      exact (Value.mem_union hv).elim (hinto.keys v) (hm.keys v)
    · have hproperties := hfolds.properties
      rwa [propertiesOf_without, Merged.bare, Merged.bare, propertiesOf_without,
        propertiesOf_without] at hproperties

/-- **Merged schemas are folded in**, one after another. -/
theorem foldMerged_gathered {ms : List Merged} {into : Parts} (hinto : Foldable into.toMerged)
    (hms : ∀ m ∈ ms, Foldable m) : ∃ whole, foldMerged ms into = .ok whole ∧
      Gathered ms into whole := by
  induction ms generalizing into with
  | nil =>
    refine ⟨into, rfl, hinto, rfl, by simp, rfl, by simp, fun k v h => Or.inl h⟩
  | cons m rest ih =>
    have hm := hms m List.mem_cons_self
    obtain ⟨r, hr, hfoldable, hbare, hrequired, hproperties⟩ := fold_foldable hinto hm
    obtain ⟨whole, hwhole, h⟩ := ih hfoldable fun m' hm' => hms m' (List.mem_cons_of_mem _ hm')
    have hdistinct := hm.distinct_properties
    refine ⟨whole, ?_, h.foldable, ?_, ?_, ?_, fun k => ?_, fun k v hv => ?_⟩
    · rw [foldMerged, hr]
      exact hwhole
    · rw [List.foldlM_cons, hbare]
      exact h.bare
    · rw [h.dropped, List.flatMap_cons, List.append_assoc]
    · rw [h.required, hrequired, List.flatMap_cons, Value.union_append]
    · rw [h.has, hproperties, Keyed.has, Keyed.find?_putAll hdistinct, List.any_cons,
        Option.isSome_or, Bool.or_comm (Keyed.find? m.properties k).isSome, Bool.or_assoc]
      rfl
    · rcases h.find k v hv with hv | ⟨m', hm', hv⟩
      · rw [hproperties, Keyed.find?_putAll hdistinct, Option.or_eq_some_iff] at hv
        rcases hv with hv | ⟨-, hv⟩
        · exact Or.inr ⟨m, List.mem_cons_self, hv⟩
        · exact Or.inl hv
      · exact Or.inr ⟨m', List.mem_cons_of_mem _ hm', hv⟩

theorem foldable_nil : Foldable (Parts.toMerged ⟨[], []⟩) := by
  refine ⟨List.Pairwise.nil, .nil, ?_, ?_⟩
  · intro v hv
    cases hv
  · intro v hv
    cases hv

/-- The required names that stay, each once. -/
def stayingNames (settings : Settings) (p : Parts) : List Value :=
  Value.union [] ((openRequired p.entries).filter
    (staysRequired settings (propertiesOf p.entries) (stillMissing p)))

/-- A schema with the required names that stay, and the properties that are still missing. -/
def finished (settings : Settings) (p : Parts) : Parts :=
  ⟨setRequired p.entries (stayingNames settings p), stillMissing p⟩

/-- Finishing a schema whose required names are a list of keys leaves the names that stay. -/
theorem finish_eq_finished {p : Parts} (settings : Settings) (hlisted : Listed p.entries)
    (hkeys : ∀ v ∈ openRequired p.entries, v.isKey = true) :
    finish settings p = .ok (finished settings p) := by
  rw [finish_eq hlisted, keepRequired_eq_union hkeys]
  rfl

section

variable {p : Parts} (h : Foldable p.toMerged) (settings : Settings)

include h

/-- **Finishing** what merged schemas come to leaves the names that stay. -/
theorem finish_foldable : finish settings p = .ok (finished settings p) :=
  finish_eq_finished settings h.listed h.keys

/-- What is finished can be put together with others. -/
theorem finished_foldable : Foldable (finished settings p).toMerged := by
  refine ⟨?_, ?_, fun v hv => ?_, fun v hv => ?_⟩
  · show Keyed.Distinct (setRequired p.entries (stayingNames settings p))
    unfold setRequired
    split
    · exact h.distinct.sublist (List.filter_sublist.map _)
    · exact Keyed.distinct_put h.distinct _ _
  · show Bare (Keyed.without (setRequired p.entries (stayingNames settings p)) requiredKey)
    rw [without_setRequired]
    exact h.bare
  · replace hv : Keyed.find? (setRequired p.entries (stayingNames settings p)) requiredKey = some v :=
      hv
    rw [find?_setRequired] at hv
    split at hv
    · cases hv
    · exact ⟨_, (Option.some.inj hv).symm⟩
  · replace hv : v ∈ openRequired (setRequired p.entries (stayingNames settings p)) := hv
    rw [openRequired_setRequired, stayingNames] at hv
    rcases Value.mem_union hv with hv | hv
    · cases hv
    · exact h.keys v (List.mem_filter.1 hv).1

end

/-! ## Groups -/

/-- Folding a group in, one after another, is folding in what the group comes to. -/
theorem foldlM_fold_assoc {i acc x b : Keyed Value} {ms : List Merged} (hi : Bare i)
    (hacc : Bare acc) (hms : ∀ m ∈ ms, Bare m.bare) (hx : fold false i acc = .ok x)
    (hb : ms.foldlM (fun es m => fold false es m.bare) acc = .ok b) :
    ms.foldlM (fun es m => fold false es m.bare) x = fold false i b := by
  induction ms generalizing acc x with
  | nil =>
    obtain rfl := Except.ok.inj hb
    exact hx.symm
  | cons m rest ih =>
    have hm := hms m List.mem_cons_self
    obtain ⟨x', hx', hbare, -⟩ := fold_folds hi hacc
    obtain rfl := Except.ok.inj (hx'.symm.trans hx)
    obtain ⟨acc', hacc', hbareacc, -⟩ := fold_folds hacc hm
    obtain ⟨r, hr, -, -⟩ := fold_folds hbare hm
    rw [List.foldlM_cons, hacc'] at hb
    rw [List.foldlM_cons, hr]
    exact ih hbareacc (fun m' hm' => hms m' (List.mem_cons_of_mem _ hm'))
      (fold_assoc hi hacc hm hx hacc' hr) hb

/-- What merged schemas come to when they are put together. -/
def together (settings : Settings) (ms : List Merged) : Except Fault Parts := do
  let whole ← foldMerged ms ⟨[], []⟩
  finish settings whole

section

variable {settings : Settings} {xs ys zs : List Merged} {inner group nested flat : Parts}
  (hms : ∀ m ∈ xs ++ ys ++ zs, Foldable m)
  (hgroup : Gathered ys ⟨[], []⟩ group)
  (hinner : inner.toMerged.bare = group.toMerged.bare)
  (hnested : Gathered (xs ++ inner.toMerged :: zs) ⟨[], []⟩ nested)
  (hflat : Gathered (xs ++ ys ++ zs) ⟨[], []⟩ flat)

include hms hgroup hinner hnested hflat

/-- Apart from the required names a group makes no difference. -/
theorem bare_regroup : nested.toMerged.bare = flat.toMerged.bare := by
  obtain ⟨first, -, hfirst⟩ := foldMerged_gathered foldable_nil
    fun m hm => hms m (List.mem_append_left _ (List.mem_append_left _ hm))
  have hnested := hnested.bare
  have hflat := hflat.bare
  have hassoc := foldlM_fold_assoc (x := first.toMerged.bare) hfirst.foldable.bare foldable_nil.bare
    (fun m hm => (hms m (List.mem_append_left _ (List.mem_append_right _ hm))).bare) rfl
    hgroup.bare
  rw [List.foldlM_append, hfirst.bare] at hnested
  rw [List.append_assoc, List.foldlM_append, hfirst.bare] at hflat
  replace hnested : (do
      let es ← fold false first.toMerged.bare inner.toMerged.bare
      zs.foldlM (fun es (m : Merged) => fold false es m.bare) es) = .ok nested.toMerged.bare := hnested
  replace hflat : (ys ++ zs).foldlM (fun es (m : Merged) => fold false es m.bare) first.toMerged.bare =
    .ok flat.toMerged.bare := hflat
  rw [List.foldlM_append, hassoc, ← hinner] at hflat
  exact Except.ok.inj (hnested.symm.trans hflat)

theorem properties_regroup : propertiesOf nested.entries = propertiesOf flat.entries := by
  have hbare : Keyed.without nested.entries requiredKey = Keyed.without flat.entries requiredKey :=
    bare_regroup hms hgroup hinner hnested hflat
  rw [← propertiesOf_without, hbare, propertiesOf_without]

omit hms hinner hnested in
/-- What the group defines is defined in the end. -/
theorem has_of_group {k : Scalar} (h : Keyed.has (propertiesOf group.entries) k = true) :
    Keyed.has (propertiesOf flat.entries) k = true := by
  rw [hgroup.has] at h
  rw [hflat.has, List.any_append, List.any_append]
  replace h : (ys.any fun m => Keyed.has m.properties k) = true := h
  simp [h]

/-- The same properties are missing in the end. -/
theorem stillMissing_regroup (hdropped : inner.dropped = stillMissing group) :
    stillMissing nested = stillMissing flat := by
  have hfilter : (stillMissing group).filter
      (fun name => !Keyed.has (propertiesOf flat.entries) name) =
        (ys.flatMap (·.dropped)).filter
          fun name => !Keyed.has (propertiesOf flat.entries) name := by
    rw [stillMissing, hgroup.dropped, List.nil_append, List.filter_filter]
    refine List.filter_congr fun name _ => ?_
    cases h : Keyed.has (propertiesOf group.entries) name with
    | false => simp
    | true => rw [has_of_group hgroup hflat h]; rfl
  rw [stillMissing, stillMissing, properties_regroup hms hgroup hinner hnested hflat,
    hnested.dropped, hflat.dropped, List.flatMap_append, List.flatMap_append, List.flatMap_append,
    List.flatMap_cons, List.nil_append, List.nil_append, List.append_assoc, List.filter_append,
    List.filter_append, List.filter_append, List.filter_append,
    show inner.toMerged.dropped = stillMissing group from hdropped, hfilter]

omit hms hinner hnested in
/-- What the group defines stands in the end as it stood in the group, if no schema outside says
anything about it. -/
theorem find?_of_group
    (hdisjoint : ∀ m ∈ xs ++ ys ++ zs, ∀ n ∈ xs ++ ys ++ zs, m ≠ n →
      ∀ k, m.mentions k = true → n.mentions k = false)
    {k : Scalar} {v : Value} (h : Keyed.find? (propertiesOf group.entries) k = some v) :
    Keyed.find? (propertiesOf flat.entries) k = some v := by
  have hmentions : ∀ {m : Merged} {w : Value}, Keyed.find? m.properties k = some w →
      m.mentions k = true := by
    intro m w hw
    rw [Merged.mentions, Keyed.has, hw]
    rfl
  have hhas : Keyed.has (propertiesOf flat.entries) k = true := by
    refine has_of_group hgroup hflat ?_
    rw [Keyed.has, h]
    rfl
  obtain ⟨w, hw⟩ := Option.isSome_iff_exists.1 hhas
  rcases hgroup.find k v h with hnil | ⟨m, hm, hv⟩
  · cases hnil
  rcases hflat.find k w hw with hnil | ⟨n, hn, hwn⟩
  · cases hnil
  by_cases heq : m = n
  · subst heq
    rw [hw, ← hwn, hv]
  · have hnot := hdisjoint m (List.mem_append_left _ (List.mem_append_right _ hm)) n hn heq k
      (hmentions hv)
    rw [hmentions hwn] at hnot
    cases hnot

omit hms hinner hnested in
/-- What the group leaves out for good is left out in the end, if no schema outside says anything
about it. -/
theorem missing_of_group
    (hdisjoint : ∀ m ∈ xs ++ ys ++ zs, ∀ n ∈ xs ++ ys ++ zs, m ≠ n →
      ∀ k, m.mentions k = true → n.mentions k = false)
    {k : Scalar} (h : k ∈ stillMissing group) : k ∈ stillMissing flat := by
  obtain ⟨hdropped, hnot⟩ := List.mem_filter.1 h
  rw [hgroup.dropped, List.nil_append] at hdropped
  obtain ⟨m, hm, hk⟩ := List.mem_flatMap.1 hdropped
  have hall : m ∈ xs ++ ys ++ zs := List.mem_append_left _ (List.mem_append_right _ hm)
  refine List.mem_filter.2 ⟨?_, ?_⟩
  · rw [hflat.dropped, List.nil_append]
    exact List.mem_flatMap.2 ⟨m, hall, hk⟩
  · cases hhas : Keyed.has (propertiesOf flat.entries) k with
    | false => rfl
    | true =>
      obtain ⟨w, hw⟩ := Option.isSome_iff_exists.1 hhas
      rcases hflat.find k w hw with hnil | ⟨n, hn, hwn⟩
      · cases hnil
      have hhasn : Keyed.has n.properties k = true := by
        rw [Keyed.has, hwn]
        rfl
      by_cases heq : m = n
      · -- The schema that leaves the property out defines it too, and so does the group.
        subst heq
        rw [hgroup.has, List.any_eq_true.2 ⟨m, hm, hhasn⟩, Bool.or_true] at hnot
        cases hnot
      · have hmentions : m.mentions k = true := by
          rw [Merged.mentions, List.any_eq_true.2 ⟨k, hk, Scalar.same_refl k⟩, Bool.or_true]
        have hnotn := hdisjoint m hall n hn heq k hmentions
        rw [Merged.mentions, hhasn, Bool.true_or] at hnotn
        cases hnotn

omit hms hinner hnested in
/-- **A name that stays in the end stays in the group.** -/
theorem staysRequired_of_flat
    (hdisjoint : ∀ m ∈ xs ++ ys ++ zs, ∀ n ∈ xs ++ ys ++ zs, m ≠ n →
      ∀ k, m.mentions k = true → n.mentions k = false)
    {v : Value}
    (h : staysRequired settings (propertiesOf flat.entries) (stillMissing flat) v = true) :
    staysRequired settings (propertiesOf group.entries) (stillMissing group) v = true := by
  cases v with
  | scalar k =>
    simp only [staysRequired, isWaived, Bool.not_or, Bool.and_eq_true, Bool.not_eq_true'] at h ⊢
    obtain ⟨⟨hmissing, hremoved⟩, hnullable⟩ := h
    refine ⟨⟨?_, hremoved⟩, ?_⟩
    · refine List.any_eq_false.2 fun q hq => ?_
      exact List.any_eq_false.1 hmissing q (missing_of_group hgroup hflat hdisjoint hq)
    · cases hfind : Keyed.find? (propertiesOf group.entries) k with
      | none => rfl
      | some schema => rw [← hnullable, find?_of_group hgroup hflat hdisjoint hfind]
  | _ => rfl

/-- **The same names stay.** -/
theorem stayingNames_regroup
    (hdisjoint : ∀ m ∈ xs ++ ys ++ zs, ∀ n ∈ xs ++ ys ++ zs, m ≠ n →
      ∀ k, m.mentions k = true → n.mentions k = false)
    (hdropped : inner.dropped = stillMissing group)
    (hrequired : openRequired inner.entries = stayingNames settings group) :
    stayingNames settings nested = stayingNames settings flat := by
  have hkeys : ∀ {ms : List Merged}, (∀ m ∈ ms, Foldable m) →
      ∀ v ∈ ms.flatMap fun m => openRequired m.entries, v.isKey = true := by
    intro ms hms v hv
    obtain ⟨m, hm, hv⟩ := List.mem_flatMap.1 hv
    exact (hms m hm).keys v hv
  rw [stayingNames, hgroup.required] at hrequired
  rw [stayingNames, stayingNames, properties_regroup hms hgroup hinner hnested hflat,
    stillMissing_regroup hms hgroup hinner hnested hflat hdropped, hnested.required, hflat.required,
    List.flatMap_append, List.flatMap_append, List.flatMap_append, List.flatMap_cons,
    List.append_assoc, show openRequired inner.toMerged.entries = openRequired inner.entries from rfl,
    hrequired]
  exact Value.union_filter_regroup (fun _ _ => staysRequired_congr) (fun _ _ => staysRequired_congr)
    (fun _ => staysRequired_of_flat hgroup hflat hdisjoint)
    (hkeys fun m hm => hms m (List.mem_append_left _ (List.mem_append_left _ hm)))
    (hkeys fun m hm => hms m (List.mem_append_left _ (List.mem_append_right _ hm)))
    (hkeys fun m hm => hms m (List.mem_append_right _ hm))

end

/-- **With a group and without it, merged schemas come to the same**, if each property is mentioned by
one of them at most. -/
theorem regroup (settings : Settings) {xs ys zs : List Merged}
    (hms : ∀ m ∈ xs ++ ys ++ zs, Foldable m)
    (hdisjoint : ∀ m ∈ xs ++ ys ++ zs, ∀ n ∈ xs ++ ys ++ zs, m ≠ n →
      ∀ k, m.mentions k = true → n.mentions k = false) :
    ∃ inner nested flat, together settings ys = .ok inner ∧
      together settings (xs ++ inner.toMerged :: zs) = .ok nested ∧
      together settings (xs ++ ys ++ zs) = .ok flat ∧
      Value.Alike (.map nested.entries) (.map flat.entries) := by
  have htogether : ∀ {ms : List Merged} {p : Parts}, foldMerged ms ⟨[], []⟩ = .ok p →
      Foldable p.toMerged → together settings ms = .ok (finished settings p) := by
    intro ms p hfold hp
    rw [together, hfold]
    exact finish_foldable hp settings
  obtain ⟨group, hfoldgroup, hgroup⟩ := foldMerged_gathered foldable_nil
    fun m hm => hms m (List.mem_append_left _ (List.mem_append_right _ hm))
  obtain ⟨flat, hfoldflat, hflat⟩ := foldMerged_gathered foldable_nil hms
  have hinner := finished_foldable hgroup.foldable settings
  have hbare : (finished settings group).toMerged.bare = group.toMerged.bare :=
    without_setRequired _ _
  obtain ⟨nested, hfoldnested, hnested⟩ := foldMerged_gathered foldable_nil
    (show ∀ m ∈ xs ++ (finished settings group).toMerged :: zs, Foldable m by
      intro m hm
      rcases List.mem_append.1 hm with hm | hm
      · exact hms m (List.mem_append_left _ (List.mem_append_left _ hm))
      · rcases List.mem_cons.1 hm with rfl | hm
        · exact hinner
        · exact hms m (List.mem_append_right _ hm))
  refine ⟨_, _, _, htogether hfoldgroup hgroup.foldable, htogether hfoldnested hnested.foldable,
    htogether hfoldflat hflat.foldable, Value.Alike.of_without (s := "required") ?_ ?_
      (finished_foldable hnested.foldable settings).distinct
      (finished_foldable hflat.foldable settings).distinct⟩
  · have hregroup : Keyed.without nested.entries requiredKey =
        Keyed.without flat.entries requiredKey := bare_regroup hms hgroup hbare hnested hflat
    rw [finished, finished, without_setRequired, without_setRequired, hregroup]
    exact .refl _
  · have hnames := stayingNames_regroup hms hgroup hbare hnested hflat hdisjoint rfl
      (openRequired_setRequired _ _)
    rw [finished, finished, find?_setRequired, find?_setRequired, hnames]

end ToolCatalog.Schema
