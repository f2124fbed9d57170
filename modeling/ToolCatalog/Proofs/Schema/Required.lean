import ToolCatalog.Proofs.Schema.Merging
import ToolCatalog.Proofs.Schema.Prune

/-!
# The required names apart from the other keywords

Folding and finishing treat the required names in one way and all other keywords in another, and the
two do not touch.  So a schema on its way is two things side by side: what it has without `required`,
and a list of required names.
-/

namespace ToolCatalog.Schema

/-- The key of the required names. -/
abbrev requiredKey : Scalar := .text "required"

/-- The key of the properties. -/
abbrev propertiesKey : Scalar := .text "properties"

/-- The properties of a schema are what stands under their keyword. -/
theorem propertiesOf_congr {es fs : Keyed Value}
    (h : Keyed.find? es propertiesKey = Keyed.find? fs propertiesKey) :
    propertiesOf es = propertiesOf fs := by
  rw [propertiesOf, propertiesOf, h]

/-- The required names of a schema are a list, if it has any. -/
def Listed (es : Keyed Value) : Prop :=
  ∀ v, Keyed.find? es requiredKey = some v → ∃ names, v = .list names

/-- A list of required names is no stray one. -/
theorem withoutStrayRequired_of_listed {es : Keyed Value} (h : Listed es) :
    withoutStrayRequired es = es := by
  unfold withoutStrayRequired
  split
  · rfl
  · rfl
  · next v hne hv =>
    obtain ⟨names, rfl⟩ := h _ hv
    exact absurd rfl (hne names)

/-- A schema with a list of required names, none if the list is empty. -/
def setRequired (es : Keyed Value) (names : List Value) : Keyed Value :=
  if names.isEmpty then Keyed.without es requiredKey else Keyed.put es requiredKey (.list names)

theorem openRequired_of_find? {es : Keyed Value} {names : List Value}
    (h : Keyed.find? es requiredKey = some (.list names)) : openRequired es = names := by
  rw [openRequired, h]

theorem openRequired_of_none {es : Keyed Value} (h : Keyed.find? es requiredKey = none) :
    openRequired es = [] := by
  rw [openRequired, h]

theorem without_setRequired (es : Keyed Value) (names : List Value) :
    Keyed.without (setRequired es names) requiredKey = Keyed.without es requiredKey := by
  unfold setRequired
  split
  · exact Keyed.without_eq_self (by rw [Keyed.find?_without, if_pos (Scalar.same_refl _)])
  · exact Keyed.without_put_same (Scalar.same_refl _)

theorem find?_setRequired (es : Keyed Value) (names : List Value) :
    Keyed.find? (setRequired es names) requiredKey =
      if names.isEmpty then none else some (.list names) := by
  unfold setRequired
  split
  · rw [Keyed.find?_without, if_pos (Scalar.same_refl _)]
  · rw [Keyed.find?_put, if_pos (Scalar.same_refl _)]

theorem openRequired_setRequired (es : Keyed Value) (names : List Value) :
    openRequired (setRequired es names) = names := by
  rw [openRequired, find?_setRequired]
  cases names <;> rfl

/-- Properties are found without the required names. -/
theorem find?_properties_without (es : Keyed Value) :
    Keyed.find? (Keyed.without es requiredKey) (.text "properties") =
      Keyed.find? es (.text "properties") := by
  rw [Keyed.find?_without, if_neg (by decide)]

theorem propertiesOf_without (es : Keyed Value) :
    propertiesOf (Keyed.without es requiredKey) = propertiesOf es :=
  propertiesOf_congr (find?_properties_without es)

/-- Properties that are a mapping are added to as they are. -/
theorem openProperties_eq {es : Keyed Value}
    (h : ∀ v, Keyed.find? es propertiesKey = some v → ∃ ps, v = .map ps) :
    openProperties es = .ok (propertiesOf es) := by
  unfold openProperties propertiesOf
  cases hv : Keyed.find? es propertiesKey with
  | none => rfl
  | some v =>
    obtain ⟨ps, rfl⟩ := h v hv
    rfl

/-! ## Finishing -/

/-- The names that were left out and are not defined. -/
def stillMissing (p : Parts) : List Scalar :=
  p.dropped.filter fun name => !Keyed.has (propertiesOf p.entries) name

/-- Names that are the same are missing together. -/
theorem any_stillMissing (p : Parts) (k : Scalar) :
    (stillMissing p).any k.same =
      (p.dropped.any k.same && !Keyed.has (propertiesOf p.entries) k) := by
  unfold stillMissing
  induction p.dropped with
  | nil => rfl
  | cons name rest ih =>
    rw [List.filter_cons, List.any_cons]
    by_cases hk : k.same name = true
    · have hhas : Keyed.has (propertiesOf p.entries) name = Keyed.has (propertiesOf p.entries) k := by
        rw [Keyed.has, Keyed.has, Keyed.find?_congr _ hk]
      rw [hhas]
      cases hp : Keyed.has (propertiesOf p.entries) k with
      | true =>
        rw [if_neg (by simp), ih, hp]
        simp
      | false =>
        rw [if_pos (by simp), List.any_cons, hk]
        simp
    · rw [show k.same name = false by simpa using hk, Bool.false_or]
      split
      · rw [List.any_cons, show k.same name = false by simpa using hk, Bool.false_or]
        exact ih
      · exact ih

/-- **Finishing** puts the required names in order and leaves all else. -/
theorem finish_eq {settings : Settings} {p : Parts} (h : Listed p.entries) :
    finish settings p = (do
      let kept ← keepRequired settings (propertiesOf p.entries) (stillMissing p) []
        (openRequired p.entries)
      return ⟨setRequired p.entries kept, stillMissing p⟩) := by
  unfold finish
  simp only
  cases hv : Keyed.find? p.entries requiredKey with
  | none =>
    rw [openRequired_of_none hv, keepRequired]
    show Except.ok (Parts.mk p.entries (stillMissing p)) =
      Except.ok ⟨Keyed.without p.entries requiredKey, stillMissing p⟩
    rw [Keyed.without_eq_self hv]
  | some v =>
    obtain ⟨names, rfl⟩ := h v hv
    rw [openRequired_of_find? hv]
    rfl

theorem keepRequired_append {settings : Settings} {properties : Keyed Value} {dropped : List Scalar}
    (kept names more : List Value) :
    keepRequired settings properties dropped kept (names ++ more) = (do
      let kept' ← keepRequired settings properties dropped kept names
      keepRequired settings properties dropped kept' more) := by
  induction names generalizing kept with
  | nil => rfl
  | cons name rest ih =>
    rw [List.cons_append]
    conv =>
      lhs
      unfold keepRequired
    conv =>
      rhs
      enter [1]
      unfold keepRequired
    simp only [ih]
    split
    · rfl
    · split
      · split <;> rfl
      · split <;> rfl

/-- The names that are kept would be kept again. -/
theorem keepRequired_kept {settings : Settings} {properties : Keyed Value} {dropped : List Scalar}
    {names kept : List Value}
    (h : keepRequired settings properties dropped [] names = .ok kept) :
    keepRequired settings properties dropped [] kept = .ok kept := by
  refine keepRequired_induction (p := fun vs =>
    keepRequired settings properties dropped [] vs = .ok vs) ?_ rfl h
  intro vs name _ hvs hamong hstays hkey
  rw [keepRequired_append, hvs]
  show keepRequired settings properties dropped vs [name] = .ok (vs ++ [name])
  unfold keepRequired
  rw [if_neg (by simp [hamong])]
  cases name with
  | scalar k => exact if_neg (by simpa [staysRequired] using hstays)
  | _ => exact if_pos hkey

/-- **A finished schema is left as it is** by finishing it. -/
theorem finish_finished {settings : Settings} {p q : Parts} (h : finish settings p = .ok q) :
    finish settings q = .ok q := by
  obtain ⟨hdropped, hentries⟩ := finish_ok h
  have hproperties : propertiesOf q.entries = propertiesOf p.entries := by
    rcases hentries with ⟨-, hes⟩ | ⟨names, kept, -, -, hes⟩
    · rw [hes]
    · rw [hes]
      split
      · exact propertiesOf_without _
      · exact propertiesOf_put_required _ _
  have hmissing : (q.dropped.filter fun name => !Keyed.has (propertiesOf q.entries) name) =
      q.dropped := by
    rw [hproperties, hdropped, List.filter_filter]
    simp only [Bool.and_self]
  unfold finish
  simp only [hmissing]
  rcases hentries with ⟨hnone, hes⟩ | ⟨names, kept, -, hkept, hes⟩
  · rw [← hes] at hnone
    split
    · next names hnames => exact absurd hnames (hnone names)
    · rfl
  · by_cases hempty : kept.isEmpty = true
    · rw [if_pos hempty] at hes
      rw [hes, Keyed.find?_without, if_pos (Scalar.same_refl _), ← hes]
    · have hfind : Keyed.find? q.entries requiredKey = some (.list kept) := by
        rw [hes, if_neg hempty, Keyed.find?_put, if_pos (Scalar.same_refl _)]
      rw [hfind]
      simp only [hproperties, keepRequired_kept hkept]
      show Except.ok (Parts.mk (if kept.isEmpty then _ else _) _) = .ok q
      rw [if_neg hempty, Keyed.put_of_find? hfind]

/-! ## Folding -/

/-- Properties are put behind those that are there. -/
theorem foldEntry_properties {overrides : Bool} {into : Keyed Value} {ps : Keyed Value}
    (h : openProperties into = .ok (propertiesOf into)) :
    foldEntry overrides into propertiesKey (.map ps) =
      .ok (Keyed.put into propertiesKey (.map (Keyed.putAll (propertiesOf into) ps))) := by
  unfold foldEntry
  rw [h]
  rfl

section

variable {g : Scalar → Bool} (hg : ∀ {k q : Scalar}, k.same q = true → g k = g q)

include hg

/-- An entry that is left out leaves the others, if it is not the properties. -/
theorem foldEntry_left_out {overrides : Bool} {k : Scalar} (hproperties : g propertiesKey = true)
    (hk : g k = false) (into : Keyed Value) (v : Value) :
    ∃ next, foldEntry overrides into k v = .ok next ∧
      (next.filter fun e => g e.1) = into.filter fun e => g e.1 := by
  have hput : ∀ w, ((Keyed.put into k w).filter fun e => g e.1) = into.filter fun e => g e.1 := by
    intro w
    rw [Keyed.filter_put hg, if_neg (by simp [hk])]
  unfold foldEntry
  split
  · rw [hproperties] at hk
    cases hk
  · exact ⟨_, rfl, hput _⟩
  · refine ⟨_, rfl, ?_⟩
    split
    · exact hput v
    · rfl

theorem foldEntry_filter {overrides : Bool} {into : Keyed Value} {k : Scalar} {v : Value}
    (hk : g k = true) :
    foldEntry overrides (into.filter fun e => g e.1) k v =
      (foldEntry overrides into k v).map fun r => r.filter fun e => g e.1 := by
  have hput : ∀ w, Keyed.put (into.filter fun e => g e.1) k w =
      (Keyed.put into k w).filter fun e => g e.1 := by
    intro w
    rw [Keyed.filter_put hg, if_pos hk]
  have hfind : Keyed.find? (into.filter fun e => g e.1) k = Keyed.find? into k :=
    Keyed.find?_filter hg hk
  unfold foldEntry
  split
  · next ps =>
    rw [openProperties, hfind, ← openProperties]
    cases openProperties into with
    | error e => rfl
    | ok existing => exact congrArg Except.ok (hput _)
  · next names =>
    rw [openRequired, hfind, ← openRequired]
    exact congrArg Except.ok (hput _)
  · rw [Keyed.has, hfind, ← Keyed.has]
    split
    · exact congrArg Except.ok (hput _)
    · rfl

/-- **Folding some of the entries** is folding what is left of both schemas, if the properties are
left. -/
theorem fold_filter (hproperties : g propertiesKey = true) (overrides : Bool)
    (into es : Keyed Value) :
    fold overrides (into.filter fun e => g e.1) (es.filter fun e => g e.1) =
      (fold overrides into es).map fun r => r.filter fun e => g e.1 := by
  induction es generalizing into with
  | nil => rfl
  | cons e rest ih =>
    obtain ⟨k, v⟩ := e
    rw [List.filter_cons, fold]
    cases hk : g k with
    | false =>
      obtain ⟨next, hnext, hleft⟩ := foldEntry_left_out hg hproperties hk into v
      rw [if_neg (by simp), hnext, ← hleft]
      exact ih next
    | true =>
      rw [if_pos rfl, fold, foldEntry_filter hg hk]
      cases foldEntry overrides into k v with
      | error e => rfl
      | ok next => exact ih next

end

/-- **Folding without the required names** is folding what is left without them. -/
theorem fold_without (overrides : Bool) (into es : Keyed Value) :
    fold overrides (Keyed.without into requiredKey) (Keyed.without es requiredKey) =
      (fold overrides into es).map fun r => Keyed.without r requiredKey := by
  have hg : ∀ {k q : Scalar}, k.same q = true → (!requiredKey.same k) = !requiredKey.same q := by
    intro k q h
    rw [Scalar.same_comm, Scalar.same_congr h, Scalar.same_comm]
  exact fold_filter hg (by decide) overrides into es

/-- Folding in another keyword leaves the required names. -/
theorem foldEntry_find?_required {overrides : Bool} {into r : Keyed Value} {k : Scalar} {v : Value}
    (h : requiredKey.same k = false) (hr : foldEntry overrides into k v = .ok r) :
    Keyed.find? r requiredKey = Keyed.find? into requiredKey := by
  have hput : ∀ w, Keyed.find? (Keyed.put into k w) requiredKey = Keyed.find? into requiredKey := by
    intro w
    rw [Keyed.find?_put, if_neg (by simp [h])]
  rcases foldEntry_ok hr with ⟨ps, existing, -, -, -, rfl⟩ | ⟨names, -, -, rfl⟩ | rfl | rfl
  · exact hput _
  · exact hput _
  · exact hput _
  · rfl

/-- Folding in a schema without required names leaves them. -/
theorem fold_find?_required_of_none {overrides : Bool} {into es r : Keyed Value}
    (h : Keyed.find? es requiredKey = none) (hr : fold overrides into es = .ok r) :
    Keyed.find? r requiredKey = Keyed.find? into requiredKey := by
  induction es generalizing into with
  | nil =>
    obtain rfl := Except.ok.inj hr
    rfl
  | cons e rest ih =>
    obtain ⟨k, v⟩ := e
    rw [Keyed.find?_cons] at h
    split at h
    · cases h
    · next hk =>
      rw [fold] at hr
      obtain ⟨next, hnext, hr⟩ := bind_eq_ok.1 hr
      rw [ih h hr, foldEntry_find?_required (by simpa using hk) hnext]

/-- **The required names after folding** are the union of those of both schemas. -/
theorem fold_find?_required {overrides : Bool} {into es r : Keyed Value} {names : List Value}
    (hdistinct : Keyed.Distinct es)
    (h : Keyed.find? es requiredKey = some (.list names)) (hr : fold overrides into es = .ok r) :
    Keyed.find? r requiredKey = some (.list (Value.union (openRequired into) names)) := by
  induction es generalizing into with
  | nil => cases h
  | cons e rest ih =>
    obtain ⟨k, v⟩ := e
    rw [Keyed.distinct_cons] at hdistinct
    rw [fold] at hr
    obtain ⟨next, hnext, hr⟩ := bind_eq_ok.1 hr
    rw [Keyed.find?_cons] at h
    by_cases hk : requiredKey.same k = true
    · rw [if_pos hk] at h
      obtain rfl := Option.some.inj h
      obtain rfl := (Scalar.same_text _ _).1 hk
      -- The keys are distinct, so the rest has no required names.
      have hrest : Keyed.find? rest requiredKey = none := Keyed.find?_eq_none hdistinct.1
      rw [fold_find?_required_of_none hrest hr]
      obtain rfl := Except.ok.inj hnext
      rw [Keyed.find?_put, if_pos (Scalar.same_refl _)]
    · rw [if_neg hk] at h
      rw [ih hdistinct.2 h hr]
      have hnext' := foldEntry_find?_required (by simpa using hk) hnext
      rw [openRequired, openRequired, hnext']

/-- Folding lists into lists gives a list, the union. -/
theorem fold_listed {overrides : Bool} {into es r : Keyed Value}
    (hdistinct : Keyed.Distinct es) (hinto : Listed into)
    (hes : Listed es) (hr : fold overrides into es = .ok r) :
    Listed r ∧ openRequired r = Value.union (openRequired into) (openRequired es) := by
  cases hv : Keyed.find? es requiredKey with
  | none =>
    have hfind := fold_find?_required_of_none hv hr
    refine ⟨fun w hw => hinto w (by rwa [hfind] at hw), ?_⟩
    rw [openRequired_of_none hv, openRequired, hfind]
    rfl
  | some v =>
    obtain ⟨names, rfl⟩ := hes v hv
    have hfind := fold_find?_required hdistinct hv hr
    refine ⟨fun w hw => ?_, ?_⟩
    · rw [hfind] at hw
      exact ⟨_, (Option.some.inj hw).symm⟩
    · rw [openRequired_of_find? hfind, openRequired_of_find? hv]

/-! ## Required names that survive -/

/-- A value with no values inside that could be schemas. -/
def IsAtom : Value → Prop
  | .scalar _ | .pair _ _ | .set _ => True
  | _ => False

theorem IsAtom.opened {v : Value} (h : IsAtom v) : v.opened = v := by
  cases v with
  | part n body => exact absurd h id
  | _ => rfl

section

variable {settings settings' : Settings}

/-- Values that are the same survive together. -/
theorem survives_congr {v w : Value} (hv : IsAtom v) (hw : IsAtom w) (h : v.same w = true) :
    survives settings v = survives settings w := by
  cases v with
  | part n body => exact absurd hv id
  | scalar s =>
    rw [Value.same, hw.opened] at h
    cases w with
    | scalar t => rw [survives, survives, isRemoved_congr h]
    | _ => cases h
  | _ =>
    rw [Value.same, hw.opened] at h
    cases w with
    | scalar t => cases h
    | _ => rfl

/-- A name that does not survive is a removed scalar. -/
theorem exists_of_survives_eq_false {v : Value} (h : survives settings v = false) :
    ∃ k, v = .scalar k ∧ settings.isRemoved k = true := by
  cases v with
  | scalar k => exact ⟨k, rfl, by simpa [survives] using h⟩
  | _ => cases h

/-- Removed names play no role when the required names are put in order. -/
theorem keepRequired_survivors (properties : Keyed Value) (dropped : List Scalar)
    (kept names : List Value) :
    keepRequired settings properties dropped kept (names.filter (survives settings)) =
      keepRequired settings properties dropped kept names := by
  induction names generalizing kept with
  | nil => rfl
  | cons name rest ih =>
    cases hs : survives settings name with
    | true =>
      rw [List.filter_cons_of_pos hs]
      unfold keepRequired
      simp only [ih]
    | false =>
      rw [List.filter_cons_of_neg (by simp [hs]), ih]
      obtain ⟨k, rfl, hk⟩ := exists_of_survives_eq_false hs
      have hwaived : isWaived settings properties dropped k = true := by
        rw [isWaived, hk]
        simp
      rw [keepRequired]
      simp only [hwaived, if_true, ite_self]

/-- **Putting names in order commutes with leaving out the removed ones**, if the names that survive
are waived alike. -/
theorem keepRequired_filter {properties properties' : Keyed Value} {dropped dropped' : List Scalar}
    (hwaived : ∀ k, settings'.isRemoved k = false →
      isWaived settings properties dropped k = isWaived settings' properties' dropped' k)
    {kept names result : List Value} (hkept : ∀ v ∈ kept, IsAtom v)
    (hnames : ∀ v ∈ names, IsAtom v)
    (h : keepRequired settings properties dropped kept names = .ok result) :
    keepRequired settings' properties' dropped' (kept.filter (survives settings'))
      (names.filter (survives settings')) = .ok (result.filter (survives settings')) := by
  induction names generalizing kept with
  | nil =>
    obtain rfl := Except.ok.inj h
    rfl
  | cons name rest ih =>
    have hname := hnames name List.mem_cons_self
    have ih := fun {kept} hkept => @ih kept hkept fun v hv => hnames v (List.mem_cons_of_mem _ hv)
    have hmore : ∀ v ∈ kept ++ [name], IsAtom v := by
      intro v hv
      rcases List.mem_append.1 hv with hv | hv
      · exact hkept v hv
      · rwa [List.mem_singleton.1 hv]
    unfold keepRequired at h
    cases hs : survives settings' name with
    | true =>
      have happend : (kept ++ [name]).filter (survives settings') =
          kept.filter (survives settings') ++ [name] := by
        rw [List.filter_append, List.filter_cons_of_pos hs, List.filter_nil]
      rw [List.filter_cons_of_pos hs]
      unfold keepRequired
      rw [Value.isAmong_filter (fun _ _ => survives_congr) hname hkept hs]
      split at h
      · next hamong =>
        rw [if_pos hamong]
        exact ih hkept h
      · next hamong =>
        rw [if_neg hamong]
        split at h
        · next k =>
          have hk : settings'.isRemoved k = false := by simpa [survives] using hs
          simp only [← hwaived k hk]
          split at h
          · next hw =>
            rw [if_pos hw]
            exact ih hkept h
          · next hw =>
            rw [if_neg hw, ← happend]
            exact ih hmore h
        · split at h
          · next hkey =>
            simp only [hkey, if_true, ← happend]
            exact ih hmore h
          · cases h
    | false =>
      have happend : (kept ++ [name]).filter (survives settings') =
          kept.filter (survives settings') := by
        rw [List.filter_append, List.filter_cons_of_neg (by simp [hs]), List.filter_nil,
          List.append_nil]
      rw [List.filter_cons_of_neg (by simp [hs])]
      obtain ⟨k, rfl, -⟩ := exists_of_survives_eq_false hs
      split at h
      · exact ih hkept h
      · simp only at h
        split at h
        · exact ih hkept h
        · rw [← happend]
          exact ih hmore h

/-! ## Collections are no names -/

/-- A list of values or a mapping is not the same as any key. -/
theorem isAmong_of_collection {v : Value} {kept : List Value}
    (hv : (∃ vs, v = .list vs) ∨ ∃ es, v = .map es) (hkept : ∀ w ∈ kept, w.isKey = true) :
    v.isAmong kept = false := by
  refine List.any_eq_false.2 fun w hw hsame => ?_
  have hkey := hkept w hw
  rw [← Value.opened_of_isKey hkey] at hkey
  rcases hv with ⟨vs, rfl⟩ | ⟨es, rfl⟩
  · rw [Value.same] at hsame
    split at hsame
    · next ws hws =>
      rw [hws] at hkey
      cases hkey
    · cases hsame
  · rw [Value.same] at hsame
    split at hsame
    · next fs hfs =>
      rw [hfs] at hkey
      cases hkey
    · cases hsame

/-- Required names that can be put in order hold no list of values and no mapping. -/
theorem keepRequired_items {properties : Keyed Value} {dropped : List Scalar}
    {kept names result : List Value} (hkept : ∀ v ∈ kept, v.isKey = true)
    (h : keepRequired settings properties dropped kept names = .ok result) :
    ∀ v ∈ names, ¬ ((∃ vs, v = .list vs) ∨ ∃ es, v = .map es) := by
  induction names generalizing kept with
  | nil => simp
  | cons name rest ih =>
    have hmore : name.isKey = true → ∀ v ∈ kept ++ [name], v.isKey = true := by
      intro hname v hv
      rcases List.mem_append.1 hv with hv | hv
      · exact hkept v hv
      · rwa [List.mem_singleton.1 hv]
    unfold keepRequired at h
    intro v hv hcollection
    rcases List.mem_cons.1 hv with rfl | hrest
    · rw [isAmong_of_collection hcollection hkept] at h
      rcases hcollection with ⟨vs, rfl⟩ | ⟨es, rfl⟩ <;> cases h
    · split at h
      · exact ih hkept h v hrest hcollection
      · split at h
        · split at h
          · exact ih hkept h v hrest hcollection
          · exact ih (hmore rfl) h v hrest hcollection
        · split at h
          · next hkey => exact ih (hmore hkey) h v hrest hcollection
          · cases h

end

end ToolCatalog.Schema
