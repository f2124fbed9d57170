import ToolCatalog.Proofs.Schema.Required

/-!
# Schemas that differ by removed names

`Prunes` relates a merged schema to the one that is left of it when further names are removed: in
properties their entries are gone, among the required names those that survive are left, and all other
keywords come in the same order with related values.  The relation goes through every way of putting
schemas together, because folding and finishing treat a keyword alike on both sides.
-/

namespace ToolCatalog.Schema

mutual

/-- **What is left of a merged value** in a role when the names that the settings remove are removed. -/
inductive Prunes (settings : Settings) : Role → Value → Value → Prop
  | literal (v : Value) : Prunes settings .literal v v
  | scalar {role : Role} (s : Scalar) : Prunes settings role (.scalar s) (.scalar s)
  | pair {role : Role} (a b : Value) : Prunes settings role (.pair a b) (.pair a b)
  | set {role : Role} (ms : List Scalar) : Prunes settings role (.set ms) (.set ms)
  | list {role : Role} {vs ws : List Value} :
    role ≠ .literal → PrunesItems settings vs ws → Prunes settings role (.list vs) (.list ws)
  | properties {es fs : Keyed Value} :
    PrunesRows settings .properties (es.filter fun e => !settings.isRemoved e.1) fs →
    Prunes settings .properties (.map es) (.map fs)
  | names {es fs : Keyed Value} :
    PrunesRows settings .names es fs → Prunes settings .names (.map es) (.map fs)
  | schema {es fs : Keyed Value} :
    PrunesRows settings .schema (Keyed.without es requiredKey) (Keyed.without fs requiredKey) →
    Listed es → (∀ v ∈ openRequired es, IsAtom v) →
    Keyed.find? fs requiredKey = Keyed.find? (setRequired es
      ((openRequired es).filter (survives settings))) requiredKey →
    Prunes settings .schema (.map es) (.map fs)

/-- The same for the items of two lists of schemas, one by one. -/
inductive PrunesItems (settings : Settings) : List Value → List Value → Prop
  | nil : PrunesItems settings [] []
  | cons {v w : Value} {vs ws : List Value} :
    Prunes settings .schema v w → PrunesItems settings vs ws →
    PrunesItems settings (v :: vs) (w :: ws)

/-- The same for the entries of two mappings with one role and the same keys, one by one. -/
inductive PrunesRows (settings : Settings) : Role → Keyed Value → Keyed Value → Prop
  | nil {role : Role} : PrunesRows settings role [] []
  | cons {role : Role} {k : Scalar} {v w : Value} {es fs : Keyed Value} :
    Prunes settings (role.under k) v w → PrunesRows settings role es fs →
    PrunesRows settings role ((k, v) :: es) ((k, w) :: fs)

end

/-- Two accounts of dropped names that differ by removed names at most. -/
def SameDropped (settings : Settings) (dropped dropped' : List Scalar) : Prop :=
  ∀ k, settings.isRemoved k = false → dropped.any k.same = dropped'.any k.same

variable {settings settings' : Settings} {role : Role}

/-! ## Single values -/

/-- Atoms are related to themselves only. -/
theorem Prunes.eq_of_atom {v w : Value} (hv : IsAtom v) (h : Prunes settings role v w) : w = v := by
  cases h with
  | list _ _ => exact absurd hv id
  | properties _ => exact absurd hv id
  | names _ => exact absurd hv id
  | schema _ _ _ _ => exact absurd hv id
  | _ => rfl

/-- A mapping is related to mappings only. -/
theorem Prunes.exists_map {es : Keyed Value} {w : Value} (h : Prunes settings role (.map es) w) :
    ∃ fs, w = .map fs := by
  cases h <;> exact ⟨_, rfl⟩

theorem Prunes.map_of_map {v : Value} {fs : Keyed Value} (h : Prunes settings role v (.map fs)) :
    ∃ es, v = .map es := by
  cases h <;> exact ⟨_, rfl⟩

theorem PrunesItems.isEmpty {vs ws : List Value} (h : PrunesItems settings vs ws) :
    vs.isEmpty = ws.isEmpty := by
  cases h <;> rfl

/-- What is left of a value that is no mapping counts as true if the value does. -/
theorem Prunes.truthy {v w : Value} (h : Prunes settings role v w) (hv : ∀ es, v ≠ .map es) :
    v.truthy = w.truthy := by
  cases h with
  | list _ hitems => rw [Value.truthy, Value.truthy, hitems.isEmpty]
  | properties _ => exact absurd rfl (hv _)
  | names _ => exact absurd rfl (hv _)
  | schema _ _ _ _ => exact absurd rfl (hv _)
  | _ => rfl

/-- Whether a text is among items of schemas does not change. -/
theorem PrunesItems.any_text {vs ws : List Value} (h : PrunesItems settings vs ws) (s : String) :
    vs.any (Value.same (.text s)) = ws.any (Value.same (.text s)) := by
  induction vs generalizing ws with
  | nil =>
    cases h
    rfl
  | cons v rest ih =>
    cases h with
    | @cons _ w _ ws hv hrest =>
      have hs : Value.same (.text s) v = Value.same (.text s) w := by
        cases hv <;> rfl
      rw [List.any_cons, List.any_cons, ih hrest, hs]

/-! ## Entries -/

namespace PrunesRows

variable {es fs : Keyed Value}

/-- What is found under a key on both sides is related. -/
theorem find? (h : PrunesRows settings role es fs) (q : Scalar) :
    Keyed.find? es q = none ∧ Keyed.find? fs q = none ∨
      ∃ v w, Keyed.find? es q = some v ∧ Keyed.find? fs q = some w ∧
        Prunes settings (role.under q) v w := by
  induction es generalizing fs with
  | nil =>
    cases h
    exact Or.inl ⟨rfl, rfl⟩
  | cons e rest ih =>
    cases h with
    | @cons _ k v w _ fs hv hrest =>
      rw [Keyed.find?_cons, Keyed.find?_cons]
      by_cases hk : q.same k = true
      · rw [if_pos hk, if_pos hk]
        refine Or.inr ⟨v, w, rfl, rfl, ?_⟩
        rwa [Role.under_congr hk]
      · rw [if_neg hk, if_neg hk]
        exact ih hrest

theorem has (h : PrunesRows settings role es fs) (q : Scalar) : Keyed.has es q = Keyed.has fs q := by
  rw [Keyed.has, Keyed.has]
  rcases h.find? q with ⟨hes, hfs⟩ | ⟨v, w, hes, hfs, -⟩
  · rw [hes, hfs]
  · rw [hes, hfs]
    rfl

theorem put {k : Scalar} {v w : Value} (h : PrunesRows settings role es fs)
    (hv : Prunes settings (role.under k) v w) :
    PrunesRows settings role (Keyed.put es k v) (Keyed.put fs k w) := by
  induction es generalizing fs with
  | nil =>
    cases h
    exact .cons hv .nil
  | cons e rest ih =>
    cases h with
    | @cons _ k' v' w' _ fs hv' hrest =>
      rw [Keyed.put_cons, Keyed.put_cons]
      by_cases hk : k.same k' = true
      · rw [if_pos hk, if_pos hk]
        rw [Role.under_congr hk] at hv
        exact .cons hv hrest
      · rw [if_neg hk, if_neg hk]
        exact .cons hv' (ih hrest)

theorem putAll {news news' : Keyed Value} (h : PrunesRows settings role es fs)
    (hnews : PrunesRows settings role news news') :
    PrunesRows settings role (Keyed.putAll es news) (Keyed.putAll fs news') := by
  induction news generalizing es fs news' with
  | nil =>
    cases hnews
    exact h
  | cons e rest ih =>
    cases hnews with
    | @cons _ k v w _ news' hv hrest =>
      show PrunesRows settings role (Keyed.putAll (Keyed.put es k v) rest)
        (Keyed.putAll (Keyed.put fs k w) news')
      exact ih (h.put hv) hrest

theorem without (h : PrunesRows settings role es fs) (q : Scalar) :
    PrunesRows settings role (Keyed.without es q) (Keyed.without fs q) := by
  induction es generalizing fs with
  | nil =>
    cases h
    exact .nil
  | cons e rest ih =>
    cases h with
    | cons hv hrest =>
      rw [Keyed.without_cons, Keyed.without_cons]
      split
      · exact ih hrest
      · exact .cons hv (ih hrest)

end PrunesRows

/-! ## Properties -/

/-- Names that are the same are kept together. -/
theorem not_isRemoved_congr {k q : Scalar} (h : k.same q = true) :
    (!settings.isRemoved k) = !settings.isRemoved q := by
  rw [isRemoved_congr h]

/-- Properties that are added on both sides. -/
theorem Prunes.putAll {es fs news news' : Keyed Value}
    (h : Prunes settings .properties (.map es) (.map fs))
    (hnews : Prunes settings .properties (.map news) (.map news')) :
    Prunes settings .properties (.map (Keyed.putAll es news)) (.map (Keyed.putAll fs news')) := by
  cases h with
  | properties hes =>
    cases hnews with
    | properties hnews =>
      refine .properties ?_
      rw [Keyed.filter_putAll (g := fun k => !settings.isRemoved k) not_isRemoved_congr]
      exact hes.putAll hnews

/-- What is found under a name that is not removed is related. -/
theorem Prunes.find?_properties {es fs : Keyed Value}
    (h : Prunes settings .properties (.map es) (.map fs)) {q : Scalar}
    (hq : settings.isRemoved q = false) :
    Keyed.find? es q = none ∧ Keyed.find? fs q = none ∨
      ∃ v w, Keyed.find? es q = some v ∧ Keyed.find? fs q = some w ∧
        Prunes settings .schema v w := by
  cases h with
  | properties h =>
    rw [← Keyed.find?_filter (g := fun k => !settings.isRemoved k) not_isRemoved_congr
      (show (!settings.isRemoved q) = true by simp [hq])]
    exact h.find? q

theorem openProperties_of_not_map {es : Keyed Value} {v : Value}
    (h : Keyed.find? es (.text "properties") = some v) (hv : ∀ ps, v ≠ .map ps) :
    openProperties es = if v.truthy then .error .notCollection else .ok [] := by
  unfold openProperties
  rw [h]
  cases v with
  | map ps => exact absurd rfl (hv ps)
  | _ => rfl

/-- The properties that others are added to are related. -/
theorem PrunesRows.openProperties {es fs existing : Keyed Value}
    (h : PrunesRows settings .schema es fs) (he : openProperties es = .ok existing) :
    ∃ existing', openProperties fs = .ok existing' ∧
      Prunes settings .properties (.map existing) (.map existing') := by
  rcases h.find? (.text "properties") with ⟨hes, hfs⟩ | ⟨v, w, hes, hfs, hv⟩
  · unfold Schema.openProperties at he ⊢
    rw [hes] at he
    rw [hfs]
    obtain rfl := Except.ok.inj he
    exact ⟨[], rfl, .properties .nil⟩
  · rw [under_schema, roleOf_properties] at hv
    by_cases hmap : ∃ ps, v = .map ps
    · obtain ⟨ps, rfl⟩ := hmap
      obtain ⟨qs, rfl⟩ := hv.exists_map
      unfold Schema.openProperties at he ⊢
      rw [hes] at he
      rw [hfs]
      obtain rfl := Except.ok.inj he
      exact ⟨qs, rfl, hv⟩
    · -- Neither side has a mapping, and both count as true or both do not.
      have hv' : ∀ ps, v ≠ .map ps := fun ps hps => hmap ⟨ps, hps⟩
      have hw' : ∀ qs, w ≠ .map qs := by
        rintro qs rfl
        exact hmap hv.map_of_map
      rw [openProperties_of_not_map hes hv', hv.truthy hv'] at he
      rw [openProperties_of_not_map hfs hw']
      split at he
      · cases he
      · next hfalse =>
        rw [if_neg hfalse]
        obtain rfl := Except.ok.inj he
        exact ⟨[], rfl, .properties .nil⟩

/-- The properties of a schema are related. -/
theorem PrunesRows.propertiesOf {es fs : Keyed Value} (h : PrunesRows settings .schema es fs) :
    Prunes settings .properties (.map (propertiesOf es)) (.map (propertiesOf fs)) := by
  unfold Schema.propertiesOf
  rcases h.find? (.text "properties") with ⟨hes, hfs⟩ | ⟨v, w, hes, hfs, hv⟩
  · rw [hes, hfs]
    exact .properties .nil
  · rw [hes, hfs]
    rw [under_schema, roleOf_properties] at hv
    cases hv with
    | properties hrows => exact .properties hrows
    | _ => exact .properties .nil

/-- Whether null is allowed does not change. -/
theorem Prunes.isNullable {v w : Value} (h : Prunes settings .schema v w) :
    isNullable v = isNullable w := by
  cases h with
  | @schema es fs hrows _ _ _ =>
    have hfind : ∀ (gs : Keyed Value) (keyword : String), keyword ≠ "required" →
        Keyed.find? gs (.text keyword) =
          Keyed.find? (Keyed.without gs requiredKey) (.text keyword) := by
      intro gs keyword hne
      rw [Keyed.find?_without, if_neg]
      intro hsame
      exact hne (Scalar.text.inj ((Scalar.same_text _ _).1 hsame))
    unfold Schema.isNullable
    simp only
    rw [hfind es "nullable" (by decide), hfind es "type" (by decide),
      hfind fs "nullable" (by decide), hfind fs "type" (by decide)]
    congr 1
    · rcases hrows.find? (.text "nullable") with ⟨hes, hfs⟩ | ⟨v, w, hes, hfs, hv⟩
      · rw [hes, hfs]
      · rw [hes, hfs]
        cases hv <;> rfl
    · rcases hrows.find? (.text "type") with ⟨hes, hfs⟩ | ⟨v, w, hes, hfs, hv⟩
      · rw [hes, hfs]
      · rw [hes, hfs]
        rw [under_schema, show roleOf "type" = .schema by decide] at hv
        cases hv with
        | list _ hitems => exact hitems.any_text "null"
        | _ => rfl
  | _ => rfl

/-! ## Schemas on their way -/

/-- Two schemas on their way that differ by removed names: all but the required names is related, and
the required names that survive are the same. -/
structure Draft (settings : Settings) (p q : Parts) : Prop where
  others : PrunesRows settings .schema (Keyed.without p.entries requiredKey)
    (Keyed.without q.entries requiredKey)
  listed : Listed p.entries
  listed' : Listed q.entries
  atoms : ∀ v ∈ openRequired p.entries, IsAtom v
  atoms' : ∀ v ∈ openRequired q.entries, IsAtom v
  required : (openRequired q.entries).filter (survives settings) =
    (openRequired p.entries).filter (survives settings)
  dropped : SameDropped settings p.dropped q.dropped

theorem SameDropped.append {d d' e e' : List Scalar} (hd : SameDropped settings d d')
    (he : SameDropped settings e e') : SameDropped settings (d ++ e) (d' ++ e') := by
  intro k hk
  rw [List.any_append, List.any_append, hd k hk, he k hk]

/-- The properties of drafts are related. -/
theorem Draft.properties {p q : Parts} (h : Draft settings p q) :
    Prunes settings .properties (.map (propertiesOf p.entries)) (.map (propertiesOf q.entries)) := by
  rw [← propertiesOf_without, ← propertiesOf_without q.entries]
  exact h.others.propertiesOf

theorem Draft.stillMissing {p q : Parts} (h : Draft settings p q) :
    SameDropped settings (stillMissing p) (stillMissing q) := by
  intro k hk
  rw [any_stillMissing, any_stillMissing, h.dropped k hk, Keyed.has, Keyed.has]
  rcases h.properties.find?_properties hk with ⟨hp, hq⟩ | ⟨v, w, hp, hq, -⟩
  · rw [hp, hq]
  · rw [hp, hq]
    rfl

/-- A name that survives is waived on both sides or on neither. -/
theorem Draft.isWaived (hsub : ∀ k, settings'.isRemoved k = false → settings.isRemoved k = false)
    {p q : Parts} (h : Draft settings' p q) {k : Scalar} (hk : settings'.isRemoved k = false) :
    isWaived settings (propertiesOf p.entries) (Schema.stillMissing p) k =
      isWaived settings' (propertiesOf q.entries) (Schema.stillMissing q) k := by
  unfold Schema.isWaived
  rw [hk, hsub k hk, h.stillMissing k hk]
  rcases h.properties.find?_properties hk with ⟨hp, hq⟩ | ⟨v, w, hp, hq, hv⟩
  · rw [hp, hq]
  · rw [hp, hq, Option.any_some, Option.any_some, hv.isNullable]

/-- **Finishing keeps drafts related.** -/
theorem Draft.finish (hsub : ∀ k, settings'.isRemoved k = false → settings.isRemoved k = false)
    {p q r : Parts} (h : Draft settings' p q) (hr : finish settings p = .ok r) :
    ∃ r', finish settings' q = .ok r' ∧
      Prunes settings' .schema (.map r.entries) (.map r'.entries) ∧
      SameDropped settings' r.dropped r'.dropped := by
  rw [finish_eq h.listed] at hr
  obtain ⟨kept, hkept, hr⟩ := bind_eq_ok.1 hr
  obtain rfl := Except.ok.inj hr
  -- The other side keeps of these names those that survive.
  have hkept' : keepRequired settings' (propertiesOf q.entries) (Schema.stillMissing q) []
      (openRequired q.entries) = .ok (kept.filter (survives settings')) := by
    rw [← keepRequired_survivors, h.required]
    exact keepRequired_filter (fun k hk => h.isWaived hsub hk) (by simp) h.atoms hkept
  refine ⟨⟨setRequired q.entries (kept.filter (survives settings')), Schema.stillMissing q⟩, ?_, ?_,
    h.stillMissing⟩
  · rw [finish_eq h.listed', hkept']
    rfl
  · refine .schema ?_ ?_ ?_ ?_
    · simp only [without_setRequired]
      exact h.others
    · intro v hv
      simp only [find?_setRequired] at hv
      split at hv
      · cases hv
      · exact ⟨kept, (Option.some.inj hv).symm⟩
    · simp only [openRequired_setRequired]
      exact fun v hv => h.atoms v (mem_of_keepRequired hkept v hv)
    · simp only [find?_setRequired, openRequired_setRequired]

/-- A finished schema that is related is a draft. -/
theorem Prunes.draft {es fs : Keyed Value} {d d' : List Scalar}
    (h : Prunes settings .schema (.map es) (.map fs)) (hd : SameDropped settings d d') :
    Draft settings ⟨es, d⟩ ⟨fs, d'⟩ := by
  cases h with
  | schema hrows hlisted hatoms hrequired =>
    have hopen : openRequired fs = (openRequired es).filter (survives settings) := by
      rw [openRequired, hrequired, ← openRequired, openRequired_setRequired]
    refine ⟨hrows, hlisted, ?_, hatoms, ?_, ?_, hd⟩
    · intro v hv
      rw [hrequired, find?_setRequired] at hv
      split at hv
      · cases hv
      · exact ⟨_, (Option.some.inj hv).symm⟩
    · simp only [hopen]
      exact fun v hv => hatoms v (List.mem_filter.1 hv).1
    · simp only [hopen, List.filter_filter, Bool.and_self]

/-- Folding an entry other than the required names into related schemas keeps them related. -/
theorem PrunesRows.foldEntry {overrides : Bool} {into into' r : Keyed Value} {k : Scalar}
    {v w : Value} (h : PrunesRows settings .schema into into')
    (hv : Prunes settings (Role.under .schema k) v w) (hk : requiredKey.same k = false)
    (hr : foldEntry overrides into k v = .ok r) :
    ∃ r', foldEntry overrides into' k w = .ok r' ∧ PrunesRows settings .schema r r' := by
  unfold Schema.foldEntry at hr
  split at hr
  · next ps =>
    obtain ⟨existing, hexisting, hr⟩ := bind_eq_ok.1 hr
    obtain rfl := Except.ok.inj hr
    rw [under_schema, roleOf_properties] at hv
    obtain ⟨qs, rfl⟩ := hv.exists_map
    obtain ⟨existing', hexisting', hp⟩ := h.openProperties hexisting
    refine ⟨Keyed.put into' (.text "properties") (.map (Keyed.putAll existing' qs)), ?_, ?_⟩
    · unfold Schema.foldEntry
      rw [hexisting']
      rfl
    · refine h.put ?_
      rw [under_schema, roleOf_properties]
      exact hp.putAll hv
  · rw [Scalar.same_refl] at hk
    cases hk
  · next hproperties hrequired =>
    have hw : Schema.foldEntry overrides into' k w =
        .ok (if overrides || !Keyed.has into' k then Keyed.put into' k w else into') := by
      unfold Schema.foldEntry
      split
      · obtain ⟨ps, hps⟩ := hv.map_of_map
        exact absurd hps (hproperties ps rfl)
      · rw [Scalar.same_refl] at hk
        cases hk
      · rfl
    obtain rfl := Except.ok.inj hr
    refine ⟨_, hw, ?_⟩
    rw [h.has k]
    split
    · exact h.put hv
    · exact h

theorem PrunesRows.fold {overrides : Bool} {into into' es fs r : Keyed Value}
    (h : PrunesRows settings .schema into into') (hes : PrunesRows settings .schema es fs)
    (hkeys : ∀ k ∈ Keyed.keys es, requiredKey.same k = false)
    (hr : fold overrides into es = .ok r) :
    ∃ r', fold overrides into' fs = .ok r' ∧ PrunesRows settings .schema r r' := by
  induction es generalizing into into' fs with
  | nil =>
    cases hes
    obtain rfl := Except.ok.inj hr
    exact ⟨into', rfl, h⟩
  | cons e rest ih =>
    cases hes with
    | cons hv hrest =>
      rw [Schema.fold] at hr
      obtain ⟨next, hnext, hr⟩ := bind_eq_ok.1 hr
      obtain ⟨next', hnext', hrows⟩ := h.foldEntry hv (hkeys _ List.mem_cons_self) hnext
      obtain ⟨r', hr', hrows'⟩ := ih hrows hrest (fun k hk => hkeys k (List.mem_cons_of_mem _ hk)) hr
      refine ⟨r', ?_, hrows'⟩
      rw [Schema.fold, hnext']
      exact hr'

/-- **Folding keeps drafts related.** -/
theorem Draft.fold {overrides : Bool} {p q : Parts} {es fs r : Keyed Value} {d d' : List Scalar}
    (h : Draft settings p q) (hes : Prunes settings .schema (.map es) (.map fs))
    (hd : SameDropped settings d d')
    (hdistinct : Keyed.Distinct es)
    (hdistinct' : Keyed.Distinct fs)
    (hr : fold overrides p.entries es = .ok r) :
    ∃ r', fold overrides q.entries fs = .ok r' ∧
      Draft settings ⟨r, p.dropped ++ d⟩ ⟨r', q.dropped ++ d'⟩ := by
  have hes' := hes.draft hd
  -- Without the required names, both sides fold the same keywords one by one.
  have hwithout := fold_without overrides p.entries es
  rw [hr] at hwithout
  have hkeys : ∀ k ∈ Keyed.keys (Keyed.without es requiredKey), requiredKey.same k = false := by
    intro k hk
    rw [Keyed.keys_without] at hk
    simpa using (List.mem_filter.1 hk).2
  obtain ⟨q', hq', hrows⟩ := h.others.fold hes'.others hkeys hwithout
  rw [fold_without] at hq'
  cases hr' : Schema.fold overrides q.entries fs with
  | error e =>
    rw [hr'] at hq'
    cases hq'
  | ok r' =>
    rw [hr'] at hq'
    obtain rfl := Except.ok.inj hq'
    obtain ⟨hlisted, hopen⟩ := fold_listed hdistinct h.listed hes'.listed hr
    obtain ⟨hlisted', hopen'⟩ := fold_listed hdistinct' h.listed' hes'.listed' hr'
    refine ⟨r', rfl, hrows, hlisted, hlisted', ?_, ?_, ?_, h.dropped.append hd⟩
    · simp only [hopen]
      intro v hv
      exact (Value.mem_union hv).elim (h.atoms v) (hes'.atoms v)
    · simp only [hopen']
      intro v hv
      exact (Value.mem_union hv).elim (h.atoms' v) (hes'.atoms' v)
    · simp only [hopen, hopen']
      rw [Value.filter_union (fun _ _ => survives_congr) h.atoms' hes'.atoms',
        Value.filter_union (fun _ _ => survives_congr) h.atoms hes'.atoms, h.required,
        hes'.required]

/-- Merged items that are no collections are atoms, and the same on both sides. -/
theorem PrunesItems.atoms {vs ws : List Value} (h : PrunesItems settings vs ws)
    (hvs : ∀ v ∈ vs, ¬ ((∃ us, v = .list us) ∨ ∃ es, v = .map es)) :
    ws = vs ∧ ∀ v ∈ vs, IsAtom v := by
  induction vs generalizing ws with
  | nil =>
    cases h
    simp
  | cons v rest ih =>
    cases h with
    | @cons _ w _ ws hv hrest =>
      obtain ⟨heq, hatoms⟩ := ih hrest fun u hu => hvs u (List.mem_cons_of_mem _ hu)
      have hne := hvs v List.mem_cons_self
      have hhead : w = v ∧ IsAtom v := by
        cases hv with
        | list _ _ => exact absurd (Or.inl ⟨_, rfl⟩) hne
        | schema _ _ _ _ => exact absurd (Or.inr ⟨_, rfl⟩) hne
        | _ => exact ⟨rfl, trivial⟩
      obtain ⟨rfl, hatom⟩ := hhead
      refine ⟨by rw [heq], fun u hu => ?_⟩
      rcases List.mem_cons.1 hu with rfl | hu
      · exact hatom
      · exact hatoms u hu

/-- The own keywords of a mapping, merged on both sides, are drafts if the one side can be finished. -/
theorem PrunesRows.draft {p q r : Parts} (h : PrunesRows settings' .schema p.entries q.entries)
    (hd : SameDropped settings' p.dropped q.dropped) (hlisted : Listed p.entries)
    (hr : Schema.finish settings p = .ok r) : Draft settings' p q := by
  rw [finish_eq hlisted] at hr
  obtain ⟨kept, hkept, -⟩ := bind_eq_ok.1 hr
  have hitems := keepRequired_items (by simp) hkept
  rcases h.find? requiredKey with ⟨hp, hq⟩ | ⟨v, w, hp, hq, hv⟩
  · refine ⟨h.without _, hlisted, ?_, ?_, ?_, ?_, hd⟩
    · intro w hw
      rw [hq] at hw
      cases hw
    · rw [openRequired_of_none hp]
      simp
    · rw [openRequired_of_none hq]
      simp
    · rw [openRequired_of_none hp, openRequired_of_none hq]
  · obtain ⟨names, rfl⟩ := hlisted v hp
    rw [under_schema, roleOf_required] at hv
    rw [openRequired_of_find? hp] at hitems
    cases hv with
    | @list _ _ names' _ hnames =>
      obtain ⟨rfl, hatoms⟩ := hnames.atoms hitems
      refine ⟨h.without _, hlisted, ?_, ?_, ?_, ?_, hd⟩
      · intro w hw
        rw [hq] at hw
        exact ⟨_, (Option.some.inj hw).symm⟩
      · rwa [openRequired_of_find? hp]
      · rwa [openRequired_of_find? hq]
      · rw [openRequired_of_find? hp, openRequired_of_find? hq]

end ToolCatalog.Schema
