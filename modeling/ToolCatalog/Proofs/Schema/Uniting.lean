import ToolCatalog.Proofs.Schema.Required

/-!
# What folding leaves under each key

Folding writes one entry after another, but as no key comes twice among them, what stands under a key in the
end depends on what stood there before and on the one entry under that key.  So a fold is described by two
equations, one for the keys and one for what is found under each, and it can fail only where properties
meet something that nothing can be added to.
-/

namespace ToolCatalog.Schema

/-- What stands under a keyword when a newcomer has been united with what a schema has there. -/
def united (overrides : Bool) (into : Keyed Value) (k : Scalar) (v : Value) : Value :=
  match k, v with
  | .text "properties", .map ps => .map (Keyed.putAll (propertiesOf into) ps)
  | .text "required", .list names => .list (Value.union (openRequired into) names)
  | k, v => if overrides then v else (Keyed.find? into k).getD v

/-- The properties that others are added to are those of the schema. -/
theorem openProperties_ok {es existing : Keyed Value} (h : openProperties es = .ok existing) :
    existing = propertiesOf es := by
  unfold openProperties at h
  unfold propertiesOf
  split at h
  · next ps hps =>
    rw [hps]
    exact (Except.ok.inj h).symm
  · next v hnot hv =>
    split at h
    · cases h
    · rw [hv]
      split
      · next ps hps => exact absurd (Option.some.inj hps) (hnot ps)
      · exact (Except.ok.inj h).symm
  · next hnone =>
    rw [hnone]
    exact (Except.ok.inj h).symm

/-- Properties can be added to a schema: it has none, or they are a mapping, or count as none. -/
def Extensible (into : Keyed Value) : Prop := openProperties into = .ok (propertiesOf into)

variable {overrides : Bool} {into into' es r : Keyed Value} {k q : Scalar} {v : Value}

theorem extensible_congr (h : Keyed.find? into propertiesKey = Keyed.find? into' propertiesKey) :
    Extensible into ↔ Extensible into' := by
  rw [Extensible, Extensible, openProperties, openProperties, propertiesOf_congr h, h]

theorem united_properties (overrides : Bool) (into ps : Keyed Value) :
    united overrides into propertiesKey (.map ps) = .map (Keyed.putAll (propertiesOf into) ps) := rfl

theorem united_required (overrides : Bool) (into : Keyed Value) (names : List Value) :
    united overrides into requiredKey (.list names) =
      .list (Value.union (openRequired into) names) := rfl

theorem united_other (hproperties : ∀ ps, k = propertiesKey → v ≠ .map ps)
    (hrequired : ∀ names, k = requiredKey → v ≠ .list names) :
    united overrides into k v = if overrides then v else (Keyed.find? into k).getD v := by
  unfold united
  split
  · next ps => exact absurd rfl (hproperties ps rfl)
  · next names => exact absurd rfl (hrequired names rfl)
  · rfl

/-- What is united under a keyword depends on what stands there. -/
theorem united_congr (h : Keyed.find? into k = Keyed.find? into' k) :
    united overrides into k v = united overrides into' k v := by
  unfold united
  split
  · rw [propertiesOf_congr h]
  · rw [openRequired, openRequired, h]
  · rw [h]

/-- Keys that are the same are united alike. -/
theorem united_of_same (h : k.same q = true) :
    united overrides into k v = united overrides into q v := by
  cases k with
  | text s => rw [(Scalar.same_text s q).1 h]
  | _ =>
    cases q with
    | text s =>
      rw [Scalar.same_comm, Scalar.same_text] at h
      cases h
    | _ =>
      show (if overrides then v else (Keyed.find? into _).getD v) =
        if overrides then v else (Keyed.find? into _).getD v
      rw [Keyed.find?_congr into h]

/-! ## One entry -/

/-- An entry is folded in where properties can be added, unless it brings none. -/
theorem foldEntry_ok_iff : (∃ r, foldEntry overrides into k v = .ok r) ↔
    ∀ ps, k = propertiesKey → v = .map ps → Extensible into := by
  constructor
  · rintro ⟨r, hr⟩ ps rfl rfl
    obtain ⟨existing, hexisting, -⟩ := bind_eq_ok.1 hr
    rw [Extensible, hexisting, openProperties_ok hexisting]
  · intro h
    unfold foldEntry
    split
    · next ps =>
      rw [h ps rfl rfl]
      exact ⟨_, rfl⟩
    · exact ⟨_, rfl⟩
    · exact ⟨_, rfl⟩

/-- **Folding in an entry** writes what is united, also where that is what stood there. -/
theorem foldEntry_eq_put (h : foldEntry overrides into k v = .ok r) :
    r = Keyed.put into k (united overrides into k v) := by
  unfold foldEntry at h
  split at h
  · obtain ⟨existing, hexisting, h⟩ := bind_eq_ok.1 h
    obtain rfl := Except.ok.inj h
    rw [openProperties_ok hexisting]
    rfl
  · exact (Except.ok.inj h).symm
  · next hproperties hrequired =>
    obtain rfl := Except.ok.inj h
    rw [united_other (fun ps hk hv => hproperties ps hk hv)
      (fun names hk hv => hrequired names hk hv)]
    cases overrides with
    | true => rfl
    | false =>
      rw [Bool.false_or, if_neg Bool.false_ne_true, Keyed.has]
      cases hold : Keyed.find? into k with
      | none => rfl
      | some w => exact (Keyed.put_of_find? hold).symm

/-! ## All entries -/

/-- **Where a schema can be folded in**: where properties can be added, unless it has none. -/
theorem fold_ok_iff (hdistinct : Keyed.Distinct es) : (∃ r, fold overrides into es = .ok r) ↔
    ∀ ps, Keyed.find? es propertiesKey = some (.map ps) → Extensible into := by
  induction es generalizing into with
  | nil => exact ⟨fun _ ps hps => absurd hps (by simp), fun _ => ⟨into, rfl⟩⟩
  | cons e rest ih =>
    obtain ⟨k, v⟩ := e
    rw [Keyed.distinct_cons] at hdistinct
    have hstep : (∃ r, fold overrides into ((k, v) :: rest) = .ok r) ↔
        ∃ next, foldEntry overrides into k v = .ok next ∧ ∃ r, fold overrides next rest = .ok r := by
      constructor
      · rintro ⟨r, hr⟩
        obtain ⟨next, hnext, hr⟩ := bind_eq_ok.1 hr
        exact ⟨next, hnext, r, hr⟩
      · rintro ⟨next, hnext, r, hr⟩
        exact ⟨r, bind_eq_ok.2 ⟨next, hnext, hr⟩⟩
    rw [hstep]
    by_cases hk : propertiesKey.same k = true
    · obtain rfl := (Scalar.same_text _ k).1 hk
      -- The keys are distinct, so the rest brings no properties.
      have hrest : Keyed.find? rest propertiesKey = none := Keyed.find?_eq_none hdistinct.1
      have hall : ∀ next, ∃ r, fold overrides next rest = .ok r := fun next =>
        (ih hdistinct.2).2 fun ps hps => by rw [hrest] at hps; cases hps
      rw [Keyed.find?_cons, if_pos hk]
      refine ⟨fun ⟨next, hnext, _⟩ ps hps => ?_, fun h => ?_⟩
      · exact foldEntry_ok_iff.1 ⟨next, hnext⟩ ps rfl (Option.some.inj hps)
      · obtain ⟨next, hnext⟩ := foldEntry_ok_iff.2 fun ps _ heq => h ps (congrArg some heq)
        exact ⟨next, hnext, hall next⟩
    · have hnone : ∀ ps, k = propertiesKey → v = .map ps → Extensible into :=
        fun _ heq _ => absurd (heq ▸ Scalar.same_refl _) hk
      obtain ⟨next, hnext⟩ := foldEntry_ok_iff.2 hnone
      have hsame : Keyed.find? next propertiesKey = Keyed.find? into propertiesKey := by
        rw [foldEntry_eq_put hnext, Keyed.find?_put, if_neg hk]
      rw [Keyed.find?_cons, if_neg hk]
      constructor
      · rintro ⟨next', hnext', hr⟩ ps hps
        obtain rfl := Except.ok.inj (hnext.symm.trans hnext')
        exact (extensible_congr hsame).1 ((ih hdistinct.2).1 hr ps hps)
      · intro h
        exact ⟨next, hnext, (ih hdistinct.2).2 fun ps hps => (extensible_congr hsame).2 (h ps hps)⟩

/-- **What is found under a key after folding**: what was there, united with what came under that key. -/
theorem find?_fold (hdistinct : Keyed.Distinct es) (h : fold overrides into es = .ok r) (q : Scalar) :
    Keyed.find? r q = match Keyed.find? es q with
      | none => Keyed.find? into q
      | some v => some (united overrides into q v) := by
  induction es generalizing into with
  | nil =>
    obtain rfl := Except.ok.inj h
    rfl
  | cons e rest ih =>
    obtain ⟨k, v⟩ := e
    rw [Keyed.distinct_cons] at hdistinct
    obtain ⟨next, hnext, h⟩ := bind_eq_ok.1 h
    rw [ih hdistinct.2 h, Keyed.find?_cons]
    have hsame : Keyed.find? next q =
        if q.same k then some (united overrides into k v) else Keyed.find? into q := by
      rw [foldEntry_eq_put hnext, Keyed.find?_put]
    by_cases hq : q.same k = true
    · have hnone : Keyed.find? rest q = none := Keyed.find?_eq_none fun k' hk' => by
        rw [Scalar.same_congr hq]
        exact hdistinct.1 k' hk'
      rw [hnone, if_pos hq]
      rw [if_pos hq] at hsame
      exact hsame.trans (congrArg some (united_of_same hq).symm)
    · rw [if_neg hq] at hsame ⊢
      cases Keyed.find? rest q with
      | none => exact hsame
      | some w => exact congrArg some (united_congr hsame)

/-- **Folding joins the keys.** -/
theorem keys_fold (hdistinct : Keyed.Distinct es) (h : fold overrides into es = .ok r) :
    Keyed.keys r = Keyed.joined (Keyed.keys into) (Keyed.keys es) := by
  induction es generalizing into with
  | nil =>
    obtain rfl := Except.ok.inj h
    rw [Keyed.joined, Keyed.keys_nil, List.filter_nil, List.append_nil]
  | cons e rest ih =>
    obtain ⟨k, v⟩ := e
    rw [Keyed.distinct_cons] at hdistinct
    obtain ⟨next, hnext, h⟩ := bind_eq_ok.1 h
    rw [ih hdistinct.2 h, foldEntry_eq_put hnext, Keyed.keys_put_eq_joined, Keyed.joined_assoc,
      Keyed.joined_singleton hdistinct.1, Keyed.keys_cons]

end ToolCatalog.Schema
