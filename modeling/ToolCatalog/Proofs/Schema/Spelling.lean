import ToolCatalog.Proofs.Schema.Giving

/-!
# Two ways to say that null is allowed

A schema of one type allows null by the flag `nullable`, or by null among its types.  The keywords beside
these two are merged in the same way whatever the type is, so schemas that differ in the spelling alone
are merged to schemas that differ in the spelling alone.

* `mergeAs_respelled`: merging keeps everything but the spelling.
-/

namespace ToolCatalog.Schema

/-! ## Keywords beside the type -/

/-- Whether a keyword says nothing about the type. -/
def isBesideType (k : Scalar) : Bool := !(Scalar.text "type").same k && !(Scalar.text "nullable").same k

/-- The keywords of a schema that say nothing about its type. -/
def besideType (es : Keyed Value) : Keyed Value := es.filter fun e => isBesideType e.1

/-- The same of a schema on its way. -/
def Parts.besideType (p : Parts) : Parts := ⟨Schema.besideType p.entries, p.dropped⟩

theorem besideType_cons (k : Scalar) (v : Value) (rest : Keyed Value) :
    besideType ((k, v) :: rest) =
      if isBesideType k then (k, v) :: besideType rest else besideType rest := List.filter_cons

theorem isBesideType_congr {k q : Scalar} (h : k.same q = true) : isBesideType k = isBesideType q := by
  rw [isBesideType, isBesideType, Scalar.same_comm _ k, Scalar.same_comm _ k, Scalar.same_congr h,
    Scalar.same_congr h, Scalar.same_comm q, Scalar.same_comm q]

theorem eq_of_not_isBesideType {k : Scalar} (h : isBesideType k = false) :
    k = .text "type" ∨ k = .text "nullable" := by
  unfold isBesideType at h
  rw [Bool.and_eq_false_iff, Bool.not_eq_false', Bool.not_eq_false'] at h
  exact h.imp (Scalar.same_text _ _).1 (Scalar.same_text _ _).1

section

variable {es es' : Keyed Value}

theorem find?_besideType {q : Scalar} (hq : isBesideType q = true) :
    Keyed.find? (besideType es) q = Keyed.find? es q :=
  Keyed.find?_filter isBesideType_congr hq

/-- Schemas with the same keywords beside their types have the same under any of these. -/
theorem find?_of_besideType_eq (h : besideType es = besideType es') {q : Scalar}
    (hq : isBesideType q = true) : Keyed.find? es q = Keyed.find? es' q := by
  rw [← find?_besideType hq, h, find?_besideType hq]

variable (h : besideType es = besideType es')

include h

theorem isDeprecated_of_besideType_eq : Settings.isDeprecated es = Settings.isDeprecated es' := by
  unfold Settings.isDeprecated
  rw [find?_of_besideType_eq h (by decide)]

theorem reference?_of_besideType_eq : reference? (.map es) = reference? (.map es') := by
  unfold reference?
  simp only [Value.opened, find?_of_besideType_eq h (show isBesideType (.text "$ref") = true by decide)]

theorem isComposed_of_besideType_eq : isComposed es = isComposed es' := by
  unfold isComposed
  rw [find?_of_besideType_eq h (by decide)]

theorem branchesOf_of_besideType_eq : branchesOf es = branchesOf es' := by
  unfold branchesOf
  rw [find?_of_besideType_eq h (by decide)]

theorem isStructural_of_besideType_eq : isStructural es = isStructural es' := by
  funext k
  rw [isStructural, isStructural, isReference, isReference, reference?_of_besideType_eq h,
    isComposed_of_besideType_eq h]

end

/-! ## What a schema gives as its type -/

/-- Of one type, and null is allowed: by the flag, or as another type. -/
def SpellsNullable (type : String) (gives : String → Value → Prop) : Prop :=
  gives "type" (.text type) ∧ gives "nullable" (.scalar (.bool true)) ∨
    gives "type" (.list [.text type, .text "null"])

theorem SpellsNullable.mono {type : String} {gives gives' : String → Value → Prop}
    (h : SpellsNullable type gives)
    (hgives : ∀ keyword v, keyword = "type" ∨ keyword = "nullable" → gives keyword v → gives' keyword v) :
    SpellsNullable type gives' :=
  h.imp (fun ⟨htype, hflag⟩ => ⟨hgives _ _ (Or.inl rfl) htype, hgives _ _ (Or.inr rfl) hflag⟩)
    (hgives _ _ (Or.inl rfl))

/-- **Two schemas that allow null besides one type**, in either spelling, and are the same otherwise. -/
structure Respells (type : String) (es es' : Keyed Value) : Prop where
  beside : besideType es = besideType es'
  spells : SpellsNullable type (Gives es)
  spells' : SpellsNullable type (Gives es')

theorem Respells.symm {type : String} {es es' : Keyed Value} (h : Respells type es es') :
    Respells type es' es := ⟨h.beside.symm, h.spells', h.spells⟩

/-- A schema with null among its types in place of the flag. -/
def withNullType (type : String) (es : Keyed Value) : Keyed Value :=
  (Keyed.without es (.text "nullable")).map fun e =>
    if (Scalar.text "type").same e.1 then (e.1, .list [.text type, .text "null"]) else e

theorem besideType_withNullType (type : String) (es : Keyed Value) :
    besideType (withNullType type es) = besideType es := by
  induction es with
  | nil => rfl
  | cons e rest ih =>
    unfold besideType withNullType Keyed.without at ih ⊢
    rw [List.filter_cons, List.filter_cons, ← ih]
    cases hnullable : (Scalar.text "nullable").same e.1 with
    | true => simp [isBesideType, hnullable]
    | false => cases htype : (Scalar.text "type").same e.1 <;> simp [isBesideType, hnullable, htype]

theorem mem_withNullType {type : String} {es : Keyed Value} {k : Scalar} {v : Value} :
    (k, v) ∈ withNullType type es ↔ (Scalar.text "nullable").same k = false ∧ ∃ w, (k, w) ∈ es ∧
      v = if (Scalar.text "type").same k then .list [.text type, .text "null"] else w := by
  unfold withNullType
  rw [List.mem_map]
  constructor
  · rintro ⟨⟨q, w⟩, hmem, heq⟩
    obtain ⟨hmem, hq⟩ := Keyed.mem_without.1 hmem
    split at heq
    · next htype =>
      obtain ⟨rfl, rfl⟩ := Prod.mk.inj heq
      exact ⟨hq, w, hmem, by rw [if_pos htype]⟩
    · next htype =>
      obtain ⟨rfl, rfl⟩ := Prod.mk.inj heq
      exact ⟨hq, w, hmem, by rw [if_neg htype]⟩
  · rintro ⟨hk, w, hmem, rfl⟩
    refine ⟨(k, w), Keyed.mem_without.2 ⟨hmem, hk⟩, ?_⟩
    split <;> rfl

/-- **The flag is respelled** as one of two types. -/
theorem respells_withNullType {type : String} {es : Keyed Value} (htype : Gives es "type" (.text type))
    (hflag : Gives es "nullable" (.scalar (.bool true))) : Respells type es (withNullType type es) where
  beside := (besideType_withNullType type es).symm
  spells := Or.inl ⟨htype, hflag⟩
  spells' := by
    refine Or.inr ⟨mem_withNullType.2 ⟨by decide, _, htype.there, rfl⟩, fun v hv => ?_⟩
    obtain ⟨-, -, -, rfl⟩ := mem_withNullType.1 hv
    rfl

section

variable {settings : Settings} {follow : String → Outcome Merged}
  {deprecated : Value → Except Fault Bool}

/-! ## The keywords beside the type -/

/-- What stands under the keywords of the type is plain. -/
def HasPlainType (es : Keyed Value) : Prop := ∀ k v, (k, v) ∈ es → isBesideType k = false → IsPlain v

omit settings follow deprecated in
theorem hasPlainType_of_gives {type : String} {es : Keyed Value} (htype : Gives es "type" (.text type))
    (hflag : Gives es "nullable" (.scalar (.bool true))) : HasPlainType es := by
  intro k v hv hk
  rcases eq_of_not_isBesideType hk with rfl | rfl
  · exact htype.only v hv ▸ Or.inl ⟨_, rfl⟩
  · exact hflag.only v hv ▸ Or.inl ⟨_, rfl⟩

omit settings follow deprecated in
theorem hasPlainType_withNullType (type : String) (es : Keyed Value) :
    HasPlainType (withNullType type es) := by
  intro k v hv hk
  obtain ⟨hnullable, w, -, rfl⟩ := mem_withNullType.1 hv
  rcases eq_of_not_isBesideType hk with rfl | rfl
  · exact Or.inr ⟨[.text type, .text "null"], rfl⟩
  · cases hnullable

omit follow deprecated in
theorem finish_besideType (p : Parts) :
    finish settings p.besideType = (finish settings p).map Parts.besideType := by
  have hproperties : propertiesOf (besideType p.entries) = propertiesOf p.entries :=
    propertiesOf_congr (find?_besideType (by decide))
  have hput : ∀ v, Keyed.put (besideType p.entries) requiredKey v =
      besideType (Keyed.put p.entries requiredKey v) := by
    intro v
    rw [besideType, besideType, Keyed.filter_put isBesideType_congr, if_pos (by decide)]
  have hwithout : Keyed.without (besideType p.entries) requiredKey =
      besideType (Keyed.without p.entries requiredKey) := by
    simp only [besideType, Keyed.without, List.filter_filter, Bool.and_comm]
  unfold finish
  simp only [Parts.besideType, hproperties,
    find?_besideType (show isBesideType (.text "required") = true by decide)]
  split
  · next names _ =>
    cases hkept : keepRequired settings (propertiesOf p.entries)
        (p.dropped.filter fun name => !Keyed.has (propertiesOf p.entries) name) [] names with
    | error f => rfl
    | ok kept =>
      show Except.ok (Parts.mk (if kept.isEmpty then _ else _) _) =
        Except.ok (Parts.mk (besideType (if kept.isEmpty then _ else _)) _)
      split
      · rw [hwithout]
      · rw [hput]
  · rfl

/-- Schemas on their way with the same keywords beside their types are finished so. -/
theorem finish_beside {p p' : Parts} (h : p.besideType = p'.besideType) :
    (liftM (finish settings p) : Outcome Parts).Refines
      (fun q q' => q.besideType = q'.besideType) (liftM (finish settings p')) := by
  refine .of_map_eq ?_
  rw [Outcome.result_liftM, Outcome.result_liftM, ← finish_besideType, h, finish_besideType]

theorem withoutStrayRequired_besideType (es : Keyed Value) :
    withoutStrayRequired (besideType es) = besideType (withoutStrayRequired es) := by
  unfold withoutStrayRequired
  rw [find?_besideType (by decide)]
  split
  · rfl
  · rfl
  · simp only [besideType, Keyed.without, List.filter_filter, Bool.and_comm]

/-- The same is folded into both. -/
theorem fold_beside {overrides : Bool} {into into' es es' : Keyed Value}
    (hinto : besideType into = besideType into') (hes : besideType es = besideType es') :
    (liftM (fold overrides into es) : Outcome (Keyed Value)).Refines
      (fun r r' => besideType r = besideType r') (liftM (fold overrides into' es')) := by
  refine .of_map_eq ?_
  have hfold : ∀ into es, (fold overrides into es).map besideType =
      fold overrides (besideType into) (besideType es) := fun into es =>
    (fold_filter isBesideType_congr (by decide) overrides into es).symm
  rw [Outcome.result_liftM, Outcome.result_liftM, hfold, hfold, hinto, hes]

theorem mergeBranches_beside (bs : List Value) {into into' : Parts}
    (h : into.besideType = into'.besideType) :
    (mergeBranches settings follow deprecated bs into).Refines
      (fun p p' => p.besideType = p'.besideType)
      (mergeBranches settings follow deprecated bs into') := by
  induction bs generalizing into into' with
  | nil => exact .pure h
  | cons b rest ih =>
    obtain ⟨hentries, hdropped⟩ := Parts.mk.inj h
    rw [mergeBranches_cons, mergeBranches_cons]
    refine (Outcome.Refines.refl _).bind ?_
    rintro branch _ - rfl
    split
    · next es _ =>
      refine (fold_beside hentries rfl).bind fun r r' _ hr => ih ?_
      rw [Parts.besideType, Parts.besideType, hr, hdropped]
    · refine ih ?_
      rw [Parts.besideType, Parts.besideType, hentries, hdropped]

theorem roleOf_of_not_isBesideType {keyword : String} (h : isBesideType (.text keyword) = false) :
    roleOf keyword = .schema := by
  rcases eq_of_not_isBesideType h with heq | heq <;> rw [Scalar.text.inj heq] <;> decide

/-- An entry that gives the type plainly adds nothing beside it. -/
theorem mergeEntries_cons_type {skips : Scalar → Bool} {k : Scalar} {v : Value} (rest : Keyed Value)
    (hk : isBesideType k = false) (hv : IsPlain v) :
    (mergeEntries settings follow deprecated skips ((k, v) :: rest)).result.map Parts.besideType =
      (mergeEntries settings follow deprecated skips rest).result.map Parts.besideType := by
  obtain ⟨keyword, rfl⟩ : ∃ keyword, k = .text keyword :=
    (eq_of_not_isBesideType hk).elim (fun h => ⟨_, h⟩) fun h => ⟨_, h⟩
  rw [mergeEntries_cons]
  split
  · rfl
  · simp only
    split
    · rfl
    · rw [roleOf_of_not_isBesideType hk, mergeAs_plain hv]
      simp only [Outcome.result_bind, Outcome.result_pure, Except.bind]
      cases (mergeEntries settings follow deprecated skips rest).result with
      | error f => rfl
      | ok others => simp [Except.map, Parts.besideType, besideType, hk]

/-- **The keywords beside the type** are merged without it as they are with it. -/
theorem mergeEntries_besideType {skips : Scalar → Bool} {es : Keyed Value} (h : HasPlainType es) :
    (mergeEntries settings follow deprecated skips (besideType es)).result =
      (mergeEntries settings follow deprecated skips es).result.map Parts.besideType := by
  induction es with
  | nil => rfl
  | cons e rest ih =>
    obtain ⟨k, v⟩ := e
    have ih := ih fun q w hw => h q w (List.mem_cons_of_mem _ hw)
    rw [besideType_cons]
    cases hk : isBesideType k with
    | false =>
      rw [if_neg (by simp), ih]
      exact (mergeEntries_cons_type rest hk (h k v List.mem_cons_self hk)).symm
    | true =>
      rw [if_pos rfl, mergeEntries_cons, mergeEntries_cons]
      split
      · exact ih
      · split
        · next keyword _ =>
          split
          · exact ih
          · simp only [Outcome.result_bind, ih]
            cases (mergeAs settings follow deprecated (roleOf keyword) v).result with
            | error f => rfl
            | ok m =>
              cases (mergeEntries settings follow deprecated skips rest).result with
              | error f => rfl
              | ok others => simp [Except.map, Except.bind, Parts.besideType, besideType, hk]
        · rfl
        · rfl

/-- Without the keywords of the type, if they are vendor extensions, the same is merged. -/
theorem mergeEntries_of_vendor {skips : Scalar → Bool} (htype : settings.isVendor "type" = true)
    (hnullable : settings.isVendor "nullable" = true) (es : Keyed Value) :
    mergeEntries settings follow deprecated skips (besideType es) =
      mergeEntries settings follow deprecated skips es := by
  induction es with
  | nil => rfl
  | cons e rest ih =>
    obtain ⟨k, v⟩ := e
    rw [besideType_cons, mergeEntries_cons]
    cases hk : isBesideType k with
    | false =>
      rw [if_neg (by simp), ih]
      rcases eq_of_not_isBesideType hk with rfl | rfl
      · simp [htype]
      · simp [hnullable]
    | true => rw [if_pos rfl, mergeEntries_cons, ih]

/-! ## Merging two spellings -/

section

variable {es es' : Keyed Value}

theorem mergeBeside_beside (h : besideType es = besideType es') (hes : HasPlainType es)
    (hes' : HasPlainType es') :
    (mergeBeside settings follow deprecated es).Refines
      (fun p p' => p.besideType = p'.besideType) (mergeBeside settings follow deprecated es') := by
  rw [mergeBeside, mergeBeside, isStructural_of_besideType_eq h]
  have hown : (mergeEntries settings follow deprecated (isStructural es') es).Refines
      (fun p p' => p.besideType = p'.besideType)
      (mergeEntries settings follow deprecated (isStructural es') es') :=
    .of_map_eq (by rw [← mergeEntries_besideType hes, h, mergeEntries_besideType hes'])
  refine hown.bind fun own own' _ hown => ?_
  rw [compose, compose, isComposed_of_besideType_eq h]
  refine (finish_beside hown).bind fun rest rest' _ hrest => ?_
  obtain ⟨hentries, hdropped⟩ := Parts.mk.inj hrest
  split
  · rw [mergeBranchesIn_eq, mergeBranchesIn_eq, branchesOf_of_besideType_eq h]
    have hinto : Parts.besideType ⟨withoutStrayRequired rest.entries, rest.dropped⟩ =
        Parts.besideType ⟨withoutStrayRequired rest'.entries, rest'.dropped⟩ := by
      rw [Parts.besideType, Parts.besideType, ← withoutStrayRequired_besideType, hentries,
        withoutStrayRequired_besideType, hdropped]
    exact (mergeBranches_beside _ hinto).bind fun whole whole' _ hwhole => finish_beside hwhole
  · exact .pure hrest

/-- The same schema on its way, or schemas on their way that differ in the spelling alone. -/
def DifferAtMost (type : String) (p p' : Parts) : Prop :=
  p = p' ∨ p.dropped = p'.dropped ∧ Respells type p.entries p'.entries

/-- The same schema, or schemas that differ in the spelling alone. -/
def DifferInSpelling (type : String) (m m' : Merged) : Prop :=
  m = m' ∨ m.dropped = m'.dropped ∧ ∃ xs xs', m.schema = .map xs ∧ m'.schema = .map xs' ∧
    besideType xs = besideType xs' ∧
    SpellsNullable type (fun keyword v => Keyed.find? xs (.text keyword) = some v) ∧
    SpellsNullable type (fun keyword v => Keyed.find? xs' (.text keyword) = some v)

theorem SpellsNullable.mergeBeside {type : String} {p : Parts} (h : SpellsNullable type (Gives es))
    (hes : HasPlainType es) (htype : settings.isVendor "type" = false)
    (hnullable : settings.isVendor "nullable" = false)
    (hp : (mergeBeside settings follow deprecated es).result = .ok p) :
    SpellsNullable type (Gives p.entries) := by
  refine h.mono fun keyword v hkeyword hgives => ?_
  have hplain : IsPlain v := hes _ v hgives.there (by rcases hkeyword with rfl | rfl <;> decide)
  have hrole : roleOf keyword = .schema := by rcases hkeyword with rfl | rfl <;> decide
  have halone : StandsAlone settings keyword := by
    rcases hkeyword with rfl | rfl
    · exact ⟨by decide, htype⟩
    · exact ⟨by decide, hnullable⟩
  obtain ⟨m, hm, hgives⟩ := hgives.mergeBeside halone hp
  rw [hrole, mergeAs_plain hplain] at hm
  obtain rfl := Except.ok.inj hm
  exact hgives

/-- **The own keywords of two spellings** come to the same, or to two spellings. -/
theorem mergeBeside_respelled {type : String}
    (hvendor : settings.isVendor "type" = settings.isVendor "nullable") (h : Respells type es es')
    (hes : HasPlainType es) (hes' : HasPlainType es') :
    (mergeBeside settings follow deprecated es).Refines (DifferAtMost type)
      (mergeBeside settings follow deprecated es') := by
  cases htype : settings.isVendor "type" with
  | true =>
    have hsame : mergeBeside settings follow deprecated es =
        mergeBeside settings follow deprecated es' := by
      have hbranches : mergeBranchesIn settings follow deprecated es =
          mergeBranchesIn settings follow deprecated es' := by
        funext into
        rw [mergeBranchesIn_eq, mergeBranchesIn_eq, branchesOf_of_besideType_eq h.beside]
      rw [mergeBeside, mergeBeside, ← mergeEntries_of_vendor htype (hvendor ▸ htype), h.beside,
        mergeEntries_of_vendor htype (hvendor ▸ htype), isStructural_of_besideType_eq h.beside]
      simp only [compose, isComposed_of_besideType_eq h.beside, hbranches]
    rw [hsame]
    exact fun p hp => ⟨p, hp, Or.inl rfl⟩
  | false =>
    intro p hp
    obtain ⟨p', hp', hbeside⟩ := mergeBeside_beside h.beside hes hes' p hp
    obtain ⟨hentries, hdropped⟩ := Parts.mk.inj hbeside
    exact ⟨p', hp', Or.inr ⟨hdropped, hentries, h.spells.mergeBeside hes htype (hvendor ▸ htype) hp,
      h.spells'.mergeBeside hes' htype (hvendor ▸ htype) hp'⟩⟩

theorem SpellsNullable.hasSiblings {type : String} (h : SpellsNullable type (Gives es)) :
    hasSiblings es = true :=
  h.elim (fun h => h.1.hasSiblings (by decide)) fun h => h.hasSiblings (by decide)

omit follow deprecated in
/-- What is spelled in the keywords beside a reference is found in the whole. -/
theorem SpellsNullable.overlay {type : String} {base whole : Keyed Value} {dropped : List Scalar}
    {done : Parts} (h : SpellsNullable type (Gives es)) (hwhole : fold true base es = .ok whole)
    (hdone : finish settings ⟨whole, dropped⟩ = .ok done) :
    SpellsNullable type (fun keyword v => Keyed.find? done.entries (.text keyword) = some v) := by
  refine h.mono fun keyword v hkeyword hgives => ?_
  have hproperties : keyword ≠ "properties" := by rcases hkeyword with rfl | rfl <;> decide
  have hrequired : keyword ≠ "required" := by rcases hkeyword with rfl | rfl <;> decide
  rw [find?_finish hrequired hdone]
  exact hgives.find?_fold hproperties hrequired hwhole

omit follow deprecated in
/-- Overlaying a target with two spellings. -/
theorem overlay_respelled {type : String} {own own' : Parts} (h : DifferAtMost type own own')
    (base : Keyed Value) (dropped : List Scalar) :
    Outcome.Refines (DifferInSpelling type)
      (do
        let whole ← fold true base own.entries
        let done ← finish settings ⟨whole, dropped ++ own.dropped⟩
        return done.toMerged : Outcome Merged)
      (do
        let whole ← fold true base own'.entries
        let done ← finish settings ⟨whole, dropped ++ own'.dropped⟩
        return done.toMerged) := by
  intro m hm
  rcases h with rfl | ⟨hdropped, h⟩
  · exact ⟨m, hm, Or.inl rfl⟩
  · obtain ⟨whole, hwhole, hm⟩ := Outcome.result_bind_ok.1 hm
    obtain ⟨done, hdone, hm⟩ := Outcome.result_bind_ok.1 hm
    obtain rfl := Except.ok.inj hm
    obtain ⟨whole', hwhole', hbeside⟩ := fold_beside rfl h.beside whole hwhole
    have hparts : Parts.besideType ⟨whole, dropped ++ own.dropped⟩ =
        Parts.besideType ⟨whole', dropped ++ own'.dropped⟩ := by
      rw [Parts.besideType, Parts.besideType, hbeside, hdropped]
    obtain ⟨done', hdone', hsame⟩ := finish_beside hparts done hdone
    obtain ⟨hentries, hmissing⟩ := Parts.mk.inj hsame
    exact ⟨done'.toMerged, Outcome.result_bind_ok.2 ⟨whole', hwhole',
      Outcome.result_bind_ok.2 ⟨done', hdone', rfl⟩⟩, Or.inr ⟨hmissing, done.entries, done'.entries,
        rfl, rfl, hentries, h.spells.overlay hwhole hdone, h.spells'.overlay hwhole' hdone'⟩⟩

/-- **Two spellings of one schema** are merged to the same, or to two spellings of one schema. -/
theorem mergeAs_respelled {type : String}
    (hvendor : settings.isVendor "type" = settings.isVendor "nullable") (h : Respells type es es')
    (hes : HasPlainType es) (hes' : HasPlainType es') :
    (mergeAs settings follow deprecated .schema (.map es)).Refines (DifferInSpelling type)
      (mergeAs settings follow deprecated .schema (.map es')) := by
  have hbeside : (mergeBeside settings follow deprecated es).Refines (DifferAtMost type)
      (mergeBeside settings follow deprecated es') := mergeBeside_respelled hvendor h hes hes'
  rw [mergeAs_schema, mergeAs_schema, isDeprecated_of_besideType_eq h.beside,
    reference?_of_besideType_eq h.beside]
  split
  · exact .pure (Or.inl rfl)
  · split
    · refine (Outcome.Refines.refl _).bind ?_
      rintro target _ - rfl
      unfold overlay
      split
      · next base _ =>
        rw [h.spells.hasSiblings, h.spells'.hasSiblings, if_pos rfl, if_pos rfl]
        exact hbeside.bind fun own own' _ hown => overlay_respelled hown base target.dropped
      · exact .pure (Or.inl rfl)
    · refine hbeside.bind fun whole whole' _ hwhole => .pure ?_
      rcases hwhole with rfl | ⟨hdropped, hwhole⟩
      · exact Or.inl rfl
      · exact Or.inr ⟨hdropped, whole.entries, whole'.entries, rfl, rfl, hwhole.beside,
          hwhole.spells.mono fun _ _ _ hgives => hgives.find?,
          hwhole.spells'.mono fun _ _ _ hgives => hgives.find?⟩

end

end

end ToolCatalog.Schema
