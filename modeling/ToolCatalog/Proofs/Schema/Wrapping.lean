import ToolCatalog.Proofs.Schema.NormalForm
import ToolCatalog.Proofs.Schema.Reordering
import ToolCatalog.Proofs.Schema.Visible

/-!
# A reference among other keywords, and as the part of a composition

Keywords beside a reference are laid over its target.  Keywords beside a composition stay, and the part is
folded in behind them.  Where the keywords are neither properties nor required names, both come to the same:
the keywords win over the target, and what only the target has is kept as it is.  The runs differ in the
order of the keys, and in that the first does not look at a target that has nothing laid over it.

* `merge_annotated_wrapped`: the two spellings merge to schemas that are alike.
-/

namespace ToolCatalog.Schema

open Value (Reordered)

/-! ## Two ways to fold -/

/-- Keywords that may be laid over a schema without being united with what it has. -/
structure IsOverlay (own : Keyed Value) : Prop where
  wellFormed : (Value.map own).WellFormed
  texts : ∀ k ∈ Keyed.keys own, ∃ s, k = .text s
  noProperties : Keyed.find? own propertiesKey = none
  noRequired : Keyed.find? own requiredKey = none

/-- Keys of which one list holds texts only can be joined in either order. -/
theorem joined_perm_comm {ks qs : List Scalar} (hks : ks.Pairwise fun k q => k.same q = false)
    (hqs : qs.Pairwise fun k q => k.same q = false) (htexts : ∀ q ∈ qs, ∃ s, q = .text s) :
    (Keyed.joined ks qs).Perm (Keyed.joined qs ks) := by
  have hnodup : ∀ {ks : List Scalar}, (ks.Pairwise fun k q => k.same q = false) → ks.Nodup := by
    intro ks h
    refine h.imp fun {k q} hkq heq => ?_
    rw [heq, Scalar.same_refl] at hkq
    cases hkq
  have hmem : ∀ (as bs : List Scalar), (∀ a ∈ as, ∀ b ∈ bs, b.same a = true → b = a) →
      ∀ k, k ∈ Keyed.joined as bs ↔ k ∈ as ∨ k ∈ bs := by
    intro as bs heq k
    rw [Keyed.joined, List.mem_append, List.mem_filter]
    constructor
    · exact fun h => h.imp_right And.left
    · rintro (hk | hk)
      · exact Or.inl hk
      · cases hany : as.any k.same with
        | false => exact Or.inr ⟨hk, rfl⟩
        | true =>
          obtain ⟨a, ha, hsame⟩ := List.any_eq_true.1 hany
          exact Or.inl (heq a ha k hk hsame ▸ ha)
  refine (List.perm_ext_iff_of_nodup (hnodup (Keyed.joined_distinct hks hqs))
    (hnodup (Keyed.joined_distinct hqs hks))).2 fun k => ?_
  rw [hmem ks qs, hmem qs ks, or_comm]
  · intro q hq k _ hsame
    obtain ⟨s, rfl⟩ := htexts q hq
    rw [Scalar.same_comm] at hsame
    exact (Scalar.same_text s k).1 hsame
  · intro k _ q hq hsame
    obtain ⟨s, rfl⟩ := htexts q hq
    exact ((Scalar.same_text s k).1 hsame).symm

section

variable {base own : Keyed Value}

/-- What is found where keywords are laid over a schema. -/
theorem find?_overlaid (hown : IsOverlay own) {r : Keyed Value} (h : fold true base own = .ok r)
    (q : Scalar) : Keyed.find? r q = (Keyed.find? own q).or (Keyed.find? base q) := by
  rw [find?_fold (Value.keysEverywhere_map.1 hown.wellFormed).1 h]
  cases hv : Keyed.find? own q with
  | none => rfl
  | some v =>
    simp only
    rw [united_other]
    · rfl
    · rintro ps rfl
      rw [hown.noProperties] at hv
      cases hv
    · rintro names rfl
      rw [hown.noRequired] at hv
      cases hv

/-- What is found where a schema is folded in behind keywords. -/
theorem find?_underlaid (hown : IsOverlay own) (hbase : (Value.map base).WellFormed)
    (hnames : ∀ names, Keyed.find? base requiredKey = some (.list names) →
      names.Pairwise fun v w => w.same v = false) {r : Keyed Value} (h : fold false own base = .ok r)
    (q : Scalar) : Keyed.find? r q = (Keyed.find? own q).or (Keyed.find? base q) := by
  rw [find?_fold (Value.keysEverywhere_map.1 hbase).1 h]
  cases hv : Keyed.find? base q with
  | none => exact (Option.or_none).symm
  | some v =>
    simp only
    by_cases hproperties : q = propertiesKey ∧ ∃ ps, v = .map ps
    · obtain ⟨rfl, ps, rfl⟩ := hproperties
      have hdistinct : Keyed.Distinct ps := distinct_of_find? hbase hv
      have hnone : propertiesOf own = [] := by
        rw [propertiesOf, hown.noProperties]
      rw [united_properties, hnone, Keyed.putAll_nil hdistinct, hown.noProperties]
      rfl
    · by_cases hrequired : q = requiredKey ∧ ∃ names, v = .list names
      · obtain ⟨rfl, names, rfl⟩ := hrequired
        rw [united_required, openRequired_of_none hown.noRequired,
          Value.union_of_new (hnames names hv) fun _ _ => rfl, hown.noRequired]
        rfl
      · rw [united_other (fun ps hk hp => hproperties ⟨hk, ps, hp⟩)
          fun names hk hn => hrequired ⟨hk, names, hn⟩]
        cases Keyed.find? own q <;> rfl

/-- **Laying keywords over a schema is folding it in behind them**, up to the order of keys. -/
theorem fold_swap (hown : IsOverlay own) (hbase : (Value.map base).WellFormed)
    (hnames : ∀ names, Keyed.find? base requiredKey = some (.list names) →
      names.Pairwise fun v w => w.same v = false) :
    ∃ above under, fold true base own = .ok above ∧ fold false own base = .ok under ∧
      Reordered (.map above) (.map under) := by
  have hdistinct := (Value.keysEverywhere_map.1 hown.wellFormed).1
  have hdistinct' := (Value.keysEverywhere_map.1 hbase).1
  obtain ⟨above, habove⟩ : ∃ r, fold true base own = .ok r := by
    refine (fold_ok_iff hdistinct).2 fun ps hps => ?_
    rw [hown.noProperties] at hps
    cases hps
  obtain ⟨under, hunder⟩ : ∃ r, fold false own base = .ok r := by
    refine (fold_ok_iff hdistinct').2 fun ps _ => ?_
    rw [Extensible, openProperties, propertiesOf, hown.noProperties]
  have hwellFormed : (Value.map above).WellFormed :=
    hereditary_distinct.fold hbase hown.wellFormed habove
  refine ⟨above, under, habove, hunder, Value.reordered_map.2 ⟨?_, ?_, fun q => ?_⟩⟩
  · exact (Value.keysEverywhere_map.1 hwellFormed).1
  · rw [keys_fold hdistinct habove, keys_fold hdistinct' hunder]
    exact joined_perm_comm hdistinct' hdistinct hown.texts
  · rw [find?_underlaid hown hbase hnames hunder, ← find?_overlaid hown habove]
    cases hv : Keyed.find? above q with
    | none => exact .none
    | some v => exact .some (.refl (keysEverywhere_of_find? hwellFormed hv))

end

/-! ## The keywords -/

variable {settings : Settings}

section

variable {follow : String → Outcome Merged} {deprecated : Value → Except Fault Bool}

/-- Which keywords are skipped matters for the keywords that are there. -/
theorem mergeEntries_congr_skips {skips skips' : Scalar → Bool} {es : Keyed Value}
    (h : ∀ k ∈ Keyed.keys es, skips k = skips' k) :
    mergeEntries settings follow deprecated skips es =
      mergeEntries settings follow deprecated skips' es := by
  induction es with
  | nil => rfl
  | cons e rest ih =>
    obtain ⟨k, v⟩ := e
    rw [mergeEntries_cons, mergeEntries_cons, h k List.mem_cons_self,
      ih fun q hq => h q (List.mem_cons_of_mem _ hq)]

/-- Names are left out of properties only. -/
theorem dropped_mergeEntries {skips : Scalar → Bool} {es : Keyed Value} {p : Parts}
    (h : Keyed.find? es propertiesKey = none)
    (hp : (mergeEntries settings follow deprecated skips es).result = .ok p) : p.dropped = [] := by
  induction es generalizing p with
  | nil =>
    rw [mergeEntries_nil] at hp
    obtain rfl := Except.ok.inj hp
    rfl
  | cons e rest ih =>
    obtain ⟨k, v⟩ := e
    rw [Keyed.find?_cons] at h
    split at h
    · cases h
    · next hk =>
      obtain ⟨q, hq, ⟨-, rfl⟩ | ⟨-, keyword, rfl, ⟨-, rfl⟩ | ⟨-, m, -, rfl⟩⟩⟩ :=
        mergeEntries_cons_ok hp
      · exact ih h hq
      · exact ih h hq
      · have hrole : roleOf keyword ≠ .properties := by
          unfold roleOf
          intro hrole
          split at hrole
          · next heq => exact hk (by rw [heq]; exact Scalar.same_refl _)
          · split at hrole
            · cases hrole
            · split at hrole <;> cases hrole
        simp only [if_neg hrole, ih h hq, List.nil_append]

/-- What keywords that are neither properties nor required names come to is an overlay. -/
theorem isOverlay_mergeEntries
    (hfollow : ∀ ref m, (follow ref).result = .ok m → m.schema.WellFormed) {skips : Scalar → Bool}
    {es : Keyed Value} {p : Parts} (hes : (Value.map es).WellFormed)
    (hproperties : Keyed.find? es propertiesKey = none)
    (hrequired : Keyed.find? es requiredKey = none)
    (hp : (mergeEntries settings follow deprecated skips es).result = .ok p) : IsOverlay p.entries := by
  obtain ⟨hdistinct, hvalues⟩ := Value.keysEverywhere_map.1 hes
  obtain ⟨hkeys, hmem⟩ := mergeEntries_ok hp
  have hnone : ∀ {q : Scalar}, Keyed.find? es q = none → Keyed.find? p.entries q = none := by
    intro q hq
    refine Keyed.find?_eq_none fun k hk => Bool.eq_false_iff.2 fun hsame => ?_
    have hhas := Keyed.has_iff.2 ⟨k, hkeys.subset hk, hsame⟩
    rw [Keyed.has, hq] at hhas
    cases hhas
  refine ⟨?_, fun k hk => ?_, hnone hproperties, hnone hrequired⟩
  · refine Value.keysEverywhere_map.2 ⟨List.Pairwise.sublist hkeys hdistinct, fun k w hw => ?_⟩
    obtain ⟨keyword, v, m, -, hv, -, -, hm, rfl⟩ := hmem k w hw
    exact hereditary_distinct.mergeAs hfollow (hvalues k v hv) hm
  · obtain ⟨w, hw⟩ := Keyed.mem_keys.1 hk
    obtain ⟨keyword, -, -, rfl, -⟩ := hmem k w hw
    exact ⟨keyword, rfl⟩

/-- An overlay that brought no names along is finished. -/
theorem finish_overlay {own : Parts} (h : IsOverlay own.entries) (hdropped : own.dropped = []) :
    finish settings own = .ok own := by
  obtain ⟨entries, dropped⟩ := own
  obtain rfl : dropped = [] := hdropped
  unfold finish
  rw [h.noRequired]
  rfl

end

/-! ## The two spellings -/

/-- A reference with keywords beside it. -/
def annotated (ref : String) (beside : Keyed Value) : Keyed Value :=
  (.text "$ref", .text ref) :: beside

/-- A reference as the only part of a composition, with keywords beside that. -/
def wrapped (ref : String) (beside : Keyed Value) : Keyed Value :=
  (.text "allOf", .list [.map (annotated ref [])]) :: beside

/-- Keywords that say nothing about what kind of schema they belong to, and that are not united with those
of another schema. -/
structure IsAside (beside : Keyed Value) : Prop where
  wellFormed : (Value.map beside).WellFormed
  absent : ∀ keyword ∈ ["$ref", "allOf", "deprecated", "properties", "required"],
    Keyed.find? beside (.text keyword) = none

theorem isAside_nil : IsAside [] := ⟨hereditary_distinct.map_nil, fun _ _ => rfl⟩

section

variable {ref : String} {beside : Keyed Value}

theorem find?_annotated {keyword : String} (hkeyword : keyword ≠ "$ref") :
    Keyed.find? (annotated ref beside) (.text keyword) = Keyed.find? beside (.text keyword) := by
  have hne : ¬ (Scalar.text keyword).same (.text "$ref") = true := by
    rw [Scalar.same_text]
    exact fun heq => hkeyword (Scalar.text.inj heq).symm
  exact if_neg hne

theorem find?_wrapped {keyword : String} (hkeyword : keyword ≠ "allOf") :
    Keyed.find? (wrapped ref beside) (.text keyword) = Keyed.find? beside (.text keyword) := by
  have hne : ¬ (Scalar.text keyword).same (.text "allOf") = true := by
    rw [Scalar.same_text]
    exact fun heq => hkeyword (Scalar.text.inj heq).symm
  exact if_neg hne

theorem reference?_annotated : reference? (.map (annotated ref beside)) = some ref := rfl

theorem branchesOf_wrapped : branchesOf (wrapped ref beside) = [.map (annotated ref [])] := rfl

theorem isComposed_wrapped : isComposed (wrapped ref beside) = true := rfl

namespace IsAside

variable (h : IsAside beside)

include h

/-- No key of such keywords is that of another kind of schema. -/
theorem key_ne {keyword : String} (hkeyword : keyword ∈ ["$ref", "allOf"]) :
    ∀ k ∈ Keyed.keys beside, k ≠ .text keyword := by
  rintro k hk rfl
  have hhas := Keyed.has_iff.2 ⟨_, hk, Scalar.same_refl _⟩
  rw [Keyed.has, h.absent keyword (by simp at hkeyword ⊢; tauto)] at hhas
  cases hhas

theorem isDeprecated_annotated : Settings.isDeprecated (annotated ref beside) = false := by
  rw [Settings.isDeprecated, find?_annotated (by decide), h.absent "deprecated" (by simp)]

theorem isDeprecated_wrapped : Settings.isDeprecated (wrapped ref beside) = false := by
  rw [Settings.isDeprecated, find?_wrapped (by decide), h.absent "deprecated" (by simp)]

theorem isComposed_annotated : isComposed (annotated ref beside) = false := by
  rw [isComposed, find?_annotated (by decide), h.absent "allOf" (by simp)]
  rfl

theorem reference?_wrapped : reference? (.map (wrapped ref beside)) = none := by
  unfold reference?
  simp only [Value.opened]
  rw [find?_wrapped (by decide), h.absent "$ref" (by simp)]

theorem hasSiblings_annotated : hasSiblings (annotated ref beside) = !beside.isEmpty := by
  cases beside with
  | nil => rfl
  | cons e rest =>
    have hne : e.1 ≠ .text "$ref" := h.key_ne (by simp) e.1 List.mem_cons_self
    simp [hasSiblings, annotated, hne]

section

variable {follow : String → Outcome Merged} {deprecated : Value → Except Fault Bool}

/-- The keywords beside a reference are merged as they would be alone. -/
theorem mergeEntries_annotated :
    mergeEntries settings follow deprecated (isStructural (annotated ref beside))
        (annotated ref beside) =
      mergeEntries settings follow deprecated (fun _ => false) beside := by
  have hstructural : ∀ k, isStructural (annotated ref beside) k = (k == .text "$ref") := by
    intro k
    rw [isStructural, isReference, reference?_annotated, h.isComposed_annotated]
    simp
  rw [annotated, mergeEntries_cons, ← annotated, hstructural, if_pos (by simp)]
  refine mergeEntries_congr_skips fun k hk => ?_
  rw [hstructural]
  exact beq_false_of_ne (h.key_ne (by simp) k hk)

theorem mergeEntries_wrapped :
    mergeEntries settings follow deprecated (isStructural (wrapped ref beside))
        (wrapped ref beside) =
      mergeEntries settings follow deprecated (fun _ => false) beside := by
  have hstructural : ∀ k, isStructural (wrapped ref beside) k = (k == .text "allOf") := by
    intro k
    rw [isStructural, isReference, h.reference?_wrapped, isComposed_wrapped]
    simp
  rw [wrapped, mergeEntries_cons, ← wrapped, hstructural, if_pos (by simp)]
  refine mergeEntries_congr_skips fun k hk => ?_
  rw [hstructural]
  exact beq_false_of_ne (h.key_ne (by simp) k hk)

variable (hfollow : ∀ ref m, (follow ref).result = .ok m → m.schema.WellFormed)

include hfollow

theorem isOverlay {own : Parts}
    (hown : (mergeEntries settings follow deprecated (fun _ => false) beside).result = .ok own) :
    IsOverlay own.entries :=
  isOverlay_mergeEntries hfollow h.wellFormed (h.absent "properties" (by simp))
    (h.absent "required" (by simp)) hown

theorem finish_own {own : Parts}
    (hown : (mergeEntries settings follow deprecated (fun _ => false) beside).result = .ok own) :
    finish settings own = .ok own :=
  finish_overlay (h.isOverlay hfollow hown)
    (dropped_mergeEntries (h.absent "properties" (by simp)) hown)

/-- **A reference with keywords beside it**: they are laid over the target. -/
theorem mergeAs_annotated :
    mergeAs settings follow deprecated .schema (.map (annotated ref beside)) = (do
      let target ← follow ref
      overlay settings (annotated ref beside) target fun _ =>
        mergeEntries settings follow deprecated (fun _ => false) beside) := by
  have hbeside : mergeBeside settings follow deprecated (annotated ref beside) =
      mergeEntries settings follow deprecated (fun _ => false) beside := by
    rw [mergeBeside, h.mergeEntries_annotated]
    conv =>
      rhs
      rw [← bind_pure (mergeEntries settings follow deprecated (fun _ => false) beside)]
    refine Outcome.bind_congr_ok fun own hown => ?_
    rw [compose, h.finish_own hfollow hown]
    simp only [h.isComposed_annotated]
    rfl
  rw [mergeAs_schema, h.isDeprecated_annotated, if_neg Bool.false_ne_true, reference?_annotated,
    hbeside]

/-- **A reference as the part of a composition**: the target is folded in behind the keywords. -/
theorem mergeAs_wrapped :
    mergeAs settings follow deprecated .schema (.map (wrapped ref beside)) = (do
      let own ← mergeEntries settings follow deprecated (fun _ => false) beside
      let whole ← mergeBranches settings follow deprecated [.map (annotated ref [])] own
      let done ← finish settings whole
      return done.toMerged) := by
  rw [mergeAs_schema, h.isDeprecated_wrapped, if_neg Bool.false_ne_true, h.reference?_wrapped]
  simp only
  rw [mergeBeside, h.mergeEntries_wrapped, bind_assoc]
  refine Outcome.bind_congr_ok fun own hown => ?_
  have hstray : withoutStrayRequired own.entries = own.entries := by
    rw [withoutStrayRequired, (h.isOverlay hfollow hown).noRequired]
  rw [compose, h.finish_own hfollow hown]
  simp only [isComposed_wrapped, if_true]
  show ((mergeBranchesIn settings follow deprecated (wrapped ref beside)
    ⟨withoutStrayRequired own.entries, own.dropped⟩ >>= _) >>= _) = _
  rw [hstray, mergeBranchesIn_eq, branchesOf_wrapped, bind_assoc]

end

end IsAside

/-! ## The two runs -/

/-- What keywords and the target of a reference come to, if they are put together in some way. -/
def ComesTo (settings : Settings) (follow : String → Outcome Merged)
    (deprecated : Value → Except Fault Bool) (ref : String) (beside : Keyed Value)
    (combine : Keyed Value → Keyed Value → Except Fault (Keyed Value)) (m : Merged) : Prop :=
  ∃ target base own whole done, (follow ref).result = .ok target ∧ target.schema = .map base ∧
    (mergeEntries settings follow deprecated (fun _ => false) beside).result = .ok own ∧
    combine base own.entries = .ok whole ∧
    finish settings ⟨whole, target.dropped⟩ = .ok done ∧ m = done.toMerged

/-- Ways of putting a target and keywords together that differ in the order of keys come to schemas that
do. -/
theorem ComesTo.reordered {follow : String → Outcome Merged} {deprecated : Value → Except Fault Bool}
    {combine combine' : Keyed Value → Keyed Value → Except Fault (Keyed Value)} {m : Merged}
    (h : ComesTo settings follow deprecated ref beside combine m)
    (hcombine : ∀ target base own whole, (follow ref).result = .ok target → target.schema = .map base →
      (mergeEntries settings follow deprecated (fun _ => false) beside).result = .ok own →
      combine base own.entries = .ok whole →
      ∃ whole', combine' base own.entries = .ok whole' ∧ Reordered (.map whole) (.map whole')) :
    ∃ m', ComesTo settings follow deprecated ref beside combine' m' ∧ m.schema.Alike m'.schema := by
  obtain ⟨target, base, own, whole, done, htarget, hbase, hown, hwhole, hdone, rfl⟩ := h
  obtain ⟨whole', hwhole', hsame⟩ := hcombine target base own whole htarget hbase hown hwhole
  have hparts : Parts.Reordered ⟨whole, target.dropped⟩ ⟨whole', target.dropped⟩ := ⟨hsame, .refl _⟩
  obtain ⟨done', hdone', hfinished⟩ := finish_reordered hparts done hdone
  exact ⟨done'.toMerged,
    ⟨target, base, own, whole', done', htarget, hbase, hown, hwhole', hdone', rfl⟩,
    hfinished.entries.alike⟩

/-- Nothing is laid over the target of a reference that stands alone. -/
theorem overlay_alone {es : Keyed Value} (h : hasSiblings es = false) (target : Merged)
    (beside : Unit → Outcome Parts) : overlay settings es target beside = pure target := by
  unfold overlay
  split
  · rw [h, if_neg Bool.false_ne_true]
  · rfl

/-- References that come to finished mappings without repeated keys. -/
structure Resolves (settings : Settings) (follow : String → Outcome Merged) (ref : String) : Prop where
  wellFormed : ∀ ref m, (follow ref).result = .ok m → m.schema.WellFormed
  finished : ∀ m, (follow ref).result = .ok m → IsFinished settings m
  map : ∀ m, (follow ref).result = .ok m → ∃ base, m.schema = .map base

/-- The required names of a finished schema hold none twice. -/
theorem distinct_of_isFinished {m : Merged} (h : IsFinished settings m) {base : Keyed Value}
    {names : List Value} (hbase : m.schema = .map base)
    (hnames : Keyed.find? base requiredKey = some (.list names)) :
    names.Pairwise fun v w => w.same v = false := by
  obtain ⟨before, hkept⟩ := keepRequired_of_finish (h base hbase) hnames
  by_cases hempty : names = []
  · rw [hempty]
    exact List.Pairwise.nil
  · exact (keepRequired_inOrder hkept hempty).distinct

section

variable {follow : String → Outcome Merged} {deprecated : Value → Except Fault Bool} {m : Merged}
  (hfollow : Resolves settings follow ref) (h : IsAside beside)

include hfollow h

theorem annotated_comesTo :
    (mergeAs settings follow deprecated .schema (.map (annotated ref beside))).result = .ok m ↔
      ComesTo settings follow deprecated ref beside (fold true) m := by
  rw [h.mergeAs_annotated hfollow.wellFormed, Outcome.result_bind_ok]
  constructor
  · rintro ⟨target, htarget, hm⟩
    obtain ⟨base, hbase⟩ := hfollow.map target htarget
    rcases overlay_ok hm with
      ⟨base', own, whole, done, hbase', -, hown, hwhole, hdone, rfl⟩ | ⟨rfl, hnot | halone⟩
    · obtain rfl := Value.map.inj (hbase.symm.trans hbase')
      rw [dropped_mergeEntries (h.absent "properties" (by simp)) hown, List.append_nil] at hdone
      exact ⟨target, base, own, whole, done, htarget, hbase, hown, hwhole, hdone, rfl⟩
    · exact absurd hbase (hnot base)
    · -- Without keywords the target is left as it is, which is finished already.
      rw [h.hasSiblings_annotated, Bool.not_eq_false', List.isEmpty_iff] at halone
      subst halone
      refine ⟨m, base, ⟨[], []⟩, base, ⟨base, m.dropped⟩, htarget, hbase, rfl, rfl,
        hfollow.finished m htarget base hbase, ?_⟩
      rw [Parts.toMerged, ← hbase]
  · rintro ⟨target, base, own, whole, done, htarget, hbase, hown, hwhole, hdone, rfl⟩
    refine ⟨target, htarget, ?_⟩
    unfold overlay
    rw [hbase]
    simp only
    split
    · refine Outcome.result_bind_ok.2 ⟨own, hown, Outcome.result_bind_ok.2 ⟨whole, hwhole, ?_⟩⟩
      rw [dropped_mergeEntries (h.absent "properties" (by simp)) hown, List.append_nil]
      exact Outcome.result_bind_ok.2 ⟨done, hdone, rfl⟩
    · next halone =>
      rw [h.hasSiblings_annotated, Bool.not_eq_true, Bool.not_eq_false', List.isEmpty_iff] at halone
      subst halone
      obtain rfl := Except.ok.inj hown
      obtain rfl := Except.ok.inj hwhole
      have hsame := (hfollow.finished target htarget base hbase).symm.trans hdone
      rw [← Except.ok.inj hsame, Parts.toMerged, ← hbase]
      rfl

theorem wrapped_comesTo :
    (mergeAs settings follow deprecated .schema (.map (wrapped ref beside))).result = .ok m ↔
      ComesTo settings follow deprecated ref beside (fun base own => fold false own base) m := by
  have hbranch : mergeAs settings follow deprecated .schema (.map (annotated ref [])) = follow ref := by
    rw [isAside_nil.mergeAs_annotated hfollow.wellFormed]
    conv =>
      rhs
      rw [← bind_pure (follow ref)]
    exact congrArg _ (funext fun target => overlay_alone rfl target _)
  rw [h.mergeAs_wrapped hfollow.wellFormed, Outcome.result_bind_ok]
  simp only [mergeBranches_cons, mergeBranches_nil, hbranch]
  constructor
  · rintro ⟨own, hown, hm⟩
    obtain ⟨whole, hwhole, hm⟩ := Outcome.result_bind_ok.1 hm
    obtain ⟨done, hdone, hm⟩ := Outcome.result_bind_ok.1 hm
    obtain rfl := Except.ok.inj hm
    obtain ⟨target, htarget, hwhole⟩ := Outcome.result_bind_ok.1 hwhole
    obtain ⟨base, hbase⟩ := hfollow.map target htarget
    rw [hbase] at hwhole
    obtain ⟨under, hunder, hwhole⟩ := Outcome.result_bind_ok.1 hwhole
    obtain rfl := Except.ok.inj hwhole
    rw [dropped_mergeEntries (h.absent "properties" (by simp)) hown, List.nil_append] at hdone
    exact ⟨target, base, own, under, done, htarget, hbase, hown, hunder, hdone, rfl⟩
  · rintro ⟨target, base, own, under, done, htarget, hbase, hown, hunder, hdone, rfl⟩
    refine ⟨own, hown, Outcome.result_bind_ok.2 ⟨⟨under, target.dropped⟩, ?_, ?_⟩⟩
    · refine Outcome.result_bind_ok.2 ⟨target, htarget, ?_⟩
      rw [hbase, dropped_mergeEntries (h.absent "properties" (by simp)) hown]
      exact Outcome.result_bind_ok.2 ⟨under, hunder, rfl⟩
    · exact Outcome.result_bind_ok.2 ⟨done, hdone, rfl⟩

/-- **Laid over or folded in behind**: the target and the keywords come to the same either way, up to the
order of keys. -/
theorem comesTo_swap :
    (∀ m, ComesTo settings follow deprecated ref beside (fold true) m →
      ∃ m', ComesTo settings follow deprecated ref beside (fun base own => fold false own base) m' ∧
        m.schema.Alike m'.schema) ∧
    ∀ m', ComesTo settings follow deprecated ref beside (fun base own => fold false own base) m' →
      ∃ m, ComesTo settings follow deprecated ref beside (fold true) m ∧ m'.schema.Alike m.schema := by
  have hfolds : ∀ target base own, (follow ref).result = .ok target → target.schema = .map base →
      (mergeEntries settings follow deprecated (fun _ => false) beside).result = .ok own →
      ∃ above under, fold true base own.entries = .ok above ∧ fold false own.entries base = .ok under ∧
        Reordered (.map above) (.map under) := by
    intro target base own htarget hbase hown
    refine fold_swap (h.isOverlay hfollow.wellFormed hown) ?_ fun names hnames => ?_
    · have hwellFormed := hfollow.wellFormed ref target htarget
      rwa [hbase] at hwellFormed
    · exact distinct_of_isFinished (hfollow.finished target htarget) hbase hnames
  constructor
  · refine fun m hm => hm.reordered fun target base own whole htarget hbase hown hwhole => ?_
    obtain ⟨above, under, habove, hunder, hsame⟩ := hfolds target base own htarget hbase hown
    obtain rfl := Except.ok.inj (hwhole.symm.trans habove)
    exact ⟨under, hunder, hsame⟩
  · refine fun m hm => hm.reordered fun target base own whole htarget hbase hown hwhole => ?_
    obtain ⟨above, under, habove, hunder, hsame⟩ := hfolds target base own htarget hbase hown
    obtain rfl := Except.ok.inj (hwhole.symm.trans hunder)
    exact ⟨above, habove, hsame.symm⟩

end

end

/-! ## Whole merges -/

/-- The bound for merging a node that spells a reference suffices to resolve it. -/
theorem resolveFrom_eq_resolve {document : Value} {ref : String} {bound : Bound}
    (h : (references document).length + 1 ≤ bound.length) (visited : List String) :
    (resolve settings document visited ref).result =
      (resolveFrom settings document bound visited ref).result.map Merged.schema := by
  rw [resolve, Outcome.result_bind, resolveFrom_chainBound h]
  cases (resolveFrom settings document bound visited ref).result <;> rfl

/-- **A reference with keywords beside it means the same as the composition of that reference and the
keywords.**  The keywords may be any but those that say what kind of schema they belong to and those that
are united, and the reference must not resolve to anything but a mapping: then merging the one returns iff
merging the other does, and what they return is equal up to the order of keys. -/
theorem merge_annotated_wrapped (settings : Settings) (document : Value) (visited : List String)
    (ref : String) (beside : Keyed Value) (hdocument : document.WellFormed)
    (hbeside : (Value.map beside).WellFormed)
    (habsent : ∀ keyword ∈ ["$ref", "allOf", "deprecated", "properties", "required"],
      Keyed.find? beside (.text keyword) = none)
    (htarget : ∀ t, (resolve settings document visited ref).result = .ok t → ∃ es, t = .map es) :
    ((∃ r, (merge settings document visited (.map (annotated ref beside))).result = .ok r) ↔
      ∃ r, (merge settings document visited (.map (wrapped ref beside))).result = .ok r) ∧
    ∀ r r', (merge settings document visited (.map (annotated ref beside))).result = .ok r →
      (merge settings document visited (.map (wrapped ref beside))).result = .ok r' → r.Alike r' := by
  have haside : IsAside beside := ⟨hbeside, habsent⟩
  -- Both nodes spell the same references, so they are merged with the same bound.
  let bound := Bound.ofCount fun _ =>
    (references document).length + (references (.map (annotated ref beside))).length
  let follow := resolveFrom settings document bound visited
  have hlength : (references document).length + 1 ≤ bound.length := by
    refine Nat.le_trans ?_ (Bound.le_length_ofCount _)
    have hspelled : (references (.map (annotated ref beside))).length =
        (referencesOfEntries beside).length + 1 := rfl
    omega
  have hfollow : Resolves settings follow ref := by
    refine ⟨fun _ _ => hereditary_distinct.resolveFrom hdocument, fun _ => resolveFrom_finished,
      fun m hm => htarget m.schema ?_⟩
    rw [resolveFrom_eq_resolve hlength, show (follow ref).result = _ from hm]
    rfl
  have hannotated : ∀ m,
      (mergeVisited settings document visited (.map (annotated ref beside))).result = .ok m ↔
        ComesTo settings follow (leadsToDeprecated document) ref beside (fold true) m :=
    fun _ => annotated_comesTo hfollow haside
  have hwrapped : ∀ m,
      (mergeVisited settings document visited (.map (wrapped ref beside))).result = .ok m ↔
        ComesTo settings follow (leadsToDeprecated document) ref beside
          (fun base own => fold false own base) m :=
    fun _ => wrapped_comesTo hfollow haside
  have hto : (merge settings document visited (.map (annotated ref beside))).Refines Value.Alike
      (merge settings document visited (.map (wrapped ref beside))) := by
    intro r hr
    obtain ⟨m, hm, rfl⟩ := merge_ok hr
    obtain ⟨m', hm', hsame⟩ := (comesTo_swap hfollow haside).1 m ((hannotated m).1 hm)
    exact ⟨m'.schema, by rw [result_merge, (hwrapped m').2 hm']; rfl, hsame⟩
  have hfrom : (merge settings document visited (.map (wrapped ref beside))).Refines Value.Alike
      (merge settings document visited (.map (annotated ref beside))) := by
    intro r hr
    obtain ⟨m', hm', rfl⟩ := merge_ok hr
    obtain ⟨m, hm, hsame⟩ := (comesTo_swap hfollow haside).2 m' ((hwrapped m').1 hm')
    exact ⟨m.schema, by rw [result_merge, (hannotated m).2 hm]; rfl, hsame⟩
  exact hto.both hfrom

/-- A title beside a reference: laid over the target it stands where the target has one, beside the
composition it stands where it stood. -/
theorem merge_annotated_wrapped_title :
    Value.Alike
      (.record [("properties", .record []), ("title", .text "The pet"), ("required", .list [.text "id"])])
      (.record [("title", .text "The pet"), ("properties", .record []),
        ("required", .list [.text "id"])]) := by
  refine (merge_annotated_wrapped {}
    (.record [("Pet", .record [("properties", .record [("old", .record [("deprecated", .bool true)])]),
      ("title", .text "Pet"), ("required", .list [.text "id", .text "old"])])])
    [] "#/Pet" [(.text "title", .text "The pet")]
    ?_ ?_ ?_ fun t ht => ⟨_, (Except.ok.inj ht).symm⟩).2 _ _ (by rfl) (by rfl)
  · simp [Value.WellFormed, Value.keysEverywhere_record, Value.keysEverywhere_list,
      Value.keysEverywhere_scalar, Scalar.same]
  · simp [Value.WellFormed, Value.keysEverywhere_map, Value.keysEverywhere_scalar]
  · decide

end ToolCatalog.Schema
