import ToolCatalog.Proofs.Schema.Required

/-!
# Folding is associative

Apart from its required names, a schema is determined by its keys, by its properties and by what
stands under the other keys.  Folding joins the keys, writes the new properties behind those that are
there, and keeps the first of two values under another key.  Each of the three is associative, and so
is folding.
-/

namespace ToolCatalog.Schema

/-- A schema without required names, whose properties are a mapping if it has any. -/
structure Bare (es : Keyed Value) : Prop where
  distinct : Keyed.Distinct es
  properties : ∀ v, Keyed.find? es propertiesKey = some v → ∃ ps, v = .map ps ∧ Keyed.Distinct ps
  noRequired : Keyed.find? es requiredKey = none

/-- **What folding gives.** -/
structure Folds (into es r : Keyed Value) : Prop where
  keys : Keyed.keys r = Keyed.joined (Keyed.keys into) (Keyed.keys es)
  properties : propertiesOf r = Keyed.putAll (propertiesOf into) (propertiesOf es)
  others : ∀ q, propertiesKey.same q = false →
    Keyed.find? r q = (Keyed.find? into q).or (Keyed.find? es q)

namespace Bare

variable {es : Keyed Value}

theorem nil : Bare [] := ⟨List.Pairwise.nil, by simp, rfl⟩

theorem openProperties (h : Bare es) : openProperties es = .ok (propertiesOf es) :=
  openProperties_eq fun v hv => (h.properties v hv).imp fun _ hps => hps.1

theorem distinct_properties (h : Bare es) : Keyed.Distinct (propertiesOf es) := by
  unfold propertiesOf
  split
  · next ps hps =>
    obtain ⟨ps', heq, hdistinct⟩ := h.properties _ hps
    rwa [Value.map.inj heq]
  · exact List.Pairwise.nil

/-- The first entry by itself. -/
theorem head {k : Scalar} {v : Value} {rest : Keyed Value} (h : Bare ((k, v) :: rest)) :
    Bare [(k, v)] := by
  have hmono : ∀ q w, Keyed.find? [(k, v)] q = some w →
      Keyed.find? ((k, v) :: rest) q = some w := by
    intro q w hw
    rw [Keyed.find?_cons] at hw ⊢
    split at hw
    · next hq => rw [if_pos hq, hw]
    · cases hw
  refine ⟨List.pairwise_singleton _ _, fun w hw => h.properties w (hmono _ w hw), ?_⟩
  cases hw : Keyed.find? [(k, v)] requiredKey with
  | none => rfl
  | some w => exact (hmono _ w hw).symm.trans h.noRequired

/-- The entries after the first. -/
theorem tail {k : Scalar} {v : Value} {rest : Keyed Value} (h : Bare ((k, v) :: rest)) :
    Bare rest := by
  have hdistinct := h.distinct
  rw [Keyed.distinct_cons] at hdistinct
  have hmono : ∀ q w, Keyed.find? rest q = some w → Keyed.find? ((k, v) :: rest) q = some w := by
    intro q w hw
    have hne : ¬ q.same k = true := by
      intro hsame
      obtain ⟨k', hk', hq⟩ := Keyed.mem_of_find? hw
      have hother := hdistinct.1 k' (Keyed.mem_keys_of_mem hk')
      rw [← Scalar.same_congr hsame, hq] at hother
      cases hother
    rw [Keyed.find?_cons, if_neg hne, hw]
  refine ⟨hdistinct.2, fun w hw => h.properties w (hmono _ w hw), ?_⟩
  cases hw : Keyed.find? rest requiredKey with
  | none => rfl
  | some w => exact (hmono _ w hw).symm.trans h.noRequired

/-- The properties stand under their key, if it is there. -/
theorem find?_properties (h : Bare es) :
    Keyed.find? es propertiesKey =
      if Keyed.has es propertiesKey then some (.map (propertiesOf es)) else none := by
  unfold propertiesOf Keyed.has
  cases hv : Keyed.find? es propertiesKey with
  | none => rfl
  | some v =>
    obtain ⟨ps, rfl, -⟩ := h.properties v hv
    rfl

end Bare

namespace Folds

variable {into es r : Keyed Value}

theorem has (h : Folds into es r) (q : Scalar) :
    Keyed.has r q = (Keyed.has into q || Keyed.has es q) := by
  rw [Keyed.has_eq_any, Keyed.has_eq_any, Keyed.has_eq_any, h.keys, Keyed.any_joined]

theorem nil (into : Keyed Value) : Folds into [] into := by
  refine ⟨by simp [Keyed.joined], rfl, fun q _ => ?_⟩
  rw [Keyed.find?_nil, Option.or_none]

/-- An entry in front of others. -/
theorem cons {k : Scalar} {v : Value} {rest : Keyed Value} (h : Keyed.Distinct ((k, v) :: rest))
    (hrest : Keyed.Distinct (propertiesOf rest)) : Folds [(k, v)] rest ((k, v) :: rest) := by
  rw [Keyed.distinct_cons] at h
  refine ⟨(Keyed.joined_singleton h.1).symm, ?_, fun q _ => ?_⟩
  · by_cases hk : propertiesKey.same k = true
    · have hnone : Keyed.find? rest propertiesKey = none := by
        refine Keyed.find?_eq_none fun k' hk' => ?_
        rw [Scalar.same_congr hk]
        exact h.1 k' hk'
      have hnil : propertiesOf rest = [] := by rw [propertiesOf, hnone]
      rw [hnil, propertiesOf, propertiesOf, Keyed.find?_cons, Keyed.find?_cons, if_pos hk, if_pos hk]
      rfl
    · have hnil : propertiesOf [(k, v)] = [] := by
        rw [propertiesOf, Keyed.find?_cons, if_neg hk]
        rfl
      have hsame : propertiesOf ((k, v) :: rest) = propertiesOf rest := by
        rw [propertiesOf, propertiesOf, Keyed.find?_cons, if_neg hk]
      rw [hnil, hsame, Keyed.putAll_nil hrest]
  · rw [Keyed.find?_cons, Keyed.find?_cons]
    split <;> rfl

/-- **Folding is associative.** -/
theorem assoc {i a x y b : Keyed Value} (hia : Folds i a x) (hxy : Folds x y r) (hay : Folds a y b)
    (hi : Keyed.Distinct (propertiesOf i)) (ha : Keyed.Distinct (propertiesOf a))
    (hy : Keyed.Distinct (propertiesOf y)) : Folds i b r := by
  refine ⟨?_, ?_, fun q hq => ?_⟩
  · rw [hxy.keys, hia.keys, hay.keys, Keyed.joined_assoc]
  · rw [hxy.properties, hia.properties, hay.properties, Keyed.putAll_assoc hi ha hy]
  · rw [hxy.others q hq, hia.others q hq, hay.others q hq, Option.or_assoc]

/-- What folding gives is determined. -/
theorem unique {r' : Keyed Value} (h : Folds into es r) (h' : Folds into es r') (hr : Bare r)
    (hr' : Bare r') : r = r' := by
  refine Keyed.ext_of_find? (h.keys.trans h'.keys.symm) hr.distinct fun q => ?_
  cases hq : propertiesKey.same q with
  | false => rw [h.others q hq, h'.others q hq]
  | true =>
    rw [← Keyed.find?_congr r hq, ← Keyed.find?_congr r' hq, hr.find?_properties,
      hr'.find?_properties, h.has, h'.has, h.properties, h'.properties]

end Folds

/-! ## Folding gives it -/

/-- Writing under a key that is not the required names leaves those out. -/
theorem find?_required_put {into : Keyed Value} (hinto : Bare into) {k : Scalar}
    (hk : requiredKey.same k = false) (v : Value) :
    Keyed.find? (Keyed.put into k v) requiredKey = none := by
  rw [Keyed.find?_put, if_neg (by simp [hk]), hinto.noRequired]

/-- **Properties** are folded in. -/
theorem foldEntry_folds_properties {into ps : Keyed Value} (hinto : Bare into) :
    ∃ r, foldEntry false into propertiesKey (.map ps) = .ok r ∧ Bare r ∧
      Folds into [(propertiesKey, .map ps)] r := by
  have hall := Keyed.distinct_putAll hinto.distinct_properties ps
  have hfind : Keyed.find? (Keyed.put into propertiesKey
      (.map (Keyed.putAll (propertiesOf into) ps))) propertiesKey =
        some (.map (Keyed.putAll (propertiesOf into) ps)) := by
    rw [Keyed.find?_put, if_pos (Scalar.same_refl _)]
  refine ⟨_, foldEntry_properties hinto.openProperties,
    ⟨Keyed.distinct_put hinto.distinct _ _, fun w hw => ?_, find?_required_put hinto (by decide) _⟩,
    ⟨Keyed.keys_put_eq_joined _ _ _, ?_, fun q hq => ?_⟩⟩
  · rw [hfind] at hw
    exact ⟨_, (Option.some.inj hw).symm, hall⟩
  · rw [propertiesOf, hfind]
    rfl
  · rw [Scalar.same_comm] at hq
    rw [Keyed.find?_put, Keyed.find?_cons, if_neg (by simp [hq]), if_neg (by simp [hq])]
    exact (Option.or_none).symm

/-- **Another keyword** is folded in: it is written if it is new. -/
theorem foldEntry_folds_other {into : Keyed Value} {k : Scalar} {v : Value} (hinto : Bare into)
    (hrequired : requiredKey.same k = false) (hproperties : propertiesKey.same k = false) :
    ∃ r, foldEntry false into k v = .ok r ∧ Bare r ∧ Folds into [(k, v)] r := by
  have hnil : propertiesOf [(k, v)] = [] := by
    rw [propertiesOf, Keyed.find?_cons, if_neg (by simp [hproperties])]
    rfl
  have hentry : foldEntry false into k v =
      .ok (if Keyed.has into k then into else Keyed.put into k v) := by
    unfold foldEntry
    split
    · rw [Scalar.same_refl] at hproperties
      cases hproperties
    · rw [Scalar.same_refl] at hrequired
      cases hrequired
    · cases Keyed.has into k <;> rfl
  cases hhas : Keyed.has into k with
  | true =>
    rw [hhas, if_pos rfl] at hentry
    refine ⟨into, hentry, hinto, ⟨?_, by rw [hnil]; rfl, fun q _ => ?_⟩⟩
    · rw [Keyed.has_eq_any] at hhas
      simp [Keyed.joined, hhas]
    · rw [Keyed.find?_cons]
      by_cases hq : q.same k = true
      · obtain ⟨w, hw⟩ := Option.isSome_iff_exists.1 hhas
        rw [if_pos hq, Keyed.find?_congr into hq, hw]
        rfl
      · rw [if_neg hq]
        exact (Option.or_none).symm
  | false =>
    rw [hhas, if_neg (by simp)] at hentry
    have hkeep : Keyed.find? (Keyed.put into k v) propertiesKey =
        Keyed.find? into propertiesKey := by
      rw [Keyed.find?_put, if_neg (by simp [hproperties])]
    refine ⟨Keyed.put into k v, hentry,
      ⟨Keyed.distinct_put hinto.distinct _ _, ?_, find?_required_put hinto hrequired _⟩,
      ⟨Keyed.keys_put_eq_joined _ _ _, ?_, fun q _ => ?_⟩⟩
    · rw [hkeep]
      exact hinto.properties
    · rw [hnil, propertiesOf, hkeep]
      rfl
    · rw [Keyed.find?_put, Keyed.find?_cons]
      by_cases hq : q.same k = true
      · have hnone : Keyed.find? into q = none := by
          rw [Keyed.find?_congr into hq, ← Option.not_isSome_iff_eq_none]
          simpa [Keyed.has] using hhas
        rw [if_pos hq, if_pos hq, hnone]
        rfl
      · rw [if_neg hq, if_neg hq]
        exact (Option.or_none).symm

/-- **One entry** is folded in. -/
theorem foldEntry_folds {into : Keyed Value} {k : Scalar} {v : Value} (hinto : Bare into)
    (hk : requiredKey.same k = false) (hv : k = propertiesKey → ∃ ps, v = .map ps) :
    ∃ r, foldEntry false into k v = .ok r ∧ Bare r ∧ Folds into [(k, v)] r := by
  cases hproperties : propertiesKey.same k with
  | true =>
    obtain rfl := (Scalar.same_text _ _).1 hproperties
    obtain ⟨ps, rfl⟩ := hv rfl
    exact foldEntry_folds_properties hinto
  | false => exact foldEntry_folds_other hinto hk hproperties

/-- **All entries of a schema** are folded in. -/
theorem fold_folds {into es : Keyed Value} (hinto : Bare into) (hes : Bare es) :
    ∃ r, fold false into es = .ok r ∧ Bare r ∧ Folds into es r := by
  induction es generalizing into with
  | nil => exact ⟨into, rfl, hinto, .nil into⟩
  | cons e rest ih =>
    obtain ⟨k, v⟩ := e
    have hrequired : requiredKey.same k = false := by
      cases hk : requiredKey.same k with
      | false => rfl
      | true =>
        have hnone := hes.noRequired
        rw [Keyed.find?_cons, if_pos hk] at hnone
        cases hnone
    have hproperties : k = propertiesKey → ∃ ps, v = .map ps := by
      intro hk
      obtain ⟨ps, hps, -⟩ := hes.properties v (by
        rw [Keyed.find?_cons, hk, if_pos (Scalar.same_refl _)])
      exact ⟨ps, hps⟩
    obtain ⟨next, hnext, hbare, hfolds⟩ := foldEntry_folds hinto hrequired hproperties
    obtain ⟨r, hr, hbare', hfolds'⟩ := ih hbare hes.tail
    refine ⟨r, ?_, hbare', ?_⟩
    · rw [fold, hnext]
      exact hr
    · exact hfolds.assoc hfolds' (.cons hes.distinct hes.tail.distinct_properties)
        hinto.distinct_properties hes.head.distinct_properties hes.tail.distinct_properties

/-- **Folding is associative**: folding two schemas in, one after the other, is folding in what the
second gives folded into the first. -/
theorem fold_assoc {i a y x b r : Keyed Value} (hi : Bare i) (ha : Bare a) (hy : Bare y)
    (hia : fold false i a = .ok x) (hay : fold false a y = .ok b) (hxy : fold false x y = .ok r) :
    fold false i b = .ok r := by
  obtain ⟨x', hx', hbarex, hx⟩ := fold_folds hi ha
  obtain rfl := Except.ok.inj (hx'.symm.trans hia)
  obtain ⟨b', hb', hbareb, hb⟩ := fold_folds ha hy
  obtain rfl := Except.ok.inj (hb'.symm.trans hay)
  obtain ⟨r', hr', hbarer, hr⟩ := fold_folds hbarex hy
  obtain rfl := Except.ok.inj (hr'.symm.trans hxy)
  obtain ⟨s, hs, hbares, hfolds⟩ := fold_folds hi hbareb
  have hassoc := hx.assoc hr hb hi.distinct_properties ha.distinct_properties
    hy.distinct_properties
  rw [hs, hfolds.unique hassoc hbares hbarer]

end ToolCatalog.Schema
