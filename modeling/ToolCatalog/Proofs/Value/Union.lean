import ToolCatalog.Proofs.Value.Induction

/-!
# Lists without repetition

`Value.union` appends to a list those values that have no equal in it.  Whether a value has an equal
is decided by `Value.same`, which is an equivalence on the values that may serve as keys.  So unions
of such values are associative, and it does not matter whether a list that is added has repetitions.
-/

namespace ToolCatalog.Value

/-! ## Members -/

theorem mem_addNew {vs : List Value} {v w : Value} (h : w ∈ addNew vs v) : w ∈ vs ∨ w = v := by
  unfold addNew at h
  split at h
  · exact Or.inl h
  · simpa using h

theorem mem_union {vs ws : List Value} {w : Value} (h : w ∈ union vs ws) : w ∈ vs ∨ w ∈ ws := by
  unfold union at h
  induction ws generalizing vs with
  | nil => exact Or.inl h
  | cons v rest ih =>
    rcases ih h with h | h
    · rcases mem_addNew h with h | rfl
      · exact Or.inl h
      · exact Or.inr List.mem_cons_self
    · exact Or.inr (List.mem_cons_of_mem _ h)

/-- **A union has no repetitions** if the list that is added to has none. -/
theorem union_distinct {vs : List Value} (h : vs.Pairwise fun v w => w.same v = false)
    (ws : List Value) : (union vs ws).Pairwise fun v w => w.same v = false := by
  unfold union
  induction ws generalizing vs with
  | nil => exact h
  | cons w rest ih =>
    refine ih ?_
    unfold addNew
    split
    · exact h
    · next hnew =>
      refine List.pairwise_append.2 ⟨h, List.pairwise_singleton _ _, fun v hv w' hw' => ?_⟩
      rw [List.mem_singleton.1 hw']
      exact Bool.eq_false_iff.2 fun hsame => hnew (List.any_eq_true.2 ⟨v, hv, hsame⟩)

/-- A union with a list in another order is the union in another order. -/
theorem union_perm {vs ws : List Value} (h : vs.Perm ws) (us : List Value) :
    (union vs us).Perm (union ws us) := by
  induction us generalizing vs ws with
  | nil => exact h
  | cons u rest ih =>
    refine ih ?_
    unfold addNew
    have hamong : u.isAmong vs = u.isAmong ws := h.any_eq
    rw [hamong]
    split
    · exact h
    · exact h.append_right [u]

theorem subset_union (vs ws : List Value) : vs ⊆ union vs ws := by
  unfold union
  induction ws generalizing vs with
  | nil => exact List.Subset.refl _
  | cons v rest ih =>
    refine List.Subset.trans ?_ (ih (addNew vs v))
    unfold addNew
    split
    · exact List.Subset.refl _
    · exact List.subset_append_left _ _

theorem same_scalar_self (s : Scalar) : (scalar s).same (scalar s) = true := by
  simp [same, opened]

/-- A list without repetition, added to one that has none of it, is appended. -/
theorem union_of_new {vs ws : List Value} (h : ws.Pairwise fun v w => w.same v = false)
    (hnew : ∀ w ∈ ws, w.isAmong vs = false) : union vs ws = vs ++ ws := by
  induction ws generalizing vs with
  | nil => exact (List.append_nil vs).symm
  | cons w rest ih =>
    rw [List.pairwise_cons] at h
    have hadd : addNew vs w = vs ++ [w] := by
      rw [addNew, hnew w List.mem_cons_self, if_neg Bool.false_ne_true]
    show union (addNew vs w) rest = _
    rw [hadd, ih h.2 fun u hu => ?_, List.append_assoc, List.singleton_append]
    rw [isAmong, List.any_append, ← isAmong, hnew u (List.mem_cons_of_mem _ hu), List.any_cons,
      List.any_nil, h.1 u hu]
    rfl

/-- **What is added to a list** is in the union, or has an equal there. -/
theorem mem_union_or_same (vs : List Value) {ws : List Value} {v : Value} (h : v ∈ ws) :
    v ∈ union vs ws ∨ ∃ w ∈ union vs ws, v.same w = true := by
  induction ws generalizing vs with
  | nil => cases h
  | cons u rest ih =>
    rcases List.mem_cons.1 h with rfl | h
    · cases hamong : v.isAmong vs with
      | true =>
        obtain ⟨w, hw, hsame⟩ := List.any_eq_true.1 hamong
        exact Or.inr ⟨w, subset_union vs (v :: rest) hw, hsame⟩
      | false =>
        have hnew : v ∈ addNew vs v := by
          rw [addNew, hamong]
          simp
        exact Or.inl (subset_union (addNew vs v) rest hnew)
    · exact ih _ h

/-- Each scalar that is added to a list is the same as some value of the union. -/
theorem exists_same_of_mem (vs : List Value) {ws : List Value} {s : Scalar}
    (h : scalar s ∈ ws) :
    ∃ w ∈ union vs ws, (scalar s).same w = true := by
  rcases mem_union_or_same vs h with h | h
  · exact ⟨_, h, same_scalar_self s⟩
  · exact h

/-- Adding one list after another is adding both at once. -/
theorem union_append (vs ws us : List Value) : union vs (ws ++ us) = union (union vs ws) us :=
  List.foldl_append

/-! ## Values that have a property -/

section

variable {p : Value → Prop} {s : Value → Bool}
  (hs : ∀ v w, p v → p w → v.same w = true → s v = s w)

include hs

/-- Whether a value that has the property is among others is decided by those that have it. -/
theorem isAmong_filter {v : Value} {vs : List Value} (hv : p v) (hvs : ∀ w ∈ vs, p w)
    (hsv : s v = true) : v.isAmong (vs.filter s) = v.isAmong vs := by
  rw [Bool.eq_iff_iff, isAmong, isAmong, List.any_eq_true, List.any_eq_true]
  constructor
  · rintro ⟨w, hw, hsame⟩
    exact ⟨w, (List.mem_filter.1 hw).1, hsame⟩
  · rintro ⟨w, hw, hsame⟩
    refine ⟨w, List.mem_filter.2 ⟨hw, ?_⟩, hsame⟩
    rw [← hs v w hv (hvs w hw) hsame]
    exact hsv

/-- The values of a union that have the property are the union of those that have it. -/
theorem filter_union {vs ws : List Value} (hvs : ∀ v ∈ vs, p v) (hws : ∀ w ∈ ws, p w) :
    (union vs ws).filter s = union (vs.filter s) (ws.filter s) := by
  induction ws generalizing vs with
  | nil => rfl
  | cons w rest ih =>
    have hw := hws w List.mem_cons_self
    have hadd : ∀ v ∈ addNew vs w, p v := by
      intro v hv
      rcases mem_addNew hv with hv | rfl
      · exact hvs v hv
      · exact hw
    show (union (addNew vs w) rest).filter s = _
    rw [ih hadd fun v hv => hws v (List.mem_cons_of_mem _ hv)]
    cases hsw : s w with
    | true =>
      rw [List.filter_cons_of_pos hsw]
      show _ = union (addNew (vs.filter s) w) _
      congr 1
      rw [addNew, addNew, isAmong_filter hs hw hvs hsw]
      split
      · rfl
      · rw [List.filter_append, List.filter_cons_of_pos hsw, List.filter_nil]
    | false =>
      rw [List.filter_cons_of_neg (by simp [hsw])]
      congr 1
      rw [addNew]
      split
      · rfl
      · rw [List.filter_append, List.filter_cons_of_neg (by simp [hsw]), List.filter_nil,
          List.append_nil]

end

/-! ## Values that may serve as keys -/

theorem opened_of_isKey {v : Value} (h : v.isKey = true) : v.opened = v := by
  cases v with
  | part n body => cases h
  | _ => rfl

theorem same_refl_of_isKey {v : Value} (h : v.isKey = true) : v.same v = true := by
  induction v using induction with
  | scalar s => exact same_scalar_self s
  | pair a b iha ihb =>
    rw [isKey, Bool.and_eq_true] at h
    show (a.same a && b.same b) = true
    rw [iha h.1, ihb h.2]
    rfl
  | _ => cases h

/-- **Equality of keys is transitive.** -/
theorem same_trans_of_isKey {u v w : Value} (hu : u.isKey = true) (hv : v.isKey = true)
    (hw : w.isKey = true) (huv : u.same v = true) (hvw : v.same w = true) : u.same w = true := by
  induction u using induction generalizing v w with
  | scalar s =>
    rw [same, opened_of_isKey hv] at huv
    split at huv
    · next t =>
      rw [same, opened_of_isKey hw] at hvw
      split at hvw
      · next r =>
        show s.same r = true
        exact Scalar.same_trans huv hvw
      · cases hvw
    · cases huv
  | pair a b iha ihb =>
    rw [same, opened_of_isKey hv] at huv
    split at huv
    · next c d =>
      rw [same, opened_of_isKey hw] at hvw
      split at hvw
      · next e f =>
        rw [Bool.and_eq_true] at huv hvw
        rw [isKey, Bool.and_eq_true] at hu hv hw
        show (a.same e && b.same f) = true
        rw [iha hu.1 hv.1 hw.1 huv.1 hvw.1, ihb hu.2 hv.2 hw.2 huv.2 hvw.2]
        rfl
      · cases hvw
    · cases huv
  | _ => cases hu

/-- What is in one of two lists has an equal in their union. -/
theorem isAmong_union_of_mem (vs : List Value) {ws : List Value} {w : Value}
    (hkeys : ∀ v ∈ ws, v.isKey = true) (h : w ∈ ws) : w.isAmong (union vs ws) = true := by
  rcases mem_union_or_same vs h with hw | ⟨u, hu, hsame⟩
  · exact List.any_eq_true.2 ⟨w, hw, same_refl_of_isKey (hkeys w h)⟩
  · exact List.any_eq_true.2 ⟨u, hu, hsame⟩

/-- **Unions of keys are associative.** -/
theorem union_assoc {us vs ws : List Value} (hus : ∀ v ∈ us, v.isKey = true)
    (hvs : ∀ v ∈ vs, v.isKey = true) (hws : ∀ v ∈ ws, v.isKey = true) :
    union us (union vs ws) = union (union us vs) ws := by
  induction ws generalizing vs with
  | nil => rfl
  | cons w rest ih =>
    have hw := hws w List.mem_cons_self
    have hadd : ∀ v ∈ addNew vs w, v.isKey = true := by
      intro v hv
      rcases mem_addNew hv with hv | rfl
      · exact hvs v hv
      · exact hw
    show union us (union (addNew vs w) rest) = union (addNew (union us vs) w) rest
    rw [ih hadd fun v hv => hws v (List.mem_cons_of_mem _ hv)]
    congr 1
    cases hamong : w.isAmong vs with
    | true =>
      -- An equal of the value in the second list has an equal in the union.
      obtain ⟨v, hv, hsame⟩ := List.any_eq_true.1 hamong
      obtain ⟨u, hu, hsame'⟩ := List.any_eq_true.1 (isAmong_union_of_mem us hvs hv)
      have hukey : u.isKey = true := (mem_union hu).elim (hus u) (hvs u)
      have hunion : w.isAmong (union us vs) = true :=
        List.any_eq_true.2 ⟨u, hu, same_trans_of_isKey hw (hvs v hv) hukey hsame hsame'⟩
      rw [addNew, addNew, if_pos hamong, if_pos hunion]
    | false =>
      rw [addNew, if_neg (by simp [hamong]), union_append]
      rfl

/-- Repetitions in a list that is added make no difference. -/
theorem union_union_nil {vs ws : List Value} (hvs : ∀ v ∈ vs, v.isKey = true)
    (hws : ∀ v ∈ ws, v.isKey = true) : union vs (union [] ws) = union vs ws :=
  union_assoc hvs (by simp) hws

section

variable {s t : Value → Bool}
  (hs : ∀ v w, v.isKey = true → w.isKey = true → v.same w = true → s v = s w)

include hs

/-- Leaving keys out and repetitions out, in either order. -/
theorem union_nil_filter {vs : List Value} (hvs : ∀ v ∈ vs, v.isKey = true) :
    union [] ((union [] vs).filter s) = union [] (vs.filter s) := by
  rw [filter_union hs (by simp) hvs]
  exact union_union_nil (by simp) fun v hv => hvs v (List.mem_filter.1 hv).1

/-- **Leaving keys out of a part first**: nothing more goes in the end, if all that goes from the part
would have gone anyway. -/
theorem union_filter_regroup
    (ht : ∀ v w, v.isKey = true → w.isKey = true → v.same w = true → t v = t w)
    (hst : ∀ v, s v = true → t v = true) {us vs ws : List Value} (hus : ∀ v ∈ us, v.isKey = true)
    (hvs : ∀ v ∈ vs, v.isKey = true) (hws : ∀ v ∈ ws, v.isKey = true) :
    union [] ((union [] (us ++ (union [] ((union [] vs).filter t) ++ ws))).filter s) =
      union [] ((union [] (us ++ (vs ++ ws))).filter s) := by
  have hfilter : ∀ {p : Value → Bool} {ks : List Value}, (∀ v ∈ ks, v.isKey = true) →
      ∀ v ∈ ks.filter p, v.isKey = true := fun hks v hv => hks v (List.mem_filter.1 hv).1
  have hunion : ∀ {ks qs : List Value}, (∀ v ∈ ks, v.isKey = true) → (∀ v ∈ qs, v.isKey = true) →
      ∀ v ∈ union ks qs, v.isKey = true :=
    fun hks hqs v hv => (mem_union hv).elim (hks v) (hqs v)
  have hnil : ∀ v ∈ ([] : List Value), v.isKey = true := by simp
  have hpart : ∀ v ∈ union [] ((union [] vs).filter t), v.isKey = true :=
    hunion hnil (hfilter (hunion hnil hvs))
  have hboth : (vs.filter t).filter s = vs.filter s := by
    rw [List.filter_filter]
    refine List.filter_congr fun v _ => ?_
    cases h : s v with
    | false => rfl
    | true => rw [hst v h]; rfl
  have hleft : (union [] ((union [] vs).filter t)).filter s = union [] (vs.filter s) := by
    rw [union_nil_filter ht hvs, filter_union hs hnil (hfilter hvs), hboth]
    rfl
  have happend : ∀ {ks qs : List Value}, (∀ v ∈ ks, v.isKey = true) → (∀ v ∈ qs, v.isKey = true) →
      ∀ v ∈ ks ++ qs, v.isKey = true :=
    fun hks hqs v hv => (List.mem_append.1 hv).elim (hks v) (hqs v)
  rw [union_nil_filter hs (happend hus (happend hpart hws)),
    union_nil_filter hs (happend hus (happend hvs hws)), List.filter_append, List.filter_append,
    List.filter_append, List.filter_append, hleft, union_append, union_append, union_append,
    union_append, union_union_nil (hunion hnil (hfilter hus)) (hfilter hvs)]

end

end ToolCatalog.Value
