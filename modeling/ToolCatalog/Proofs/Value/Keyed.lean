import ToolCatalog.Value.Keyed

/-!
# Keyed lists, entry by entry

Which entries and which keys an operation on keyed lists leaves, where `ToolCatalog.Value.Keyed` says
what is found afterwards.
-/

namespace ToolCatalog.Keyed

variable {α : Type}

/-- No key comes twice. -/
abbrev Distinct (es : Keyed α) : Prop := (keys es).Pairwise fun k q => k.same q = false

theorem distinct_cons {k : Scalar} {a : α} {rest : Keyed α} :
    Distinct ((k, a) :: rest) ↔ (∀ q ∈ keys rest, k.same q = false) ∧ Distinct rest :=
  List.pairwise_cons

@[simp] theorem keys_nil : keys ([] : Keyed α) = [] := rfl

@[simp] theorem keys_cons (k : Scalar) (a : α) (es : Keyed α) :
    keys ((k, a) :: es) = k :: keys es := rfl

theorem mem_keys_of_mem {es : Keyed α} {k : Scalar} {a : α} (h : (k, a) ∈ es) : k ∈ keys es :=
  List.mem_map.2 ⟨(k, a), h, rfl⟩

theorem mem_keys {es : Keyed α} {k : Scalar} : k ∈ keys es ↔ ∃ a, (k, a) ∈ es := by
  simp [keys]

/-- What is found under a key stands there under a key that is the same. -/
theorem mem_of_find? {es : Keyed α} {q : Scalar} {a : α} (h : find? es q = some a) :
    ∃ k, (k, a) ∈ es ∧ q.same k = true := by
  induction es with
  | nil => simp at h
  | cons e rest ih =>
    obtain ⟨k, b⟩ := e
    rw [find?_cons] at h
    split at h
    · next hk =>
      obtain rfl := Option.some.inj h
      exact ⟨k, List.mem_cons_self, hk⟩
    · obtain ⟨k', hk', hq⟩ := ih h
      exact ⟨k', List.mem_cons_of_mem _ hk', hq⟩

/-- What is found under a text stands there under that text. -/
theorem mem_of_find?_text {es : Keyed α} {s : String} {a : α} (h : find? es (.text s) = some a) :
    (.text s, a) ∈ es := by
  obtain ⟨k, hk, hs⟩ := mem_of_find? h
  rwa [(Scalar.same_text s k).1 hs] at hk

/-- A key is found exactly if it is the same as one of the keys. -/
theorem has_iff {es : Keyed α} {q : Scalar} : has es q = true ↔ ∃ k ∈ keys es, q.same k = true := by
  induction es with
  | nil => simp [has]
  | cons e rest ih =>
    obtain ⟨k, b⟩ := e
    rw [has] at ih ⊢
    rw [find?_cons]
    by_cases hk : q.same k = true
    · simp [hk]
    · rw [if_neg hk, ih]
      simp [hk]

/-- A key is not found if no key is the same. -/
theorem find?_eq_none {es : Keyed α} {q : Scalar} (h : ∀ k ∈ keys es, q.same k = false) :
    find? es q = none := by
  rw [← Option.not_isSome_iff_eq_none]
  intro hq
  obtain ⟨k, hk, hsame⟩ := has_iff.1 hq
  rw [h k hk] at hsame
  cases hsame

/-- The entries after writing under a key: the others, and what was written. -/
theorem mem_put {es : Keyed α} {q : Scalar} {a : α} {e : Scalar × α} (h : e ∈ put es q a) :
    e ∈ es ∨ e.2 = a ∧ q.same e.1 = true ∧ (e.1 = q ∨ e.1 ∈ keys es) := by
  induction es with
  | nil =>
    obtain rfl := List.mem_singleton.1 h
    exact Or.inr ⟨rfl, Scalar.same_refl q, Or.inl rfl⟩
  | cons f rest ih =>
    obtain ⟨k, b⟩ := f
    unfold put at h
    split at h
    · next hk =>
      rcases List.mem_cons.1 h with rfl | h
      · exact Or.inr ⟨rfl, hk, Or.inr List.mem_cons_self⟩
      · exact Or.inl (List.mem_cons_of_mem _ h)
    · rcases List.mem_cons.1 h with rfl | h
      · exact Or.inl List.mem_cons_self
      · rcases ih h with h | ⟨ha, hq, h⟩
        · exact Or.inl (List.mem_cons_of_mem _ h)
        · exact Or.inr ⟨ha, hq, h.imp id (List.mem_cons_of_mem _)⟩

/-- What is there under another key stays there. -/
theorem mem_put_of_mem {es : Keyed α} {q : Scalar} {a : α} {e : Scalar × α} (h : e ∈ es)
    (hq : q.same e.1 = false) : e ∈ put es q a := by
  induction es with
  | nil => cases h
  | cons f rest ih =>
    unfold put
    split
    · next hf =>
      rcases List.mem_cons.1 h with rfl | h
      · rw [hf] at hq
        cases hq
      · exact List.mem_cons_of_mem _ h
    · rcases List.mem_cons.1 h with rfl | h
      · exact List.mem_cons_self
      · exact List.mem_cons_of_mem _ (ih h)

/-- Writing under a text, the entry written stands under that text. -/
theorem mem_put_text {es : Keyed α} {s : String} {a : α} {e : Scalar × α}
    (h : e ∈ put es (.text s) a) : e ∈ es ∨ e = (.text s, a) := by
  rcases mem_put h with h | ⟨ha, hs, -⟩
  · exact Or.inl h
  · exact Or.inr (Prod.ext ((Scalar.same_text s e.1).1 hs) ha)

/-- Writing under a key adds the key at the end, if it was not there. -/
theorem keys_put (es : Keyed α) (q : Scalar) (a : α) :
    keys (put es q a) = if has es q then keys es else keys es ++ [q] := by
  induction es with
  | nil => rfl
  | cons f rest ih =>
    obtain ⟨k, b⟩ := f
    have hcons : has ((k, b) :: rest) q = (q.same k || has rest q) := by
      rw [has, has, find?_cons]
      cases q.same k <;> simp
    unfold put
    rw [hcons]
    by_cases hk : q.same k = true
    · simp [hk]
    · rw [if_neg hk, keys_cons, ih, keys_cons]
      simp only [hk, Bool.false_or]
      split <;> rfl

/-- The entries after writing several: the others, and the values of those written. -/
theorem mem_putAll {es news : Keyed α} {e : Scalar × α} (h : e ∈ putAll es news) :
    e ∈ es ∨ ∃ k, (k, e.2) ∈ news ∧ k.same e.1 = true := by
  induction news generalizing es with
  | nil => exact Or.inl h
  | cons f rest ih =>
    rcases ih h with h | ⟨k, hk, hs⟩
    · rcases mem_put h with h | ⟨ha, hs, -⟩
      · exact Or.inl h
      · refine Or.inr ⟨f.1, ?_, hs⟩
        rw [ha]
        exact List.mem_cons_self
    · exact Or.inr ⟨k, List.mem_cons_of_mem _ hk, hs⟩

theorem mem_without {es : Keyed α} {q : Scalar} {e : Scalar × α} :
    e ∈ without es q ↔ e ∈ es ∧ q.same e.1 = false := by
  simp [without]

theorem put_cons (k' : Scalar) (b : α) (rest : Keyed α) (k : Scalar) (a : α) :
    put ((k', b) :: rest) k a = if k.same k' then (k', a) :: rest else (k', b) :: put rest k a := rfl

@[simp] theorem without_cons (k : Scalar) (a : α) (rest : Keyed α) (q : Scalar) :
    without ((k, a) :: rest) q = if q.same k then without rest q else (k, a) :: without rest q := by
  unfold without
  rw [List.filter_cons]
  cases q.same k <;> rfl

/-- Nothing is taken out where the key is not. -/
theorem without_eq_self {es : Keyed α} {q : Scalar} (h : find? es q = none) : without es q = es := by
  induction es with
  | nil => rfl
  | cons e rest ih =>
    obtain ⟨k, a⟩ := e
    rw [find?_cons] at h
    split at h
    · cases h
    · next hk => rw [without_cons, if_neg hk, ih h]

theorem without_put_same {es : Keyed α} {q k : Scalar} {a : α} (h : q.same k = true) :
    without (put es k a) q = without es q := by
  induction es with
  | nil =>
    rw [put, without_cons, if_pos h]
  | cons e rest ih =>
    obtain ⟨k', b⟩ := e
    rw [put_cons]
    by_cases hk : k.same k' = true
    · rw [if_pos hk, without_cons, without_cons, if_pos (Scalar.same_trans h hk),
        if_pos (Scalar.same_trans h hk)]
    · rw [if_neg hk, without_cons, without_cons, ih]

theorem keys_filter (es : Keyed α) (g : Scalar → Bool) :
    keys (es.filter fun e => g e.1) = (keys es).filter g := by
  simp [keys, List.filter_map, Function.comp_def]

theorem keys_without (es : Keyed α) (q : Scalar) :
    keys (without es q) = (keys es).filter fun k => !q.same k :=
  keys_filter es fun k => !q.same k

/-- **A key may be moved to the front**, if no key comes twice. -/
theorem keys_perm_without {es : Keyed α} {q : Scalar} {a : α} (hq : find? es q = some a)
    (hdistinct : Distinct es) :
    ∃ k, q.same k = true ∧ (keys es).Perm (k :: keys (without es q)) := by
  induction es with
  | nil => cases hq
  | cons e rest ih =>
    obtain ⟨k, b⟩ := e
    rw [distinct_cons] at hdistinct
    rw [find?_cons] at hq
    rw [without_cons]
    by_cases hk : q.same k = true
    · have hnone : find? rest q = none := by
        refine find?_eq_none fun k' hk' => ?_
        rw [Scalar.same_congr hk]
        exact hdistinct.1 k' hk'
      rw [if_pos hk, without_eq_self hnone]
      exact ⟨k, hk, List.Perm.refl _⟩
    · rw [if_neg hk] at hq
      rw [if_neg hk]
      obtain ⟨k', hk', hperm⟩ := ih hq hdistinct.2
      exact ⟨k', hk', (hperm.cons k).trans (List.Perm.swap k' k _)⟩

/-- What stands under a key is found there, if no key comes twice. -/
theorem find?_of_mem {es : Keyed α} {k : Scalar} {a : α} (h : (k, a) ∈ es)
    (hdistinct : Distinct es) : find? es k = some a := by
  induction es with
  | nil => cases h
  | cons e rest ih =>
    obtain ⟨k', b⟩ := e
    rw [distinct_cons] at hdistinct
    rw [find?_cons]
    rcases List.mem_cons.1 h with heq | h
    · obtain ⟨rfl, rfl⟩ := Prod.mk.inj heq
      rw [if_pos (Scalar.same_refl k)]
    · have hk := hdistinct.1 k (mem_keys_of_mem h)
      rw [Scalar.same_comm] at hk
      rw [if_neg (by simp [hk]), ih h hdistinct.2]

/-- Writing entries adds no keys but theirs. -/
theorem mem_keys_putAll {es news : Keyed α} {k : Scalar} (h : k ∈ keys (putAll es news)) :
    k ∈ keys es ∨ k ∈ keys news := by
  induction news generalizing es with
  | nil => exact Or.inl h
  | cons e rest ih =>
    rcases ih h with h | h
    · rw [keys_put] at h
      split at h
      · exact Or.inl h
      · rcases List.mem_append.1 h with h | h
        · exact Or.inl h
        · rw [List.mem_singleton.1 h]
          exact Or.inr List.mem_cons_self
    · exact Or.inr (List.mem_cons_of_mem _ h)

theorem has_put (es : Keyed α) (k : Scalar) (a : α) (q : Scalar) :
    has (put es k a) q = (q.same k || has es q) := by
  rw [has, find?_put, has]
  split
  · next hq => simp [hq]
  · next hq => simp [hq]

/-- After writing entries their keys are there, and those that were. -/
theorem has_putAll (es news : Keyed α) (q : Scalar) :
    has (putAll es news) q = (has es q || has news q) := by
  induction news generalizing es with
  | nil => simp [putAll, has]
  | cons e rest ih =>
    obtain ⟨k, a⟩ := e
    have hcons : has ((k, a) :: rest) q = (q.same k || has rest q) := by
      rw [has, find?_cons, has]
      split
      · next hq => simp [hq]
      · next hq => simp [hq]
    show has (putAll (put es k a) rest) q = _
    rw [ih, has_put, hcons, Bool.or_assoc, Bool.or_left_comm]

/-- Writing what is there already changes nothing. -/
theorem put_of_find? {es : Keyed α} {k : Scalar} {a : α} (h : find? es k = some a) :
    put es k a = es := by
  induction es with
  | nil => cases h
  | cons e rest ih =>
    obtain ⟨k', b⟩ := e
    rw [find?_cons] at h
    rw [put_cons]
    split at h
    · next hk =>
      rw [if_pos hk, Option.some.inj h]
    · next hk => rw [if_neg hk, ih h]

/-- A new key is written at the end. -/
theorem put_of_not_has {es : Keyed α} {k : Scalar} {a : α} (h : has es k = false) :
    put es k a = es ++ [(k, a)] := by
  induction es with
  | nil => rfl
  | cons e rest ih =>
    obtain ⟨k', b⟩ := e
    rw [has, find?_cons] at h
    split at h
    · cases h
    · next hk =>
      rw [put_cons, if_neg hk, ih h]
      rfl

theorem not_has_filter {es : Keyed α} {k : Scalar} (h : has es k = false) (p : Scalar × α → Bool) :
    has (es.filter p) k = false := by
  cases hfilter : has (es.filter p) k with
  | false => rfl
  | true =>
    obtain ⟨k', hk', hsame⟩ := has_iff.1 hfilter
    obtain ⟨a, ha⟩ := mem_keys.1 hk'
    rw [has_iff.2 ⟨k', mem_keys_of_mem (List.mem_filter.1 ha).1, hsame⟩] at h
    cases h

/-- Entries whose keys are texts, with the texts as their names. -/
theorem exists_names {es : Keyed α} (h : ∀ k ∈ keys es, ∃ name, k = .text name) :
    ∃ fields : List (String × α), es = fields.map fun e => (.text e.1, e.2) := by
  induction es with
  | nil => exact ⟨[], rfl⟩
  | cons e rest ih =>
    obtain ⟨k, a⟩ := e
    obtain ⟨fields, rfl⟩ := ih fun k' hk' => h k' (List.mem_cons_of_mem _ hk')
    obtain ⟨name, rfl⟩ := h k List.mem_cons_self
    exact ⟨(name, a) :: fields, rfl⟩

/-! ## Other values under the same keys -/

section

variable {β : Type} (f : α → β)

/-- The entries with another value under each key. -/
def mapValues (es : Keyed α) : Keyed β := es.map fun e => (e.1, f e.2)

@[simp] theorem mapValues_cons (k : Scalar) (a : α) (rest : Keyed α) :
    mapValues f ((k, a) :: rest) = (k, f a) :: mapValues f rest := rfl

theorem find?_mapValues (es : Keyed α) (q : Scalar) :
    find? (mapValues f es) q = (find? es q).map f := by
  induction es with
  | nil => rfl
  | cons e rest ih =>
    obtain ⟨k, a⟩ := e
    rw [mapValues_cons, find?_cons, find?_cons, ih]
    split <;> rfl

theorem has_mapValues (es : Keyed α) (q : Scalar) : has (mapValues f es) q = has es q := by
  simp [has, find?_mapValues]

theorem mapValues_put (es : Keyed α) (k : Scalar) (a : α) :
    mapValues f (put es k a) = put (mapValues f es) k (f a) := by
  induction es with
  | nil => rfl
  | cons e rest ih =>
    obtain ⟨k', b⟩ := e
    rw [put_cons, mapValues_cons, put_cons]
    split
    · rfl
    · rw [mapValues_cons, ih]

theorem keys_mapValues (es : Keyed α) : keys (mapValues f es) = keys es := by
  simp [keys, mapValues]

theorem filter_mapValues (es : Keyed α) (g : Scalar → Bool) :
    (mapValues f es).filter (fun e => g e.1) = mapValues f (es.filter fun e => g e.1) := by
  simp [mapValues, List.filter_map, Function.comp_def]

end

/-! ## Entries whose keys have a property -/

section

variable {g : Scalar → Bool} (hg : ∀ {k q : Scalar}, k.same q = true → g k = g q)

include hg

theorem find?_filter {es : Keyed α} {q : Scalar} (hq : g q = true) :
    find? (es.filter fun e => g e.1) q = find? es q := by
  induction es with
  | nil => rfl
  | cons e rest ih =>
    obtain ⟨k, a⟩ := e
    by_cases hk : q.same k = true
    · rw [List.filter_cons, if_pos (show g k = true by rw [← hg hk, hq]), find?_cons, find?_cons,
        if_pos hk, if_pos hk]
    · rw [List.filter_cons]
      split
      · rw [find?_cons, find?_cons, if_neg hk, if_neg hk, ih]
      · rw [find?_cons, if_neg hk, ih]

theorem filter_put (es : Keyed α) (k : Scalar) (a : α) :
    (put es k a).filter (fun e => g e.1) =
      if g k then put (es.filter fun e => g e.1) k a else es.filter fun e => g e.1 := by
  induction es with
  | nil =>
    rw [put, List.filter_cons]
    rfl
  | cons e rest ih =>
    obtain ⟨k', b⟩ := e
    rw [put_cons]
    by_cases hk : k.same k' = true
    · rw [if_pos hk, List.filter_cons, List.filter_cons]
      simp only [← hg hk]
      split
      · rw [put_cons, if_pos hk]
      · rfl
    · rw [if_neg hk, List.filter_cons, List.filter_cons, ih]
      simp only
      split
      · split
        · rw [put_cons, if_neg hk]
        · rfl
      · rfl

theorem filter_putAll (es news : Keyed α) :
    (putAll es news).filter (fun e => g e.1) =
      putAll (es.filter fun e => g e.1) (news.filter fun e => g e.1) := by
  induction news generalizing es with
  | nil => rfl
  | cons e rest ih =>
    obtain ⟨k, a⟩ := e
    show (putAll (put es k a) rest).filter (fun e => g e.1) = _
    rw [ih, filter_put hg, List.filter_cons]
    simp only
    split
    · rfl
    · rfl

end

/-! ## One list after another -/

/-- Keys, and after them those of others that are new. -/
def joined (ks qs : List Scalar) : List Scalar := ks ++ qs.filter fun q => !ks.any q.same

theorem has_eq_any (es : Keyed α) (q : Scalar) : has es q = (keys es).any q.same := by
  rw [Bool.eq_iff_iff, has_iff, List.any_eq_true]

/-- A key is among joined ones if it is among the ones or the others. -/
theorem any_joined (ks qs : List Scalar) (k : Scalar) :
    (joined ks qs).any k.same = (ks.any k.same || qs.any k.same) := by
  rw [joined, List.any_append]
  cases hks : ks.any k.same with
  | true => rfl
  | false =>
    simp only [Bool.false_or]
    rw [Bool.eq_iff_iff, List.any_eq_true, List.any_eq_true]
    constructor
    · rintro ⟨q, hq, hsame⟩
      exact ⟨q, (List.mem_filter.1 hq).1, hsame⟩
    · rintro ⟨q, hq, hsame⟩
      refine ⟨q, List.mem_filter.2 ⟨hq, ?_⟩, hsame⟩
      have hnew : ks.any q.same = false := by
        rw [← hks]
        exact congrArg ks.any (funext fun r => (Scalar.same_congr hsame r).symm)
      simp [hnew]

theorem joined_assoc (ks qs rs : List Scalar) :
    joined (joined ks qs) rs = joined ks (joined qs rs) := by
  have hfilter : rs.filter (fun r => !(joined ks qs).any r.same) =
      (rs.filter fun r => !qs.any r.same).filter fun r => !ks.any r.same := by
    rw [List.filter_filter]
    refine List.filter_congr fun r _ => ?_
    rw [any_joined, Bool.not_or]
  rw [joined, hfilter, joined, joined, joined, List.filter_append, List.append_assoc]

/-- A new key in front of others. -/
theorem joined_singleton {k : Scalar} {ks : List Scalar} (h : ∀ q ∈ ks, k.same q = false) :
    joined [k] ks = k :: ks := by
  rw [joined, List.filter_eq_self.2 fun q hq => ?_]
  · rfl
  · rw [List.any_cons, List.any_nil, Bool.or_false, Scalar.same_comm, h q hq]
    rfl

theorem joined_distinct {ks qs : List Scalar} (hks : ks.Pairwise fun k q => k.same q = false)
    (hqs : qs.Pairwise fun k q => k.same q = false) :
    (joined ks qs).Pairwise fun k q => k.same q = false := by
  refine List.pairwise_append.2 ⟨hks, hqs.sublist List.filter_sublist, fun k hk q hq => ?_⟩
  have hnew : ks.any q.same = false := by simpa using (List.mem_filter.1 hq).2
  rw [Scalar.same_comm]
  simpa using List.any_eq_false.1 hnew k hk

theorem keys_put_eq_joined (es : Keyed α) (k : Scalar) (a : α) :
    keys (put es k a) = joined (keys es) [k] := by
  rw [keys_put, joined, has_eq_any, List.filter_cons]
  cases (keys es).any k.same <;> simp

/-- Writing entries joins the keys. -/
theorem keys_putAll {es news : Keyed α} (h : Distinct news) :
    keys (putAll es news) = joined (keys es) (keys news) := by
  induction news generalizing es with
  | nil => simp [putAll, joined]
  | cons e rest ih =>
    obtain ⟨k, a⟩ := e
    rw [distinct_cons] at h
    show keys (putAll (put es k a) rest) = _
    rw [ih h.2, keys_put_eq_joined, joined_assoc, joined_singleton h.1]
    rfl

/-- Writing entries, they are found first. -/
theorem find?_putAll {es news : Keyed α} (h : Distinct news) (q : Scalar) :
    find? (putAll es news) q = (find? news q).or (find? es q) := by
  induction news generalizing es with
  | nil => rfl
  | cons e rest ih =>
    obtain ⟨k, a⟩ := e
    rw [distinct_cons] at h
    show find? (putAll (put es k a) rest) q = _
    rw [ih h.2, find?_put, find?_cons]
    by_cases hq : q.same k = true
    · have hnone : find? rest q = none := by
        refine find?_eq_none fun k' hk' => ?_
        rw [Scalar.same_congr hq]
        exact h.1 k' hk'
      rw [if_pos hq, if_pos hq, hnone]
      rfl
    · rw [if_neg hq, if_neg hq]

/-- Lists without repetition are equal if they have the same keys and the same under each. -/
theorem ext_of_find? {es fs : Keyed α} (hkeys : keys es = keys fs) (hes : Distinct es)
    (hfind : ∀ k, find? es k = find? fs k) : es = fs := by
  induction es generalizing fs with
  | nil =>
    cases fs with
    | nil => rfl
    | cons f rest => cases hkeys
  | cons e rest ih =>
    obtain ⟨k, a⟩ := e
    cases fs with
    | nil => cases hkeys
    | cons f rest' =>
      obtain ⟨k', b⟩ := f
      rw [keys_cons, keys_cons, List.cons.injEq] at hkeys
      obtain ⟨rfl, hkeys⟩ := hkeys
      rw [distinct_cons] at hes
      have hhead := hfind k
      rw [find?_cons, find?_cons, if_pos (Scalar.same_refl k), if_pos (Scalar.same_refl k)] at hhead
      rw [Option.some.inj hhead, ih hkeys hes.2 fun q => ?_]
      have hq := hfind q
      rw [find?_cons, find?_cons] at hq
      by_cases hsame : q.same k = true
      · have hnone : ∀ {gs : Keyed α}, keys gs = keys rest → find? gs q = none := by
          intro gs hgs
          refine find?_eq_none fun k' hk' => ?_
          rw [Scalar.same_congr hsame]
          exact hes.1 k' (hgs ▸ hk')
        rw [hnone rfl, hnone hkeys.symm]
      · rwa [if_neg hsame, if_neg hsame] at hq

theorem joined_nil (ks : List Scalar) : joined [] ks = ks :=
  List.filter_eq_self.2 fun _ _ => rfl

/-- Entries without repetition are written to the empty list as they are. -/
theorem putAll_nil {es : Keyed α} (h : Distinct es) : putAll [] es = es := by
  have hkeys : keys (putAll [] es) = keys es := by
    rw [keys_putAll h, keys_nil, joined_nil]
  refine ext_of_find? hkeys ?_ fun q => ?_
  · rwa [Distinct, hkeys]
  · rw [find?_putAll h, find?_nil, Option.or_none]

theorem distinct_put {es : Keyed α} (h : Distinct es) (k : Scalar) (a : α) :
    Distinct (put es k a) := by
  rw [Distinct, keys_put_eq_joined]
  exact joined_distinct h (List.pairwise_singleton _ _)

theorem distinct_putAll {es : Keyed α} (h : Distinct es) (news : Keyed α) :
    Distinct (putAll es news) := by
  induction news generalizing es with
  | nil => exact h
  | cons e rest ih => exact ih (distinct_put h e.1 e.2)

/-- **Writing entries is associative.** -/
theorem putAll_assoc {es fs gs : Keyed α} (hes : Distinct es) (hfs : Distinct fs)
    (hgs : Distinct gs) : putAll (putAll es fs) gs = putAll es (putAll fs gs) := by
  have hfg := distinct_putAll hfs gs
  refine ext_of_find? ?_ (distinct_putAll (distinct_putAll hes fs) gs) fun q => ?_
  · rw [keys_putAll hgs, keys_putAll hfs, keys_putAll hfg, keys_putAll hgs, joined_assoc]
  · rw [find?_putAll hgs, find?_putAll hfs, find?_putAll hfg, find?_putAll hgs, Option.or_assoc]

end ToolCatalog.Keyed
