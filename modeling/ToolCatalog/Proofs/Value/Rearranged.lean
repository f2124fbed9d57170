import ToolCatalog.Proofs.Value.Keyed
import ToolCatalog.Proofs.Value.Union

/-!
# Keyed lists in another order

Two keyed lists are rearrangements of each other if one becomes the other by exchanging neighbours under
two different texts.  Whatever is asked of a keyed list by key has the same answer for both, and every way
of writing to it keeps them rearrangements, so the order in which texts are written shows in the order of
the entries only.  Keys that are no texts stay where they are.

* `Rearranged.putAll_move`: an entry may be written before others under other texts, or after them.
-/

namespace ToolCatalog.Keyed

variable {α β : Type}

/-- **The same entries in another order**, where only entries under texts have changed places. -/
inductive Rearranged : Keyed α → Keyed α → Prop
  | nil : Rearranged [] []
  | cons (e : Scalar × α) {es fs : Keyed α} : Rearranged es fs → Rearranged (e :: es) (e :: fs)
  | swap {s t : String} (a b : α) (es : Keyed α) : s ≠ t →
    Rearranged ((.text s, a) :: (.text t, b) :: es) ((.text t, b) :: (.text s, a) :: es)
  | trans {es fs gs : Keyed α} : Rearranged es fs → Rearranged fs gs → Rearranged es gs

/-- No key is the same as two different texts. -/
theorem not_same_text_both {k : Scalar} {s t : String} (h : s ≠ t) (hs : k.same (.text s) = true) :
    k.same (.text t) = false := by
  rw [Scalar.same_comm] at hs
  rw [Bool.eq_false_iff, Ne, Scalar.same_comm, Scalar.same_text, (Scalar.same_text s k).1 hs]
  exact fun heq => h (Scalar.text.inj heq)

namespace Rearranged

variable {es fs : Keyed α}

theorem refl (es : Keyed α) : Rearranged es es := by
  induction es with
  | nil => exact .nil
  | cons e rest ih => exact .cons e ih

theorem symm (h : Rearranged es fs) : Rearranged fs es := by
  induction h with
  | nil => exact .nil
  | cons e _ ih => exact .cons e ih
  | swap a b es hst => exact .swap b a es hst.symm
  | trans _ _ ih ih' => exact ih'.trans ih

theorem perm (h : Rearranged es fs) : es.Perm fs := by
  induction h with
  | nil => exact .refl _
  | cons e _ ih => exact ih.cons e
  | swap a b es _ => exact .swap _ _ _
  | trans _ _ ih ih' => exact ih.trans ih'

/-- The same is found under every key. -/
theorem find? (h : Rearranged es fs) (k : Scalar) : Keyed.find? es k = Keyed.find? fs k := by
  induction h with
  | nil => rfl
  | cons e _ ih =>
    obtain ⟨k', a⟩ := e
    rw [find?_cons, find?_cons, ih]
  | @swap s t a b es hst =>
    simp only [find?_cons]
    by_cases hs : k.same (.text s) = true
    · simp [hs, not_same_text_both hst hs]
    · simp [hs]
  | trans _ _ ih ih' => exact ih.trans ih'

theorem has (h : Rearranged es fs) (k : Scalar) : Keyed.has es k = Keyed.has fs k := by
  rw [Keyed.has, Keyed.has, h.find? k]

theorem filter (h : Rearranged es fs) (p : Scalar × α → Bool) :
    Rearranged (es.filter p) (fs.filter p) := by
  induction h with
  | nil => exact .nil
  | cons e _ ih =>
    rw [List.filter_cons, List.filter_cons]
    split
    · exact .cons e ih
    · exact ih
  | @swap s t a b es hst =>
    simp only [List.filter_cons]
    split <;> split
    · exact .swap _ _ _ hst
    all_goals exact .refl _
  | trans _ _ ih ih' => exact ih.trans ih'

theorem mapValues (h : Rearranged es fs) (f : α → β) :
    Rearranged (Keyed.mapValues f es) (Keyed.mapValues f fs) := by
  induction h with
  | nil => exact .nil
  | cons e _ ih => exact .cons _ ih
  | swap a b es hst => exact .swap _ _ _ hst
  | trans _ _ ih ih' => exact ih.trans ih'

/-- Writing under a key keeps the order. -/
theorem put (h : Rearranged es fs) (k : Scalar) (c : α) :
    Rearranged (Keyed.put es k c) (Keyed.put fs k c) := by
  induction h with
  | nil => exact .refl _
  | cons e h ih =>
    obtain ⟨k', a⟩ := e
    rw [put_cons, put_cons]
    split
    · exact .cons _ h
    · exact .cons _ ih
  | @swap s t a b es hst =>
    simp only [put_cons]
    by_cases hs : k.same (.text s) = true
    · simp only [hs, not_same_text_both hst hs, if_true, Bool.false_eq_true, if_false]
      exact .swap _ _ _ hst
    · simp only [hs, Bool.false_eq_true, if_false]
      split <;> exact .swap _ _ _ hst
  | trans _ _ ih ih' => exact ih.trans ih'

/-- Writing one entry after another keeps the order. -/
theorem putAll (h : Rearranged es fs) (news : Keyed α) :
    Rearranged (Keyed.putAll es news) (Keyed.putAll fs news) := by
  induction news generalizing es fs with
  | nil => exact h
  | cons e rest ih => exact ih (h.put e.1 e.2)

/-- **Writing under two texts** in one order or in the other. -/
theorem put_put (es : Keyed α) {s t : String} (hst : s ≠ t) (a b : α) :
    Rearranged (Keyed.put (Keyed.put es (.text s) a) (.text t) b)
      (Keyed.put (Keyed.put es (.text t) b) (.text s) a) := by
  have hts : (Scalar.text t).same (.text s) = false := not_same_text_both hst.symm (Scalar.same_refl _)
  have hst' : (Scalar.text s).same (.text t) = false := not_same_text_both hst (Scalar.same_refl _)
  induction es with
  | nil =>
    simp only [Keyed.put, hts, hst', Bool.false_eq_true, if_false]
    exact .swap _ _ _ hst
  | cons e rest ih =>
    obtain ⟨k, c⟩ := e
    simp only [put_cons]
    by_cases hs : (Scalar.text s).same k = true
    · obtain rfl := (Scalar.same_text s k).1 hs
      simp only [hts, Bool.false_eq_true, if_false, hs, if_true, put_cons]
      exact .refl _
    · by_cases ht : (Scalar.text t).same k = true
      · simp only [hs, ht, if_true, Bool.false_eq_true, if_false, put_cons]
        exact .refl _
      · simp only [hs, ht, Bool.false_eq_true, if_false, put_cons]
        exact .cons _ ih

/-- **An entry may be written first**, if the others before it are under other texts. -/
theorem putAll_move (es before after : Keyed α) {t : String} (b : α)
    (h : ∀ e ∈ before, ∃ s, e.1 = .text s ∧ s ≠ t) :
    Rearranged (Keyed.putAll es (before ++ (.text t, b) :: after))
      (Keyed.putAll es ((.text t, b) :: (before ++ after))) := by
  induction before generalizing es with
  | nil => exact .refl _
  | cons e rest ih =>
    obtain ⟨k, a⟩ := e
    obtain ⟨s, hs, hne⟩ := h _ List.mem_cons_self
    obtain rfl : k = .text s := hs
    refine (ih (Keyed.put es (.text s) a) fun e he => h e (List.mem_cons_of_mem _ he)).trans ?_
    exact (put_put es hne a b).putAll (rest ++ after)

end Rearranged

end ToolCatalog.Keyed
