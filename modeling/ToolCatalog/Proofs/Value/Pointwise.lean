import ToolCatalog.Proofs.Value.Keyed

/-!
# Keyed lists that are related entry by entry

Two keyed lists with the same keys in the same order, where what is under each key in the one is related
to what is under it in the other.  Looking up a key finds related values or nothing in both, and writing
related values under the same key keeps the lists related.
-/

namespace ToolCatalog.Keyed

variable {α β : Type}

/-- **The same keys in the same order**, with related values under them. -/
inductive Pointwise (R : Scalar → α → β → Prop) : Keyed α → Keyed β → Prop
  | nil : Pointwise R [] []
  | cons (k : Scalar) {a : α} {b : β} {es : Keyed α} {fs : Keyed β} :
    R k a b → Pointwise R es fs → Pointwise R ((k, a) :: es) ((k, b) :: fs)

namespace Pointwise

variable {R : Scalar → α → β → Prop} {es : Keyed α} {fs : Keyed β}

theorem refl {R : Scalar → α → α → Prop} (hR : ∀ k a, R k a a) (es : Keyed α) : Pointwise R es es := by
  induction es with
  | nil => exact .nil
  | cons e rest ih => exact .cons e.1 (hR e.1 e.2) ih

theorem symm {S : Scalar → β → α → Prop} (hRS : ∀ k a b, R k a b → S k b a) (h : Pointwise R es fs) :
    Pointwise S fs es := by
  induction h with
  | nil => exact .nil
  | cons k hab _ ih => exact .cons k (hRS _ _ _ hab) ih

theorem keys_eq (h : Pointwise R es fs) : keys es = keys fs := by
  induction h with
  | nil => rfl
  | cons k _ _ ih => exact congrArg (k :: ·) ih

/-- **Looking up a key** finds nothing in both, or values that are related under a key that is the same. -/
theorem find? (h : Pointwise R es fs) (q : Scalar) :
    Keyed.find? es q = none ∧ Keyed.find? fs q = none ∨
      ∃ k a b, q.same k = true ∧ Keyed.find? es q = some a ∧ Keyed.find? fs q = some b ∧ R k a b := by
  induction h with
  | nil => exact Or.inl ⟨rfl, rfl⟩
  | @cons k a b es fs hab _ ih =>
    rw [find?_cons, find?_cons]
    split
    · next hq => exact Or.inr ⟨k, a, b, hq, rfl, rfl, hab⟩
    · exact ih

theorem has (h : Pointwise R es fs) (q : Scalar) : Keyed.has es q = Keyed.has fs q := by
  rw [has_eq_any, has_eq_any, h.keys_eq]

/-- The values under a text are related under that text. -/
theorem find?_text (h : Pointwise R es fs) (s : String) :
    Keyed.find? es (.text s) = none ∧ Keyed.find? fs (.text s) = none ∨
      ∃ a b, Keyed.find? es (.text s) = some a ∧ Keyed.find? fs (.text s) = some b ∧
        R (.text s) a b := by
  rcases h.find? (.text s) with hnone | ⟨k, a, b, hk, ha, hb, hab⟩
  · exact Or.inl hnone
  · obtain rfl := (Scalar.same_text s k).1 hk
    exact Or.inr ⟨a, b, ha, hb, hab⟩

/-- Under a text that relates nothing but equal values both find the same. -/
theorem find?_eq {R : Scalar → α → α → Prop} {es fs : Keyed α} (h : Pointwise R es fs) {s : String}
    (hs : ∀ a b, R (.text s) a b → a = b) : Keyed.find? es (.text s) = Keyed.find? fs (.text s) := by
  rcases h.find?_text s with ⟨hes, hfs⟩ | ⟨a, b, ha, hb, hab⟩
  · rw [hes, hfs]
  · rw [ha, hb, hs a b hab]

theorem mono {S : Scalar → α → β → Prop} (hRS : ∀ k a b, R k a b → S k a b) (h : Pointwise R es fs) :
    Pointwise S es fs := by
  induction h with
  | nil => exact .nil
  | cons k hab _ ih => exact .cons k (hRS _ _ _ hab) ih

/-- Related values are written under a key. -/
theorem put (h : Pointwise R es fs) {k : Scalar} {a : α} {b : β}
    (hab : ∀ q, k.same q = true → R q a b) : Pointwise R (Keyed.put es k a) (Keyed.put fs k b) := by
  induction h with
  | nil => exact .cons k (hab k (Scalar.same_refl k)) .nil
  | @cons q a' b' es fs hold hrest ih =>
    unfold Keyed.put
    split
    · next hq => exact .cons q (hab q hq) hrest
    · exact .cons q hold ih

/-- Related entries are written one after another, if it does not matter how their keys are spelled. -/
theorem putAll (hR : ∀ {k q : Scalar} {a : α} {b : β}, k.same q = true → R k a b → R q a b)
    (h : Pointwise R es fs) {news : Keyed α} {news' : Keyed β} (hnews : Pointwise R news news') :
    Pointwise R (Keyed.putAll es news) (Keyed.putAll fs news') := by
  induction hnews generalizing es fs with
  | nil => exact h
  | cons k hab _ ih => exact ih (h.put fun q hq => hR hq hab)

/-- Entries are kept or left out by their keys. -/
theorem filter (h : Pointwise R es fs) (g : Scalar → Bool) :
    Pointwise R (es.filter fun e => g e.1) (fs.filter fun e => g e.1) := by
  induction h with
  | nil => exact .nil
  | @cons k a b es fs hab _ ih =>
    rw [List.filter_cons, List.filter_cons]
    cases g k with
    | true => exact .cons k hab ih
    | false => exact ih

theorem without (h : Pointwise R es fs) (q : Scalar) :
    Pointwise R (Keyed.without es q) (Keyed.without fs q) := h.filter fun k => !q.same k

theorem append {gs : Keyed α} {hs : Keyed β} (h : Pointwise R es fs) (h' : Pointwise R gs hs) :
    Pointwise R (es ++ gs) (fs ++ hs) := by
  induction h with
  | nil => exact h'
  | cons k hab _ ih => exact .cons k hab ih

/-- The relation may be another one on the entries that are there. -/
theorem of_mem {S : Scalar → α → β → Prop} (h : Pointwise R es fs)
    (hRS : ∀ k a b, (k, a) ∈ es → R k a b → S k a b) : Pointwise S es fs := by
  induction h with
  | nil => exact .nil
  | cons k hab _ ih =>
    exact .cons k (hRS k _ _ List.mem_cons_self hab)
      (ih fun q a b ha => hRS q a b (List.mem_cons_of_mem _ ha))

/-- A question that has the same answer for related values has it for some entry of both or of none. -/
theorem any_eq {p : Scalar × α → Bool} {p' : Scalar × β → Bool} (h : Pointwise R es fs)
    (hp : ∀ k a b, R k a b → p (k, a) = p' (k, b)) : es.any p = fs.any p' := by
  induction h with
  | nil => rfl
  | cons k hab _ ih => rw [List.any_cons, List.any_cons, hp _ _ _ hab, ih]

end Pointwise

end ToolCatalog.Keyed
