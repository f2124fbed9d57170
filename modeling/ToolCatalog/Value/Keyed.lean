import ToolCatalog.Value.Scalar

/-!
# Keyed lists

A list of entries under scalar keys, in the order in which the keys first came.  Keys are compared
with `Scalar.same`: writing to a key that is there keeps the place and the spelling of the key and
replaces what is under it.
-/

namespace ToolCatalog

/-- Entries under scalar keys, in order. -/
abbrev Keyed (α : Type) := List (Scalar × α)

namespace Keyed

variable {α : Type}

def keys (es : Keyed α) : List Scalar := es.map (·.1)

/-- What is under the first key that is the same as `k`. -/
def find? (es : Keyed α) (k : Scalar) : Option α :=
  match es with
  | [] => none
  | (k', a) :: rest => if k.same k' then some a else find? rest k

def has (es : Keyed α) (k : Scalar) : Bool := (es.find? k).isSome

/-- Write `a` under the key `k`, in place if the key is there and at the end if not. -/
def put (es : Keyed α) (k : Scalar) (a : α) : Keyed α :=
  match es with
  | [] => [(k, a)]
  | (k', b) :: rest => if k.same k' then (k', a) :: rest else (k', b) :: put rest k a

/-- Write all entries of a list one after another. -/
def putAll (es : Keyed α) (news : Keyed α) : Keyed α :=
  news.foldl (fun acc e => acc.put e.1 e.2) es

/-- The entries as a keyed list: a repeated key keeps its first place and takes its last value. -/
def ofList (es : List (Scalar × α)) : Keyed α := putAll [] es

/-- The entries whose key is not the same as `k`. -/
def without (es : Keyed α) (k : Scalar) : Keyed α := es.filter fun e => !k.same e.1

@[simp] theorem find?_nil (k : Scalar) : find? ([] : Keyed α) k = none := rfl

@[simp] theorem find?_cons (k' : Scalar) (a : α) (rest : Keyed α) (k : Scalar) :
    find? ((k', a) :: rest) k = if k.same k' then some a else find? rest k := rfl

/-- Equal keys find the same. -/
theorem find?_congr (es : Keyed α) {k q : Scalar} (h : k.same q = true) :
    find? es k = find? es q := by
  induction es with
  | nil => rfl
  | cons e rest ih =>
    obtain ⟨k', a⟩ := e
    rw [find?_cons, find?_cons, ih, Scalar.same_congr h]

/-- **After writing under a key**, that key finds what was written and any other key what it found
before. -/
theorem find?_put (es : Keyed α) (k : Scalar) (a : α) (q : Scalar) :
    find? (put es k a) q = if q.same k then some a else find? es q := by
  induction es with
  | nil => rfl
  | cons e rest ih =>
    obtain ⟨k', b⟩ := e
    unfold put
    by_cases hk : k.same k' = true
    · have hq : q.same k' = q.same k := by
        rw [Scalar.same_comm q, Scalar.same_comm q, Scalar.same_congr hk]
      rw [if_pos hk, find?_cons, find?_cons, hq]
      split <;> rfl
    · rw [if_neg hk, find?_cons, find?_cons, ih]
      by_cases hq : q.same k' = true
      · have hqk : ¬ q.same k = true := by
          intro h
          rw [Scalar.same_comm] at h
          exact hk (Scalar.same_trans h hq)
        rw [if_pos hq, if_pos hq, if_neg hqk]
      · rw [if_neg hq, if_neg hq]

/-- What is left after taking out a key finds all other keys. -/
theorem find?_without (es : Keyed α) (k q : Scalar) :
    find? (without es k) q = if k.same q then none else find? es q := by
  unfold without
  induction es with
  | nil => simp
  | cons e rest ih =>
    obtain ⟨k', b⟩ := e
    rw [List.filter_cons]
    by_cases hk : k.same k' = true
    · rw [if_neg (by simp [hk]), ih, find?_cons]
      by_cases hq : k.same q = true
      · rw [if_pos hq, if_pos hq]
      · have hqk : ¬ q.same k' = true := by
          intro h
          rw [Scalar.same_comm] at h
          exact hq (Scalar.same_trans hk h)
        rw [if_neg hq, if_neg hq, if_neg hqk]
    · rw [if_pos (by simp [hk]), find?_cons, find?_cons, ih]
      by_cases hq : q.same k' = true
      · have hkq : ¬ k.same q = true := by
          intro h
          exact hk (Scalar.same_trans h hq)
        rw [if_pos hq, if_neg hkq]
        rw [if_pos hq]
      · rw [if_neg hq, if_neg hq]

end Keyed

end ToolCatalog
