import Mathlib.Data.List.Induction
import ToolCatalog.Proofs.Outcome
import ToolCatalog.Proofs.Value.Keyed
import ToolCatalog.Value.Field

/-!
# Names of fields

Entries are named by their keys, which have to be texts or the bytes that encode them.  They are named
one after another, so what is named is looked at from the last entry on: the entries before it are named,
and it is written to them.
-/

namespace ToolCatalog.Field

/-! ## Keys that count as texts -/

theorem key_text (s : String) : key (.text s) = .ok s := rfl

theorem key_bytes {bs : List UInt8} {s : String} (h : String.fromUTF8? ⟨bs.toArray⟩ = some s) :
    key (.bytes bs) = .ok s := by
  simp [key, text, Value.text?, h]

/-- A value that counts as a text is one, or is its encoded bytes. -/
theorem text_ok {v : Value} {s : String} (h : text v = .ok s) :
    v = .text s ∨ ∃ bs : List UInt8, v = .scalar (.bytes bs) ∧
      String.fromUTF8? ⟨bs.toArray⟩ = some s := by
  unfold text at h
  split at h
  · next s' hs =>
    obtain rfl := Except.ok.inj h
    unfold Value.text? at hs
    split at hs
    · obtain rfl := Option.some.inj hs
      exact Or.inl rfl
    · next bs => exact Or.inr ⟨bs, rfl, hs⟩
    · cases hs
  · cases h

theorem opened_of_text {v : Value} {s : String} (h : text v = .ok s) : v.opened = v := by
  rcases text_ok h with rfl | ⟨bs, rfl, -⟩
  · rfl
  · rfl

/-- A key that counts as a text and is no bytes is that text. -/
theorem eq_text_of_key {k : Scalar} {name : String} (h : key k = .ok name)
    (hbytes : ∀ bs, k ≠ .bytes bs) : k = .text name := by
  rcases text_ok h with h | ⟨bs, h, -⟩
  · exact Value.scalar.inj h
  · exact absurd (Value.scalar.inj h) (hbytes bs)

/-! ## Writing under a name -/

theorem mem_put {fields : List (String × Value)} {name : String} {v : Value} {e : String × Value}
    (h : e ∈ put fields name v) : e ∈ fields ∨ e = (name, v) := by
  induction fields with
  | nil =>
    rw [put] at h
    exact Or.inr (List.mem_singleton.1 h)
  | cons f rest ih =>
    obtain ⟨other, w⟩ := f
    unfold put at h
    split at h
    · rcases List.mem_cons.1 h with rfl | h
      · exact Or.inr rfl
      · exact Or.inl (List.mem_cons_of_mem _ h)
    · rcases List.mem_cons.1 h with rfl | h
      · exact Or.inl List.mem_cons_self
      · exact (ih h).imp (List.mem_cons_of_mem _) id

theorem mem_names_put {fields : List (String × Value)} {name other : String} {v : Value} :
    other ∈ (put fields name v).map (·.1) ↔ other = name ∨ other ∈ fields.map (·.1) := by
  induction fields with
  | nil => simp [put]
  | cons e rest ih =>
    obtain ⟨first, w⟩ := e
    unfold put
    split
    · next h => simp [h]
    · rw [List.map_cons, List.mem_cons, ih, List.map_cons, List.mem_cons, or_left_comm]

theorem put_of_not_mem {fields : List (String × Value)} {name : String} {v : Value}
    (h : name ∉ fields.map (·.1)) : put fields name v = fields ++ [(name, v)] := by
  induction fields with
  | nil => rfl
  | cons e rest ih =>
    obtain ⟨other, w⟩ := e
    rw [List.map_cons, List.mem_cons, not_or] at h
    rw [put, if_neg h.1, ih h.2]
    rfl

/-! ## Naming entries -/

/-- **The last entry** is written to what the entries before it are named. -/
theorem named_append_singleton {es : Keyed Value} {e : Scalar × Value}
    {fields : List (String × Value)} : named (es ++ [e]) = .ok fields ↔
      ∃ before name, named es = .ok before ∧ key e.1 = .ok name ∧ fields = put before name e.2 := by
  have hsplit : named (es ++ [e]) =
      named es >>= fun before => key e.1 >>= fun name => .ok (put before name e.2) := by
    rw [named, List.foldlM_append]
    refine congrArg _ (funext fun before => ?_)
    rw [List.foldlM_cons]
    cases key e.1 <;> rfl
  simp only [hsplit, bind_eq_ok, Except.ok.injEq]
  constructor
  · rintro ⟨before, hbefore, name, hname, rfl⟩
    exact ⟨before, name, hbefore, hname, rfl⟩
  · rintro ⟨before, name, hbefore, hname, rfl⟩
    exact ⟨before, hbefore, name, hname, rfl⟩

/-- Named entries come from entries whose keys are their names. -/
theorem named_ok {es : Keyed Value} {fields : List (String × Value)} (h : named es = .ok fields) :
    ∀ e ∈ fields, ∃ k, (k, e.2) ∈ es ∧ key k = .ok e.1 := by
  induction es using List.reverseRecOn generalizing fields with
  | nil =>
    obtain rfl := Except.ok.inj h
    simp
  | append_singleton es f ih =>
    obtain ⟨before, name, hbefore, hname, rfl⟩ := named_append_singleton.1 h
    intro e he
    rcases mem_put he with he | rfl
    · obtain ⟨k, hk, hkey⟩ := ih hbefore e he
      exact ⟨k, List.mem_append_left _ hk, hkey⟩
    · exact ⟨f.1, List.mem_append_right _ List.mem_cons_self, hname⟩

/-- **The names of named entries** are those that their keys count as. -/
theorem mem_names_named {es : Keyed Value} {fields : List (String × Value)} (h : named es = .ok fields)
    {name : String} : name ∈ fields.map (·.1) ↔ ∃ k ∈ Keyed.keys es, key k = .ok name := by
  induction es using List.reverseRecOn generalizing fields with
  | nil =>
    obtain rfl := Except.ok.inj h
    simp
  | append_singleton es e ih =>
    obtain ⟨before, other, hbefore, hother, rfl⟩ := named_append_singleton.1 h
    have hkeys : Keyed.keys (es ++ [e]) = Keyed.keys es ++ [e.1] := List.map_append
    rw [mem_names_put, ih hbefore, hkeys]
    simp only [List.mem_append, List.mem_singleton, or_and_right, exists_or, exists_eq_left, hother,
      Except.ok.injEq, or_comm, eq_comm]

/-- **What is found under a name** is what its entries have, if they all have the same. -/
theorem lookup_named {es : Keyed Value} {fields : List (String × Value)} {name : String} {v : Value}
    (h : named es = .ok fields) (hentry : ∃ k, (k, v) ∈ es ∧ key k = .ok name)
    (hall : ∀ e ∈ es, key e.1 = .ok name → e.2 = v) : fields.lookup name = some v := by
  induction es using List.reverseRecOn generalizing fields with
  | nil =>
    obtain ⟨k, hk, -⟩ := hentry
    cases hk
  | append_singleton es e ih =>
    obtain ⟨before, other, hbefore, hother, rfl⟩ := named_append_singleton.1 h
    rw [lookup_put]
    by_cases hname : name = other
    · subst hname
      rw [if_pos (by simp), hall e (List.mem_append_right _ List.mem_cons_self) hother]
    · rw [if_neg (by simpa using hname)]
      refine ih hbefore ?_ fun e' he' => hall e' (List.mem_append_left _ he')
      obtain ⟨k, hk, hkey⟩ := hentry
      rcases List.mem_append.1 hk with hk | hk
      · exact ⟨k, hk, hkey⟩
      · rw [← List.mem_singleton.1 hk, hkey] at hother
        exact absurd (Except.ok.inj hother) hname

/-- Entries whose keys are texts can be named. -/
theorem named_of_texts {es : Keyed Value} (h : ∀ k ∈ Keyed.keys es, ∃ t, k = .text t) :
    ∃ fields, named es = .ok fields := by
  induction es using List.reverseRecOn with
  | nil => exact ⟨[], rfl⟩
  | append_singleton es e ih =>
    rw [Keyed.keys, List.map_append] at h
    obtain ⟨before, hbefore⟩ := ih fun k hk => h k (List.mem_append_left _ hk)
    obtain ⟨t, ht⟩ := h e.1 (List.mem_append_right _ List.mem_cons_self)
    exact ⟨_, named_append_singleton.2 ⟨before, t, hbefore, ht ▸ key_text t, rfl⟩⟩

/-- **Entries under texts that all differ** are named by those texts, in order. -/
theorem named_texts {fields : List (String × Value)} (h : (fields.map (·.1)).Nodup) :
    named (fields.map fun e => (.text e.1, e.2)) = .ok fields := by
  induction fields using List.reverseRecOn with
  | nil => rfl
  | append_singleton fields e ih =>
    rw [List.map_append, List.nodup_append] at h
    have hnew : e.1 ∉ fields.map (·.1) := fun he => h.2.2 _ he _ List.mem_cons_self rfl
    rw [List.map_append]
    exact named_append_singleton.2 ⟨fields, e.1, ih h.1, rfl, (put_of_not_mem hnew).symm⟩

end ToolCatalog.Field
