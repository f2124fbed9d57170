import Mathlib.Algebra.Group.Nat.Defs
import ToolCatalog.Json.Reader
import ToolCatalog.Proofs.Value.Json
import ToolCatalog.Value.Display

/-!
# The values that JSON texts spell

A value that is read from a JSON text is made of texts, words, numbers, lists of such values and mappings
from texts to them, so what these keep, every value has that is read (`read?_induction`).  An integer with
more digits than may be written is not read, so every value that is read can be shown again.
-/

namespace ToolCatalog

namespace Numeral

theorem ofDigits_lt {base : Nat} {ds : List Nat} (h : ∀ d ∈ ds, d < base) :
    ofDigits base ds < base ^ ds.length := by
  have hfold : ∀ (ds : List Nat) (n : Nat), (∀ d ∈ ds, d < base) →
      ds.foldl (fun n d => base * n + d) n < (n + 1) * base ^ ds.length := by
    intro ds
    induction ds with
    | nil =>
      intro n _
      simp
    | cons d rest ih =>
      intro n h
      have hd := h d List.mem_cons_self
      have hnext : base * n + d + 1 ≤ (n + 1) * base := by
        rw [Nat.add_mul, Nat.one_mul, Nat.mul_comm]
        omega
      calc rest.foldl (fun n d => base * n + d) (base * n + d)
          < (base * n + d + 1) * base ^ rest.length :=
            ih _ fun d' hd' => h d' (List.mem_cons_of_mem _ hd')
        _ ≤ (n + 1) * base * base ^ rest.length := Nat.mul_le_mul_right _ hnext
        _ = (n + 1) * base ^ (d :: rest).length := by
            rw [List.length_cons, Nat.pow_succ', Nat.mul_assoc]
  simpa [ofDigits] using hfold ds 0 h

theorem lt_of_mem_spanDigits {cs : List Char} {d : Nat} (h : d ∈ (spanDigits cs).1) : d < 10 := by
  induction cs with
  | nil => cases h
  | cons c rest ih =>
    unfold spanDigits at h
    split at h
    · next hc =>
      rcases List.mem_cons.1 h with rfl | h
      · have hle : c.toNat ≤ '9'.toNat := UInt32.le_iff_toNat_le.1 hc.2
        have h9 : '9'.toNat = 57 := rfl
        have h0 : '0'.toNat = 48 := rfl
        omega
      · exact ih h
    · cases h

/-- A decimal numeral without too many digits spells a moderate number. -/
theorem isModerate_ofDigits {ds : List Nat} (hds : ∀ d ∈ ds, d < 10)
    (hlength : ds.length ≤ maxDecimalDigits) : isModerate (ofDigits 10 ds) = true := by
  unfold isModerate
  -- The power itself is never computed.
  generalize maxDecimalDigits = most at hlength
  exact decide_eq_true (Nat.lt_of_lt_of_le (ofDigits_lt hds)
    (Nat.pow_le_pow_right (Nat.succ_pos 9) hlength))

end Numeral

namespace Value

theorem areModerate_iff {around : List Nat} {vs : List Value} :
    areModerate around vs = true ↔ ∀ v ∈ vs, v.isModerate around = true := by
  induction vs with
  | nil => simp [areModerate]
  | cons v rest ih => simp [areModerate, ih]

theorem areModerateEntries_iff {around : List Nat} {es : Keyed Value} :
    areModerateEntries around es = true ↔
      ∀ k v, (k, v) ∈ es → k.isModerate = true ∧ v.isModerate around = true := by
  induction es with
  | nil => simp [areModerateEntries]
  | cons e rest ih =>
    obtain ⟨k, v⟩ := e
    simp only [areModerateEntries, Bool.and_eq_true, ih, List.mem_cons, Prod.mk.injEq]
    constructor
    · rintro ⟨h, hrest⟩ k' v' (⟨rfl, rfl⟩ | h')
      · exact h
      · exact hrest k' v' h'
    · exact fun h => ⟨h k v (Or.inl ⟨rfl, rfl⟩), fun k' v' h' => h k' v' (Or.inr h')⟩

end Value

namespace Json

/-! ## Numbers -/

/-- A number that is read is a floating point number or an integer of moderate length. -/
theorem readNumber?_ok {cs rest : List Char} {v : Value} (h : readNumber? cs = some (v, rest)) :
    (∃ x, v = .scalar (.float x)) ∨ ∃ i, v = .int i ∧ Numeral.isModerate i.natAbs = true := by
  unfold readNumber? at h
  split at h
  next isNegative body hbody =>
  split at h
  next whole tail hwhole =>
  have hdigits : ∀ d ∈ whole, d < 10 := by
    split at hwhole
    · obtain ⟨rfl, -⟩ := Prod.mk.inj hwhole
      simp
    · intro d hd
      have hmem : d ∈ (Numeral.spanDigits body).1 := by
        rw [hwhole]
        exact hd
      exact Numeral.lt_of_mem_spanDigits hmem
  split at h
  · cases h
  · split at h
    next fraction tail' hfraction =>
    split at h
    · exact Or.inl ⟨_, (Prod.mk.inj (Option.some.inj h)).1.symm⟩
    · split at h
      · split at h
        · cases h
        · next hlength =>
          have hmoderate := Numeral.isModerate_ofDigits hdigits (Nat.not_lt.1 hlength)
          generalize Numeral.ofDigits 10 whole = n at h hmoderate
          have habs : (if isNegative then -(n : Int) else n).natAbs = n := by
            split <;> simp
          refine Or.inr ⟨_, (Prod.mk.inj (Option.some.inj h)).1.symm, ?_⟩
          rw [habs]
          exact hmoderate
      · exact Or.inl ⟨_, (Prod.mk.inj (Option.some.inj h)).1.symm⟩

/-! ## What every value that is read has -/

/-- What every value has that the reader gives with so much fuel. -/
def ReadsOnly (p : Value → Prop) (fuel : Nat) : Prop :=
  ∀ cs v rest, readValue? fuel cs = some (v, rest) → p v

/-- The same for the items of an array, if those read so far have it. -/
def ReadsItems (p : Value → Prop) (fuel : Nat) : Prop :=
  ∀ done cs vs rest, (∀ v ∈ done, p v) → readItems? fuel done cs = some (vs, rest) → ∀ v ∈ vs, p v

/-- Members of an object: their names are texts, and their values have the property. -/
def AreMembers (p : Value → Prop) (es : Keyed Value) : Prop :=
  ∀ k v, (k, v) ∈ es → (∃ s, k = .text s) ∧ p v

/-- The same for the members of an object, if those read so far have it. -/
def ReadsMembers (p : Value → Prop) (fuel : Nat) : Prop :=
  ∀ done cs es rest, AreMembers p done → readMembers? fuel done cs = some (es, rest) →
    AreMembers p es

section

variable {p : Value → Prop} {fuel : Nat}

theorem ReadsOnly.items (hvalue : ReadsOnly p fuel) (hitems : ReadsItems p fuel) :
    ReadsItems p (fuel + 1) := by
  intro done cs vs rest hdone h
  unfold readItems? at h
  obtain ⟨⟨v, tail⟩, hv, h⟩ := Option.bind_eq_some_iff.1 h
  have hdone' : ∀ w ∈ v :: done, p w := by
    intro w hw
    rcases List.mem_cons.1 hw with rfl | hw
    · exact hvalue cs w tail hv
    · exact hdone w hw
  simp only at h
  split at h
  · exact hitems _ _ vs rest hdone' h
  · obtain ⟨rfl, -⟩ := Prod.mk.inj (Option.some.inj h)
    exact fun w hw => hdone' w (List.mem_reverse.1 hw)
  · cases h

theorem ReadsOnly.members (hvalue : ReadsOnly p fuel) (hmembers : ReadsMembers p fuel) :
    ReadsMembers p (fuel + 1) := by
  intro done cs es rest hdone h
  unfold readMembers? at h
  split at h
  · obtain ⟨⟨name, tail⟩, -, h⟩ := Option.bind_eq_some_iff.1 h
    simp only at h
    split at h
    · obtain ⟨⟨v, tail'⟩, hv, h⟩ := Option.bind_eq_some_iff.1 h
      have hdone' : AreMembers p (Keyed.put done (.text name) v) := by
        intro k w hw
        rcases Keyed.mem_put_text hw with hw | heq
        · exact hdone k w hw
        · obtain ⟨rfl, rfl⟩ := Prod.mk.inj heq
          exact ⟨⟨name, rfl⟩, hvalue _ w _ hv⟩
      simp only at h
      split at h
      · exact hmembers _ _ es rest hdone' h
      · obtain ⟨rfl, -⟩ := Prod.mk.inj (Option.some.inj h)
        exact hdone'
      · cases h
    · cases h
  · cases h

variable (text : ∀ s, p (.text s)) (word : ∀ w ∈ words, p w.2)
  (number : ∀ cs v rest, readNumber? cs = some (v, rest) → p v)
  (list : ∀ vs, (∀ v ∈ vs, p v) → p (.list vs)) (map : ∀ es, AreMembers p es → p (.map es))

include text word number list map

theorem ReadsItems.value (hitems : ReadsItems p fuel) (hmembers : ReadsMembers p fuel) :
    ReadsOnly p (fuel + 1) := by
  intro cs v rest h
  unfold readValue? at h
  split at h
  · obtain ⟨⟨s, tail⟩, -, h⟩ := Option.bind_eq_some_iff.1 h
    obtain ⟨rfl, -⟩ := Prod.mk.inj (Option.some.inj h)
    exact text s
  · split at h
    · obtain ⟨rfl, -⟩ := Prod.mk.inj (Option.some.inj h)
      exact list [] (by simp)
    · obtain ⟨⟨vs, tail⟩, hvs, h⟩ := Option.bind_eq_some_iff.1 h
      obtain ⟨rfl, -⟩ := Prod.mk.inj (Option.some.inj h)
      exact list vs (hitems _ _ _ _ (by simp) hvs)
  · split at h
    · obtain ⟨rfl, -⟩ := Prod.mk.inj (Option.some.inj h)
      exact map [] (by simp [AreMembers])
    · obtain ⟨⟨es, tail⟩, hes, h⟩ := Option.bind_eq_some_iff.1 h
      obtain ⟨rfl, -⟩ := Prod.mk.inj (Option.some.inj h)
      exact map es (hmembers _ _ _ _ (by simp [AreMembers]) hes)
  · rcases Option.or_eq_some_iff.1 h with h | ⟨-, h⟩
    · obtain ⟨w, hw, heq⟩ := Option.map_eq_some_iff.1 h
      obtain ⟨rfl, -⟩ := Prod.mk.inj heq
      exact word w (List.mem_of_find?_eq_some hw)
    · exact number cs v rest h

/-- **Induction on the values that JSON texts spell.** -/
theorem read?_induction {s : String} {v : Value} (h : read? s = some v) : p v := by
  have hreads : ∀ fuel, ReadsOnly p fuel ∧ ReadsItems p fuel ∧ ReadsMembers p fuel := by
    intro fuel
    induction fuel with
    | zero => simp [ReadsOnly, ReadsItems, ReadsMembers, readValue?, readItems?, readMembers?]
    | succ fuel ih =>
      obtain ⟨hvalue, hitems, hmembers⟩ := ih
      exact ⟨hitems.value text word number list map hmembers, hvalue.items hitems,
        hvalue.members hmembers⟩
  rw [read?] at h
  obtain ⟨⟨w, rest⟩, hw, h⟩ := Option.bind_eq_some_iff.1 h
  simp only at h
  split at h
  · obtain rfl := Option.some.inj h
    exact (hreads _).1 _ w rest hw
  · cases h

end

/-- **A value that is read is a JSON value.** -/
theorem isJson_of_read? {s : String} {v : Value} (h : read? s = some v) : v.IsJson := by
  refine read?_induction (p := Value.IsJson) (fun s => Value.isJson_scalar.2 rfl) ?word ?number
    (fun vs hvs => Value.isJson_list.2 hvs) ?map h
  case word => simp [words, Value.isJson_scalar, Value.isPlain]
  case number =>
    intro cs v rest hn
    rcases readNumber?_ok hn with ⟨x, rfl⟩ | ⟨i, rfl, -⟩
    · exact Value.isJson_scalar.2 rfl
    · exact Value.isJson_scalar.2 rfl
  case map =>
    refine fun es hes => Value.isJson_map.2 ⟨fun k hk => ?_, fun k v hv => (hes k v hv).2⟩
    obtain ⟨v, hv⟩ := Keyed.mem_keys.1 hk
    exact (hes k v hv).1

/-- **A value that is read can be shown**: no integer in it is of immoderate length. -/
theorem isModerate_of_read? {s : String} {v : Value} (h : read? s = some v) (around : List Nat) :
    v.isModerate around = true := by
  refine read?_induction (p := fun v => v.isModerate around = true) (fun s => rfl) ?word ?number
    (fun vs hvs => Value.areModerate_iff.2 hvs) ?map h
  case word => simp [words, Value.isModerate, Scalar.isModerate]
  case number =>
    intro cs v rest hn
    rcases readNumber?_ok hn with ⟨x, rfl⟩ | ⟨i, rfl, hi⟩
    · rfl
    · exact hi
  case map =>
    refine fun es hes => Value.areModerateEntries_iff.2 fun k v hv => ?_
    obtain ⟨⟨name, rfl⟩, hmoderate⟩ := hes k v hv
    exact ⟨rfl, hmoderate⟩

end Json

end ToolCatalog
