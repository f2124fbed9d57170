import ToolCatalog.Value.Basic

/-!
# What is inside a value

Induction on values with one hypothesis for each member of a collection, and properties that hold
everywhere inside a value.  A mapping of schemas has lists of schemas under some of its keys, so the
hypotheses for a mapping also cover the items of those lists.
-/

namespace ToolCatalog.Value

/-- **Induction by members.**  The case of a mapping may use the claim for what stands under its
keys and, where that is a list, for its items. -/
theorem induction {motive : Value → Prop}
    (scalar : ∀ s, motive (.scalar s))
    (list : ∀ vs, (∀ v ∈ vs, motive v) → motive (.list vs))
    (map : ∀ es, (∀ k v, (k, v) ∈ es → motive v) →
      (∀ k v vs, (k, v) ∈ es → v.opened = .list vs → ∀ w ∈ vs, motive w) → motive (.map es))
    (pair : ∀ a b, motive a → motive b → motive (.pair a b))
    (set : ∀ ms, motive (.set ms))
    (part : ∀ n body, motive (body ()) → motive (.part n body))
    (v : Value) : motive v := by
  -- The items of a list are not entries of the mapping around it, so they are carried along.
  suffices h : motive v ∧ ∀ vs, v.opened = .list vs → ∀ w ∈ vs, motive w from h.1
  refine @induction_on
    (fun v => motive v ∧ ∀ vs, v.opened = .list vs → ∀ w ∈ vs, motive w)
    (fun vs => ∀ v ∈ vs, motive v)
    (fun es => ∀ k v, (k, v) ∈ es →
      motive v ∧ ∀ vs, v.opened = .list vs → ∀ w ∈ vs, motive w)
    v ?scalar ?list ?map ?pair ?set ?part ?nil ?cons ?noEntries ?entry
  case scalar => exact fun s => ⟨scalar s, fun vs h => by simp [opened] at h⟩
  case list =>
    intro vs ih
    refine ⟨list vs ih, fun ws h => ?_⟩
    obtain rfl : vs = ws := by simpa [opened] using h
    exact ih
  case map =>
    intro es ih
    refine ⟨map es (fun k v h => (ih k v h).1) (fun k v vs h => (ih k v h).2 vs), fun vs h => ?_⟩
    simp [opened] at h
  case pair => exact fun a b ha hb => ⟨pair a b ha.1 hb.1, fun vs h => by simp [opened] at h⟩
  case set => exact fun ms => ⟨set ms, fun vs h => by simp [opened] at h⟩
  case part => exact fun n body ih => ⟨part n body ih.1, ih.2⟩
  case nil => simp
  case cons =>
    intro v vs hv hvs w hw
    rcases List.mem_cons.1 hw with rfl | hw
    · exact hv.1
    · exact hvs w hw
  case noEntries => simp
  case entry =>
    intro k v es hv hes k' v' h
    rcases List.mem_cons.1 h with h | h
    · obtain ⟨rfl, rfl⟩ := Prod.mk.inj h
      exact hv
    · exact hes k' v' h

/-- `Within w v`: the value `w` is `v` or stands somewhere inside it. -/
inductive Within (w : Value) : Value → Prop
  | self : Within w w
  | item {vs : List Value} {v : Value} : v ∈ vs → Within w v → Within w (.list vs)
  | entry {es : List (Scalar × Value)} {k : Scalar} {v : Value} :
    (k, v) ∈ es → Within w v → Within w (.map es)
  | first {a b : Value} : Within w a → Within w (.pair a b)
  | second {a b : Value} : Within w b → Within w (.pair a b)
  | part {n : Nat} {body : Unit → Value} : Within w (body ()) → Within w (.part n body)

theorem within_scalar {w : Value} {s : Scalar} : Within w (.scalar s) ↔ w = .scalar s := by
  constructor
  · intro h
    cases h
    rfl
  · rintro rfl
    exact .self

theorem within_list {w : Value} {vs : List Value} :
    Within w (.list vs) ↔ w = .list vs ∨ ∃ v ∈ vs, Within w v := by
  constructor
  · intro h
    cases h with
    | self => exact Or.inl rfl
    | item hv hw => exact Or.inr ⟨_, hv, hw⟩
  · rintro (rfl | ⟨v, hv, hw⟩)
    · exact .self
    · exact .item hv hw

theorem within_map {w : Value} {es : List (Scalar × Value)} :
    Within w (.map es) ↔ w = .map es ∨ ∃ k v, (k, v) ∈ es ∧ Within w v := by
  constructor
  · intro h
    cases h with
    | self => exact Or.inl rfl
    | entry hv hw => exact Or.inr ⟨_, _, hv, hw⟩
  · rintro (rfl | ⟨k, v, hv, hw⟩)
    · exact .self
    · exact .entry hv hw

/-- What stands inside a value under its parts stands inside it. -/
theorem Within.of_opened {w v : Value} (h : Within w v.opened) : Within w v := by
  induction v using induction with
  | part n body ih => exact .part (ih h)
  | _ => exact h

theorem Within.trans {u v w : Value} (huv : Within u v) (hvw : Within v w) : Within u w := by
  induction hvw with
  | self => exact huv
  | item hv _ ih => exact .item hv ih
  | entry hv _ ih => exact .entry hv ih
  | first _ ih => exact .first ih
  | second _ ih => exact .second ih
  | part _ ih => exact .part ih

/-- A property of the key lists of mappings holds everywhere in a value: each mapping inside it has
keys with the property. -/
def KeysEverywhere (p : List Scalar → Prop) (v : Value) : Prop :=
  ∀ es, Within (.map es) v → p (Keyed.keys es)

/-- What holds of all mappings in a value holds of all mappings in what stands inside it. -/
theorem KeysEverywhere.within {p : List Scalar → Prop} {w v : Value} (h : v.KeysEverywhere p)
    (hw : Within w v) : w.KeysEverywhere p :=
  fun es hes => h es (hes.trans hw)

/-- A value as a document can be: no mapping in it has a key twice. -/
def WellFormed (v : Value) : Prop :=
  v.KeysEverywhere fun ks => ks.Pairwise fun k q => k.same q = false

/-- A value whose mappings have texts as keys. -/
def HasTextKeys (v : Value) : Prop :=
  v.KeysEverywhere fun ks => ∀ k ∈ ks, ∃ s, k = .text s

section

variable {p : List Scalar → Prop}

theorem keysEverywhere_scalar (s : Scalar) : (scalar s).KeysEverywhere p := by
  intro es h
  cases h

theorem keysEverywhere_list {vs : List Value} :
    (list vs).KeysEverywhere p ↔ ∀ v ∈ vs, v.KeysEverywhere p := by
  constructor
  · intro h v hv es hes
    exact h es (.item hv hes)
  · intro h es hes
    cases hes with
    | item hv hw => exact h _ hv es hw

theorem keysEverywhere_map {es : List (Scalar × Value)} :
    (map es).KeysEverywhere p ↔
      p (Keyed.keys es) ∧ ∀ k v, (k, v) ∈ es → v.KeysEverywhere p := by
  constructor
  · intro h
    exact ⟨h es .self, fun k v hv fs hfs => h fs (.entry hv hfs)⟩
  · intro h fs hfs
    cases hfs with
    | self => exact h.1
    | entry hv hw => exact h.2 _ _ hv fs hw

theorem keysEverywhere_part {n : Nat} {body : Unit → Value} :
    (part n body).KeysEverywhere p ↔ (body ()).KeysEverywhere p := by
  constructor
  · intro h es hes
    exact h es (.part hes)
  · intro h es hes
    cases hes with
    | part hw => exact h es hw

theorem keysEverywhere_record {fields : List (String × Value)} :
    (record fields).KeysEverywhere p ↔
      p (fields.map fun f => .text f.1) ∧ ∀ f ∈ fields, f.2.KeysEverywhere p := by
  rw [record, keysEverywhere_map]
  have hkeys : Keyed.keys (fields.map fun f => (Scalar.text f.1, f.2)) =
      fields.map fun f => .text f.1 := by
    rw [Keyed.keys, List.map_map]
    rfl
  rw [hkeys]
  refine and_congr_right fun _ => ?_
  constructor
  · intro h f hf
    exact h (.text f.1) f.2 (List.mem_map.2 ⟨f, hf, rfl⟩)
  · intro h k v hkv
    obtain ⟨f, hf, heq⟩ := List.mem_map.1 hkv
    obtain ⟨-, rfl⟩ := Prod.mk.inj heq
    exact h f hf

/-- Parts around a value change nothing. -/
theorem keysEverywhere_opened {v : Value} : v.opened.KeysEverywhere p ↔ v.KeysEverywhere p := by
  induction v using induction with
  | part n body ih => rw [opened, ih, keysEverywhere_part]
  | _ => exact Iff.rfl

end

/-- Whether a value counts as true does not depend on the parts around it. -/
theorem truthy_opened (v : Value) : v.opened.truthy = v.truthy := by
  induction v using induction with
  | part n body ih => rw [opened, ih, truthy]
  | _ => rfl

end ToolCatalog.Value
