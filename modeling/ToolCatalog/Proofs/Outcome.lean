import ToolCatalog.Outcome

/-!
# Taking outcomes apart

A sequence of steps gives a value exactly if every step does, and fails exactly if one of its steps
fails after the others gave values.  Two relations between outcomes are kept by sequences:
`Refines` compares the values of two runs, and `Below` says that one run is the other or has not
been able to finish.
-/

namespace ToolCatalog

/-! ## Steps without events -/

section

variable {α β : Type} {f : α → Except Fault β}

theorem bind_eq_ok {x : Except Fault α} {b : β} :
    (x >>= f) = .ok b ↔ ∃ a, x = .ok a ∧ f a = .ok b := by
  cases x with
  | error e => simp [bind, Except.bind]
  | ok a => simp [bind, Except.bind]

theorem bind_eq_error {x : Except Fault α} {e : Fault} :
    (x >>= f) = .error e ↔ x = .error e ∨ ∃ a, x = .ok a ∧ f a = .error e := by
  cases x with
  | error e => simp [bind, Except.bind]
  | ok a => simp [bind, Except.bind]

/-- The values of a list of steps are those of its members, and each member has a value. -/
theorem mapM_eq_ok {as : List α} {bs : List β} (h : as.mapM f = .ok bs) :
    (∀ b ∈ bs, ∃ a ∈ as, f a = .ok b) ∧ ∀ a ∈ as, ∃ b ∈ bs, f a = .ok b := by
  induction as generalizing bs with
  | nil =>
    rw [List.mapM_nil] at h
    obtain rfl := Except.ok.inj h
    simp
  | cons a rest ih =>
    rw [List.mapM_cons] at h
    obtain ⟨b, hb, h⟩ := bind_eq_ok.1 h
    obtain ⟨bs', hbs, h⟩ := bind_eq_ok.1 h
    obtain rfl := Except.ok.inj h
    obtain ⟨hfrom, hto⟩ := ih hbs
    constructor
    · intro b' hb'
      rcases List.mem_cons.1 hb' with rfl | hb'
      · exact ⟨a, List.mem_cons_self, hb⟩
      · obtain ⟨a', ha', h⟩ := hfrom b' hb'
        exact ⟨a', List.mem_cons_of_mem _ ha', h⟩
    · intro a' ha'
      rcases List.mem_cons.1 ha' with rfl | ha'
      · exact ⟨b, List.mem_cons_self, hb⟩
      · obtain ⟨b', hb', h⟩ := hto a' ha'
        exact ⟨b', List.mem_cons_of_mem _ hb', h⟩

/-- A list of steps gives values if each of its members does. -/
theorem mapM_of_forall_ok {as : List α} (h : ∀ a ∈ as, ∃ b, f a = .ok b) :
    ∃ bs, as.mapM f = .ok bs := by
  induction as with
  | nil => exact ⟨[], rfl⟩
  | cons a rest ih =>
    obtain ⟨b, hb⟩ := h a List.mem_cons_self
    obtain ⟨bs, hbs⟩ := ih fun a' ha' => h a' (List.mem_cons_of_mem _ ha')
    refine ⟨b :: bs, ?_⟩
    rw [List.mapM_cons]
    exact bind_eq_ok.2 ⟨b, hb, bind_eq_ok.2 ⟨bs, hbs, rfl⟩⟩

/-- The steps of a list in another order give the values in another order. -/
theorem mapM_perm {as as' : List α} {bs : List β} (h : as.Perm as') (hbs : as.mapM f = .ok bs) :
    ∃ bs', as'.mapM f = .ok bs' ∧ bs.Perm bs' := by
  induction h generalizing bs with
  | nil => exact ⟨bs, hbs, .refl _⟩
  | cons a _ ih =>
    rw [List.mapM_cons] at hbs
    obtain ⟨b, hb, hbs⟩ := bind_eq_ok.1 hbs
    obtain ⟨rest, hrest, hbs⟩ := bind_eq_ok.1 hbs
    obtain rfl := Except.ok.inj hbs
    obtain ⟨rest', hrest', hperm⟩ := ih hrest
    refine ⟨b :: rest', ?_, hperm.cons b⟩
    rw [List.mapM_cons]
    exact bind_eq_ok.2 ⟨b, hb, bind_eq_ok.2 ⟨rest', hrest', rfl⟩⟩
  | swap a a' as =>
    rw [List.mapM_cons, List.mapM_cons] at hbs
    obtain ⟨b, hb, hbs⟩ := bind_eq_ok.1 hbs
    obtain ⟨bs', hbs', hbs⟩ := bind_eq_ok.1 hbs
    obtain ⟨b', hb', hbs'⟩ := bind_eq_ok.1 hbs'
    obtain ⟨rest, hrest, hbs'⟩ := bind_eq_ok.1 hbs'
    obtain rfl := Except.ok.inj hbs'
    obtain rfl := Except.ok.inj hbs
    refine ⟨b' :: b :: rest, ?_, .swap _ _ _⟩
    rw [List.mapM_cons, List.mapM_cons]
    exact bind_eq_ok.2 ⟨b', hb', bind_eq_ok.2 ⟨b :: rest,
      bind_eq_ok.2 ⟨b, hb, bind_eq_ok.2 ⟨rest, hrest, rfl⟩⟩, rfl⟩⟩
  | trans _ _ ih ih' =>
    obtain ⟨bs', hbs', hperm⟩ := ih hbs
    obtain ⟨bs'', hbs'', hperm'⟩ := ih' hbs'
    exact ⟨bs'', hbs'', hperm.trans hperm'⟩

/-- Where each step can only give one value, a list of steps gives those values in order. -/
theorem eq_map_of_mapM {g : α → β} {as : List α} {bs : List β} (h : as.mapM f = .ok bs)
    (hg : ∀ a ∈ as, ∀ b, f a = .ok b → b = g a) : bs = as.map g := by
  induction as generalizing bs with
  | nil =>
    rw [List.mapM_nil] at h
    exact (Except.ok.inj h).symm
  | cons a rest ih =>
    rw [List.mapM_cons] at h
    obtain ⟨b, hb, h⟩ := bind_eq_ok.1 h
    obtain ⟨bs', hbs, h⟩ := bind_eq_ok.1 h
    obtain rfl := Except.ok.inj h
    rw [List.map_cons, hg a List.mem_cons_self b hb,
      ih hbs fun a' ha' => hg a' (List.mem_cons_of_mem _ ha')]

end

namespace Outcome

/-! ## Sequences -/

variable {α β γ δ : Type}

@[simp] theorem result_liftM (r : Except Fault α) : (liftM r : Outcome α).result = r := rfl

/-- A sequence gives a value exactly if its first step and then its second step do. -/
theorem result_bind_ok {x : Outcome α} {f : α → Outcome β} {b : β} :
    (x >>= f).result = .ok b ↔ ∃ a, x.result = .ok a ∧ (f a).result = .ok b := by
  rw [result_bind]
  exact bind_eq_ok

/-- A sequence fails exactly if its first step fails, or gives a value and its second step fails. -/
theorem result_bind_error {x : Outcome α} {f : α → Outcome β} {e : Fault} :
    (x >>= f).result = .error e ↔
      x.result = .error e ∨ ∃ a, x.result = .ok a ∧ (f a).result = .error e := by
  rw [result_bind]
  exact bind_eq_error

/-- A sequence depends on its second step only for the value that the first step gives. -/
theorem bind_congr_ok {x : Outcome α} {f g : α → Outcome β}
    (h : ∀ a, x.result = .ok a → f a = g a) : x >>= f = x >>= g := by
  show andThen x f = andThen x g
  unfold andThen
  cases hx : x.result with
  | error e => rfl
  | ok a => simp only [h a hx]

/-! ## Every value of one run has its like in the other -/

/-- `x.Refines rel y`: if `x` gives a value, `y` gives one that is related to it. -/
def Refines (rel : α → β → Prop) (x : Outcome α) (y : Outcome β) : Prop :=
  ∀ a, x.result = .ok a → ∃ b, y.result = .ok b ∧ rel a b

theorem Refines.pure {rel : α → β → Prop} {a : α} {b : β} (h : rel a b) :
    Refines rel (Pure.pure a) (Pure.pure b) := by
  intro a' ha
  cases ha
  exact ⟨b, rfl, h⟩

theorem Refines.refl (x : Outcome α) : x.Refines Eq x := fun a ha => ⟨a, ha, rfl⟩

/-- Runs that give the same in one respect. -/
theorem Refines.of_map_eq {x y : Outcome α} {f : α → β} (h : x.result.map f = y.result.map f) :
    x.Refines (fun a b => f a = f b) y := by
  intro a ha
  rw [ha] at h
  cases hy : y.result with
  | error e =>
    rw [hy] at h
    cases h
  | ok b =>
    rw [hy] at h
    exact ⟨b, rfl, Except.ok.inj h⟩

theorem Refines.report (e e' : Event) : (report e).Refines Eq (report e') :=
  fun _ _ => ⟨(), rfl, rfl⟩

theorem Refines.bind {rel : α → β → Prop} {rel' : γ → δ → Prop} {x : Outcome α} {y : Outcome β}
    {f : α → Outcome γ} {g : β → Outcome δ} (h : x.Refines rel y)
    (hfg : ∀ a b, x.result = .ok a → rel a b → (f a).Refines rel' (g b)) :
    (x >>= f).Refines rel' (y >>= g) := by
  intro c hc
  obtain ⟨a, ha, hc⟩ := result_bind_ok.1 hc
  obtain ⟨b, hb, hab⟩ := h a ha
  obtain ⟨d, hd, hcd⟩ := hfg a b ha hab c hc
  exact ⟨d, result_bind_ok.2 ⟨b, hb, hd⟩, hcd⟩

/-- What holds of all values of each run holds of the related ones. -/
theorem Refines.and {rel : α → β → Prop} {p : α → Prop} {q : β → Prop} {x : Outcome α}
    {y : Outcome β} (h : x.Refines rel y) (hx : ∀ a, x.result = .ok a → p a)
    (hy : ∀ b, y.result = .ok b → q b) : x.Refines (fun a b => rel a b ∧ p a ∧ q b) y := by
  intro a ha
  obtain ⟨b, hb, hab⟩ := h a ha
  exact ⟨b, hb, hab, hx a ha, hy b hb⟩

/-- Runs that refine each other give values on the same occasions, and related ones. -/
theorem Refines.both {rel : α → β → Prop} {rel' : β → α → Prop} {x : Outcome α} {y : Outcome β}
    (h : x.Refines rel y) (h' : y.Refines rel' x) :
    ((∃ a, x.result = .ok a) ↔ ∃ b, y.result = .ok b) ∧
      ∀ a b, x.result = .ok a → y.result = .ok b → rel a b := by
  refine ⟨⟨fun ⟨a, ha⟩ => ?_, fun ⟨b, hb⟩ => ?_⟩, fun a b ha hb => ?_⟩
  · obtain ⟨b, hb, -⟩ := h a ha
    exact ⟨b, hb⟩
  · obtain ⟨a, ha, -⟩ := h' b hb
    exact ⟨a, ha⟩
  · obtain ⟨b', hb', hab⟩ := h a ha
    obtain rfl := Except.ok.inj (hb.symm.trans hb')
    exact hab

/-! ## One run is the other, or did not finish -/

/-- `x.Below stuck y`: `x` fails with a fault that counts as not having finished, or `x` is `y`,
events included. -/
def Below (stuck : Fault → Prop) (x y : Outcome α) : Prop :=
  (∃ e, x.result = .error e ∧ stuck e) ∨ x = y

section

variable {stuck : Fault → Prop}

theorem Below.refl (x : Outcome α) : x.Below stuck x := Or.inr rfl

theorem Below.fail {e : Fault} (h : stuck e) (y : Outcome α) : (fail e).Below stuck y :=
  Or.inl ⟨e, rfl, h⟩

theorem Below.bind {x y : Outcome α} {f g : α → Outcome β} (h : x.Below stuck y)
    (hfg : ∀ a, (f a).Below stuck (g a)) : (x >>= f).Below stuck (y >>= g) := by
  rcases h with ⟨e, he, hs⟩ | rfl
  · exact Or.inl ⟨e, result_bind_error.2 (Or.inl he), hs⟩
  · cases hx : x.result with
    | error e =>
      right
      show andThen x f = andThen x g
      simp only [andThen, hx]
    | ok a =>
      rcases hfg a with ⟨e, he, hs⟩ | hfg
      · exact Or.inl ⟨e, result_bind_error.2 (Or.inr ⟨a, hx, he⟩), hs⟩
      · right
        show andThen x f = andThen x g
        simp only [andThen, hx, hfg]

/-- A run that finished is the one it is below. -/
theorem Below.eq_of_finished {x y : Outcome α} (h : x.Below stuck y)
    (hx : ∀ e, x.result = .error e → ¬ stuck e) : x = y := by
  rcases h with ⟨e, he, hs⟩ | h
  · exact absurd hs (hx e he)
  · exact h

end

end Outcome

end ToolCatalog
