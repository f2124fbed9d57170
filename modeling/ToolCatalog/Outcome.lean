import ToolCatalog.Event

/-!
# Outcomes

A step of a compilation reports events and either gives a value or fails; the events of a failed
step stay reported.  `Outcome` is the monad of such steps.  Its two projections are what theorems
talk about: `result` is a homomorphism to `Except Fault`, so a statement about results never has to
mention events.
-/

namespace ToolCatalog

/-- The events a step has reported, and its value or fault. -/
structure Outcome (α : Type) where
  events : List Event
  result : Except Fault α

namespace Outcome

variable {α β : Type}

/-- A value without any event. -/
def value (a : α) : Outcome α := ⟨[], .ok a⟩

/-- A failure without any event. -/
def fail (f : Fault) : Outcome α := ⟨[], .error f⟩

/-- Report one event. -/
def report (e : Event) : Outcome Unit := ⟨[e], .ok ()⟩

/-- Go on with the value of a step; a failure ends both. -/
def andThen (x : Outcome α) (f : α → Outcome β) : Outcome β :=
  match x.result with
  | .error e => ⟨x.events, .error e⟩
  | .ok a => ⟨x.events ++ (f a).events, (f a).result⟩

instance : Monad Outcome where
  pure := value
  bind := andThen

/-- A step without events. -/
def ofExcept (r : Except Fault α) : Outcome α := ⟨[], r⟩

instance : MonadLift (Except Fault) Outcome where
  monadLift := ofExcept

/-- Look at the result of a step, whatever it is, and go on. -/
def inspect (x : Outcome α) (f : Except Fault α → Outcome β) : Outcome β :=
  ⟨x.events ++ (f x.result).events, (f x.result).result⟩

@[simp] theorem result_pure (a : α) : (pure a : Outcome α).result = .ok a := rfl
@[simp] theorem events_pure (a : α) : (pure a : Outcome α).events = [] := rfl
@[simp] theorem result_fail (f : Fault) : (fail f : Outcome α).result = .error f := rfl
@[simp] theorem events_fail (f : Fault) : (fail f : Outcome α).events = [] := rfl
@[simp] theorem result_report (e : Event) : (report e).result = .ok () := rfl
@[simp] theorem events_report (e : Event) : (report e).events = [e] := rfl
@[simp] theorem result_ofExcept (r : Except Fault α) : (ofExcept r).result = r := rfl
@[simp] theorem events_ofExcept (r : Except Fault α) : (ofExcept r).events = [] := rfl
@[simp] theorem result_inspect (x : Outcome α) (f : Except Fault α → Outcome β) :
    (x.inspect f).result = (f x.result).result := rfl

/-- **The result of a sequence** depends on the results of its steps only. -/
@[simp] theorem result_bind (x : Outcome α) (f : α → Outcome β) :
    (x >>= f).result = x.result.bind fun a => (f a).result := by
  show (andThen x f).result = _
  unfold andThen
  cases x.result <;> rfl

instance : LawfulMonad Outcome := by
  refine LawfulMonad.mk' Outcome ?_ ?_ ?_
  · intro _ x
    show andThen x value = x
    obtain ⟨events, result⟩ := x
    cases result <;> simp [andThen, value]
  · intros
    rfl
  · intro _ _ _ x f g
    show andThen (andThen x f) g = andThen x fun a => andThen (f a) g
    obtain ⟨events, result⟩ := x
    cases result with
    | error e => rfl
    | ok a =>
      simp only [andThen]
      cases (f a).result <;> simp

end Outcome

end ToolCatalog
