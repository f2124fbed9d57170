import ToolCatalog.Schema.Keyword
import ToolCatalog.Proofs.Value.Keyed

/-!
# Schema positions

A value that is read as a schema has further schemas inside: the items of a list, what stands under
most keywords, and what stands under the names of a mapping from names.  Data holds none.  The role
in which a value is read says how to go on, so one relation covers all of them.
-/

namespace ToolCatalog.Schema

/-- The role of the items of a list that is read in a role. -/
def Role.item : Role → Role
  | .literal => .literal
  | _ => .schema

/-- The role of what stands under a key of a mapping that is read in a role. -/
def Role.under : Role → Scalar → Role
  | .schema, .text keyword => roleOf keyword
  | .schema, _ => .schema
  | .properties, _ | .names, _ => .schema
  | .literal, _ => .literal

/-- **Schema positions.**  `Subschema role v es`: the mapping `es` stands at a schema position of the
value `v`, when `v` is read in `role`. -/
inductive Subschema : Role → Value → Keyed Value → Prop
  | here (es : Keyed Value) : Subschema .schema (.map es) es
  | item {role : Role} {vs : List Value} {v : Value} {es : Keyed Value} :
    v ∈ vs → Subschema role.item v es → Subschema role (.list vs) es
  | entry {role : Role} {fs : Keyed Value} {k : Scalar} {v : Value} {es : Keyed Value} :
    (k, v) ∈ fs → Subschema (role.under k) v es → Subschema role (.map fs) es
  | part {role : Role} {n : Nat} {body : Unit → Value} {es : Keyed Value} :
    Subschema role (body ()) es → Subschema role (.part n body) es

/-- Data has no schema positions. -/
theorem not_subschema_literal {v : Value} {es : Keyed Value} : ¬ Subschema .literal v es := by
  intro h
  generalize hr : Role.literal = role at h
  induction h with
  | here => cases hr
  | item _ _ ih => subst hr; exact ih rfl
  | entry _ _ ih => subst hr; exact ih rfl
  | part _ ih => exact ih hr

/-- A scalar has no schema positions. -/
theorem not_subschema_scalar {role : Role} {s : Scalar} {es : Keyed Value} :
    ¬ Subschema role (.scalar s) es := by
  intro h
  cases h

@[simp] theorem roleOf_properties : roleOf "properties" = .properties := by decide

@[simp] theorem roleOf_required : roleOf "required" = .schema := by decide

@[simp] theorem under_schema (keyword : String) :
    Role.under .schema (.text keyword) = roleOf keyword := rfl

/-- Keys that are the same give what stands under them the same role. -/
theorem Role.under_congr {role : Role} {k q : Scalar} (h : k.same q = true) :
    role.under k = role.under q := by
  cases role with
  | schema =>
    cases k with
    | text s => rw [(Scalar.same_text s q).1 h]
    | _ =>
      cases q with
      | text s =>
        rw [Scalar.same_comm, Scalar.same_text] at h
        cases h
      | _ => rfl
  | _ => rfl

/-! ## Removed names -/

variable {settings : Settings}

/-- Names that are the same are removed together. -/
theorem isRemoved_congr {k q : Scalar} (h : k.same q = true) :
    settings.isRemoved k = settings.isRemoved q := by
  unfold Settings.isRemoved
  congr 1
  funext r
  rw [Scalar.same_comm _ k, Scalar.same_comm _ q, Scalar.same_congr h]

/-- A name of the list of removed names is removed. -/
theorem isRemoved_text {r : String} (h : r ∈ settings.removed) :
    settings.isRemoved (.text r) = true :=
  List.any_eq_true.2 ⟨r, h, Scalar.same_refl _⟩

end ToolCatalog.Schema
