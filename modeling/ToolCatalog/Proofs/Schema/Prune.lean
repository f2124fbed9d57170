import ToolCatalog.Proofs.Schema.Position
import ToolCatalog.Proofs.Value.Alike
import ToolCatalog.Settings

/-!
# Pruning a schema

Pruning takes the removed names out of a finished schema: at every schema position it deletes the
properties of those names and their entries among the required names, and a list of required names
that is left empty.
-/

namespace ToolCatalog.Schema

section

variable (settings : Settings)

/-- Whether a required name outlives pruning. -/
def survives : Value → Bool
  | .scalar k => !settings.isRemoved k
  | _ => true

mutual

/-- Prune what has a role. -/
def pruneAs (role : Role) : Value → Value
  | .list vs =>
    match role with
    | .literal => .list vs
    | _ => .list (pruneItems vs)
  | .map es =>
    match role with
    | .literal => .map es
    | role => .map (pruneEntries role es)
  | .part n body =>
    match role with
    | .literal => .part n body
    | role => .part n fun _ => pruneAs role (body ())
  | v => v

/-- Prune the items of a list of schemas. -/
def pruneItems : List Value → List Value
  | [] => []
  | v :: vs => pruneAs .schema v :: pruneItems vs

/-- Prune the entries of a mapping that has a role.  Properties lose the removed ones, a schema its
removed required names. -/
def pruneEntries (role : Role) : List (Scalar × Value) → List (Scalar × Value)
  | [] => []
  | (k, v) :: rest =>
    let w := pruneAs (role.under k) v
    let others := pruneEntries role rest
    match role with
    | .properties => if settings.isRemoved k then others else (k, w) :: others
    | .schema =>
      match k, w with
      | .text "required", .list names =>
        let kept := names.filter (survives settings)
        if kept.isEmpty then others else (k, .list kept) :: others
      | k, w => (k, w) :: others
    | _ => (k, w) :: others

end

/-- **Prune a schema.** -/
def prune (schema : Value) : Value := pruneAs settings .schema schema

end

end ToolCatalog.Schema
