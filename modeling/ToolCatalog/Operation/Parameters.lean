import ToolCatalog.Outcome
import ToolCatalog.Schema.Reference
import ToolCatalog.Value.Access
import ToolCatalog.Value.Display

/-!
# The declared parameters of an operation

Parameters are declared for a path and for an operation.  A declaration may be a reference; one
that leads nowhere, that has no name or that is excluded is left out.  Of two declarations with one
name and one place the later replaces the earlier.
-/

namespace ToolCatalog.Operation

/-- A declared parameter: its name, the place it declares, as text, and the mapping that declares
it. -/
structure Declaration where
  name : String
  place : String
  fields : Keyed Value
deriving Inhabited

/-- Put a declaration after the others, or in the place of the one with its name and its place. -/
def replace (d : Declaration) : List Declaration → List Declaration
  | [] => [d]
  | e :: rest =>
    if e.name = d.name ∧ e.place = d.place then d :: rest else e :: replace d rest

/-- What an entry of a list of parameters declares, if anything. -/
def declare (settings : Settings) (document : Value) (operation : String) (entry : Value) :
    Outcome (Option Declaration) :=
  match (Schema.trace document entry).map Value.opened with
  | .error f =>
    if f.isOwn then do
      .report (.parameterUnresolved operation f)
      return none
    else .fail f
  | .ok (.map fields) =>
    match Value.field fields "name" with
    | .text name =>
      if settings.excludes (.text name) (.map fields) then do
        .report (.parameterExcluded name operation)
        return none
      else do
        let place ← (Value.field fields "in").show?
        return some { name, place, fields }
    | _ => do
      .report (.parameterMalformed operation entry)
      return none
  | .ok _ => do
    .report (.parameterMalformed operation entry)
    return none

/-- The declarations among entries, after those found already. -/
def collectFrom (settings : Settings) (document : Value) (operation : String) :
    List Declaration → List Value → Outcome (List Declaration)
  | done, [] => pure done
  | done, entry :: rest => do
    match ← declare settings document operation entry with
    | some d => collectFrom settings document operation (replace d done) rest
    | none => collectFrom settings document operation done rest

/-- **The declared parameters** of a path and of an operation, in the order of their names and
places. -/
def collect (settings : Settings) (document : Value) (operation : String)
    (pathParameters operationParameters : Value) : Outcome (List Declaration) := do
  let ofPath ← pathParameters.items
  let ofOperation ← operationParameters.items
  collectFrom settings document operation [] (ofPath ++ ofOperation)

end ToolCatalog.Operation
