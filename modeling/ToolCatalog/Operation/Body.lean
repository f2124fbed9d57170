import ToolCatalog.Schema.Merge
import ToolCatalog.Value.Access

/-!
# The body of a request

Of the media types a body is declared for, the first that is supported is used, in a fixed order of
preference; each determines how the body is encoded.
-/

namespace ToolCatalog.Operation

/-- The supported media types, best first, each with the encoding of the body. -/
def mediaTypes : List (String × String) :=
  [("application/json", "json"), ("multipart/form-data", "form-data"),
   ("application/x-www-form-urlencoded", "form")]

/-- The first of the given media types that a body is declared for, with its declaration. -/
def pickMedia (content : Value) : List (String × String) → Except Fault (Option (Value × String))
  | [] => .ok none
  | (media, encoding) :: rest => do
    if ← content.holds media then return some (← content.under media, encoding)
    else pickMedia content rest

/-- A body with a supported media type: its concrete schema and its encoding. -/
structure Body where
  schema : Value
  encoding : String
deriving Inhabited

/-- **The body of an operation**, if it has one that is supported. -/
def requestBody (settings : Settings) (document : Value) (operation : Keyed Value) :
    Outcome (Option Body) := do
  let declared := Value.field operation "requestBody"
  if !declared.truthy then return none
  else
    let body ← (← Schema.trace document declared).fields
    let content := (Value.field body "content").orElse (.map [])
    match ← pickMedia content mediaTypes with
    | some (media, encoding) =>
      let fields ← (media.orElse (.map [])).fields
      let schema ← Schema.merge settings document [] ((Value.field fields "schema").orElse (.map []))
      return some ⟨schema, encoding⟩
    | none =>
      .report (.mediaUnsupported (← Value.sorted (← content.items)))
      return none

end ToolCatalog.Operation
