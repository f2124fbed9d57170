import ToolCatalog.Tool.Basic
import ToolCatalog.Value.Display
import ToolCatalog.Value.Field

/-!
# The wire form of tools

A tool is written as a JSON object and read back from one.  In writing, an optional field that is
not set is left out, and the schemas of the arguments become plain JSON: keys become texts,
calendar values their calendar form, and numbers that JSON cannot write become null.  Not all data
has such a form: `refusal?` finds the first thing that has none, and `publish` writes a tool only if
there is nothing of the kind.  In reading, a field of two words is taken under either spelling,
fields that are not known are ignored, and a field that is missing or of the wrong type is a fault.
-/

namespace ToolCatalog

namespace Scalar

/-- The text that bytes encode; bytes that encode none become a text with replacements. -/
def decoded (bs : List UInt8) : String :=
  (String.fromUTF8? ⟨bs.toArray⟩).getD (String.ofList (bs.map fun _ => '\uFFFD'))

/-- A scalar of a schema in plain JSON. -/
def plain : Scalar → Scalar
  | float x => if x.isFinite then float x else null
  | date d => text d.iso
  | timestamp t => text t.isoZulu
  | bytes bs => text (decoded bs)
  | s => s

/-- A key of a schema in plain JSON. -/
def plainKey : Scalar → String
  | text s => s
  | bool b => if b then "true" else "false"
  | date d => d.iso
  | timestamp t => t.isoZulu
  | bytes bs => decoded bs
  | float x => if x.isFinite then (float x).quoted else null.quoted
  | s => s.quoted

/-- Why a scalar has no form in plain JSON, if it has none: its bytes encode no text. -/
def refusal? : Scalar → Option Fault
  | bytes bs => if (String.fromUTF8? ⟨bs.toArray⟩).isSome then none else some .undecodable
  | _ => none

/-- Why a scalar has no form as a key in plain JSON, if it has none. -/
def refusalAsKey? (k : Scalar) : Option Fault :=
  if k.isModerate then k.refusal? else some .excessiveDigits

end Scalar

namespace Value

mutual

/-- A schema in plain JSON. -/
def plain : Value → Value
  | .scalar s => .scalar s.plain
  | .list vs => .list (plainItems vs)
  | .map es => .map (Keyed.ofList (plainEntries es))
  | .pair a b => .list [a.plain, b.plain]
  | .set ms => .list (ms.map fun m => .scalar m.plain)
  | .part _ body => (body ()).plain

/-- The items of a list in plain JSON. -/
def plainItems : List Value → List Value
  | [] => []
  | v :: vs => v.plain :: plainItems vs

/-- The entries of a mapping in plain JSON. -/
def plainEntries : List (Scalar × Value) → List (Scalar × Value)
  | [] => []
  | (k, v) :: rest => (.text k.plainKey, v.plain) :: plainEntries rest

end

/-- How many values may stand one inside the other in a schema of the arguments. -/
def maxDepth : Nat := 255

mutual

/-- Why a value has no form in plain JSON, if it has none.  Its contents are looked at in order, a
key before what is under it; `levels` is the number of values that may stand one inside the other,
so a part that leads back to itself has no form. -/
def refusal? : Nat → Value → Option Fault
  | 0, _ => some .excessiveDepth
  | levels + 1, v =>
    match v with
    | .scalar s => s.refusal?
    | .list vs => refusalInItems? levels vs
    | .map es => refusalInEntries? levels es
    | .pair a b => refusal? levels a <|> refusal? levels b
    | .set ms =>
      if levels = 0 && !ms.isEmpty then some .excessiveDepth else ms.findSome? Scalar.refusal?
    | .part _ body => refusal? (levels + 1) (body ())

/-- Why one of the items of a list has no form in plain JSON. -/
def refusalInItems? (levels : Nat) : List Value → Option Fault
  | [] => none
  | v :: vs => refusal? levels v <|> refusalInItems? levels vs

/-- Why one of the entries of a mapping has no form in plain JSON. -/
def refusalInEntries? (levels : Nat) : List (Scalar × Value) → Option Fault
  | [] => none
  | (k, v) :: rest =>
    k.refusalAsKey? <|> refusal? levels v <|> refusalInEntries? levels rest

end

end Value

namespace WireParameter

/-- The wire form of a parameter. -/
def encode (p : WireParameter) : Value :=
  .record ([("name", .text p.name), ("location", .text p.location.name), ("type", .text p.type)]
    ++ match p.derivedFrom with
      | some source => [("derivedFrom", .text source)]
      | none => [])

end WireParameter

namespace Arguments

/-- The wire form of the schema of the arguments. -/
def encode (a : Arguments) : Value :=
  .record ([("type", .text a.type),
      ("properties", .record (a.properties.map fun p => (p.1, p.2.plain)))]
    ++ match a.required with
      | some names => [("required", .list (names.map .text))]
      | none => [])

end Arguments

namespace Recipe

/-- The wire form of a recipe. -/
def encode (r : Recipe) : Value :=
  .record [("method", .text r.method), ("url", .text r.url), ("bodyType", .text r.bodyType),
    ("params", .list (r.parameters.map WireParameter.encode))]

end Recipe

namespace Tool

/-- **The wire form of a tool.** -/
def encode (t : Tool) : Value :=
  .record [("name", .text t.name), ("description", .text t.description),
    ("parameters", t.arguments.encode), ("execute", t.recipe.encode)]

/-- The wire form of a tool to be published: the schemas of its arguments need a form in plain
JSON. -/
def publish (t : Tool) : Except Fault Value :=
  match t.arguments.properties.findSome? fun p => p.2.refusal? Value.maxDepth with
  | some f => .error f
  | none => .ok t.encode

end Tool

namespace WireParameter

/-- Read a parameter from its wire form. -/
def decode (v : Value) : Except Fault WireParameter := do
  let es ← Field.mapping v
  let name ← Field.text (← Field.needed (Field.find? es "name"))
  let place ← Field.text (← Field.needed (Field.find? es "location"))
  let type ← Field.textOr "string" (Field.find? es "type")
  let derivedFrom ← Field.optionalText (Field.findEither? es "derivedFrom" "derived_from")
  match Location.ofName? place with
  | some location => return { name, location, type, derivedFrom }
  | none => throw .rejectedField

end WireParameter

namespace Arguments

/-- Read the schema of the arguments from its wire form. -/
def decode (v : Value) : Except Fault Arguments := do
  let es ← Field.mapping v
  let type ← Field.textOr "object" (Field.find? es "type")
  let properties ← match Field.find? es "properties" with
    | none => pure []
    | some ps => Field.named (← Field.mapping ps)
  let required ← match Field.find? es "required" with
    | none | some .null => pure none
    | some names => some <$> Field.texts names
  return { type, properties, required }

end Arguments

namespace Recipe

/-- Read a recipe from its wire form. -/
def decode (v : Value) : Except Fault Recipe := do
  let es ← Field.mapping v
  let method ← Field.text (← Field.needed (Field.find? es "method"))
  let url ← Field.text (← Field.needed (Field.find? es "url"))
  let bodyType ← Field.textOr "json" (Field.findEither? es "bodyType" "body_type")
  let parameters ← match Field.find? es "params" with
    | none => pure []
    | some ps => (← Field.list ps).mapM WireParameter.decode
  return { method, url, bodyType, parameters }

end Recipe

namespace Tool

/-- **Read a tool from its wire form.** -/
def decode (v : Value) : Except Fault Tool := do
  let es ← Field.mapping v
  let name ← Field.text (← Field.needed (Field.find? es "name"))
  let description ← Field.textOr "" (Field.find? es "description")
  let arguments ← Arguments.decode (← Field.needed (Field.find? es "parameters"))
  let recipe ← Recipe.decode (← Field.needed (Field.find? es "execute"))
  return { name, description, arguments, recipe }

/-- Whether two tools have equal fields; schemas are compared as values. -/
def same (t u : Tool) : Bool :=
  t.name == u.name && t.description == u.description && t.recipe == u.recipe
    && t.arguments.type == u.arguments.type && t.arguments.required == u.arguments.required
    && (Value.record t.arguments.properties).same (Value.record u.arguments.properties)

end Tool

end ToolCatalog
