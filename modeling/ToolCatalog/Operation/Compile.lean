import ToolCatalog.Document.Server
import ToolCatalog.Operation.Body
import ToolCatalog.Operation.Parameters
import ToolCatalog.Text.Uppercase
import ToolCatalog.Tool.Basic
import ToolCatalog.Upload
import ToolCatalog.Value.Field

/-!
# Compiling an operation

The parameters of an operation and the properties of its body become one list of named parameters.
From it come the arguments a tool asks for and the parameters it sends.
-/

namespace ToolCatalog

/-- A document with the settings it is compiled under and the address of its server. -/
structure Compiler where
  document : Value
  settings : Settings
  baseUrl : String
deriving Inhabited

namespace Compiler

/-- Make a document ready for compilation. -/
def create (document : Value) (settings : Settings) : Except Fault Compiler := do
  return { document, settings, baseUrl := ← Server.baseUrl settings document }

end Compiler

namespace Operation

/-- The parameters of an operation gathered so far: for each name its schema and its place, and the
names that are required. -/
structure Signature where
  properties : Keyed Value := []
  locations : Keyed Location := []
  required : List Value := []
deriving Inhabited

namespace Signature

/-- Add a named parameter, in place of one that has the name already. -/
def add (s : Signature) (name : Scalar) (schema : Value) (location : Location) : Signature :=
  { s with
    properties := Keyed.put s.properties name schema
    locations := Keyed.put s.locations name location }

/-- Add the names that are required and are not yet. -/
def require (s : Signature) (names : List Value) : Signature :=
  { s with required := Value.union s.required names }

end Signature

/-- The schema of a declared parameter: its own one, with the description of the parameter. -/
def parameterSchema (d : Declaration) : Except Fault Value := do
  let schema ← ((Value.field d.fields "schema").orElse (.map [])).toEntries
  match Keyed.find? d.fields (.text "description") with
  | some description => return .map (Keyed.put schema (.text "description") description)
  | none => return .map schema

/-- The concrete schema of a declared parameter. -/
def mergedParameter (c : Compiler) (d : Declaration) : Outcome Value := do
  Schema.merge c.settings c.document [] (← parameterSchema d)

/-- Whether a required declaration makes its name required: a parameter that may be null is not
required unless it is a part of the path. -/
def isRequired (d : Declaration) (schema : Value) (location : Location) : Bool :=
  (Value.field d.fields "required").truthy
    && (location == .path || !Schema.isNullable schema)

/-- Add declared parameters, one after another.  One whose schema cannot be had is skipped. -/
def addDeclared (c : Compiler) (operation : String) :
    Signature → List Declaration → Outcome Signature
  | s, [] => pure s
  | s, d :: rest =>
    (mergedParameter c d).inspect fun
      | .error f =>
        if f.skipsParameter then do
          .report (.parameterSkipped (.text d.name) operation f)
          addDeclared c operation s rest
        else .fail f
      | .ok schema => do
        let location ← Location.classify (.map d.fields)
        let s := s.add (.text d.name) schema location
        let s := if isRequired d schema location then s.require [.text d.name] else s
        addDeclared c operation s rest

/-- Add the properties of a body. -/
def addProperties : Signature → Keyed Value → Except Fault Signature
  | s, [] => .ok s
  | s, (name, schema) :: rest => do
    addProperties (s.add name schema (← Location.classify schema)) rest

/-- Add the properties of a body and the names it requires.  A body that is not an object adds
nothing. -/
def addBody (operation : String) (s : Signature) (body : Value) : Outcome Signature :=
  match body with
  | .map es => do
    let properties ← ((Value.field es "properties").orElse (.map [])).fields
    let s ← addProperties s properties
    let required ← ((Value.field es "required").orElse (.list [])).items
    return s.require required
  | .null => return s
  | _ => do
    .report (.bodyIgnored operation)
    return s

/-- **The named parameters of an operation**: the declared ones, then the properties of its
body. -/
def signature (c : Compiler) (operation : String) (fields : Keyed Value) (pathParameters : Value)
    (body : Value) : Outcome Signature := do
  let declarations ← collect c.settings c.document operation pathParameters
    ((Value.field fields "parameters").orElse (.list []))
  addBody operation (← addDeclared c operation {} declarations) body

/-- Names that are looked up among the removed ones: a collection cannot be. -/
def withoutRemoved (settings : Settings) : List Value → Except Fault (List Value)
  | [] => .ok []
  | name :: rest =>
    match name with
    | .scalar k => do
      let rest' ← withoutRemoved settings rest
      return if settings.isRemoved k then rest' else name :: rest'
    | v => if v.isKey then return v :: (← withoutRemoved settings rest) else throw .notKey

/-- A parameter of the request: its type comes from the schema as declared. -/
def wireParameter (declared : Keyed Value) (derived : List (String × String)) (k : Scalar)
    (location : Location) : Except Fault WireParameter := do
  return {
    name := ← Field.key k
    location
    type := Schema.wireType ((Keyed.find? declared k).getD .null)
    derivedFrom := (derived.find? fun d => (Scalar.text d.1).same k).map (·.2) }

/-- **The tool of a signature.** -/
def assemble (c : Compiler) (name description : Value) (method : String) (path : Scalar)
    (body : Option Body) (s : Signature) : Except Fault Tool := do
  let schema := (body.map (·.schema)).getD .null
  let simplified : Upload.Simplified :=
    if Upload.isUpload c.settings s.locations schema then
      Upload.simplify c.settings s.properties s.locations s.required
    else
      { properties := s.properties, locations := s.locations, required := s.required
        derived := [], uiOnly := [] }
  let properties := simplified.properties.filter fun e => !c.settings.isRemoved e.1
  let required ← withoutRemoved c.settings simplified.required
  let sent := simplified.locations.filter fun e =>
    !(simplified.uiOnly.any fun n => (Scalar.text n).same e.1) && !c.settings.isRemoved e.1
  let parameters ← sent.mapM fun e => wireParameter s.properties simplified.derived e.1 e.2
  let properties ← Field.named properties
  let required ← required.mapM Field.text
  let url := c.baseUrl ++ (← (Value.scalar path).show?)
  return {
    name := ← Field.text name
    description := ← Field.text description
    arguments := { properties, required := if required.isEmpty then none else some required }
    recipe := { method, url, bodyType := (body.map (·.encoding)).getD "json", parameters } }

/-- The identifier of an operation, if it has one that is not blank. -/
def identifier? (fields : Keyed Value) : Option String :=
  match Value.field fields "operationId" with
  | .text name => if Text.allBlank name then none else some name
  | _ => none

/-- The description of an operation: its summary or else its longer description. -/
def description (fields : Keyed Value) : Value :=
  ((Value.field fields "summary").orElse (Value.field fields "description")).orElse (.text "")

/-- **Compile an operation** into a tool. -/
def compile (c : Compiler) (path : Scalar) (method : String) (operation pathParameters : Value) :
    Outcome Tool := do
  let fields ← operation.fields
  let method := Text.upper method
  match identifier? fields with
  | none => do
    let place ← (Value.scalar path).show?
    .fail (.missingOperationId method place)
  | some name =>
    .report (.operationStarted name method path)
    let body ← requestBody c.settings c.document fields
    let s ← signature c name fields pathParameters ((body.map (·.schema)).getD .null)
    assemble c (.text name) (description fields) method path body s

end Operation

end ToolCatalog
