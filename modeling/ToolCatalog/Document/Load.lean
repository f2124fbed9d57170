import ToolCatalog.Json.Reader
import ToolCatalog.Value.Access
import ToolCatalog.Value.Display
import ToolCatalog.Yaml.Reader

/-!
# Loading a document

A document is a JSON or a YAML text whose root is a mapping that declares version 3 of the format.
-/

namespace ToolCatalog.Document

/-- The version a document declares, as text, if it declares one.  Documents of the earlier format
declare it under `swagger`. -/
def version? (document : Value) : Except Fault (Option String) :=
  match document.opened with
  | .map es =>
    match (Value.field es "openapi").orElse (Value.field es "swagger") with
    | .null => .ok none
    | v => some <$> v.show?
  | _ => .ok none

/-- Whether a version is one of the supported format. -/
def isSupported (version : String) : Bool := ['3', '.'].isPrefixOf version.toList

/-- A value that has been read, checked to be a supported document. -/
def check (v : Value) : Except Fault Value :=
  match v.opened with
  | .map es => do
    match ← version? (.map es) with
    | some version =>
      if isSupported version then return .map es
      else throw (.unsupportedVersion (if version = "" then none else some version))
    | none => throw (.unsupportedVersion none)
  | _ => .error .rootNotMapping

/-- The fault of a text that has no value as YAML. -/
def faultOf : Yaml.Failure → Fault
  | .malformed => .neitherJsonNorYaml
  | .impossible => .impossibleScalar
  | .excessiveCode => .excessiveCode
  | .unlistedWord => .unlistedWord
  | .emptyNumber => .emptyNumber
  | .formlessTimestamp => .formlessTimestamp
  | .structuredTimestamp => .structuredTimestamp
  | .excessivePlace => .excessivePlace

/-- The value of a text, which is read as YAML if it is not JSON. -/
def read (text : String) : Except Fault Value :=
  match Json.read? text with
  | some v => .ok v
  | none =>
    match Yaml.read text with
    | .ok v => .ok v
    | .error e => .error (faultOf e)

/-- **Load a document from its text.** -/
def load (text : String) : Except Fault Value := do
  check (← read text)

end ToolCatalog.Document
