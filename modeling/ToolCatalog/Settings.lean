import ToolCatalog.Value.Field

/-!
# Settings

What the caller of a compilation may choose: the server, the names to leave out of every tool, the
names that mark an upload, and the mark of vendor extensions.
-/

namespace ToolCatalog

/-- The options of one compilation. -/
structure Settings where
  /-- The server to call, in place of the one the document declares. -/
  baseUrl : Option String := none
  /-- The server to call if the document declares none. -/
  defaultBaseUrl : String := ""
  /-- Names of parameters and properties that no tool may have. -/
  removed : List String := []
  /-- Body properties whose presence marks an upload. -/
  fileDetectionNames : List String := ["content", "file", "file_format"]
  /-- Parameters that an upload rebuilds from the path of a local file. -/
  fileParameterNames : List String := ["name", "content", "file_format"]
  /-- How the names of vendor extensions begin. -/
  vendorMark : String := "x-"
deriving DecidableEq, Inhabited

namespace Settings

/-- Whether a name is removed from every tool. -/
def isRemoved (s : Settings) (name : Scalar) : Bool :=
  s.removed.any fun r => (Scalar.text r).same name

/-- Whether a schema or parameter is marked as deprecated: only `true` itself marks it. -/
def isDeprecated (es : Keyed Value) : Bool :=
  match Keyed.find? es (.text "deprecated") with
  | some (.bool true) => true
  | _ => false

/-- Whether a named property or parameter must not reach a tool. -/
def excludes (s : Settings) (name : Scalar) (node : Value) : Bool :=
  s.isRemoved name || match node.opened with
    | .map es => isDeprecated es
    | _ => false

/-- Whether a name begins with the mark of vendor extensions. -/
def isVendor (s : Settings) (name : String) : Bool :=
  s.vendorMark.toList.isPrefixOf name.toList

/-- Read settings from a record; a field that is missing has its default. -/
def decode (v : Value) : Except Fault Settings := do
  let es ← Field.mapping v
  let d : Settings := {}
  let textsOr := fun (default : List String) (name : String) =>
    match Field.find? es name with
    | none => pure default
    | some names => Field.texts names
  return {
    baseUrl := ← Field.optionalText (Field.find? es "base_url")
    defaultBaseUrl := ← Field.textOr d.defaultBaseUrl (Field.find? es "default_base_url")
    removed := (← textsOr d.removed "removed_params").eraseDups
    fileDetectionNames := ← textsOr d.fileDetectionNames "file_detection_names"
    fileParameterNames := ← textsOr d.fileParameterNames "file_parameter_names"
    vendorMark := ← Field.textOr d.vendorMark (Field.find? es "vendor_extension_prefix") }

/-- Settings as a record, with the removed names in order. -/
def encode (s : Settings) : Value :=
  let texts := fun (names : List String) => Value.list (names.map .text)
  .record [("base_url", (s.baseUrl.map .text).getD .null),
    ("default_base_url", .text s.defaultBaseUrl),
    ("removed_params", texts (s.removed.mergeSort fun a b => !(b < a : Bool))),
    ("file_detection_names", texts s.fileDetectionNames),
    ("file_parameter_names", texts s.fileParameterNames),
    ("vendor_extension_prefix", .text s.vendorMark)]

end Settings

end ToolCatalog
