import ToolCatalog.Location
import ToolCatalog.Settings

/-!
# Uploads

An operation that uploads a file usually asks for several fields that one local path determines:
the content, the name, the format.  `simplify` hides those fields behind a single argument
`file_path` and records for each hidden field that it is rebuilt from that argument.
-/

namespace ToolCatalog.Upload

/-- The argument that the hidden fields are rebuilt from. -/
def filePath : String := "file_path"

/-- The schema of the argument. -/
def filePathSchema : Value :=
  .map [(.text "type", .text "string"),
    (.text "description", .text ("Path to the file to upload. " ++
      "The filename and format will be automatically extracted from the path."))]

/-- The parameters of an operation as its tool presents them. -/
structure Simplified where
  /-- What the caller is asked for. -/
  properties : Keyed Value
  /-- Where each parameter travels. -/
  locations : Keyed Location
  required : List Value
  /-- For each hidden parameter the argument it is rebuilt from. -/
  derived : List (String × String)
  /-- Arguments that are not sent themselves. -/
  uiOnly : List String

/-- **Whether an operation uploads a file**: a parameter travels as one, or the body has a
property with a telling name or with binary content. -/
def isUpload (settings : Settings) (locations : Keyed Location) (body : Value) : Bool :=
  locations.any (·.2 == .file) ||
    match body.get? "properties" with
    | some (.map properties) =>
      settings.fileDetectionNames.any (fun name => Keyed.has properties (.text name)) ||
        properties.any fun e =>
          match e.2.get? "format" with
          | some (.text "binary") => true
          | _ => false
    | _ => false

/-- Whether a name is one that an upload rebuilds. -/
def isFileParameter (settings : Settings) (name : Value) : Bool :=
  settings.fileParameterNames.any fun n => (Value.text n).same name

/-- **Hide the fields of an upload behind `file_path`.**  Parameters that have that name already
are left as they are. -/
def simplify (settings : Settings) (properties : Keyed Value) (locations : Keyed Location)
    (required : List Value) : Simplified :=
  if Keyed.has properties (.text filePath) then
    { properties, locations, required, derived := [], uiOnly := [] }
  else
    let hidden :=
      (settings.fileParameterNames.filter fun n => Keyed.has properties (.text n)).eraseDups
    { properties :=
        Keyed.put (properties.filter fun e => !hidden.any fun n => (Scalar.text n).same e.1)
          (.text filePath) filePathSchema
      locations := Keyed.put locations (.text filePath) .file
      required := required.filter (fun name => !isFileParameter settings name) ++ [.text filePath]
      derived := hidden.map (·, filePath)
      uiOnly := [filePath] }

end ToolCatalog.Upload
