import ToolCatalog.Value.Access

/-!
# Where a parameter travels

A declared parameter says with `in` where it goes; a property of the request body goes into the
body, as a file if its schema is that of file content.
-/

namespace ToolCatalog

/-- A place in a request. -/
inductive Location where
  | header
  | query
  | path
  | body
  | file
deriving DecidableEq, Inhabited

namespace Location

def name : Location → String
  | header => "header"
  | query => "query"
  | path => "path"
  | body => "body"
  | file => "file"

/-- The place with the given name. -/
def ofName? : String → Option Location
  | "header" => some header
  | "query" => some query
  | "path" => some path
  | "body" => some body
  | "file" => some file
  | _ => none

/-- The place that a parameter declares.  Cookies are sent in a header; whatever is not declared
in a known way travels in the body. -/
def declared : String → Location
  | "header" => header
  | "query" => query
  | "path" => path
  | "cookie" => header
  | _ => body

/-- Whether a string format is that of file content.  Formats are looked up among keys, so a list
or a mapping is a fault. -/
def isFileFormat (format : Value) : Except Fault Bool :=
  match format.opened with
  | .text s => .ok (s == "binary" || s == "base64")
  | .set _ => .ok false
  | v => if v.isKey then .ok false else .error .notKey

/-- Whether a mapping is the schema of a string with a file format. -/
def isFileString (es : Keyed Value) : Except Fault Bool :=
  match Value.field es "type" with
  | .text "string" => isFileFormat (Value.field es "format")
  | _ => .ok false

/-- **Whether a schema is that of file content**, directly or as the items of an array. -/
def isFileSchema (schema : Value) : Except Fault Bool :=
  match schema.opened with
  | .map es =>
    match Value.field es "type", (Value.field es "items").opened with
    | .text "array", .map items => isFileString items
    | _, _ => isFileString es
  | _ => .ok false

/-- **The place of a parameter or of a body property.**  Where `in` is found, its value decides;
where it is not, the schema does.  The search for `in` goes through any collection or text, but
only a mapping can then give its value. -/
def classify (node : Value) : Except Fault Location := do
  if ← node.holds "in" then
    let place ← node.under "in"
    match place with
    | .text s => return declared s
    | v => if v.isKey then return body else throw .notKey
  else
    return if ← isFileSchema node then file else body

end Location

end ToolCatalog
