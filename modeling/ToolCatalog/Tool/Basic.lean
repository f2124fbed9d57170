import ToolCatalog.Location

/-!
# Tools

A tool is one operation made ready for a caller: a schema of the arguments to ask for, and the
recipe by which they become a request.
-/

namespace ToolCatalog

/-- A parameter of a request. -/
structure WireParameter where
  name : String
  location : Location
  /-- The declared type of the parameter. -/
  type : String := "string"
  /-- The argument that the value is rebuilt from, if it is not an argument itself. -/
  derivedFrom : Option String := none
deriving DecidableEq, Inhabited

/-- The schema of a tool's arguments. -/
structure Arguments where
  type : String := "object"
  properties : List (String × Value) := []
  required : Option (List String) := none
deriving Inhabited

/-- How a tool's arguments become a request. -/
structure Recipe where
  method : String
  url : String
  bodyType : String := "json"
  parameters : List WireParameter := []
deriving DecidableEq, Inhabited

/-- One operation as a tool. -/
structure Tool where
  name : String
  description : String := ""
  arguments : Arguments
  recipe : Recipe
deriving Inhabited

namespace Recipe

/-- The first parameter with the given name. -/
def parameter? (r : Recipe) (name : String) : Option WireParameter :=
  r.parameters.find? (·.name == name)

end Recipe

/-- Tools by name, in the order in which the names first came. -/
abbrev Catalog := List (String × Tool)

namespace Catalog

/-- The tool with the given name. -/
def find? (c : Catalog) (name : String) : Option Tool :=
  (List.find? (·.1 == name) c).map (·.2)

/-- Add a tool under its name, in place of one that has the name already. -/
def put : Catalog → Tool → Catalog
  | [], t => [(t.name, t)]
  | (name, old) :: rest, t =>
    if name = t.name then (name, t) :: rest else (name, old) :: put rest t

end Catalog

end ToolCatalog
