import ToolCatalog.Settings

/-!
# Keywords of a schema

What stands under a keyword decides how it is merged.  Most keywords hold schemas or lists of them;
`properties` and a few others map names, which are not keywords, to schemas; and a few hold plain
data, in which nothing is a keyword.
-/

namespace ToolCatalog.Schema

/-- What stands under a keyword. -/
inductive Role where
  /-- A mapping from property names to schemas, some of which may have to be left out. -/
  | properties
  /-- A mapping from names to schemas. -/
  | names
  /-- Data. -/
  | literal
  /-- A schema, or a list of schemas. -/
  | schema
deriving DecidableEq, Inhabited

/-- Keywords under which a mapping gives schemas to names of the author's choice. -/
def nameMapKeywords : List String :=
  ["patternProperties", "$defs", "definitions", "dependentSchemas"]

/-- Keywords whose values are data. -/
def literalKeywords : List String := ["enum", "const", "default", "example", "examples"]

/-- The role of what stands under a keyword. -/
def roleOf (keyword : String) : Role :=
  if keyword = "properties" then .properties
  else if nameMapKeywords.contains keyword then .names
  else if literalKeywords.contains keyword then .literal
  else .schema

/-- Whether null is allowed: by the `nullable` flag or as one of several types. -/
def isNullable : Value → Bool
  | .map es =>
    (match Keyed.find? es (.text "nullable") with
      | some (.bool true) => true
      | _ => false) ||
    (match Keyed.find? es (.text "type") with
      | some (.list types) => types.any (Value.same (.text "null"))
      | _ => false)
  | _ => false

/-- The type a wire parameter is given: the declared one, or of several the first that is not
null.  Whatever declares no type travels as a string. -/
def wireType : Value → String
  | .map es =>
    let declared := match Keyed.find? es (.text "type") with
      | some (.list types) => types.find? fun t => !Value.same (.text "null") t
      | other => other
    match declared with
    | some (.text name) => name
    | _ => "string"
  | _ => "string"

end ToolCatalog.Schema
