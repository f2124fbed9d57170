import ToolCatalog.Yaml.Cursor

/-!
# Tokens of YAML
-/

namespace ToolCatalog.Yaml

/-- A directive in front of a document. -/
inductive Directive where
  | version (major minor : Nat)
  | tag (handle expansion : String)
  | other
deriving DecidableEq

/-- A tag as it is written: a handle, if it has one, and the rest. -/
structure TagName where
  handle : Option String
  suffix : String
deriving DecidableEq

/-- A token.  The starts and ends of block collections stand for changes of indentation. -/
inductive Token where
  | directive (d : Directive)
  | documentStart
  | documentEnd
  | streamEnd
  | blockSequenceStart
  | blockMappingStart
  | blockEnd
  | flowSequenceStart
  | flowSequenceEnd
  | flowMappingStart
  | flowMappingEnd
  | blockEntry
  | flowEntry
  | key
  | value
  | alias (name : String)
  | anchor (name : String)
  | tag (name : TagName)
  | scalar (plain : Bool) (text : String)
deriving DecidableEq

end ToolCatalog.Yaml
