import ToolCatalog.Operation.Compile

/-!
# Compiling a document

Every operation of a document becomes a tool of the catalog.  An operation that cannot be compiled
is left out and reported; the others go on.  Of two operations with one identifier the later
replaces the earlier, in its place.
-/

namespace ToolCatalog.Catalog

/-- The methods of a path item, in the order in which its operations are compiled. -/
def methods : List String :=
  ["get", "put", "post", "delete", "options", "head", "patch", "trace"]

/-- The operations of a path item with their methods. -/
def operations (item : Keyed Value) : List (String × Value) :=
  methods.filterMap fun method =>
    match (Keyed.find? item (.text method)).map Value.opened with
    | some (.map es) => some (method, .map es)
    | _ => none

/-- An operation of a document, with what its path declares for it. -/
structure Site where
  path : Scalar
  method : String
  operation : Value
  pathParameters : Value
deriving Inhabited

/-- The operations of one path. -/
def sitesOf (path : Scalar) (item : Value) : List Site :=
  match item.opened with
  | .map es =>
    (operations es).map fun (method, operation) =>
      { path, method, operation
        pathParameters := (Value.field es "parameters").orElse (.list []) }
  | _ => []

/-- All operations of the paths of a document. -/
def sites (paths : Keyed Value) : List Site := paths.flatMap fun e => sitesOf e.1 e.2

/-- Compile the operation at a site. -/
def compileSite (c : Compiler) (site : Site) : Outcome Tool :=
  Operation.compile c site.path site.method site.operation site.pathParameters

/-- Add the tool of one operation to a catalog; an operation that fails is reported instead. -/
def addSite (c : Compiler) (catalog : Catalog) (site : Site) : Outcome Catalog :=
  (compileSite c site).inspect fun
    | .error f =>
      if f.skipsOperation then do
        .report (.operationSkipped (Text.upper site.method) site.path f)
        return catalog
      else .fail f
    | .ok tool => do
      if (catalog.find? tool.name).isSome then
        .report (.operationReplaced tool.name (Text.upper site.method) site.path)
      return catalog.put tool

/-- The paths of a document; anything but a mapping is reported and counts as none. -/
def pathsOf (document : Keyed Value) : Outcome (Keyed Value) :=
  match ((Value.field document "paths").orElse (.map [])).opened with
  | .map paths => return paths
  | v => do
    .report (.pathsIgnored v.kindName)
    return []

/-- **Compile all operations of a document** into a catalog. -/
def compile (c : Compiler) : Outcome Catalog := do
  let paths ← pathsOf (← c.document.fields)
  let catalog ← (sites paths).foldlM (addSite c) []
  .report (.catalogCompiled catalog.length paths.length)
  return catalog

end ToolCatalog.Catalog
