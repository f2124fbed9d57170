import ToolCatalog.Pointer

/-!
# Paths of output files

A path is a list of names with slashes between them.  Empty names and single dots lead nowhere, so
a path is spelled without them.
-/

namespace ToolCatalog.CommandLine.Path

/-- The names along a path. -/
def names (path : String) : List (List Char) :=
  (Pointer.cutAtSlash path.toList).filter fun name => !name.isEmpty && name != ['.']

/-- Where a path starts: at the root if it begins with a slash, and exactly two slashes spell a root
of their own. -/
def root : List Char → List Char
  | '/' :: '/' :: '/' :: _ => ['/']
  | '/' :: '/' :: _ => ['/', '/']
  | '/' :: _ => ['/']
  | _ => []

/-- **A path in its shortest spelling.**  One without any name is the working directory. -/
def tidy (path : String) : String :=
  match root path.toList ++ ['/'].intercalate (names path) with
  | [] => "."
  | cs => String.ofList cs

/-- Whether a path can be that of a file: it ends in a name, and not in that of the directory
above. -/
def namesFile (path : String) : Bool :=
  match (names path).getLast? with
  | some name => name != ['.', '.']
  | none => false

/-- The directory part of a path, if it has one. -/
def directory? (path : String) : Option String :=
  let above := (path.toList.reverse.dropWhile (· != '/')).drop 1
  if above.isEmpty then none else some (String.ofList above.reverse)

end ToolCatalog.CommandLine.Path
