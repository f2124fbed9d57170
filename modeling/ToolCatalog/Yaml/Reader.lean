import ToolCatalog.Yaml.Node.Grammar
import ToolCatalog.Yaml.Object.Building
import ToolCatalog.Yaml.Token.Stream

/-!
# Reading YAML

A text is cut into tokens, the tokens spell a graph of nodes, the nodes stand for objects, and the
object of the whole document has the value that is read.
-/

namespace ToolCatalog.Yaml

/-- **Read a YAML text** that has at most one document; a text without one reads as null. -/
def read (text : String) : Except Failure Value := do
  let (found, failure) := tokens text
  match ← Graph.ofTokens found failure with
  | none => return .null
  | some graph =>
    let objects ← Objects.ofGraph graph
    return objects.valueOf graph.root

end ToolCatalog.Yaml
