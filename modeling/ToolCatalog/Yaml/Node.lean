import ToolCatalog.Yaml.Tag

/-!
# Nodes

The structure of a document: scalars, sequences and mappings with their types.  An alias stands for
a node that is elsewhere in the document, perhaps around the alias, so nodes form a graph.  Each has
a number, and collections hold the numbers of their nodes.
-/

namespace ToolCatalog.Yaml

/-- A node of a document; the nodes in it are given by their numbers. -/
inductive Node where
  | scalar (tag : Tag) (text : String)
  | sequence (tag : Tag) (items : List Nat)
  | mapping (tag : Tag) (entries : List (Nat × Nat))
deriving Inhabited

namespace Node

def tag : Node → Tag
  | scalar t _ | sequence t _ | mapping t _ => t

/-- The same node with another type. -/
def withTag (t : Tag) : Node → Node
  | scalar _ text => scalar t text
  | sequence _ items => sequence t items
  | mapping _ entries => mapping t entries

/-- The entries of a mapping. -/
def entries : Node → List (Nat × Nat)
  | mapping _ es => es
  | scalar _ _ | sequence _ _ => []

/-- The scalar that stands for what is left out. -/
def absent : Node := scalar (Tag.implicit "") ""

end Node

/-- The nodes of a document, by number. -/
abbrev Nodes := Array Node

namespace Nodes

/-- The node with a number. -/
def node (nodes : Nodes) (n : Nat) : Node := nodes[n]?.getD .absent

/-- The type of the node with a number. -/
def tagAt (nodes : Nodes) (n : Nat) : Tag := (nodes.node n).tag

/-- The nodes that have been given for the numbers below `count`. -/
def ofList (count : Nat) (given : List (Nat × Node)) : Nodes :=
  given.foldl (fun nodes e => nodes.setIfInBounds e.1 e.2) (Array.replicate count .absent)

end Nodes

/-- A document: its nodes and the number of the one that holds the others. -/
structure Graph where
  nodes : Nodes
  root : Nat
deriving Inhabited

end ToolCatalog.Yaml
