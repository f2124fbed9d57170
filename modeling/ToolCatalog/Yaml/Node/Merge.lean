import ToolCatalog.Yaml.Cursor
import ToolCatalog.Yaml.Node

/-!
# Merge keys

A mapping takes over the entries of the mappings under its merge keys, in front of its own.  This
changes the node itself, and so what every alias of it stands for.

A merge key is taken out before what stands under it is looked at.  So a mapping that takes itself
over finds the entries that it has at that time, and taking over always ends.
-/

namespace ToolCatalog.Yaml

/-- A step that changes the nodes of a document. -/
abbrev Rework := StateT Nodes (Except Failure)

namespace Rework

/-- Cut entries at the first one with a merge key: those before it, what stands under the key, and
those behind it. -/
def cutAtMerge (nodes : Nodes) : List (Nat × Nat) →
    Option (List (Nat × Nat) × Nat × List (Nat × Nat))
  | [] => none
  | (key, value) :: rest =>
    if nodes.tagAt key == .merge then some ([], value, rest)
    else (cutAtMerge nodes rest).map fun (before, found, after) =>
      ((key, value) :: before, found, after)

/-- Take the first merge key out of a mapping and give what stands under it. -/
def takeMerge (n : Nat) : Rework (Option Nat) :=
  modifyGet fun nodes =>
    match nodes.node n with
    | .mapping tag es =>
      match cutAtMerge nodes es with
      | some (before, value, after) =>
        (some value, nodes.setIfInBounds n (.mapping tag (before ++ after)))
      | none => (none, nodes)
    | _ => (none, nodes)

/-- The entries of a mapping as they are now. -/
def entriesAt (n : Nat) : Rework (List (Nat × Nat)) := return ((← get).node n).entries

/-- Put entries in front of those of a mapping. -/
def putBefore (taken : List (Nat × Nat)) (n : Nat) : Rework Unit := do
  if !taken.isEmpty then
    modify fun nodes => nodes.modify n fun node => .mapping node.tag (taken ++ node.entries)

/-- Make a node that would stand for the value of a mapping a text like others. -/
def plainKey (n : Nat) : Rework Unit := do
  if (← get).tagAt n == .value then modify fun nodes => nodes.modify n (·.withTag .text)

mutual

/-- Give a mapping all its entries.  The key `=` is then a text like others. -/
def settle : Nat → Nat → Rework Unit
  | 0, _ => throw .malformed
  | fuel + 1, n => do
    putBefore (← takeOver fuel n) n
    for e in ← entriesAt n do plainKey e.1

/-- The entries of the mappings under the merge keys of a mapping.  Of a sequence of mappings those
of the last one come first, so that those of the first one count. -/
def takeOver : Nat → Nat → Rework (List (Nat × Nat))
  | 0, _ => throw .malformed
  | fuel + 1, n => do
    match ← takeMerge n with
    | none => return []
    | some value =>
      let taken ← match (← get).node value with
        | .mapping _ _ => do
          settle fuel value
          entriesAt value
        | .sequence _ items => do
          let parts ← items.mapM fun item => do
            match (← get).node item with
            | .mapping _ _ =>
              settle fuel item
              entriesAt item
            | _ => throw .malformed
          pure parts.reverse.flatten
        | .scalar _ _ => throw .malformed
      return taken ++ (← takeOver fuel n)

end

end Rework

/-- A bound for taking over entries: each step takes out a merge key for good or is one of two that
lead to the next such step. -/
def Nodes.mergeBound (nodes : Nodes) : Nat :=
  3 * nodes.foldl (fun n node => n + node.entries.length) 0 + 3

end ToolCatalog.Yaml
