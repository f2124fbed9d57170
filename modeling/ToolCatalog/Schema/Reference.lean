import ToolCatalog.Pointer
import ToolCatalog.Settings

/-!
# References between schemas

A mapping with a text under `$ref` stands for the node that the text points at.  `trace` follows
such references from node to node, and `leadsToDeprecated` asks whether a deprecated node is met on
the way.  Both stop at a reference they have seen; as every reference after the first is spelled in
the document, the number of references there bounds the number of steps.

That number is rarely needed and a document may be too large to be looked through, so a `Bound`
begins with a fixed number of steps, and only what goes beyond is worked out from the document.
-/

namespace ToolCatalog.Schema

/-- A bound on how many references are followed, made step by step. -/
inductive Bound where
  | reached
  | further (rest : Unit → Bound)

namespace Bound

/-- The bound of `n` steps. -/
def ofNat : Nat → Bound
  | 0 => reached
  | n + 1 => further fun _ => ofNat n

/-- The bound of `n` steps and then those of another bound, which is made when it is needed. -/
def andThen (rest : Unit → Bound) : Nat → Bound
  | 0 => rest ()
  | n + 1 => further fun _ => andThen rest n

/-- The number of steps of a bound. -/
def length : Bound → Nat
  | reached => 0
  | further rest => (rest ()).length + 1

@[simp] theorem length_ofNat (n : Nat) : (ofNat n).length = n := by
  induction n with
  | zero => rfl
  | succ n ih => simp [ofNat, length, ih]

@[simp] theorem length_andThen (rest : Unit → Bound) (n : Nat) :
    (andThen rest n).length = n + (rest ()).length := by
  induction n with
  | zero => simp [andThen]
  | succ n ih =>
    simp only [andThen, length, ih]
    omega

/-- The steps that are granted before anything is counted. -/
def granted : Nat := 1000000

/-- A bound of at least as many steps as a count says. -/
def ofCount (count : Unit → Nat) : Bound := andThen (fun _ => ofNat (count ())) granted

/-- A bound is at least as long as its count. -/
theorem le_length_ofCount (count : Unit → Nat) : count () ≤ (ofCount count).length := by
  simp [ofCount]

end Bound

/-- The reference a node consists of, if it does. -/
def reference? (node : Value) : Option String :=
  match node.opened with
  | .map es =>
    match Keyed.find? es (.text "$ref") with
    | some (.text ref) => some ref
    | _ => none
  | _ => none

mutual

/-- All references spelled anywhere in a value. -/
def references : Value → List String
  | .list vs => referencesOfItems vs
  | .map es => referencesOfEntries es
  | .pair a b => references a ++ references b
  | .part _ body => references (body ())
  | .scalar _ | .set _ => []

/-- All references spelled in the items of a list. -/
def referencesOfItems : List Value → List String
  | [] => []
  | v :: vs => references v ++ referencesOfItems vs

/-- All references spelled in the entries of a mapping. -/
def referencesOfEntries : List (Scalar × Value) → List String
  | [] => []
  | (k, v) :: rest =>
    (match k, v with
      | .text "$ref", .text ref => [ref]
      | _, _ => []) ++ references v ++ referencesOfEntries rest

end

/-- Whether a node is a mapping marked as deprecated. -/
def isDeprecatedNode (node : Value) : Bool :=
  match node.opened with
  | .map es => Settings.isDeprecated es
  | _ => false

/-- The bound for following references from a node: each reference of the document once, and the
first, which need not be there. -/
def chainBound (document : Value) : Bound := .ofCount fun _ => (references document).length + 1

/-- Follow references up to a bound, past those seen, to a node that is none. -/
def traceFrom (document : Value) : Bound → List String → Value → Except Fault Value
  | bound, seen, node =>
    match reference? node with
    | none => .ok node
    | some ref =>
      if !Pointer.isLocal ref then .error (.unsupportedReference ref)
      else if seen.contains ref then .error (.circularReference ref)
      else match bound with
        | .reached => .error (.circularReference ref)
        | .further rest =>
          match Pointer.walk document ref with
          | .error e => .error e
          | .ok next => traceFrom document (rest ()) (ref :: seen) next

/-- **The node at the end of a chain of references** that starts at a node. -/
def trace (document node : Value) : Except Fault Value :=
  traceFrom document (chainBound document) [] node

/-- Follow references up to a bound, past those seen, to a deprecated node. -/
def leadsToDeprecatedFrom (document : Value) : Bound → List String → Value → Except Fault Bool
  | bound, seen, node =>
    match reference? node with
    | none => .ok false
    | some ref =>
      if !Pointer.isLocal ref || seen.contains ref then .ok false
      else match bound with
        | .reached => .ok false
        | .further rest =>
          match Pointer.walk document ref with
          | .error e => .error e
          | .ok next =>
            if isDeprecatedNode next then .ok true
            else leadsToDeprecatedFrom document (rest ()) (ref :: seen) next

/-- **Whether a chain of references** from a node meets a deprecated node after the first. -/
def leadsToDeprecated (document node : Value) : Except Fault Bool :=
  leadsToDeprecatedFrom document (chainBound document) [] node

end ToolCatalog.Schema
