import ToolCatalog.Number.Integer
import ToolCatalog.Fault

/-!
# References into a document

A local reference is `#/` followed by segments with a slash between them.  In a segment `~1` stands
for a slash and `~0` for a tilde.  `walk` follows the segments from the root: a segment names an
entry of a mapping or, read as an integer, an item of a list, counted from the end if negative.
-/

namespace ToolCatalog.Pointer

/-- The segments of a reference after its `#/`, if it is local. -/
def localPart? (ref : String) : Option (List Char) :=
  match ref.toList with
  | '#' :: '/' :: rest => some rest
  | _ => none

/-- Whether a reference points into the document itself. -/
def isLocal (ref : String) : Bool := (localPart? ref).isSome

/-- Cut a text at every slash. -/
def cutAtSlash : List Char → List (List Char)
  | [] => [[]]
  | '/' :: rest => [] :: cutAtSlash rest
  | c :: rest =>
    match cutAtSlash rest with
    | [] => [[c]]
    | first :: others => (c :: first) :: others

/-- Replace every tilde that is followed by `digit`, together with it, by `c`. -/
def unescapeOne (digit c : Char) : List Char → List Char
  | [] => []
  | [a] => [a]
  | a :: b :: rest =>
    if a = '~' ∧ b = digit then c :: unescapeOne digit c rest
    else a :: unescapeOne digit c (b :: rest)

/-- The name a segment spells: slashes first, then tildes. -/
def unescape (cs : List Char) : List Char :=
  unescapeOne '0' '~' (unescapeOne '1' '/' cs)

/-- The segments of a local reference, unescaped. -/
def split (ref : String) : Except Fault (List String) :=
  match localPart? ref with
  | none => .error (.unsupportedReference ref)
  | some rest => .ok ((cutAtSlash rest).map fun cs => String.ofList (unescape cs))

/-- The item at an index that counts from the end if it is negative. -/
def item? (vs : List Value) (index : Int) : Option Value :=
  let position := if index < 0 then index + vs.length else index
  if position < 0 then none else vs[position.toNat]?

/-- What one segment leads to. -/
def step? (v : Value) (segment : String) : Option Value :=
  match v.opened with
  | .map es => Keyed.find? es (.text segment)
  | .list vs => (Numeral.integer? 10 segment.toList).bind (item? vs)
  | _ => none

/-- Follow segments one after another; the first one that leads nowhere is the fault. -/
def follow (ref : String) : List String → Value → Except Fault Value
  | [], v => .ok v
  | segment :: rest, v =>
    match step? v segment with
    | some w => follow ref rest w
    | none => .error (.invalidReferencePath ref segment)

/-- **The node a reference points at**, exactly as it stands in the document. -/
def walk (document : Value) (ref : String) : Except Fault Value := do
  follow ref (← split ref) document

end ToolCatalog.Pointer
