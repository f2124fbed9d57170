import ToolCatalog.Settings
import ToolCatalog.Text.Blank
import ToolCatalog.Value.Access
import ToolCatalog.Value.Display

/-!
# The server of a document

The address of a document's first server may have variables in braces, each of which is replaced
by its default.  An address is cut once into characters and variables, from left to right, so text
that comes from a default is never looked at again.
-/

namespace ToolCatalog.Server

/-- A piece of an address. -/
inductive Piece where
  | char (c : Char)
  | variable (name : List Char)
deriving DecidableEq

/-- The characters before the next closing brace and those after it, if there is one. -/
def cutAtBrace : List Char → Option (List Char × List Char)
  | [] => none
  | c :: rest =>
    if c = '}' then some ([], rest)
    else (cutAtBrace rest).map fun (name, rest') => (c :: name, rest')

theorem cutAtBrace_length {cs name rest : List Char} (h : cutAtBrace cs = some (name, rest)) :
    rest.length < cs.length := by
  induction cs generalizing name rest with
  | nil => simp [cutAtBrace] at h
  | cons c cs ih =>
    unfold cutAtBrace at h
    split at h
    · simp only [Option.some.injEq, Prod.mk.injEq] at h
      simp [← h.2]
    · simp only [Option.map_eq_some_iff, Prod.mk.injEq, Prod.exists] at h
      obtain ⟨name', rest', hcut, _, hrest⟩ := h
      have := ih hcut
      simp only [← hrest, List.length_cons]
      omega

/-- **Cut an address into pieces.**  A variable is an opening brace, at least one character that is
no closing brace, and a closing brace; an opening brace that begins no variable is a character. -/
def pieces (cs : List Char) : List Piece :=
  match cs with
  | [] => []
  | '{' :: rest =>
    match _hcut : cutAtBrace rest with
    | some (c :: name, rest') => .variable (c :: name) :: pieces rest'
    | _ => .char '{' :: pieces rest
  | c :: rest => .char c :: pieces rest
termination_by cs.length
decreasing_by
  · have := cutAtBrace_length _hcut
    simp only [List.length_cons]
    omega
  · simp
  · simp

/-- A piece as it stands in the address. -/
def Piece.spelled : Piece → List Char
  | .char c => [c]
  | .variable name => '{' :: name ++ ['}']

/-- What a piece is replaced by: the default of the variable, if it has one. -/
def Piece.filled (defaults : Value) : Piece → Except Fault (List Char)
  | .char c => .ok [c]
  | .variable name => do
    let es ← defaults.fields
    match (Keyed.find? es (.text (String.ofList name))).bind (·.get? "default") with
    | some default => return (← default.show?).toList
    | none => return Piece.spelled (.variable name)

/-- An address with its variables replaced by their defaults. -/
def fill (defaults : Value) (url : String) : Except Fault String := do
  return String.ofList (← (pieces url.toList).mapM (Piece.filled defaults)).flatten

/-- The first server of a list of servers.  Anything else that is not empty is asked for its first
item or for its entry zero. -/
def first (servers : Value) : Except Fault Value :=
  match servers.opened with
  | .list (v :: _) => .ok v
  | .map es =>
    match Keyed.find? es (.int 0) with
    | some v => .ok v
    | none => .error .missingEntry
  | .set _ => .error .notSearchable
  | v => do
    match ← v.items with
    | first :: _ => return first
    | [] => throw .notSearchable

/-- The address of the first server of a document with its variables replaced, or the default
address if there is no such server. -/
def address (settings : Settings) (document : Value) : Except Fault String := do
  let servers := Value.field (← document.fields) "servers"
  if !servers.truthy then return settings.defaultBaseUrl
  else match (← first servers).opened with
    | .map server =>
      let url := Value.field server "url"
      if !url.truthy then return settings.defaultBaseUrl
      else match url with
        | .text s => fill ((Value.field server "variables").orElse (.map [])) s
        | _ => throw .notText
    | _ => return settings.defaultBaseUrl

/-- **The address that paths are appended to**: that of the settings if it is not empty, else that
of the document, without slashes at its end. -/
def baseUrl (settings : Settings) (document : Value) : Except Fault String := do
  let url ← match settings.baseUrl with
    | some s => if s = "" then address settings document else pure s
    | none => address settings document
  return Text.trimEndOf '/' url

end ToolCatalog.Server
