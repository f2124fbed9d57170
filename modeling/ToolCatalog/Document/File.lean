import ToolCatalog.Document.Load

/-!
# Documents in files

A file is read as UTF-8, and each of the three ways to end a line becomes a line feed.
-/

namespace ToolCatalog.Document

/-- What is found at a path. -/
inductive File where
  | missing
  | directory
  | content (bytes : ByteArray)

/-- Write every end of line as a line feed. -/
def unifyLines : List Char → List Char
  | [] => []
  | '\r' :: '\n' :: rest => '\n' :: unifyLines rest
  | '\r' :: rest => '\n' :: unifyLines rest
  | c :: rest => c :: unifyLines rest

/-- The text of a file. -/
def File.text : File → Except Fault String
  | .missing | .directory => .error .unreadableFile
  | .content bytes =>
    match String.fromUTF8? bytes with
    | some s => .ok (String.ofList (unifyLines s.toList))
    | none => .error .undecodable

/-- **Load a document from a file.** -/
def loadFile (file : File) : Except Fault Value := do
  load (← file.text)

end ToolCatalog.Document
