import ToolCatalog.Number.Integer
import ToolCatalog.Text.Hex
import ToolCatalog.Yaml.Token

/-!
# Anchors, tags and directives

The tokens that consist of names.
-/

namespace ToolCatalog.Yaml.Scan

/-- What must follow a tag or a directive's value: a blank, the end of the line, or of the
text. -/
def endsWord (c : Char) : Bool := c == ' ' || isBreak c

/-- The name of an anchor or alias after its mark. -/
def anchorName : Scan String := do
  skip 1
  let name ← takeWhile isNameChar
  require (!name.isEmpty)
  requireNext fun c => isGap c || "?:,]\x7d%@\x60".toList.contains c
  return String.ofList name

/-- The handle of a tag: one exclamation mark, or a name between two. -/
def tagHandle : Scan String := do
  require ((← peek) == some '!')
  skip 1
  if (← peek) == some ' ' then return "!"
  else
    let name ← takeWhile isNameChar
    require ((← peek) == some '!')
    skip 1
    return String.ofList ('!' :: name ++ ['!'])

/-- A character that may be in a tag. -/
def isTagChar (c : Char) : Bool :=
  c.isAlphanum || "-;/?:@&=+$,_.!~*'()[]%".toList.contains c

/-- Escaped bytes ahead.  Each is three of the characters ahead. -/
def escapedBytes : List Char → Scan (List UInt8)
  | '%' :: a :: b :: rest => do
    match Text.hexNumber? [a, b] with
    | some n =>
      skip 3
      return UInt8.ofNat n :: (← escapedBytes rest)
    | none => refuse
  | '%' :: _ => refuse
  | _ => return []

/-- The text of a tag without its handle; escaped bytes have to encode a text.  The characters
ahead bound the number of its pieces. -/
def tagText : List Char → Scan (List Char)
  | [] => return []
  | _ :: bound => do
    match (← get).rest with
    | '%' :: _ =>
      let bytes ← escapedBytes (← get).rest
      match String.fromUTF8? ⟨bytes.toArray⟩ with
      | some s => return s.toList ++ (← tagText bound)
      | none => refuse
    | _ =>
      let run ← takeWhile fun c => isTagChar c && c != '%'
      if run.isEmpty then return [] else return run ++ (← tagText bound)

/-- The text of a tag, which must not be empty. -/
def tagSuffix : Scan String := do
  let text ← tagText (← get).rest
  require (!text.isEmpty)
  return String.ofList text

/-- A tag: one in angle brackets, the mark alone, or a handle and a name. -/
def tagName : Scan TagName := do
  let name ← match (← get).rest.drop 1 with
    | '<' :: _ => do
      skip 2
      let suffix ← tagSuffix
      require ((← peek) == some '>')
      skip 1
      pure ⟨none, suffix⟩
    | after =>
      if (after.head?).all isGap then do
        skip 1
        pure ⟨none, "!"⟩
      else if (after.takeWhile (!endsWord ·)).contains '!' then do
        let handle ← tagHandle
        pure ⟨some handle, ← tagSuffix⟩
      else do
        skip 1
        pure ⟨some "!", ← tagSuffix⟩
  requireNext endsWord
  return name

/-- A number of a version. -/
def versionNumber : Scan Nat := do
  let digits ← takeWhile Char.isDigit
  require (!digits.isEmpty)
  if Numeral.maxDecimalDigits < digits.length then throw .impossible
  return digits.foldl (fun n c => 10 * n + (c.toNat - '0'.toNat)) 0

/-- A directive. -/
def directive : Scan Directive := do
  skip 1
  let name ← takeWhile isNameChar
  require (!name.isEmpty)
  requireNext endsWord
  let found ← match String.ofList name with
    | "YAML" => do
      skipWhile (· == ' ')
      let major ← versionNumber
      require ((← peek) == some '.')
      skip 1
      let minor ← versionNumber
      requireNext endsWord
      pure (.version major minor)
    | "TAG" => do
      skipWhile (· == ' ')
      let handle ← tagHandle
      require ((← peek) == some ' ')
      skipWhile (· == ' ')
      let expansion ← tagSuffix
      requireNext endsWord
      pure (.tag handle expansion)
    | _ => do
      skipWhile (!isBreak ·)
      pure .other
  endLine
  return found

end ToolCatalog.Yaml.Scan
