/-!
# Control sequences of terminals

A text may hold sequences by which a terminal is told to change colour or to move: the escape
character, an opening bracket, parameters made of digits, semicolons and question marks, and a
letter.  What is written for a reader is written without them.
-/

namespace ToolCatalog.Text

/-- The character that begins a control sequence. -/
def escape : Char := '\x1b'

/-- Whether a character may be a parameter of a control sequence. -/
def isParameter (c : Char) : Bool := c.isDigit || c == ';' || c == '?'

/-- What follows a control sequence, given what follows its bracket, if it is one. -/
def afterSequence? (cs : List Char) : Option (List Char) :=
  match cs.dropWhile isParameter with
  | c :: rest => if c.isAlpha then some rest else none
  | [] => none

theorem afterSequence?_length {cs rest : List Char} (h : afterSequence? cs = some rest) :
    rest.length < cs.length := by
  unfold afterSequence? at h
  split at h
  · rename_i c others heq
    split at h
    · have hle : (cs.dropWhile isParameter).length ≤ cs.length :=
        (List.dropWhile_sublist _).length_le
      simp only [Option.some.injEq] at h
      rw [heq, h, List.length_cons] at hle
      omega
    · simp at h
  · simp at h

/-- **A text without its control sequences.** -/
def withoutSequences (cs : List Char) : List Char :=
  match cs with
  | [] => []
  | [c] => [c]
  | c :: d :: rest =>
    if c = escape ∧ d = '[' then
      match _h : afterSequence? rest with
      | some others => withoutSequences others
      | none => c :: withoutSequences (d :: rest)
    else c :: withoutSequences (d :: rest)
termination_by cs.length
decreasing_by
  · have := afterSequence?_length _h
    simp only [List.length_cons]
    omega
  · simp
  · simp

/-- A text as a reader gets it. -/
def readable (s : String) : String :=
  if s.toList.contains escape then String.ofList (withoutSequences s.toList) else s

end ToolCatalog.Text
