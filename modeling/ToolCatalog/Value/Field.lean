import ToolCatalog.Fault

/-!
# Typed fields of records

A settings record or a tool is given as a mapping whose fields have fixed names and types.  Nothing
is converted: a field that is missing or of the wrong type is a fault.
-/

namespace ToolCatalog.Field

/-- A field of a record, if it is there. -/
def find? (es : Keyed Value) (name : String) : Option Value := Keyed.find? es (.text name)

/-- The first of two spellings of a field that is there. -/
def findEither? (es : Keyed Value) (name other : String) : Option Value :=
  (find? es name).or (find? es other)

/-- A value that has to be a mapping. -/
def mapping : Value → Except Fault (Keyed Value)
  | .map es => .ok es
  | _ => .error .rejectedField

/-- A value that has to be a list. -/
def list : Value → Except Fault (List Value)
  | .list vs => .ok vs
  | _ => .error .rejectedField

/-- A value that has to be a text. -/
def text (v : Value) : Except Fault String :=
  match v.text? with
  | some s => .ok s
  | none => .error .rejectedField

/-- A key that has to be a text. -/
def key (k : Scalar) : Except Fault String := text (.scalar k)

/-- Write a value under a name, in place if the name is there and at the end if not. -/
def put (fields : List (String × Value)) (name : String) (v : Value) : List (String × Value) :=
  match fields with
  | [] => [(name, v)]
  | (other, w) :: rest => if name = other then (name, v) :: rest else (other, w) :: put rest name v

/-- **After writing under a name**, that name finds what was written and any other name what it
found before. -/
theorem lookup_put (fields : List (String × Value)) (name : String) (v : Value) (query : String) :
    (put fields name v).lookup query = if query == name then some v else fields.lookup query := by
  induction fields with
  | nil => cases h : query == name <;> simp [put, List.lookup_cons, h]
  | cons f rest ih =>
    obtain ⟨other, w⟩ := f
    unfold put
    by_cases h : name = other
    · subst h
      rw [if_pos rfl]
      cases hq : query == name <;> simp [List.lookup_cons, hq]
    · rw [if_neg h]
      cases hq : query == other with
      | true =>
        have hn : ¬query = name := fun e => h (e ▸ beq_iff_eq.1 hq)
        simp [List.lookup_cons, hq, hn]
      | false => simp [List.lookup_cons, hq, ih]

/-- Entries whose keys have to be texts.  Two keys may spell one text, as text and as bytes: it
keeps its first place and takes its last value. -/
def named (es : Keyed Value) : Except Fault (List (String × Value)) :=
  es.foldlM (fun fields e => return put fields (← key e.1) e.2) []

/-- A value that has to be a list of texts. -/
def texts (v : Value) : Except Fault (List String) := do
  (← list v).mapM text

/-- A field that has to be there. -/
def needed (v : Option Value) : Except Fault Value :=
  match v with
  | some v => .ok v
  | none => .error .rejectedField

/-- A text that may be missing. -/
def textOr (default : String) : Option Value → Except Fault String
  | none => .ok default
  | some v => text v

/-- A text that may be missing or null. -/
def optionalText : Option Value → Except Fault (Option String)
  | none | some .null => .ok none
  | some v => some <$> text v

end ToolCatalog.Field
