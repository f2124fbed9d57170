import ToolCatalog.Document.File
import ToolCatalog.Proofs.Json.Reader
import ToolCatalog.Proofs.Outcome

/-!
# How loading a document ends

Loading gives a mapping that declares a version of the supported format, or it fails.  Most of its faults
say that there is no such document (`Fault.isLoad`).  The others are no answer to the question whether
there is one: the bytes of a file are no text, a scalar of a YAML text is not a value of its type, or a
document declares a version that is too long to be written.  `Escapes` says exactly when they arise.

* `load_settles`: how loading ends for every text and for every file.
-/

namespace ToolCatalog

namespace Value

theorem show?_eq_error {v : Value} {f : Fault} :
    v.show? = .error f ↔ f = .excessiveDigits ∧ v.isModerate [] = false := by
  unfold show?
  cases v.isModerate [] <;> simp [eq_comm]

end Value

namespace Document

/-- **A document of the supported format**: a mapping that declares a version which, as a text, begins
with `3.`. -/
def IsSupportedDocument (v : Value) : Prop :=
  ∃ es rest, v = .map es ∧ version? v = .ok (some ("3." ++ rest))

/-- What a mapping declares as its version. -/
def declaredVersion (es : Keyed Value) : Value :=
  (Value.field es "openapi").orElse (Value.field es "swagger")

/-- What is wrong with a text if that is not told as a load fault.  It is not JSON; as YAML a scalar in
it is not a value of its type, or the version that it declares holds an integer of immoderate length. -/
inductive Escapes (text : String) : Fault → Prop
  | scalar {e : Yaml.Failure} : Json.read? text = none → Yaml.read text = .error e →
    e ≠ .malformed → Escapes text (faultOf e)
  | version {v : Value} {es : Keyed Value} : Json.read? text = none → Yaml.read text = .ok v →
    v.opened = .map es → (declaredVersion es).isModerate [] = false →
    Escapes text .excessiveDigits

/-- The same for a file, whose bytes may also encode no text. -/
inductive File.Escapes : File → Fault → Prop
  | encoding {bytes : ByteArray} : String.fromUTF8? bytes = none →
    File.Escapes (.content bytes) .undecodable
  | text {file : File} {text : String} {f : Fault} : file.text = .ok text →
    Document.Escapes text f → File.Escapes file f

/-- **How loading ends**: with a document of the supported format, with a load fault, or with a fault that
escapes, and where one escapes it is how loading ends. -/
structure Settles (loaded : Except Fault Value) (escapes : Fault → Prop) : Prop where
  document : ∀ v, loaded = .ok v → IsSupportedDocument v
  failure : ∀ f, loaded = .error f → f.isLoad = true ∨ escapes f
  escape : ∀ f, escapes f → loaded = .error f ∧ f.isLoad = false

/-! ## The version -/

theorem exists_of_isSupported {version : String} (h : isSupported version = true) :
    ∃ rest, version = "3." ++ rest := by
  obtain ⟨rest, hrest⟩ := List.isPrefixOf_iff_prefix.1 h
  refine ⟨String.ofList rest, ?_⟩
  rw [← String.ofList_toList (s := version), ← hrest, String.ofList_append]

/-- A version has no text only if it holds an integer of immoderate length. -/
theorem version?_eq_error {es : Keyed Value} {f : Fault} :
    version? (.map es) = .error f ↔
      f = .excessiveDigits ∧ (declaredVersion es).isModerate [] = false := by
  unfold version? declaredVersion
  simp only [Value.opened]
  split
  · next h => simp [h, Value.isModerate, Scalar.isModerate]
  · rw [← Value.show?_eq_error]
    cases ((Value.field es "openapi").orElse (Value.field es "swagger")).show? <;>
      simp [Functor.map, Except.map]

/-- Checking gives a document of the supported format and nothing else. -/
theorem isSupportedDocument_of_check {v document : Value} (h : check v = .ok document) :
    IsSupportedDocument document := by
  unfold check at h
  split at h
  · next es hes =>
    obtain ⟨version, hversion, h⟩ := bind_eq_ok.1 h
    split at h
    · next version =>
      split at h
      · next hsupported =>
        obtain rfl := Except.ok.inj h
        obtain ⟨rest, rfl⟩ := exists_of_isSupported hsupported
        exact ⟨es, rest, rfl, hversion⟩
      · cases h
    · cases h
  · cases h

/-- A value is checked with a load fault, or it declares a version that has no text. -/
theorem check_eq_error {v : Value} {f : Fault} (h : check v = .error f) :
    f.isLoad = true ∨ f = .excessiveDigits ∧
      ∃ es, v.opened = .map es ∧ (declaredVersion es).isModerate [] = false := by
  unfold check at h
  split at h
  · next es hes =>
    rcases bind_eq_error.1 h with h | ⟨version, -, h⟩
    · obtain ⟨rfl, hlong⟩ := version?_eq_error.1 h
      exact Or.inr ⟨rfl, es, hes, hlong⟩
    · left
      split at h
      · split at h
        · cases h
        · obtain rfl := Except.error.inj h
          rfl
      · obtain rfl := Except.error.inj h
        rfl
  · obtain rfl := Except.error.inj h
    exact Or.inl rfl

theorem check_of_immoderate {v : Value} {es : Keyed Value} (hes : v.opened = .map es)
    (h : (declaredVersion es).isModerate [] = false) : check v = .error .excessiveDigits := by
  unfold check
  rw [hes]
  exact bind_eq_error.2 (Or.inl (version?_eq_error.2 ⟨rfl, h⟩))

/-! ## Texts -/

theorem isLoad_faultOf {e : Yaml.Failure} : (faultOf e).isLoad = true ↔ e = .malformed := by
  cases e <;> simp [faultOf, Fault.isLoad]

/-- The version that a JSON text declares can be written. -/
theorem isModerate_declaredVersion {text : String} {v : Value} {es : Keyed Value}
    (h : Json.read? text = some v) (hes : v.opened = .map es) :
    (declaredVersion es).isModerate [] = true := by
  have hmap : v = .map es := by
    rw [← (Json.isJson_of_read? h).opened]
    exact hes
  have hmoderate := Json.isModerate_of_read? h []
  rw [hmap, Value.isModerate, Value.areModerateEntries_iff] at hmoderate
  have hfield : ∀ name, (Value.field es name).isModerate [] = true := by
    intro name
    unfold Value.field
    cases hfound : Keyed.find? es (.text name) with
    | none => rfl
    | some w => exact (hmoderate _ w (Keyed.mem_of_find?_text hfound)).2
  unfold declaredVersion Value.orElse
  split
  · exact hfield "openapi"
  · exact hfield "swagger"

/-- A text is read with a load fault, or as YAML with another failure. -/
theorem read_eq_error {text : String} {f : Fault} (h : read text = .error f) :
    f.isLoad = true ∨ Escapes text f := by
  unfold read at h
  split at h
  · cases h
  · next hjson =>
    split at h
    · cases h
    · next e hyaml =>
      obtain rfl := Except.error.inj h
      by_cases he : e = .malformed
      · exact Or.inl (isLoad_faultOf.2 he)
      · exact Or.inr (.scalar hjson hyaml he)

/-- What is read and declares a version that cannot be written is read as YAML. -/
theorem escapes_of_read {text : String} {v : Value} {es : Keyed Value} (h : read text = .ok v)
    (hes : v.opened = .map es) (hlong : (declaredVersion es).isModerate [] = false) :
    Escapes text .excessiveDigits := by
  unfold read at h
  split at h
  · next w hjson =>
    obtain rfl := Except.ok.inj h
    rw [isModerate_declaredVersion hjson hes] at hlong
    cases hlong
  · next hjson =>
    split at h
    · next w hyaml =>
      obtain rfl := Except.ok.inj h
      exact .version hjson hyaml hes hlong
    · cases h

theorem read_of_yaml {text : String} {v : Value} (hjson : Json.read? text = none)
    (hyaml : Yaml.read text = .ok v) : read text = .ok v := by
  unfold read
  rw [hjson, hyaml]

/-- **How loading a text ends.** -/
theorem settles_text (text : String) : Settles (load text) (Escapes text) := by
  constructor
  · intro document h
    obtain ⟨v, -, h⟩ := bind_eq_ok.1 h
    exact isSupportedDocument_of_check h
  · intro f h
    rcases bind_eq_error.1 h with h | ⟨v, hread, h⟩
    · exact read_eq_error h
    · rcases check_eq_error h with hload | ⟨rfl, es, hes, hlong⟩
      · exact Or.inl hload
      · exact Or.inr (escapes_of_read hread hes hlong)
  · intro f h
    cases h with
    | @scalar e hjson hyaml he =>
      refine ⟨bind_eq_error.2 (Or.inl ?_), ?_⟩
      · unfold read
        rw [hjson, hyaml]
      · rw [Bool.eq_false_iff, Ne, isLoad_faultOf]
        exact he
    | version hjson hyaml hes hlong =>
      refine ⟨bind_eq_error.2 (Or.inr ⟨_, read_of_yaml hjson hyaml, ?_⟩), rfl⟩
      exact check_of_immoderate hes hlong

/-! ## Files -/

theorem text_eq_error {file : File} {f : Fault} (h : file.text = .error f) :
    f.isLoad = true ∨ File.Escapes file f := by
  unfold File.text at h
  split at h
  · obtain rfl := Except.error.inj h
    exact Or.inl rfl
  · obtain rfl := Except.error.inj h
    exact Or.inl rfl
  · next bytes =>
    split at h
    · cases h
    · next hbytes =>
      obtain rfl := Except.error.inj h
      exact Or.inr (.encoding hbytes)

/-- **How loading a file ends.** -/
theorem settles_file (file : File) : Settles (loadFile file) (File.Escapes file) := by
  constructor
  · intro document h
    obtain ⟨text, -, h⟩ := bind_eq_ok.1 h
    exact (settles_text text).document document h
  · intro f h
    rcases bind_eq_error.1 h with h | ⟨text, htext, h⟩
    · exact text_eq_error h
    · exact ((settles_text text).failure f h).imp_right (.text htext)
  · intro f h
    cases h with
    | @encoding bytes hbytes =>
      refine ⟨bind_eq_error.2 (Or.inl ?_), rfl⟩
      simp only [File.text, hbytes]
    | @text _ text _ htext h =>
      obtain ⟨hload, hf⟩ := (settles_text text).escape f h
      exact ⟨bind_eq_error.2 (Or.inr ⟨text, htext, hload⟩), hf⟩

/-- **How loading ends**, for every text and for every file, whatever its bytes are. -/
theorem load_settles (text : String) (file : File) :
    Settles (load text) (Escapes text) ∧ Settles (loadFile file) (File.Escapes file) :=
  ⟨settles_text text, settles_file file⟩

/-- So a file may be loaded with neither a document nor a load fault: the byte `ff` is no text. -/
theorem not_loadFile_settles :
    ¬ ∀ file, (∃ v, loadFile file = .ok v ∧ IsSupportedDocument v) ∨
      ∃ f, loadFile file = .error f ∧ f.isLoad = true := by
  intro h
  have hundecodable : loadFile (.content ⟨#[255]⟩) = .error .undecodable := by rfl
  rcases h (.content ⟨#[255]⟩) with ⟨v, hv, -⟩ | ⟨f, hf, hload⟩
  · rw [hundecodable] at hv
    cases hv
  · rw [hundecodable] at hf
    obtain rfl := Except.error.inj hf
    cases hload

end Document

end ToolCatalog
