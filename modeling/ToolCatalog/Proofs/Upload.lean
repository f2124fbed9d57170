import Mathlib.Logic.Function.Iterate
import ToolCatalog.Upload
import ToolCatalog.Proofs.Value.Keyed

/-!
# What hiding the fields of an upload leaves

Three collections are looked through when the fields of an upload are hidden behind `file_path`: a property
is hidden if it is there under one of the names that an upload rebuilds, a required name goes if it is one of
these names at all, and nothing is taken out of the locations.  `Hides` says what each of them comes to, so
that nothing is lost: a property stays or is rebuilt, and not both.

Parameters that are called `file_path` already are left as they are, so hiding once is enough.

* `simplify_partitions`: what one round of hiding does, and that further rounds do nothing.
-/

namespace ToolCatalog

theorem any_same_text (names : List String) (name : String) :
    (names.any fun n => (Scalar.text n).same (.text name)) = decide (name ∈ names) := by
  induction names with
  | nil => rfl
  | cons n rest ih =>
    have hsame : (Scalar.text n).same (.text name) = decide (name = n) := by
      rw [Bool.eq_iff_iff, Scalar.same_text]
      simp
    rw [List.any_cons, ih, hsame]
    simp

theorem nodup_eraseDups (names : List String) : names.eraseDups.Nodup := by
  induction h : names.length using Nat.strongRecOn generalizing names with
  | ind n ih =>
    cases names with
    | nil => exact List.nodup_nil
    | cons name rest =>
      subst h
      rw [List.eraseDups_cons, List.nodup_cons]
      exact ⟨by simp [List.mem_eraseDups],
        ih _ (Nat.lt_succ_of_le (List.length_filter_le _ _)) _ rfl⟩

namespace Upload

/-- The parameters that an upload hides behind `file_path`. -/
def hidden (settings : Settings) (properties : Keyed Value) : List String :=
  (settings.fileParameterNames.filter fun n => Keyed.has properties (.text n)).eraseDups

/-- A parameter is hidden if it is one that an upload rebuilds. -/
theorem mem_hidden {settings : Settings} {properties : Keyed Value} {name : String}
    (h : Keyed.has properties (.text name) = true) :
    name ∈ hidden settings properties ↔ name ∈ settings.fileParameterNames := by
  simp [hidden, List.mem_eraseDups, h]

/-- A key is that of a hidden parameter if it is the text of one that an upload rebuilds. -/
theorem any_hidden {settings : Settings} {properties : Keyed Value} {k : Scalar}
    (h : k ∈ Keyed.keys properties) :
    ((hidden settings properties).any fun n => (Scalar.text n).same k) = true ↔
      ∃ n ∈ settings.fileParameterNames, k = .text n := by
  rw [List.any_eq_true]
  constructor
  · rintro ⟨n, hn, hsame⟩
    obtain rfl := (Scalar.same_text n k).1 hsame
    have hhas : Keyed.has properties (.text n) = true :=
      Keyed.has_iff.2 ⟨_, h, Scalar.same_refl _⟩
    exact ⟨n, (mem_hidden hhas).1 hn, rfl⟩
  · rintro ⟨n, hn, rfl⟩
    have hhas : Keyed.has properties (.text n) = true :=
      Keyed.has_iff.2 ⟨_, h, Scalar.same_refl _⟩
    exact ⟨n, (mem_hidden hhas).2 hn, Scalar.same_refl _⟩

/-- The argument that a hidden parameter is rebuilt from. -/
theorem find?_derived (names : List String) (k : Scalar) :
    ((names.map (·, filePath)).find? fun d => (Scalar.text d.1).same k).map (·.2) =
      if names.any fun n => (Scalar.text n).same k then some filePath else none := by
  induction names with
  | nil => rfl
  | cons n rest ih =>
    rw [List.map_cons, List.find?_cons, List.any_cons]
    cases hsame : (Scalar.text n).same k with
    | true => rfl
    | false =>
      rw [Bool.false_or]
      exact ih

/-! ## What one round of hiding does -/

/-- Whether a value is one of the names, as a text. -/
def isNameIn (names : List String) (v : Value) : Bool :=
  match v.opened with
  | .text name => decide (name ∈ names)
  | _ => false

/-- **What hiding makes of the parameters of an operation**: the properties without those that are rebuilt,
then `file_path`; an account of those that are; the locations, with one for `file_path`; and the required
names without any that an upload rebuilds, then `file_path`. -/
structure Hides (settings : Settings) (ps : Keyed Value) (ls : Keyed Location) (names : List Value)
    (s : Simplified) : Prop where
  properties : s.properties =
    (ps.filter fun e => !isNameIn settings.fileParameterNames (.scalar e.1)) ++
      [(.text filePath, filePathSchema)]
  /-- What is rebuilt is what has disappeared from the properties. -/
  derived : ∀ k, (∃ e ∈ s.derived, k = .text e.1) ↔
    k ∈ Keyed.keys ps ∧ k ∉ Keyed.keys s.properties
  derived_once : (s.derived.map (·.1)).Nodup
  derived_from : ∀ e ∈ s.derived, e.2 = filePath
  disjoint : ∀ e ∈ s.derived, e.1 ∉ s.uiOnly
  locations : ∀ k, k ≠ .text filePath → Keyed.find? s.locations k = Keyed.find? ls k
  location_names : Keyed.keys s.locations = Keyed.joined (Keyed.keys ls) [.text filePath]
  required : s.required =
    (names.filter fun name => !isNameIn settings.fileParameterNames name) ++ [.text filePath]

section

variable {settings : Settings} {properties : Keyed Value}

theorem isFileParameter_eq (settings : Settings) (v : Value) :
    isFileParameter settings v = isNameIn settings.fileParameterNames v := by
  unfold isFileParameter isNameIn
  cases hv : v.opened with
  | scalar t =>
    have hsame : ∀ n, (Value.text n).same v = (Scalar.text n).same t := by
      intro n
      rw [Value.same, hv]
    simp only [hsame]
    cases t with
    | text name => exact any_same_text _ _
    | _ => simp [Scalar.same_text]
  | _ => simp [Value.same, hv]

/-- A property is hidden if its name is one that an upload rebuilds. -/
theorem any_hidden_eq {k : Scalar} (h : k ∈ Keyed.keys properties) :
    ((hidden settings properties).any fun n => (Scalar.text n).same k) =
      isNameIn settings.fileParameterNames (.scalar k) := by
  rw [Bool.eq_iff_iff, any_hidden h]
  unfold isNameIn
  cases k <;> simp [Value.opened]

variable (hnew : Keyed.has properties (.text filePath) = false)

include hnew

/-- The parts of the parameters of an upload, `file_path` aside. -/
theorem simplify_eq (locations : Keyed Location) (required : List Value) :
    simplify settings properties locations required =
      { properties := (properties.filter fun e =>
            !isNameIn settings.fileParameterNames (.scalar e.1)) ++ [(.text filePath, filePathSchema)]
        locations := Keyed.put locations (.text filePath) .file
        required := (required.filter fun name => !isNameIn settings.fileParameterNames name) ++
          [.text filePath]
        derived := (hidden settings properties).map (·, filePath)
        uiOnly := [filePath] } := by
  have hstay : properties.filter (fun e =>
        !(hidden settings properties).any fun n => (Scalar.text n).same e.1) =
      properties.filter fun e => !isNameIn settings.fileParameterNames (.scalar e.1) :=
    List.filter_congr fun e he => by rw [any_hidden_eq (Keyed.mem_keys_of_mem he)]
  unfold simplify
  rw [if_neg (by simp [hnew])]
  simp only [isFileParameter_eq]
  rw [← Keyed.put_of_not_has (Keyed.not_has_filter hnew _), ← hstay]
  rfl

theorem ne_filePath_of_mem {k : Scalar} (hk : k ∈ Keyed.keys properties) : k ≠ .text filePath := by
  rintro rfl
  rw [Keyed.has_iff.2 ⟨_, hk, Scalar.same_refl _⟩] at hnew
  cases hnew

/-- **What is hidden has disappeared from the properties**, and nothing else has. -/
theorem mem_hidden_iff (k : Scalar) : (∃ n ∈ hidden settings properties, k = .text n) ↔
    k ∈ Keyed.keys properties ∧ k ∉ Keyed.keys
      ((properties.filter fun e => !isNameIn settings.fileParameterNames (.scalar e.1)) ++
        [(.text filePath, filePathSchema)]) := by
  have hkeys : Keyed.keys ((properties.filter fun e =>
        !isNameIn settings.fileParameterNames (.scalar e.1)) ++ [(.text filePath, filePathSchema)]) =
      ((Keyed.keys properties).filter fun q => !isNameIn settings.fileParameterNames (.scalar q)) ++
        [.text filePath] := by
    rw [← Keyed.keys_filter]
    exact List.map_append
  rw [hkeys, List.mem_append, List.mem_filter, List.mem_singleton]
  constructor
  · rintro ⟨n, hn, rfl⟩
    have hthere : Keyed.has properties (.text n) = true := by
      simpa using (List.mem_filter.1 (List.mem_eraseDups.1 hn)).2
    obtain ⟨q, hq, hsame⟩ := Keyed.has_iff.1 hthere
    obtain rfl := (Scalar.same_text n q).1 hsame
    have hname : isNameIn settings.fileParameterNames (.text n) = true :=
      decide_eq_true ((mem_hidden hthere).1 hn)
    refine ⟨hq, ?_⟩
    rintro (⟨-, hstays⟩ | hpath)
    · rw [hname] at hstays
      cases hstays
    · exact ne_filePath_of_mem hnew hq hpath
  · rintro ⟨hk, hgone⟩
    have hname : isNameIn settings.fileParameterNames (.scalar k) = true := by
      cases hname : isNameIn settings.fileParameterNames (.scalar k) with
      | true => rfl
      | false => exact absurd (Or.inl ⟨hk, by simp [hname]⟩) hgone
    rw [← any_hidden_eq hk, List.any_eq_true] at hname
    obtain ⟨n, hn, hsame⟩ := hname
    exact ⟨n, hn, (Scalar.same_text n k).1 hsame⟩

/-- **Hiding loses nothing and doubles nothing.** -/
theorem simplify_hides (locations : Keyed Location) (required : List Value) :
    Hides settings properties locations required
      (simplify settings properties locations required) := by
  rw [simplify_eq hnew]
  refine ⟨rfl, fun k => ?_, ?_, ?_, ?_, fun k hk => ?_, Keyed.keys_put_eq_joined _ _ _, rfl⟩
  · rw [← mem_hidden_iff hnew]
    simp
  · rw [List.map_map]
    have hnames : (hidden settings properties).map (Prod.fst ∘ fun n => (n, filePath)) =
        hidden settings properties := List.map_id _
    rw [hnames]
    exact nodup_eraseDups _
  · simp
  · intro e he
    obtain ⟨n, hn, rfl⟩ := List.mem_map.1 he
    obtain ⟨hk, -⟩ := (mem_hidden_iff hnew _).1 ⟨n, hn, rfl⟩
    simpa using ne_filePath_of_mem hnew hk
  · show Keyed.find? (Keyed.put locations (.text filePath) .file) k = _
    rw [Keyed.find?_put, if_neg]
    rwa [Scalar.same_comm, Scalar.same_text]

end

/-! ## Further rounds -/

/-- Hide the fields of parameters that have been through a round. -/
def Simplified.round (settings : Settings) (s : Simplified) : Simplified :=
  simplify settings s.properties s.locations s.required

theorem simplify_of_has {settings : Settings} {properties : Keyed Value} {locations : Keyed Location}
    {required : List Value} (h : Keyed.has properties (.text filePath) = true) :
    simplify settings properties locations required =
      { properties, locations, required, derived := [], uiOnly := [] } := by
  unfold simplify
  rw [if_pos h]

/-- Parameters that have been through a round ask for `file_path`. -/
theorem has_filePath_simplify (settings : Settings) (properties : Keyed Value)
    (locations : Keyed Location) (required : List Value) :
    Keyed.has (simplify settings properties locations required).properties (.text filePath) = true := by
  cases h : Keyed.has properties (.text filePath) with
  | true =>
    rw [simplify_of_has h]
    exact h
  | false =>
    rw [simplify_eq h, ← Keyed.put_of_not_has (Keyed.not_has_filter h _), Keyed.has_put,
      Scalar.same_refl, Bool.true_or]

/-- **One round is as good as many.** -/
theorem iterate_round (settings : Settings) (s : Simplified) (n : Nat) :
    ((Simplified.round settings)^[n + 1] s).properties = (s.round settings).properties ∧
      ((Simplified.round settings)^[n + 1] s).locations = (s.round settings).locations ∧
      ((Simplified.round settings)^[n + 1] s).required = (s.round settings).required := by
  induction n with
  | zero => exact ⟨rfl, rfl, rfl⟩
  | succ n ih =>
    have hhas : Keyed.has ((Simplified.round settings)^[n + 1] s).properties (.text filePath) = true := by
      rw [ih.1]
      exact has_filePath_simplify ..
    rw [Function.iterate_succ_apply', Simplified.round, simplify_of_has hhas]
    exact ih

/-- **Hiding the fields of an upload** loses nothing and doubles nothing where `file_path` is new, changes
nothing where it is not, and is done after one round. -/
theorem simplify_partitions (settings : Settings) (properties : Keyed Value)
    (locations : Keyed Location) (required : List Value) :
    (Keyed.has properties (.text filePath) = false →
      Hides settings properties locations required
        (simplify settings properties locations required)) ∧
    (Keyed.has properties (.text filePath) = true →
      simplify settings properties locations required =
        { properties, locations, required, derived := [], uiOnly := [] }) ∧
    ∀ n : Nat,
      let s := (Simplified.round settings)^[n + 1]
        { properties, locations, required, derived := [], uiOnly := [] }
      s.properties = (simplify settings properties locations required).properties ∧
        s.locations = (simplify settings properties locations required).locations ∧
        s.required = (simplify settings properties locations required).required :=
  ⟨fun hnew => simplify_hides hnew locations required, simplify_of_has,
    fun n => iterate_round settings _ n⟩

/-- Settings that count `file_path` itself among the names that an upload rebuilds. -/
def ownPathSettings : Settings := { fileParameterNames := ["content", "size", "content", "file_path"] }

/-- A content and a title; a size and `file_path` are required though there are none. -/
theorem simplify_partitions_stray :
    Hides ownPathSettings [(.text "content", .map []), (.text "title", .map [])]
      [(.text "size", .query), (.text "content", .file)]
      [.text "size", .text "title", .text "file_path", .text "title"]
      { properties := [(.text "title", .map []), (.text "file_path", filePathSchema)]
        locations := [(.text "size", .query), (.text "content", .file), (.text "file_path", .file)]
        required := [.text "title", .text "title", .text "file_path"]
        derived := [("content", "file_path")]
        uiOnly := ["file_path"] } :=
  (simplify_partitions ownPathSettings [(.text "content", .map []), (.text "title", .map [])]
    [(.text "size", .query), (.text "content", .file)]
    [.text "size", .text "title", .text "file_path", .text "title"]).1 rfl

end Upload

end ToolCatalog
