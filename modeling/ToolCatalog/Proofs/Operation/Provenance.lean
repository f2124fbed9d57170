import ToolCatalog.Proofs.Operation.Requiredness

/-!
# What the arguments of a tool are for

A parameter of a request is an argument of the tool, or it is rebuilt from one: an upload rebuilds the
parameters that it hides from `file_path`.  Two things come between.  What is rebuilt is fixed before
the removed names are taken out of the arguments, and `file_path` may be one of them.  And an upload
asks for `file_path` whether or not it hides anything.

* `compile_derived_asked`: when what a parameter is rebuilt from is asked for.
* `compile_asked_used`: when what is asked for is sent or rebuilt from.
-/

namespace ToolCatalog

/-- A name is spelled by its encoded bytes among the keys of entries. -/
def Keyed.IsSpelled {α : Type} (es : Keyed α) (name : String) : Prop :=
  ∃ bs : List UInt8, .bytes bs ∈ keys es ∧ String.fromUTF8? ⟨bs.toArray⟩ = some name

/-- A tool uses an argument: it sends a parameter of that name, or rebuilds one from it. -/
def Tool.Uses (tool : Tool) (name : String) : Prop :=
  (∃ p ∈ tool.recipe.parameters, p.name = name) ∨
    ∃ p ∈ tool.recipe.parameters, p.derivedFrom = some name

namespace Field

/-- A name whose text is no key is only spelled by its bytes. -/
theorem isSpelled_iff {α : Type} {es : Keyed α} {name : String}
    (h : Keyed.has es (.text name) = false) :
    es.IsSpelled name ↔ ∃ k ∈ Keyed.keys es, key k = .ok name := by
  constructor
  · rintro ⟨bs, hbs, hutf8⟩
    exact ⟨_, hbs, key_bytes hutf8⟩
  · rintro ⟨k, hk, hkey⟩
    rcases text_ok hkey with htext | ⟨bs, hbs, hutf8⟩
    · obtain rfl := Value.scalar.inj htext
      rw [Keyed.has_iff.2 ⟨_, hk, Scalar.same_refl _⟩] at h
      cases h
    · obtain rfl := Value.scalar.inj hbs
      exact ⟨bs, hk, hutf8⟩

end Field

namespace Operation

open Schema

/-! ## No named parameter is removed -/

/-- The concrete schema of the body of an operation is normal. -/
theorem normal_of_bodyOf {c : Compiler} {operation body : Value} (h : bodyOf c operation = .ok body) :
    Normal c.settings .schema body := by
  obtain ⟨fields, -, h⟩ := bind_eq_ok.1 h
  obtain ⟨b, hb, h⟩ := bind_eq_ok.1 h
  obtain rfl := Except.ok.inj h
  cases b with
  | none => exact .scalar _
  | some b =>
    obtain ⟨node, -, hmerge⟩ := requestBody_inherits (p := fun _ => True) trivial
      (fun _ _ _ _ => trivial) trivial trivial hb
    exact merge_normal hmerge

/-- No declared parameter of an operation is removed. -/
theorem not_removed_of_declarationsOf {c : Compiler} {operation pathParameters : Value}
    {ds : List Declaration} (h : declarationsOf c operation pathParameters = .ok ds) :
    ∀ d ∈ ds, c.settings.isRemoved (.text d.name) = false := by
  intro d hd
  obtain ⟨fields, -, h⟩ := bind_eq_ok.1 h
  obtain ⟨ofPath, -, h⟩ := Outcome.result_bind_ok.1 h
  obtain ⟨ofOperation, -, h⟩ := Outcome.result_bind_ok.1 h
  rcases declare_of_mem_collectFrom h d hd with hd | ⟨entry, -, hdeclare⟩
  · cases hd
  · exact (Bool.or_eq_false_iff.1 (not_excludes_of_declare hdeclare)).1

/-- No property of a normal body is removed. -/
theorem not_removed_of_bodyProperties {settings : Settings} {body : Value}
    (h : Normal settings .schema body) :
    ∀ k ∈ Keyed.keys (bodyProperties body), settings.isRemoved k = false := by
  intro k hk
  cases body with
  | map es =>
    rw [bodyProperties] at hk
    cases hps : propertiesOfBody es with
    | error f =>
      rw [hps] at hk
      cases hk
    | ok ps =>
      rw [hps] at hk
      cases normal_propertiesOfBody h hps with
      | map _ hkeys _ => exact hkeys rfl k hk
  | _ => cases hk

/-- **No named parameter is removed**: declarations and properties have been filtered before. -/
theorem not_removed_of_namedParameters {c : Compiler} {operation pathParameters body : Value}
    {ds : List Declaration} (hbody : bodyOf c operation = .ok body)
    (hds : declarationsOf c operation pathParameters = .ok ds) :
    ∀ k ∈ Keyed.keys (namedParameters c ds body), c.settings.isRemoved k = false := by
  intro k hk
  rcases mem_namedParameters hk with ⟨d, hd, rfl⟩ | hk
  · exact not_removed_of_declarationsOf hds d hd
  · exact not_removed_of_bodyProperties (normal_of_bodyOf hbody) k hk

/-! ## What is sent -/

/-- A parameter is sent for a key: it has the name that the key counts as, and is rebuilt from
`file_path` if an upload hides that name. -/
structure Sends (settings : Settings) (hides : Bool) (k : Scalar) (p : WireParameter) : Prop where
  name : Field.key k = .ok p.name
  derived : ∀ source, p.derivedFrom = some source ↔
    hides = true ∧ source = Upload.filePath ∧ ∃ n ∈ settings.fileParameterNames, k = .text n

section

variable {c : Compiler} {body : Option Body} {s : Signature} {all : Keyed (Value × Location)}

/-- The argument that a named parameter is rebuilt from. -/
theorem find?_derived_presented (hs : s.Holds all) {k : Scalar} (hk : k ∈ Keyed.keys all)
    (source : String) :
    ((presented c body s).derived.find? fun d => (Scalar.text d.1).same k).map (·.2) = some source ↔
      hidesParameters c.settings all ((body.map (·.schema)).getD .null) = true ∧
        source = Upload.filePath ∧ ∃ n ∈ c.settings.fileParameterNames, k = .text n := by
  cases h : hidesParameters c.settings all ((body.map (·.schema)).getD .null) with
  | false =>
    rw [presented_of_not_hides hs h]
    simp
  | true =>
    have hk' : k ∈ Keyed.keys s.properties := by
      rwa [hs.properties, Keyed.keys_mapValues]
    rw [presented_of_hides hs h]
    simp only
    rw [Upload.find?_derived, ← Upload.any_hidden hk']
    split
    · next hhidden => simp [hhidden, eq_comm]
    · next hshown => simp [hshown]

theorem sends_of_wireParameter (hs : s.Holds all) {k : Scalar} (hk : k ∈ Keyed.keys all)
    {location : Location} {p : WireParameter}
    (h : wireParameter s.properties (presented c body s).derived k location = .ok p) :
    Sends c.settings (hidesParameters c.settings all ((body.map (·.schema)).getD .null)) k p := by
  refine ⟨wireParameter_name h, fun source => ?_⟩
  rw [← find?_derived_presented hs hk]
  unfold wireParameter at h
  obtain ⟨name, -, h⟩ := bind_eq_ok.1 h
  obtain rfl := Except.ok.inj h
  rfl

variable {name description : Value} {method : String} {path : Scalar} {tool : Tool}

/-- **A tool sends a parameter for every named one**, and no other. -/
theorem assemble_sends (hs : s.Holds all)
    (hkept : ∀ k ∈ Keyed.keys all, c.settings.isRemoved k = false)
    (h : assemble c name description method path body s = .ok tool) :
    (∀ p ∈ tool.recipe.parameters, ∃ k ∈ Keyed.keys all,
        Sends c.settings (hidesParameters c.settings all ((body.map (·.schema)).getD .null)) k p) ∧
      ∀ k ∈ Keyed.keys all, ∃ p ∈ tool.recipe.parameters,
        Sends c.settings (hidesParameters c.settings all ((body.map (·.schema)).getD .null)) k p := by
  obtain ⟨-, -, hparameters⟩ := assemble_ok h
  have hall : (all.filter fun e => !c.settings.isRemoved e.1) = all := by
    refine List.filter_eq_self.2 fun e he => ?_
    simp [hkept e.1 (Keyed.mem_keys_of_mem he)]
  rw [sent_presented hs, hall] at hparameters
  constructor
  · intro p hp
    obtain ⟨e, he, hwire⟩ := (mapM_eq_ok hparameters).1 p hp
    obtain ⟨a, ha, rfl⟩ := List.mem_map.1 he
    have hk := Keyed.mem_keys_of_mem ha
    exact ⟨a.1, hk, sends_of_wireParameter hs hk hwire⟩
  · intro k hk
    obtain ⟨a, ha⟩ := Keyed.mem_keys.1 hk
    obtain ⟨p, hp, hwire⟩ := (mapM_eq_ok hparameters).2 (k, a.2) (List.mem_map.2 ⟨_, ha, rfl⟩)
    exact ⟨p, hp, sends_of_wireParameter hs hk hwire⟩

/-! ## What is asked for -/

/-- The keys that are asked for: those of the named parameters that are not hidden, and `file_path`
where any may be. -/
theorem mem_asked_keys_iff (hs : s.Holds all)
    (hkept : ∀ k ∈ Keyed.keys all, c.settings.isRemoved k = false) (k : Scalar) :
    k ∈ Keyed.keys ((presented c body s).properties.filter fun e => !c.settings.isRemoved e.1) ↔
      (hidesParameters c.settings all ((body.map (·.schema)).getD .null) = true ∧
        k = .text Upload.filePath ∧ Upload.filePath ∉ c.settings.removed) ∨
      k ∈ Keyed.keys all ∧
        (hidesParameters c.settings all ((body.map (·.schema)).getD .null) = true →
          ¬ ∃ n ∈ c.settings.fileParameterNames, k = .text n) := by
  have hkeys : Keyed.keys s.properties = Keyed.keys all := by
    rw [hs.properties, Keyed.keys_mapValues]
  rw [Keyed.keys_filter _ fun k => !c.settings.isRemoved k, List.mem_filter, Bool.not_eq_true']
  cases h : hidesParameters c.settings all ((body.map (·.schema)).getD .null) with
  | false =>
    rw [presented_of_not_hides hs h]
    simp only [hkeys, Bool.false_eq_true, false_and, false_or, false_implies, and_true]
    exact and_iff_left_of_imp (hkept k)
  | true =>
    have hnew : Keyed.has s.properties (.text Upload.filePath) = false := by
      rw [hs.properties, Keyed.has_mapValues]
      exact not_has_of_hides h
    have hremoved := c.settings.isRemoved_text Upload.filePath
    have hshown : k ∈ Keyed.keys (s.properties.filter fun e =>
          !(Upload.hidden c.settings s.properties).any fun n => (Scalar.text n).same e.1) ↔
        k ∈ Keyed.keys all ∧ ¬ ∃ n ∈ c.settings.fileParameterNames, k = .text n := by
      rw [Keyed.keys_filter _ fun k =>
          !(Upload.hidden c.settings s.properties).any fun n => (Scalar.text n).same k,
        List.mem_filter, ← hkeys, and_congr_right_iff]
      intro hk
      rw [Bool.not_eq_true', Bool.eq_false_iff, Ne, Upload.any_hidden hk]
    rw [presented_of_hides hs h]
    simp only
    rw [Keyed.put_of_not_has (Keyed.not_has_filter hnew _), Keyed.keys, List.map_append,
      List.mem_append, ← Keyed.keys, hshown, List.map_singleton, List.mem_singleton]
    constructor
    · rintro ⟨⟨hk, hn⟩ | rfl, hnot⟩
      · exact Or.inr ⟨hk, fun _ => hn⟩
      · exact Or.inl ⟨trivial, rfl, by simpa [hremoved] using hnot⟩
    · rintro (⟨-, rfl, hnot⟩ | ⟨hk, hn⟩)
      · exact ⟨Or.inr rfl, by simpa [hremoved] using hnot⟩
      · exact ⟨Or.inl ⟨hk, hn trivial⟩, hkept k hk⟩

/-- **A tool asks for the named parameters** that it does not hide, and for `file_path` where it may
hide any and that is not removed. -/
theorem assemble_asks (hs : s.Holds all)
    (hkept : ∀ k ∈ Keyed.keys all, c.settings.isRemoved k = false)
    (h : assemble c name description method path body s = .ok tool) (n : String) :
    n ∈ tool.arguments.properties.map (·.1) ↔
      (hidesParameters c.settings all ((body.map (·.schema)).getD .null) = true ∧
        n = Upload.filePath ∧ Upload.filePath ∉ c.settings.removed) ∨
      ∃ k ∈ Keyed.keys all, Field.key k = .ok n ∧
        (hidesParameters c.settings all ((body.map (·.schema)).getD .null) = true →
          ¬ ∃ m ∈ c.settings.fileParameterNames, k = .text m) := by
  obtain ⟨hproperties, -, -⟩ := assemble_ok h
  rw [Field.mem_names_named hproperties]
  simp only [mem_asked_keys_iff hs hkept]
  constructor
  · rintro ⟨k, ⟨hhides, rfl, hremoved⟩ | ⟨hk, hshown⟩, hkey⟩
    · exact Or.inl ⟨hhides, (Except.ok.inj hkey).symm, hremoved⟩
    · exact Or.inr ⟨k, hk, hkey, hshown⟩
  · rintro (⟨hhides, rfl, hremoved⟩ | ⟨k, hk, hkey, hshown⟩)
    · exact ⟨_, Or.inl ⟨hhides, rfl, hremoved⟩, Field.key_text _⟩
    · exact ⟨k, Or.inr ⟨hk, hshown⟩, hkey⟩

/-- Where an upload may hide parameters, no other argument than its own has the text `file_path` as its
name: one is named so only by its bytes. -/
theorem isSpelled_of_key {k : Scalar}
    (hhides : hidesParameters c.settings all ((body.map (·.schema)).getD .null) = true)
    (hk : k ∈ Keyed.keys all) (hkey : Field.key k = .ok Upload.filePath) :
    all.IsSpelled Upload.filePath :=
  (Field.isSpelled_iff (not_has_of_hides hhides)).2 ⟨k, hk, hkey⟩

/-- **What a parameter is rebuilt from** is `file_path`, and that is asked for unless it is removed. -/
theorem assemble_derived_asked (hs : s.Holds all)
    (hkept : ∀ k ∈ Keyed.keys all, c.settings.isRemoved k = false)
    (h : assemble c name description method path body s = .ok tool) {p : WireParameter}
    (hp : p ∈ tool.recipe.parameters) {source : String} (hsource : p.derivedFrom = some source) :
    source = Upload.filePath ∧ (source ∈ tool.arguments.properties.map (·.1) ↔
      Upload.filePath ∉ c.settings.removed ∨ all.IsSpelled Upload.filePath) := by
  obtain ⟨k, -, hsends⟩ := (assemble_sends hs hkept h).1 p hp
  obtain ⟨hhides, rfl, -⟩ := (hsends.derived source).1 hsource
  refine ⟨rfl, ?_⟩
  rw [assemble_asks hs hkept h]
  constructor
  · rintro (⟨-, -, hremoved⟩ | ⟨k', hk', hkey, -⟩)
    · exact Or.inl hremoved
    · exact Or.inr (isSpelled_of_key hhides hk' hkey)
  · rintro (hremoved | ⟨bs, hbs, hutf8⟩)
    · exact Or.inl ⟨hhides, rfl, hremoved⟩
    · refine Or.inr ⟨_, hbs, Field.key_bytes hutf8, ?_⟩
      rintro - ⟨m, -, hm⟩
      cases hm

/-- **What is asked for is used**, but for the `file_path` of an upload that hides nothing. -/
theorem assemble_asked_used (hs : s.Holds all)
    (hkept : ∀ k ∈ Keyed.keys all, c.settings.isRemoved k = false)
    (h : assemble c name description method path body s = .ok tool) {n : String}
    (hn : n ∈ tool.arguments.properties.map (·.1)) :
    tool.Uses n ↔ n ≠ Upload.filePath ∨
      hidesParameters c.settings all ((body.map (·.schema)).getD .null) = false ∨
      all.IsSpelled Upload.filePath ∨
      ∃ m ∈ c.settings.fileParameterNames, Keyed.has all (.text m) = true := by
  obtain ⟨hsent, hsends⟩ := assemble_sends hs hkept h
  have hused : ∀ k ∈ Keyed.keys all, Field.key k = .ok n → tool.Uses n := by
    intro k hk hkey
    obtain ⟨p, hp, hpk⟩ := hsends k hk
    refine Or.inl ⟨p, hp, ?_⟩
    rw [hpk.name] at hkey
    exact Except.ok.inj hkey
  constructor
  · intro huses
    by_cases hpath : n = Upload.filePath
    · subst hpath
      refine Or.inr ?_
      cases hhides : hidesParameters c.settings all ((body.map (·.schema)).getD .null) with
      | false => exact Or.inl rfl
      | true =>
        refine Or.inr ?_
        rcases huses with ⟨p, hp, hname⟩ | ⟨p, hp, hsource⟩
        · obtain ⟨k, hk, hpk⟩ := hsent p hp
          refine Or.inl (isSpelled_of_key hhides hk ?_)
          rw [hpk.name, hname]
        · obtain ⟨k, hk, hpk⟩ := hsent p hp
          obtain ⟨-, -, m, hm, rfl⟩ := (hpk.derived _).1 hsource
          exact Or.inr ⟨m, hm, Keyed.has_iff.2 ⟨_, hk, Scalar.same_refl _⟩⟩
    · exact Or.inl hpath
  · intro hcases
    rcases (assemble_asks hs hkept h n).1 hn with ⟨hhides, rfl, -⟩ | ⟨k, hk, hkey, -⟩
    · rcases hcases with hpath | hnot | ⟨bs, hbs, hutf8⟩ | ⟨m, hm, hhas⟩
      · exact absurd rfl hpath
      · rw [hnot] at hhides
        cases hhides
      · exact hused _ hbs (Field.key_bytes hutf8)
      · obtain ⟨k, hk, hsame⟩ := Keyed.has_iff.1 hhas
        obtain rfl := (Scalar.same_text m k).1 hsame
        obtain ⟨p, hp, hpk⟩ := hsends _ hk
        exact Or.inr ⟨p, hp, (hpk.derived _).2 ⟨hhides, rfl, m, hm, rfl⟩⟩
    · exact hused k hk hkey

end

/-- **What a parameter is rebuilt from**: `file_path`, and the tool asks for that unless it is removed.
Where it is, a tool can still ask for a parameter of that name, one that its body spells by bytes. -/
theorem compile_derived_asked (c : Compiler) (path : Scalar) (method : String)
    (operation pathParameters : Value) (tool : Tool)
    (h : (compile c path method operation pathParameters).result = .ok tool) :
    ∃ body ds, bodyOf c operation = .ok body ∧ declarationsOf c operation pathParameters = .ok ds ∧
      ∀ p ∈ tool.recipe.parameters, ∀ source, p.derivedFrom = some source →
        source = Upload.filePath ∧ (source ∈ tool.arguments.properties.map (·.1) ↔
          Upload.filePath ∉ c.settings.removed ∨
            (namedParameters c ds body).IsSpelled Upload.filePath) := by
  obtain ⟨b, ds, earlier, name, description, s, hbody, hds, hs, -, -, -, hassemble⟩ :=
    compile_required_inv h
  have hkept := not_removed_of_namedParameters hbody hds
  refine ⟨_, ds, hbody, hds, fun p hp source hsource => ?_⟩
  exact assemble_derived_asked hs hkept hassemble hp hsource

/-- The upload of a content and a title sends a parameter that is rebuilt from an argument. -/
theorem compile_derived_asked_upload :
    ∃ p ∈ uploadTool.recipe.parameters, ∃ source, p.derivedFrom = some source ∧
      source ∈ uploadTool.arguments.properties.map (·.1) := by
  obtain ⟨body, ds, -, -, h⟩ := compile_derived_asked ⟨.null, {}, ""⟩ (.text "/a") "post"
    uploadOperation (.list []) uploadTool (by rfl)
  have hcontent : ({ name := "content", location := .file, derivedFrom := some Upload.filePath } :
      WireParameter) ∈ uploadTool.recipe.parameters := by simp [uploadTool]
  exact ⟨_, hcontent, _, rfl, (h _ hcontent _ rfl).2.2 (Or.inl (by simp))⟩

/-- An operation with a body of several parts. -/
def multipartOperation (schema : Value) : Value :=
  .record [("operationId", .text "op"),
    ("requestBody", .record [("content", .record [("multipart/form-data",
      .record [("schema", schema)])])])]

/-- A part that is the content of a file. -/
def binaryPart : Value :=
  .record [("type", .text "string"), ("format", .text "binary")]

/-- So where `file_path` is removed, a parameter is rebuilt from what the tool does not ask for. -/
theorem not_compile_derived_asked :
    ¬ ∀ (c : Compiler) (path : Scalar) (method : String) (operation pathParameters : Value)
      (tool : Tool), (compile c path method operation pathParameters).result = .ok tool →
      ∀ p ∈ tool.recipe.parameters, ∀ source, p.derivedFrom = some source →
        source ∈ tool.arguments.properties.map (·.1) := by
  intro h
  have hasked := h ⟨.null, { removed := [Upload.filePath] }, ""⟩ (.text "/a") "post"
    (multipartOperation (.record [("properties", .record [("content", binaryPart)])])) (.list [])
    { name := "op"
      arguments := {}
      recipe := { method := "POST", url := "/a", bodyType := "form-data", parameters := [
        { name := "content", location := .file, derivedFrom := some Upload.filePath }] } } (by rfl)
    _ List.mem_cons_self _ rfl
  cases hasked

/-- **What a tool asks for is used**: it is sent, or a parameter is rebuilt from it.  The exception is
the `file_path` of an upload that hides no parameter. -/
theorem compile_asked_used (c : Compiler) (path : Scalar) (method : String)
    (operation pathParameters : Value) (tool : Tool)
    (h : (compile c path method operation pathParameters).result = .ok tool) :
    ∃ body ds, bodyOf c operation = .ok body ∧ declarationsOf c operation pathParameters = .ok ds ∧
      ∀ n ∈ tool.arguments.properties.map (·.1), tool.Uses n ↔
        n ≠ Upload.filePath ∨
          hidesParameters c.settings (namedParameters c ds body) body = false ∨
          (namedParameters c ds body).IsSpelled Upload.filePath ∨
          ∃ m ∈ c.settings.fileParameterNames,
            Keyed.has (namedParameters c ds body) (.text m) = true := by
  obtain ⟨b, ds, earlier, name, description, s, hbody, hds, hs, -, -, -, hassemble⟩ :=
    compile_required_inv h
  have hkept := not_removed_of_namedParameters hbody hds
  refine ⟨_, ds, hbody, hds, fun n hn => ?_⟩
  exact assemble_asked_used hs hkept hassemble hn

/-- The upload of a content and a title sends the title, and rebuilds the content from `file_path`. -/
theorem compile_asked_used_upload :
    uploadTool.Uses "title" ∧ uploadTool.Uses Upload.filePath := by
  obtain ⟨body, ds, hbody, hds, h⟩ := compile_asked_used ⟨.null, {}, ""⟩ (.text "/a") "post"
    uploadOperation (.list []) uploadTool (by rfl)
  obtain rfl : body = uploadBody := (Except.ok.inj hbody).symm
  obtain rfl := Except.ok.inj hds
  constructor
  · exact (h "title" (by simp [uploadTool])).2 (Or.inl (by decide))
  · refine (h Upload.filePath (by simp [uploadTool])).2 ?_
    exact Or.inr (Or.inr (Or.inr ⟨"content", by simp, by rfl⟩))

/-- But the upload of a part named `file` asks for a `file_path` that has no use. -/
theorem not_compile_asked_used :
    ¬ ∀ (c : Compiler) (path : Scalar) (method : String) (operation pathParameters : Value)
      (tool : Tool), (compile c path method operation pathParameters).result = .ok tool →
      ∀ n ∈ tool.arguments.properties.map (·.1), tool.Uses n := by
  intro h
  have huses := h ⟨.null, {}, ""⟩ (.text "/a") "post"
    (multipartOperation (.record [("properties", .record [("file", binaryPart)])])) (.list [])
    { name := "op"
      arguments := {
        properties := [("file", binaryPart), (Upload.filePath, Upload.filePathSchema)]
        required := some [Upload.filePath] }
      recipe := { method := "POST", url := "/a", bodyType := "form-data", parameters := [
        { name := "file", location := .file }] } } (by rfl)
    Upload.filePath (by simp)
  rcases huses with ⟨p, hp, hname⟩ | ⟨p, hp, hsource⟩
  · obtain rfl := List.mem_singleton.1 hp
    exact absurd hname (by decide)
  · obtain rfl := List.mem_singleton.1 hp
    cases hsource

end Operation

end ToolCatalog
