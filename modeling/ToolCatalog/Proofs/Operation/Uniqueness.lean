import ToolCatalog.Proofs.Operation.Provenance

/-!
# Which required names come twice

The required names of a signature all differ.  What a tool requires are their texts, and two of them
may have one text: a name is spelled by its text or by its bytes.  And an upload appends `file_path`
to them without looking whether it is there.

* `compile_required_unique`: exactly when no required name of a tool comes twice.
-/

namespace ToolCatalog

namespace Field

/-- No two sequences of bytes encode the same text. -/
theorem eq_of_fromUTF8? {bs cs : List UInt8} {name : String}
    (hbs : String.fromUTF8? ⟨bs.toArray⟩ = some name)
    (hcs : String.fromUTF8? ⟨cs.toArray⟩ = some name) : bs = cs := by
  unfold String.fromUTF8? at hbs hcs
  split at hbs
  · split at hcs
    · have heq := congrArg String.toByteArray (Option.some.inj (hbs.trans hcs.symm))
      simpa [String.fromUTF8] using heq
    · cases hcs
  · cases hbs

/-- **The texts of values that all differ** differ, unless one value is the text of another that is
bytes. -/
theorem nodup_texts_iff {vs : List Value} {texts : List String}
    (hvs : vs.Pairwise fun v w => w.same v = false) (h : vs.mapM text = .ok texts) :
    texts.Nodup ↔ ∀ name, Value.text name ∈ vs → ¬ Value.IsSpelledAmong name vs := by
  induction vs generalizing texts with
  | nil =>
    rw [List.mapM_nil] at h
    obtain rfl := Except.ok.inj h
    simp
  | cons v rest ih =>
    rw [List.mapM_cons] at h
    obtain ⟨t, ht, h⟩ := bind_eq_ok.1 h
    obtain ⟨ts, hts, h⟩ := bind_eq_ok.1 h
    obtain rfl := Except.ok.inj h
    obtain ⟨hv, hrest⟩ := List.pairwise_cons.1 hvs
    rw [List.nodup_cons, ih hrest hts, mem_texts_iff hts]
    constructor
    · rintro ⟨hnew, hclash⟩ name hname ⟨bs, hbs, hutf8⟩
      rcases List.mem_cons.1 hname with rfl | htext
      · obtain rfl := Except.ok.inj ht
        rcases List.mem_cons.1 hbs with heq | hbytes
        · cases heq
        · exact hnew (Or.inr ⟨bs, hbytes, hutf8⟩)
      · rcases List.mem_cons.1 hbs with rfl | hbytes
        · obtain rfl := Except.ok.inj (ht.symm.trans (key_bytes hutf8))
          exact hnew (Or.inl htext)
        · exact hclash name htext ⟨bs, hbytes, hutf8⟩
    · intro hclash
      refine ⟨?_, fun name hname ⟨bs, hbs, hutf8⟩ =>
        hclash name (List.mem_cons_of_mem _ hname) ⟨bs, List.mem_cons_of_mem _ hbs, hutf8⟩⟩
      -- Of two values with one text, one is the text and the other is its bytes.
      rcases text_ok ht with rfl | ⟨bs, rfl, hbs⟩
      · rintro (htext | ⟨cs, hcs, hutf8⟩)
        · have hother := hv _ htext
          rw [Value.same_scalar_self] at hother
          cases hother
        · exact hclash t List.mem_cons_self ⟨cs, List.mem_cons_of_mem _ hcs, hutf8⟩
      · rintro (htext | ⟨cs, hcs, hutf8⟩)
        · exact hclash t (List.mem_cons_of_mem _ htext) ⟨bs, List.mem_cons_self, hbs⟩
        · have hother := hv _ hcs
          rw [eq_of_fromUTF8? hbs hutf8, Value.same_scalar_self] at hother
          cases hother

end Field

namespace Operation

/-! ## The required names of a signature -/

/-- **The required names of a signature all differ.** -/
theorem distinct_required {c : Compiler} {operation : String} {fields : Keyed Value}
    {pathParameters body : Value} {s : Signature}
    (h : (signature c operation fields pathParameters body).result = .ok s) :
    s.required.Pairwise fun v w => w.same v = false := by
  obtain ⟨ds, declared, -, hdeclared, hbody⟩ := signature_ok h
  have hdistinct : declared.required.Pairwise fun v w => w.same v = false := by
    refine addDeclared_induction (p := fun s => s.required.Pairwise fun v w => w.same v = false)
      (fun s d schema location _ _ hs => ?_) List.Pairwise.nil hdeclared
    unfold Signature.declare
    simp only
    split
    · exact Value.union_distinct hs _
    · exact hs
  rcases addBody_ok hbody with ⟨es, ps, s', names, -, -, hadd, -, rfl⟩ | ⟨-, rfl⟩
  · have hsame := addProperties_induction (p := fun s => s.required = declared.required)
      (fun s name schema location _ hs => hs) rfl hadd
    rw [Signature.require, hsame]
    exact Value.union_distinct hdistinct _
  · exact hdistinct

/-! ## The required names of a tool -/

/-- A tool requires a name by its text: the body does, or a declaration of the name, and the name is
not withheld. -/
def RequiresText (c : Compiler) (ds : List Declaration) (body : Value) (n : String) : Prop :=
  ¬ Withholds c.settings (namedParameters c ds body) body n ∧
    (Value.text n ∈ bodyRequired body ∨ ∃ d ∈ ds, d.name = n ∧ Requires c d)

/-- A tool requires `file_path` because its operation uploads a file. -/
def AddsFilePath (c : Compiler) (ds : List Declaration) (body : Value) : Prop :=
  hidesParameters c.settings (namedParameters c ds body) body = true ∧
    Upload.filePath ∉ c.settings.removed

/-- Texts that are followed by one more do not repeat if they do not and that one is new. -/
theorem nodup_append_ite {names : List String} {name : String} {p : Prop} [Decidable p] :
    (names ++ if p then [name] else []).Nodup ↔ names.Nodup ∧ (p → name ∉ names) := by
  split
  · next hp =>
    rw [List.nodup_append]
    constructor
    · rintro ⟨hnames, -, hother⟩
      exact ⟨hnames, fun _ hmem => hother name hmem name List.mem_cons_self rfl⟩
    · rintro ⟨hnames, hnew⟩
      refine ⟨hnames, by simp, fun a ha b hb heq => hnew hp ?_⟩
      rwa [← List.mem_singleton.1 hb, ← heq]
  · next hp => simp [hp]

/-- **When no required name of a tool comes twice**: if none is required both by its text and by its
bytes, and an upload that adds `file_path` does not require it already. -/
theorem compile_required_unique (c : Compiler) (path : Scalar) (method : String)
    (operation pathParameters : Value) (tool : Tool)
    (h : (compile c path method operation pathParameters).result = .ok tool) :
    ∃ body ds, bodyOf c operation = .ok body ∧ declarationsOf c operation pathParameters = .ok ds ∧
      tool.arguments.required ≠ some [] ∧
      ((tool.arguments.required.getD []).Nodup ↔
        (∀ n, RequiresText c ds body n → ¬ Value.IsSpelledAmong n (bodyRequired body)) ∧
        (AddsFilePath c ds body → ¬ RequiresText c ds body Upload.filePath ∧
          ¬ Value.IsSpelledAmong Upload.filePath (bodyRequired body))) := by
  obtain ⟨fields, name, b, s, hfields, hname, hb, hsignature, hassemble⟩ := compile_inv h
  obtain ⟨ds, earlier, hds, hs, hrequired, htexts, hearlier⟩ := required_signature hsignature
  refine ⟨_, ds, bodyOf_eq hfields hb, declarationsOf_eq hfields hname hds, ?_⟩
  obtain ⟨hnonempty, texts, hkept, hlist⟩ := assemble_required hs hassemble
  refine ⟨hnonempty, ?_⟩
  have hdistinct := distinct_required hsignature
  rw [hrequired] at hkept hdistinct
  have htext : ∀ n, Value.text n ∈ (Value.union earlier
        (bodyRequired ((b.map (·.schema)).getD .null))).filter (keepsName c.settings
          (hidesParameters c.settings (namedParameters c ds ((b.map (·.schema)).getD .null))
            ((b.map (·.schema)).getD .null))) ↔
      RequiresText c ds ((b.map (·.schema)).getD .null) n := by
    intro n
    rw [text_mem_kept_iff hkept, hearlier]
    rfl
  have hbytes := isSpelledAmong_kept_iff htexts hkept
  rw [hlist, nodup_append_ite, Field.nodup_texts_iff (hdistinct.sublist List.filter_sublist) hkept,
    Field.mem_texts_iff hkept, not_or]
  simp only [htext, hbytes]
  exact Iff.rfl

/-- The schema of a body with the content of a file and a title that requires these names. -/
def requiringBody (names : List String) : Value :=
  .record [("properties", .record [("content", binaryPart),
      ("title", .record [("type", .text "string")])]),
    ("required", .list (names.map .text))]

/-- The tool of an operation with such a body, if it requires the given names. -/
def requiringTool (required : List String) : Tool where
  name := "op"
  arguments := {
    properties := [("title", .record [("type", .text "string")]),
      (Upload.filePath, Upload.filePathSchema)]
    required := some required }
  recipe := {
    method := "POST", url := "/a", bodyType := "form-data"
    parameters := [{ name := "content", location := .file, derivedFrom := some Upload.filePath },
      { name := "title", location := .body }] }

/-- An upload that requires its own parts requires each name once. -/
theorem compile_required_unique_upload :
    ((requiringTool ["title", Upload.filePath]).arguments.required.getD []).Nodup := by
  obtain ⟨body, ds, hbody, hds, -, h⟩ := compile_required_unique ⟨.null, {}, ""⟩ (.text "/a") "post"
    (multipartOperation (requiringBody ["content", "title"])) (.list [])
    (requiringTool ["title", Upload.filePath]) (by rfl)
  obtain rfl : body = requiringBody ["content", "title"] := (Except.ok.inj hbody).symm
  obtain rfl : ds = [] := (Except.ok.inj hds).symm
  have hnames : bodyRequired (requiringBody ["content", "title"]) =
      [.text "content", .text "title"] := by rfl
  have hspelled : ∀ n, ¬ Value.IsSpelledAmong n
      (bodyRequired (requiringBody ["content", "title"])) := by
    rintro n ⟨bs, hbs, -⟩
    simp [hnames] at hbs
  refine h.2 ⟨fun n _ => hspelled n, fun _ => ⟨?_, hspelled _⟩⟩
  rintro ⟨-, hmem | ⟨d, hd, -⟩⟩
  · simp [hnames, Upload.filePath] at hmem
  · cases hd

/-- But one that requires `file_path` itself requires it twice. -/
theorem not_compile_required_unique :
    ¬ ∀ (c : Compiler) (path : Scalar) (method : String) (operation pathParameters : Value)
      (tool : Tool), (compile c path method operation pathParameters).result = .ok tool →
      tool.arguments.required ≠ some [] ∧ (tool.arguments.required.getD []).Nodup := by
  intro h
  have hunique := h ⟨.null, {}, ""⟩ (.text "/a") "post"
    (multipartOperation (requiringBody ["content", Upload.filePath])) (.list [])
    (requiringTool [Upload.filePath, Upload.filePath]) (by rfl)
  simp [requiringTool] at hunique

end Operation

end ToolCatalog
