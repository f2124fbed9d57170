import ToolCatalog.Proofs.Operation.Assembly
import ToolCatalog.Proofs.Upload

/-!
# What a tool asks for and what it sends

The declared parameters and the properties of the body of an operation are one list of named
parameters, `namedParameters`: of those with one name the last counts, in the place of the first.  A
tool sends exactly the parameters of that list, and asks for exactly those, but for an upload, where
`file_path` stands for the parameters that are rebuilt from it.

Names are compared before they are published, and a property of a body may be named by bytes, which
are published as the text they encode: `compile_aligned` is about the bodies without such names, and
`not_compile_distinct` shows what becomes of the others.
-/

namespace ToolCatalog

theorem Settings.isRemoved_text (settings : Settings) (name : String) :
    settings.isRemoved (.text name) = decide (name ∈ settings.removed) :=
  any_same_text _ _

namespace Operation

/-! ## The named parameters of an operation -/

/-- What a declaration names, if the schema can be had. -/
def ofDeclaration (c : Compiler) (d : Declaration) : Option (Scalar × Value × Location) :=
  match (mergedParameter c d).result, Location.classify (.map d.fields) with
  | .ok schema, .ok location => some (.text d.name, schema, location)
  | _, _ => none

/-- What a property of a body names. -/
def ofProperty (e : Scalar × Value) : Option (Scalar × Value × Location) :=
  match Location.classify e.2 with
  | .ok location => some (e.1, e.2, location)
  | .error _ => none

/-- The properties of a body; one that is no mapping has none. -/
def bodyProperties : Value → Keyed Value
  | .map es => (propertiesOfBody es).toOption.getD []
  | _ => []

/-- **The named parameters** of declarations and of a body, each with its schema and its place: of
several with one name the last counts, in the place of the first. -/
def namedParameters (c : Compiler) (ds : List Declaration) (body : Value) :
    Keyed (Value × Location) :=
  Keyed.ofList (ds.filterMap (ofDeclaration c) ++ (bodyProperties body).filterMap ofProperty)

/-- The declared parameters of an operation. -/
def declarationsOf (c : Compiler) (operation pathParameters : Value) :
    Except Fault (List Declaration) := do
  let fields ← operation.fields
  (collect c.settings c.document ((identifier? fields).getD "") pathParameters
    ((Value.field fields "parameters").orElse (.list []))).result

/-- The concrete schema of the body of an operation; an operation without a body has null. -/
def bodyOf (c : Compiler) (operation : Value) : Except Fault Value := do
  let fields ← operation.fields
  let body ← (requestBody c.settings c.document fields).result
  return (body.map (·.schema)).getD .null

theorem bodyOf_eq {c : Compiler} {operation : Value} {fields : Keyed Value} {body : Option Body}
    (hfields : operation.fields = .ok fields)
    (hbody : (requestBody c.settings c.document fields).result = .ok body) :
    bodyOf c operation = .ok ((body.map (·.schema)).getD .null) :=
  bind_eq_ok.2 ⟨fields, hfields, bind_eq_ok.2 ⟨body, hbody, rfl⟩⟩

theorem declarationsOf_eq {c : Compiler} {operation pathParameters : Value} {fields : Keyed Value}
    {name : String} {ds : List Declaration} (hfields : operation.fields = .ok fields)
    (hname : identifier? fields = some name)
    (hds : (collect c.settings c.document name pathParameters
      ((Value.field fields "parameters").orElse (.list []))).result = .ok ds) :
    declarationsOf c operation pathParameters = .ok ds := by
  refine bind_eq_ok.2 ⟨fields, hfields, ?_⟩
  rw [hname]
  exact hds

/-- A signature has the schemas and the places of these parameters. -/
structure Signature.Holds (s : Signature) (parameters : Keyed (Value × Location)) : Prop where
  properties : s.properties = Keyed.mapValues Prod.fst parameters
  locations : s.locations = Keyed.mapValues Prod.snd parameters

theorem Signature.Holds.add {s : Signature} {parameters : Keyed (Value × Location)}
    (h : s.Holds parameters) (name : Scalar) (schema : Value) (location : Location) :
    (s.add name schema location).Holds (Keyed.put parameters name (schema, location)) := by
  constructor
  · rw [Keyed.mapValues_put, ← h.properties]
    rfl
  · rw [Keyed.mapValues_put, ← h.locations]
    rfl

theorem Signature.Holds.declare {s : Signature} {parameters : Keyed (Value × Location)}
    (h : s.Holds parameters) (d : Declaration) (schema : Value) (location : Location) :
    (s.declare d schema location).Holds
      (Keyed.put parameters (.text d.name) (schema, location)) := by
  have hadd := h.add (.text d.name) schema location
  unfold Signature.declare
  simp only
  split
  · exact ⟨hadd.properties, hadd.locations⟩
  · exact hadd

/-- **Adding declared parameters** adds what they name, one after another. -/
theorem addDeclared_holds {c : Compiler} {operation : String} {ds : List Declaration}
    {s r : Signature} {parameters : Keyed (Value × Location)} (hs : s.Holds parameters)
    (h : (addDeclared c operation s ds).result = .ok r) :
    r.Holds (Keyed.putAll parameters (ds.filterMap (ofDeclaration c))) := by
  induction ds generalizing s parameters with
  | nil =>
    rw [addDeclared] at h
    obtain rfl := Except.ok.inj h
    exact hs
  | cons d rest ih =>
    rw [addDeclared, Outcome.result_inspect] at h
    cases hm : (mergedParameter c d).result with
    | error f =>
      have hnone : ofDeclaration c d = none := by
        unfold ofDeclaration
        rw [hm]
      simp only [hm] at h
      split at h
      · obtain ⟨-, -, h⟩ := Outcome.result_bind_ok.1 h
        rw [List.filterMap_cons_none hnone]
        exact ih hs h
      · cases h
    | ok schema =>
      simp only [hm] at h
      obtain ⟨location, hlocation, h⟩ := Outcome.result_bind_ok.1 h
      have hsome : ofDeclaration c d = some (.text d.name, schema, location) := by
        unfold ofDeclaration
        rw [hm, show Location.classify (.map d.fields) = .ok location from hlocation]
      rw [List.filterMap_cons_some hsome]
      exact ih (hs.declare d schema location) h

/-- **Adding properties** adds what they name, one after another. -/
theorem addProperties_holds {ps : Keyed Value} {s r : Signature}
    {parameters : Keyed (Value × Location)} (hs : s.Holds parameters)
    (h : addProperties s ps = .ok r) :
    r.Holds (Keyed.putAll parameters (ps.filterMap ofProperty)) := by
  induction ps generalizing s parameters with
  | nil =>
    rw [addProperties] at h
    obtain rfl := Except.ok.inj h
    exact hs
  | cons e rest ih =>
    obtain ⟨name, schema⟩ := e
    rw [addProperties] at h
    obtain ⟨location, hlocation, h⟩ := bind_eq_ok.1 h
    have hsome : ofProperty (name, schema) = some (name, schema, location) := by
      unfold ofProperty
      rw [hlocation]
    rw [List.filterMap_cons_some hsome]
    exact ih (hs.add name schema location) h

/-- Adding a body adds what its properties name. -/
theorem addBody_holds {operation : String} {s r : Signature} {body : Value}
    {parameters : Keyed (Value × Location)} (hs : s.Holds parameters)
    (h : (addBody operation s body).result = .ok r) :
    r.Holds (Keyed.putAll parameters ((bodyProperties body).filterMap ofProperty)) := by
  rcases addBody_ok h with ⟨es, ps, s', names, rfl, hps, hs', -, rfl⟩ | ⟨hmap, rfl⟩
  · have hproperties : bodyProperties (.map es) = ps := by
      rw [bodyProperties, hps]
      rfl
    rw [hproperties]
    have hholds := addProperties_holds hs hs'
    exact ⟨hholds.properties, hholds.locations⟩
  · have hproperties : bodyProperties body = [] := by
      cases body with
      | map es => exact absurd rfl (hmap es)
      | _ => rfl
    rw [hproperties]
    exact hs

/-- **The signature of an operation** has its named parameters. -/
theorem signature_holds {c : Compiler} {operation : String} {fields : Keyed Value}
    {pathParameters body : Value} {s : Signature}
    (h : (signature c operation fields pathParameters body).result = .ok s) :
    ∃ ds, (collect c.settings c.document operation pathParameters
        ((Value.field fields "parameters").orElse (.list []))).result = .ok ds ∧
      s.Holds (namedParameters c ds body) := by
  obtain ⟨ds, declared, hds, hdeclared, hbody⟩ := signature_ok h
  have hholds := addBody_holds (addDeclared_holds (show Signature.Holds {} [] from ⟨rfl, rfl⟩) hdeclared) hbody
  refine ⟨ds, hds, ?_⟩
  rw [namedParameters, Keyed.ofList, Keyed.putAll, List.foldl_append]
  exact hholds

/-- No two named parameters have one name. -/
theorem namedParameters_distinct (c : Compiler) (ds : List Declaration) (body : Value) :
    Keyed.Distinct (namedParameters c ds body) :=
  Keyed.distinct_putAll List.Pairwise.nil _

/-- Whatever is named is named by a declaration or by a property of the body. -/
theorem mem_namedParameters {c : Compiler} {ds : List Declaration} {body : Value} {k : Scalar}
    (h : k ∈ Keyed.keys (namedParameters c ds body)) :
    (∃ d ∈ ds, k = .text d.name) ∨ k ∈ Keyed.keys (bodyProperties body) := by
  rcases Keyed.mem_keys_putAll h with h | h
  · cases h
  · obtain ⟨a, ha⟩ := Keyed.mem_keys.1 h
    rcases List.mem_append.1 ha with ha | ha
    · obtain ⟨d, hd, heq⟩ := List.mem_filterMap.1 ha
      refine Or.inl ⟨d, hd, ?_⟩
      unfold ofDeclaration at heq
      split at heq
      · exact (Prod.mk.inj (Option.some.inj heq)).1.symm
      · cases heq
    · obtain ⟨⟨name, schema⟩, he, heq⟩ := List.mem_filterMap.1 ha
      refine Or.inr ?_
      unfold ofProperty at heq
      split at heq
      · rw [← (Prod.mk.inj (Option.some.inj heq)).1]
        exact Keyed.mem_keys_of_mem he
      · cases heq

/-! ## The tool -/

/-- The simplification of an upload applies to the named parameters of an operation: it uploads a
file, and none of its own parameters is called `file_path`. -/
def hidesParameters (settings : Settings) (parameters : Keyed (Value × Location)) (body : Value) :
    Bool :=
  Upload.isUpload settings (Keyed.mapValues Prod.snd parameters) body
    && !Keyed.has parameters (.text Upload.filePath)

theorem not_has_of_hides {settings : Settings} {parameters : Keyed (Value × Location)} {body : Value}
    (h : hidesParameters settings parameters body = true) :
    Keyed.has parameters (.text Upload.filePath) = false := by
  unfold hidesParameters at h
  rw [Bool.and_eq_true, Bool.not_eq_true'] at h
  exact h.2

/-- **What a tool sends and what it asks for are the same parameters**, where `hides` says that
`file_path` stands for those that are rebuilt from it. -/
structure Aligned (settings : Settings) (hides : Bool)
    (parameters : List (String × Value × Location)) (tool : Tool) : Prop where
  /-- The tool sends exactly these parameters. -/
  sent : tool.recipe.parameters.map (fun p => (p.name, p.location, p.type)) =
    parameters.map fun e => (e.1, e.2.2, Schema.wireType e.2.1)
  /-- Each is sent once. -/
  distinct : (tool.recipe.parameters.map (·.name)).Nodup
  /-- What is rebuilt is rebuilt from `file_path`, and that is what an upload hides. -/
  derived : ∀ p ∈ tool.recipe.parameters, p.derivedFrom =
    if hides = true ∧ p.name ∈ settings.fileParameterNames then some Upload.filePath else none
  /-- The tool asks for exactly these parameters, those aside that it hides. -/
  asked : tool.arguments.properties.map (·.1) =
    if hides then
      (parameters.map (·.1)).filter (fun name => !decide (name ∈ settings.fileParameterNames)) ++
        if Upload.filePath ∈ settings.removed then [] else [Upload.filePath]
    else parameters.map (·.1)

section

variable {c : Compiler} {body : Option Body} {s : Signature} {all : Keyed (Value × Location)}

theorem presented_of_not_hides (hs : s.Holds all)
    (h : hidesParameters c.settings all ((body.map (·.schema)).getD .null) = false) :
    presented c body s =
      { properties := s.properties, locations := s.locations, required := s.required
        derived := [], uiOnly := [] } := by
  unfold presented Upload.simplify
  rw [hs.locations, hs.properties, Keyed.has_mapValues]
  unfold hidesParameters at h
  split
  · next hupload =>
    rw [hupload, Bool.true_and, Bool.not_eq_false'] at h
    rw [if_pos h]
  · rfl

theorem presented_of_hides (hs : s.Holds all)
    (h : hidesParameters c.settings all ((body.map (·.schema)).getD .null) = true) :
    presented c body s =
      { properties :=
          Keyed.put (s.properties.filter fun e =>
            !(Upload.hidden c.settings s.properties).any fun n => (Scalar.text n).same e.1)
            (.text Upload.filePath) Upload.filePathSchema
        locations := Keyed.put s.locations (.text Upload.filePath) .file
        required := s.required.filter (fun name => !Upload.isFileParameter c.settings name) ++
          [.text Upload.filePath]
        derived := (Upload.hidden c.settings s.properties).map (·, Upload.filePath)
        uiOnly := [Upload.filePath] } := by
  unfold hidesParameters at h
  rw [Bool.and_eq_true, Bool.not_eq_true', ← Keyed.has_mapValues Prod.fst, ← hs.properties,
    ← hs.locations] at h
  unfold presented Upload.simplify
  rw [if_pos h.1, h.2]
  rfl

/-- **What is sent** are the named parameters that are not removed. -/
theorem sent_presented (hs : s.Holds all) :
    sent c.settings (presented c body s) =
      Keyed.mapValues Prod.snd (all.filter fun e => !c.settings.isRemoved e.1) := by
  rw [← Keyed.filter_mapValues Prod.snd all fun k => !c.settings.isRemoved k, ← hs.locations]
  cases h : hidesParameters c.settings all ((body.map (·.schema)).getD .null) with
  | false =>
    rw [presented_of_not_hides hs h]
    simp [sent]
  | true =>
    have hnew : Keyed.has s.locations (.text Upload.filePath) = false := by
      rw [hs.locations, Keyed.has_mapValues]
      exact not_has_of_hides h
    rw [presented_of_hides hs h, sent, Keyed.put_of_not_has hnew, List.filter_append]
    have hself : (Scalar.text Upload.filePath).same (.text Upload.filePath) = true :=
      Scalar.same_refl _
    simp only [List.any_cons, List.any_nil, Bool.or_false, List.filter_cons, List.filter_nil, hself,
      Bool.not_true, Bool.false_and, Bool.false_eq_true, if_false, List.append_nil]
    refine List.filter_congr fun e he => ?_
    have hother : (Scalar.text Upload.filePath).same e.1 = false := by
      cases hsame : (Scalar.text Upload.filePath).same e.1 with
      | false => rfl
      | true =>
        rw [Keyed.has_iff.2 ⟨e.1, Keyed.mem_keys_of_mem he, hsame⟩] at hnew
        cases hnew
    rw [hother, Bool.not_false, Bool.true_and]

/-- Every parameter that is sent has a name, so no other keys than texts are left. -/
theorem exists_kept {parameters : List WireParameter} (hs : s.Holds all)
    (hbytes : ∀ bs, .bytes bs ∉ Keyed.keys all)
    (h : (sent c.settings (presented c body s)).mapM
      (fun e => wireParameter s.properties (presented c body s).derived e.1 e.2) = .ok parameters) :
    ∃ kept : List (String × Value × Location),
      (all.filter fun e => !c.settings.isRemoved e.1) = kept.map fun e => (.text e.1, e.2) := by
  rw [sent_presented hs] at h
  refine Keyed.exists_names fun k hk => ?_
  obtain ⟨⟨schema, location⟩, he⟩ := Keyed.mem_keys.1 hk
  obtain ⟨p, -, hp⟩ := (mapM_eq_ok h).2 (k, location) (List.mem_map.2 ⟨_, he, rfl⟩)
  refine ⟨p.name, Field.eq_text_of_key (wireParameter_name hp) fun bs hbs => hbytes bs ?_⟩
  rw [← hbs]
  exact Keyed.mem_keys_of_mem (List.mem_filter.1 he).1

theorem wireParameter_text {declared : Keyed Value} {derived : List (String × String)}
    {name : String} {location : Location} {p : WireParameter}
    (h : wireParameter declared derived (.text name) location = .ok p) :
    p = {
      name, location
      type := Schema.wireType ((Keyed.find? declared (.text name)).getD .null)
      derivedFrom := (derived.find? fun d => (Scalar.text d.1).same (.text name)).map (·.2) } := by
  unfold wireParameter at h
  rw [Field.key_text] at h
  exact (Except.ok.inj h).symm

variable {kept : List (String × Value × Location)}

/-- The names that are kept all differ. -/
theorem nodup_kept (hdistinct : Keyed.Distinct all)
    (hkept : (all.filter fun e => !c.settings.isRemoved e.1) = kept.map fun e => (.text e.1, e.2)) :
    (kept.map (·.1)).Nodup := by
  have hkeys : (Keyed.keys (kept.map fun e => ((.text e.1, e.2) : Scalar × Value × Location))).Pairwise
      fun k q => k.same q = false := by
    rw [← hkept]
    exact hdistinct.sublist (List.filter_sublist.map _)
  rw [Keyed.keys, List.map_map, List.pairwise_map] at hkeys
  rw [List.Nodup, List.pairwise_map]
  refine hkeys.imp fun {a b} hsame heq => ?_
  simp only [Function.comp_apply, heq, Scalar.same_refl] at hsame
  cases hsame

/-- What is kept is declared with its schema. -/
theorem find?_kept (hs : s.Holds all)
    (hdistinct : Keyed.Distinct all)
    (hkept : (all.filter fun e => !c.settings.isRemoved e.1) = kept.map fun e => (.text e.1, e.2))
    {e : String × Value × Location} (he : e ∈ kept) :
    Keyed.find? s.properties (.text e.1) = some e.2.1 := by
  have hmem : (.text e.1, e.2) ∈ all := by
    have : (.text e.1, e.2) ∈ all.filter fun e => !c.settings.isRemoved e.1 := by
      rw [hkept]
      exact List.mem_map.2 ⟨e, he, rfl⟩
    exact (List.mem_filter.1 this).1
  rw [hs.properties, Keyed.find?_mapValues, Keyed.find?_of_mem hmem hdistinct]
  rfl

/-- **A tool sends the named parameters** that are kept. -/
theorem wireParameters_kept {parameters : List WireParameter} (hs : s.Holds all)
    (hdistinct : Keyed.Distinct all)
    (hkept : (all.filter fun e => !c.settings.isRemoved e.1) = kept.map fun e => (.text e.1, e.2))
    (h : (sent c.settings (presented c body s)).mapM
      (fun e => wireParameter s.properties (presented c body s).derived e.1 e.2) = .ok parameters) :
    parameters = kept.map fun e => {
      name := e.1, location := e.2.2, type := Schema.wireType e.2.1
      derivedFrom := ((presented c body s).derived.find? fun d =>
        (Scalar.text d.1).same (.text e.1)).map (·.2) } := by
  rw [sent_presented hs, hkept, Keyed.mapValues, List.map_map, List.mapM_map] at h
  refine eq_map_of_mapM h fun e he p hp => ?_
  rw [wireParameter_text hp, find?_kept hs hdistinct hkept he]
  rfl

/-- What a kept parameter is rebuilt from. -/
theorem derived_kept (hs : s.Holds all)
    (hdistinct : Keyed.Distinct all)
    (hkept : (all.filter fun e => !c.settings.isRemoved e.1) = kept.map fun e => (.text e.1, e.2))
    {e : String × Value × Location} (he : e ∈ kept) :
    ((presented c body s).derived.find? fun d => (Scalar.text d.1).same (.text e.1)).map (·.2) =
      if hidesParameters c.settings all ((body.map (·.schema)).getD .null) = true ∧
        e.1 ∈ c.settings.fileParameterNames then some Upload.filePath else none := by
  cases h : hidesParameters c.settings all ((body.map (·.schema)).getD .null) with
  | false =>
    rw [presented_of_not_hides hs h]
    simp
  | true =>
    have hhas : Keyed.has s.properties (.text e.1) = true := by
      rw [Keyed.has, find?_kept hs hdistinct hkept he]
      rfl
    rw [presented_of_hides hs h, Upload.find?_derived, any_same_text]
    simp only [decide_eq_true_eq, Upload.mem_hidden hhas, true_and]

/-- The kept parameters with their schemas are the properties of the signature that are not
removed. -/
theorem properties_kept (hs : s.Holds all)
    (hkept : (all.filter fun e => !c.settings.isRemoved e.1) = kept.map fun e => (.text e.1, e.2)) :
    (s.properties.filter fun e => !c.settings.isRemoved e.1) =
      (kept.map fun e => (e.1, e.2.1)).map fun e => (.text e.1, e.2) := by
  rw [hs.properties, Keyed.filter_mapValues Prod.fst all fun k => !c.settings.isRemoved k, hkept]
  simp [Keyed.mapValues, Function.comp_def]

/-- The properties that an upload shows and that are not removed: the kept parameters that are not
rebuilt, and `file_path`. -/
theorem shown_of_hides (hs : s.Holds all)
    (hdistinct : Keyed.Distinct all)
    (hkept : (all.filter fun e => !c.settings.isRemoved e.1) = kept.map fun e => (.text e.1, e.2))
    (h : hidesParameters c.settings all ((body.map (·.schema)).getD .null) = true) :
    ((presented c body s).properties.filter fun e => !c.settings.isRemoved e.1) =
      ((kept.filter fun e => !decide (e.1 ∈ c.settings.fileParameterNames)).map
          (fun e => (e.1, e.2.1)) ++
        if Upload.filePath ∈ c.settings.removed then []
        else [(Upload.filePath, Upload.filePathSchema)]).map fun e => (.text e.1, e.2) := by
  have hnot : Keyed.has s.properties (.text Upload.filePath) = false := by
    rw [hs.properties, Keyed.has_mapValues]
    exact not_has_of_hides h
  rw [presented_of_hides hs h]
  simp only
  rw [Keyed.put_of_not_has (Keyed.not_has_filter hnot _), List.filter_append, List.map_append]
  congr 1
  · rw [List.filter_filter, List.filter_congr fun e _ => Bool.and_comm _ _, ← List.filter_filter,
      properties_kept hs hkept, List.filter_map, List.filter_map,
      List.map_map, List.map_map]
    refine congrArg _ (List.filter_congr fun e he => ?_)
    have hhas : Keyed.has s.properties (.text e.1) = true := by
      rw [Keyed.has, find?_kept hs hdistinct hkept he]
      rfl
    simp only [Function.comp_apply, any_same_text, Upload.mem_hidden hhas]
  · have hremoved := c.settings.isRemoved_text Upload.filePath
    by_cases hmem : Upload.filePath ∈ c.settings.removed
    · simp [hremoved, hmem]
    · simp [hremoved, hmem]

/-- **A tool asks for the named parameters** that are kept, those aside that it hides. -/
theorem asked_kept {properties : List (String × Value)} (hs : s.Holds all)
    (hdistinct : Keyed.Distinct all)
    (hkept : (all.filter fun e => !c.settings.isRemoved e.1) = kept.map fun e => (.text e.1, e.2))
    (h : Field.named ((presented c body s).properties.filter fun e => !c.settings.isRemoved e.1) =
      .ok properties) :
    properties.map (·.1) =
      if hidesParameters c.settings all ((body.map (·.schema)).getD .null) then
        (kept.map (·.1)).filter (fun name => !decide (name ∈ c.settings.fileParameterNames)) ++
          if Upload.filePath ∈ c.settings.removed then [] else [Upload.filePath]
      else kept.map (·.1) := by
  have hnodup := nodup_kept hdistinct hkept
  cases hhides : hidesParameters c.settings all ((body.map (·.schema)).getD .null) with
  | false =>
    rw [presented_of_not_hides hs hhides, properties_kept hs hkept, Field.named_texts] at h
    · obtain rfl := Except.ok.inj h
      simp
    · rw [List.map_map]
      exact hnodup
  | true =>
    have hnew : Upload.filePath ∉ kept.map (·.1) := by
      intro hmem
      obtain ⟨e, he, hpath⟩ := List.mem_map.1 hmem
      have hnot := not_has_of_hides hhides
      rw [← Keyed.has_mapValues Prod.fst, ← hs.properties, ← hpath, Keyed.has,
        find?_kept hs hdistinct hkept he] at hnot
      cases hnot
    have hshown : ((kept.filter fun e => !decide (e.1 ∈ c.settings.fileParameterNames)).map
        (·.1)).Nodup := hnodup.sublist (List.filter_sublist.map _)
    rw [shown_of_hides hs hdistinct hkept hhides, Field.named_texts] at h
    · obtain rfl := Except.ok.inj h
      rw [if_pos rfl, List.map_append, List.map_map, List.filter_map]
      congr 1
      split <;> rfl
    · rw [List.map_append, List.map_map]
      split
      · rw [List.map_nil, List.append_nil]
        exact hshown
      · refine List.nodup_append.2 ⟨hshown, by simp, fun name hname other hother heq => hnew ?_⟩
        obtain ⟨e, he, hpath⟩ := List.mem_map.1 hname
        rw [heq, List.mem_singleton.1 hother] at hpath
        exact List.mem_map.2 ⟨e, (List.mem_filter.1 he).1, hpath⟩

/-- **An assembled tool is aligned** with the named parameters that are kept. -/
theorem assemble_aligned {name description : Value} {method : String} {path : Scalar} {tool : Tool}
    (hs : s.Holds all) (hdistinct : Keyed.Distinct all)
    (hbytes : ∀ bs, .bytes bs ∉ Keyed.keys all)
    (h : assemble c name description method path body s = .ok tool) :
    ∃ kept : List (String × Value × Location),
      (all.filter fun e => !c.settings.isRemoved e.1) = kept.map (fun e => (.text e.1, e.2)) ∧
      Aligned c.settings
        (hidesParameters c.settings all ((body.map (·.schema)).getD .null)) kept tool := by
  obtain ⟨hproperties, -, hparameters⟩ := assemble_ok h
  obtain ⟨kept, hkept⟩ := exists_kept hs hbytes hparameters
  have hwire := wireParameters_kept hs hdistinct hkept hparameters
  refine ⟨kept, hkept, ?_, ?_, ?_, asked_kept hs hdistinct hkept hproperties⟩
  · rw [hwire, List.map_map]
    rfl
  · rw [hwire, List.map_map]
    exact nodup_kept hdistinct hkept
  · intro p hp
    rw [hwire] at hp
    obtain ⟨e, he, rfl⟩ := List.mem_map.1 hp
    exact derived_kept hs hdistinct hkept he

end

/-- **A compiled operation is aligned** with the parameters it names, unless a property of its body
is named by bytes.  Where it sends `file_path`, it declares that name. -/
theorem compile_aligned (c : Compiler) (path : Scalar) (method : String)
    (operation pathParameters : Value) (tool : Tool) (body : Value)
    (hbody : bodyOf c operation = .ok body)
    (hbytes : ∀ bs, .bytes bs ∉ Keyed.keys (bodyProperties body))
    (h : (compile c path method operation pathParameters).result = .ok tool) :
    ∃ ds kept, declarationsOf c operation pathParameters = .ok ds ∧
      ((namedParameters c ds body).filter fun e => !c.settings.isRemoved e.1) =
        kept.map (fun e => (.text e.1, e.2)) ∧
      Aligned c.settings (hidesParameters c.settings (namedParameters c ds body) body) kept tool ∧
      (Upload.filePath ∈ tool.recipe.parameters.map (·.name) →
        (∃ d ∈ ds, d.name = Upload.filePath) ∨
          .text Upload.filePath ∈ Keyed.keys (bodyProperties body)) := by
  obtain ⟨fields, name, b, s, hfields, hname, hb, hs, hassemble⟩ := compile_inv h
  have heq : (b.map (·.schema)).getD .null = body := by
    obtain ⟨fields', hfields', hbody⟩ := bind_eq_ok.1 hbody
    rw [hfields] at hfields'
    obtain rfl := Except.ok.inj hfields'
    obtain ⟨b', hb', hbody⟩ := bind_eq_ok.1 hbody
    rw [hb] at hb'
    obtain rfl := Except.ok.inj hb'
    exact Except.ok.inj hbody
  obtain ⟨ds, hds, hholds⟩ := signature_holds hs
  rw [heq] at hholds
  have hnames : ∀ bs, .bytes bs ∉ Keyed.keys (namedParameters c ds body) := by
    intro bs hmem
    rcases mem_namedParameters hmem with ⟨d, -, hd⟩ | hmem
    · cases hd
    · exact hbytes bs hmem
  obtain ⟨kept, hkept, haligned⟩ :=
    assemble_aligned hholds (namedParameters_distinct c ds body) hnames hassemble
  rw [heq] at haligned
  refine ⟨ds, kept, ?_, hkept, haligned, fun hsent => ?_⟩
  · refine bind_eq_ok.2 ⟨fields, hfields, ?_⟩
    rw [hname]
    exact hds
  · have hsame : tool.recipe.parameters.map (·.name) = kept.map (·.1) := by
      have hsent := congrArg (List.map (·.1)) haligned.sent
      rwa [List.map_map, List.map_map] at hsent
    rw [hsame] at hsent
    obtain ⟨e, he, hpath⟩ := List.mem_map.1 hsent
    have hmem : (.text Upload.filePath, e.2) ∈
        (namedParameters c ds body).filter fun e => !c.settings.isRemoved e.1 := by
      rw [hkept, ← hpath]
      exact List.mem_map.2 ⟨e, he, rfl⟩
    rcases mem_namedParameters (Keyed.mem_keys_of_mem (List.mem_filter.1 hmem).1) with
      ⟨d, hd, heq⟩ | hmem
    · exact Or.inl ⟨d, hd, (Scalar.text.inj heq).symm⟩
    · exact Or.inr hmem

/-- The schema of a body that asks for a file and its title. -/
def uploadBody : Value :=
  .record [("properties", .record [
    ("content", .record [("type", .text "string"), ("format", .text "binary")]),
    ("title", .record [("type", .text "string")])])]

/-- An operation with this body and a declared parameter. -/
def uploadOperation : Value :=
  .record [("operationId", .text "upload"),
    ("parameters", .list [.record [("name", .text "id"), ("in", .text "path"),
      ("schema", .record [("type", .text "integer")])]]),
    ("requestBody", .record [("content", .record [("multipart/form-data",
      .record [("schema", uploadBody)])])])]

/-- The tool of this operation: it asks for the path of the file, and sends the content. -/
def uploadTool : Tool where
  name := "upload"
  arguments := {
    properties := [("id", .record [("type", .text "integer")]),
      ("title", .record [("type", .text "string")]), (Upload.filePath, Upload.filePathSchema)]
    required := some [Upload.filePath] }
  recipe := {
    method := "POST", url := "/a", bodyType := "form-data"
    parameters := [{ name := "id", location := .path, type := "integer" },
      { name := "content", location := .file, derivedFrom := some Upload.filePath },
      { name := "title", location := .body }] }

/-- It is aligned with its parameters, one of which it hides. -/
theorem compile_aligned_upload :
    ∃ kept, kept.length = 3 ∧ Aligned {} true kept uploadTool := by
  have hkeys : Keyed.keys (bodyProperties uploadBody) = [.text "content", .text "title"] := by rfl
  obtain ⟨ds, kept, hds, -, haligned, -⟩ := compile_aligned ⟨.null, {}, ""⟩ (.text "/a") "post"
    uploadOperation (.list []) uploadTool uploadBody (by rfl) (by simp [hkeys]) (by rfl)
  have hlength : uploadTool.recipe.parameters.length = kept.length := by
    simpa using congrArg List.length haligned.sent
  refine ⟨kept, hlength.symm, ?_⟩
  obtain rfl := Except.ok.inj hds
  exact haligned

/-- An operation whose body names two properties alike, one by its text and one by its bytes. -/
def alikeOperation : Value :=
  .record [("operationId", .text "op"),
    ("requestBody", .record [("content", .record [("application/json", .record [("schema",
      .record [("properties", .map [
        (.text "a", .record [("type", .text "integer")]),
        (.bytes [97], .record [("type", .text "string")])])])])])])]

/-- So a tool may send two parameters of one name. -/
theorem not_compile_distinct :
    ¬ ∀ (c : Compiler) (path : Scalar) (method : String) (operation pathParameters : Value)
      (tool : Tool), (compile c path method operation pathParameters).result = .ok tool →
      (tool.recipe.parameters.map (·.name)).Nodup := by
  intro h
  have hdistinct := h ⟨.null, {}, ""⟩ (.text "/a") "post" alikeOperation (.list [])
    { name := "op"
      arguments := { properties := [("a", .record [("type", .text "string")])] }
      recipe := { method := "POST", url := "/a", parameters := [
        { name := "a", location := .body, type := "integer" },
        { name := "a", location := .body }] } } (by rfl)
  simp at hdistinct

end Operation

end ToolCatalog
