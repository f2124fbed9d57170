import ToolCatalog.Proofs.Operation.Requiredness
import ToolCatalog.Proofs.Schema.Leaves

/-!
# Which declared parameters an operation survives

A declared parameter that cannot be used is meant to be skipped.  What goes wrong with its references and
with a schema that is a mapping is skipped; what goes wrong where a schema is no mapping, or where the
place of the parameter is looked up, may end the operation.  `Breaks` says which declarations do.

* `compile_survives`: an operation that compiles without parameters compiles with those of a JSON document
  exactly if none of the collected declarations breaks it, and none does that has a text for its place and
  a mapping for its schema.
-/

namespace ToolCatalog

namespace Operation

/-! ## Declarations that break an operation -/

/-- A declaration breaks its operation: its schema cannot be had and it is not skipped for that, or its
schema can be had and its location cannot. -/
def Breaks (c : Compiler) (d : Declaration) : Prop :=
  (∃ f, (mergedParameter c d).result = .error f ∧ f.skipsParameter = false) ∨
    ∃ schema f, (mergedParameter c d).result = .ok schema ∧
      Location.classify (.map d.fields) = .error f

section

variable {c : Compiler} {d : Declaration}

theorem breaks_iff_of_error {f : Fault} (h : (mergedParameter c d).result = .error f) :
    Breaks c d ↔ f.skipsParameter = false := by
  simp [Breaks, h]

theorem breaks_iff_of_ok {schema : Value} (h : (mergedParameter c d).result = .ok schema) :
    Breaks c d ↔ ∃ f, Location.classify (.map d.fields) = .error f := by
  simp [Breaks, h]

end

/-- **Declared parameters can be added** exactly if none of them breaks the operation. -/
theorem addDeclared_ok_iff {c : Compiler} (operation : String) (s : Signature)
    {ds : List Declaration} :
    (∃ r, (addDeclared c operation s ds).result = .ok r) ↔ ∀ d ∈ ds, ¬ Breaks c d := by
  induction ds generalizing s with
  | nil => exact ⟨by simp, fun _ => ⟨s, rfl⟩⟩
  | cons d rest ih =>
    rw [result_addDeclared_cons, List.forall_mem_cons]
    cases hm : (mergedParameter c d).result with
    | error f =>
      rw [breaks_iff_of_error hm]
      cases hskips : f.skipsParameter with
      | true => simpa [hskips] using ih s
      | false => simp [hskips]
    | ok schema =>
      rw [breaks_iff_of_ok hm]
      cases hlocation : Location.classify (.map d.fields) with
      | error f => simp [Except.bind]
      | ok location => simpa [Except.bind] using ih _

/-! ## Bodies -/

/-- Whether the properties of a body can be added does not depend on what is there. -/
theorem addProperties_ok_of_ok {ps : Keyed Value} {s r : Signature} (h : addProperties s ps = .ok r)
    (s' : Signature) : ∃ r', addProperties s' ps = .ok r' := by
  induction ps generalizing s s' with
  | nil => exact ⟨s', rfl⟩
  | cons e rest ih =>
    obtain ⟨name, schema⟩ := e
    rw [addProperties] at h
    obtain ⟨location, hlocation, h⟩ := bind_eq_ok.1 h
    obtain ⟨r', hr'⟩ := ih h (s'.add name schema location)
    exact ⟨r', bind_eq_ok.2 ⟨location, hlocation, hr'⟩⟩

theorem addBody_ok_of_ok {operation : String} {body : Value} {s r : Signature}
    (h : (addBody operation s body).result = .ok r) (s' : Signature) :
    ∃ r', (addBody operation s' body).result = .ok r' := by
  unfold addBody at h ⊢
  split at h
  · obtain ⟨ps, hps, h⟩ := Outcome.result_bind_ok.1 h
    obtain ⟨s₁, hs₁, h⟩ := Outcome.result_bind_ok.1 h
    obtain ⟨names, hnames, h⟩ := Outcome.result_bind_ok.1 h
    obtain ⟨r', hr'⟩ := addProperties_ok_of_ok hs₁ s'
    exact ⟨r'.require names, Outcome.result_bind_ok.2 ⟨ps, hps,
      Outcome.result_bind_ok.2 ⟨r', hr', Outcome.result_bind_ok.2 ⟨names, hnames, rfl⟩⟩⟩⟩
  · exact ⟨s', rfl⟩
  · exact ⟨s', rfl⟩

/-- **The schema of the body of a JSON operation** is a JSON value. -/
theorem isJson_body {settings : Settings} {document : Value} {operation : Keyed Value}
    {body : Option Body} (hdocument : document.IsJson) (hoperation : (Value.map operation).IsJson)
    (h : (requestBody settings document operation).result = .ok body) :
    Value.IsJson ((body.map (·.schema)).getD .null) := by
  cases body with
  | none => exact Value.isJson_scalar.2 rfl
  | some b =>
    obtain ⟨node, hnode, hmerge⟩ := requestBody_inherits (p := Value.IsJson)
      (Value.isJson_map.2 ⟨by simp, by simp⟩) (fun _ _ hw hv => hv.within hw) hdocument hoperation h
    exact Schema.isJson_merge hdocument hnode hmerge

/-- The names that a JSON body requires are JSON values, and its properties have texts as names. -/
theorem isJson_bodyRequired {body : Value} (h : body.IsJson) : ∀ v ∈ bodyRequired body, v.IsJson := by
  cases body with
  | map es =>
    have hfield : ((Value.field es "required").orElse (.list [])).IsJson :=
      (h.field _).orElse (Value.isJson_list.2 (by simp))
    intro v hv
    rw [bodyRequired, requiredOfBody] at hv
    cases hitems : ((Value.field es "required").orElse (.list [])).items with
    | error f =>
      rw [hitems] at hv
      cases hv
    | ok vs =>
      rw [hitems] at hv
      exact hfield.items hitems v hv
  | _ => simp [bodyRequired]

theorem texts_bodyProperties {body : Value} (h : body.IsJson) :
    ∀ k ∈ Keyed.keys (bodyProperties body), ∃ t, k = .text t := by
  cases body with
  | map es =>
    intro k hk
    rw [bodyProperties] at hk
    cases hps : propertiesOfBody es with
    | error f =>
      rw [hps] at hk
      cases hk
    | ok ps =>
      rw [hps] at hk
      have hps' := keysEverywhere_fields (keysEverywhere_orElse Schema.hereditary_texts
        (keysEverywhere_field h.keys "properties")) hps
      exact (Value.keysEverywhere_map.1 hps').1 k hk
  | _ => simp [bodyProperties]

/-! ## Assembling with texts -/

section

variable {c : Compiler} {body : Option Body} {s : Signature} {all : Keyed (Value × Location)}

theorem withoutRemoved_of_texts (settings : Settings) {names : List Value}
    (h : ∀ v ∈ names, ∃ t, v = .text t) : ∃ kept, withoutRemoved settings names = .ok kept := by
  induction names with
  | nil => exact ⟨[], rfl⟩
  | cons name rest ih =>
    obtain ⟨t, rfl⟩ := h name List.mem_cons_self
    obtain ⟨kept, hkept⟩ := ih fun v hv => h v (List.mem_cons_of_mem _ hv)
    exact ⟨_, bind_eq_ok.2 ⟨kept, hkept, rfl⟩⟩

/-- **A tool can be assembled** if the names of the parameters and the required names are texts. -/
theorem assemble_of_texts {name description : Value} {method place n t : String} {path : Scalar}
    (hs : s.Holds all) (hkeys : ∀ k ∈ Keyed.keys all, ∃ t, k = .text t)
    (hrequired : ∀ v ∈ s.required, ∃ t, v = .text t)
    (hplace : (Value.scalar path).show? = .ok place) (hname : Field.text name = .ok n)
    (hdescription : Field.text description = .ok t) :
    ∃ tool, assemble c name description method path body s = .ok tool := by
  have hpresented : ∀ v ∈ (presented c body s).required, ∃ t, v = .text t := by
    intro v hv
    rcases mem_presented_required hv with hv | rfl
    · exact hrequired v hv
    · exact ⟨_, rfl⟩
  obtain ⟨required, hkept⟩ := withoutRemoved_of_texts c.settings hpresented
  obtain ⟨parameters, hparameters⟩ : ∃ parameters, (sent c.settings (presented c body s)).mapM
      (fun e => wireParameter s.properties (presented c body s).derived e.1 e.2) =
        .ok parameters := by
    refine mapM_of_forall_ok fun e he => ?_
    rw [sent_presented hs] at he
    obtain ⟨⟨k, a⟩, ha, rfl⟩ := List.mem_map.1 he
    obtain ⟨t, rfl⟩ := hkeys k (Keyed.mem_keys_of_mem (List.mem_filter.1 ha).1)
    exact ⟨_, rfl⟩
  obtain ⟨properties, hproperties⟩ : ∃ properties,
      Field.named ((presented c body s).properties.filter fun e => !c.settings.isRemoved e.1) =
        .ok properties := by
    refine Field.named_of_texts fun k hk => ?_
    obtain ⟨v, hv⟩ := Keyed.mem_keys.1 hk
    by_cases hpath : k = .text Upload.filePath
    · exact ⟨_, hpath⟩
    · obtain ⟨hv, -⟩ := (mem_asked_iff hs fun _ => hpath).1 hv
      rw [hs.properties] at hv
      obtain ⟨⟨k', a⟩, ha, heq⟩ := List.mem_map.1 hv
      obtain ⟨rfl, -⟩ := Prod.mk.inj heq
      exact hkeys k' (Keyed.mem_keys_of_mem ha)
  obtain ⟨texts, htexts⟩ : ∃ texts, required.mapM Field.text = .ok texts := by
    refine mapM_of_forall_ok fun v hv => ?_
    obtain ⟨t, rfl⟩ := hpresented v ((mem_withoutRemoved hkept v).1 hv).1
    exact ⟨t, rfl⟩
  exact ⟨_, assemble_of_steps hkept hparameters hproperties htexts hplace hname hdescription⟩

/-- **The names that a JSON body requires are texts** if a tool of the body alone can be assembled: a name
that is hidden or removed is a text, and any other has to be one. -/
theorem texts_of_assemble {name description : Value} {method : String} {path : Scalar} {tool : Tool}
    {names : List Value} (hs : s.Holds all) (hrequired : s.required = Value.union [] names)
    (hnames : ∀ v ∈ names, v.IsJson)
    (h : assemble c name description method path body s = .ok tool) :
    ∀ v ∈ names, ∃ t, v = .text t := by
  have htext : ∀ {w : Value} {t : String}, w.IsJson → (Value.text t).same w = true →
      ∃ t, w = .text t := by
    intro w t hw hsame
    refine ⟨t, ?_⟩
    rw [← hw.opened]
    exact opened_of_same_text hsame
  have hunion : ∀ w ∈ Value.union [] names, ∃ t, w = .text t := by
    intro w hw
    have hjson := hnames w ((Value.mem_union hw).resolve_left (by simp))
    obtain ⟨-, texts, htexts, -⟩ := assemble_required hs h
    rw [hrequired] at htexts
    cases hkeeps : keepsName c.settings
      (hidesParameters c.settings all ((body.map (·.schema)).getD .null)) w with
    | true =>
      obtain ⟨t, -, hwt⟩ := (mapM_eq_ok htexts).2 w (List.mem_filter.2 ⟨hw, hkeeps⟩)
      rcases Field.text_ok hwt with rfl | ⟨bs, rfl, -⟩
      · exact ⟨t, rfl⟩
      · cases hjson.plain _ .self
    | false =>
      obtain ⟨n, hsame⟩ := exists_same_of_not_keepsName hkeeps
      exact htext hjson hsame
  intro v hv
  rcases Value.mem_union_or_same [] hv with hv | ⟨w, hw, hsame⟩
  · exact hunion v hv
  · obtain ⟨t, rfl⟩ := hunion w hw
    exact ⟨t, (hnames v hv).eq_text_of_same hsame⟩

end

/-! ## Declarations of the usual shape -/

/-- A mapping that declares a parameter as it should: its place is a text, and its schema is a mapping if
it has one. -/
structure IsWellShaped (fields : Keyed Value) : Prop where
  place : ∃ place, Value.field fields "in" = .text place
  schema : (Value.field fields "schema").truthy = false ∨ ∃ es, Value.field fields "schema" = .map es

theorem classify_of_place {fields : Keyed Value} {place : String}
    (h : Value.field fields "in" = .text place) :
    Location.classify (.map fields) = .ok (Location.declared place) := by
  have hfound : Keyed.find? fields (.text "in") = some (.text place) := by
    unfold Value.field at h
    cases hv : Keyed.find? fields (.text "in") with
    | none =>
      rw [hv] at h
      cases h
    | some v =>
      rw [hv] at h
      exact congrArg some h
  have hholds : (Value.map fields).holds "in" = .ok true := by
    rw [Value.holds, Keyed.has, hfound]
    rfl
  have hunder : (Value.map fields).under "in" = .ok (.text place) := by
    unfold Value.under
    simp only [Value.opened, hfound]
  rw [Location.classify, hholds, hunder]
  rfl

/-- A parameter with a mapping for its schema has a schema to merge, with texts as keys. -/
theorem parameterSchema_of_shape {d : Declaration} (hd : (Value.map d.fields).HasTextKeys)
    (h : (Value.field d.fields "schema").truthy = false ∨
      ∃ es, Value.field d.fields "schema" = .map es) :
    ∃ node, parameterSchema d = .ok node ∧ node.HasTextKeys := by
  obtain ⟨es, hes⟩ : ∃ es, (Value.field d.fields "schema").orElse (.map []) = .map es := by
    unfold Value.orElse
    rcases h with h | ⟨es, h⟩
    · exact ⟨[], by rw [h]; rfl⟩
    · rw [h]
      split
      · exact ⟨es, rfl⟩
      · exact ⟨[], rfl⟩
  have hkeys : (Value.map es).HasTextKeys := by
    rw [← hes]
    exact keysEverywhere_orElse Schema.hereditary_texts (keysEverywhere_field hd _)
  unfold parameterSchema
  rw [hes]
  cases hdescription : Keyed.find? d.fields (.text "description") with
  | none => exact ⟨_, rfl, hkeys⟩
  | some description =>
    have hqs : ∀ k ∈ [Scalar.text "description"], ∃ t, k = .text t := by simp
    exact ⟨_, rfl, Schema.hereditary_texts.map_put hkeys hqs List.mem_cons_self
      (Schema.keysEverywhere_of_find? hd hdescription)⟩

/-- **A declaration of the usual shape breaks no operation**: whatever is wrong with its schema, it is
skipped. -/
theorem not_breaks_of_isWellShaped {c : Compiler} {d : Declaration}
    (hdocument : c.document.HasTextKeys) (hd : (Value.map d.fields).HasTextKeys)
    (h : IsWellShaped d.fields) : ¬ Breaks c d := by
  rintro (⟨f, hf, hskips⟩ | ⟨schema, f, -, hf⟩)
  · obtain ⟨node, hnode, hkeys⟩ := parameterSchema_of_shape hd h.schema
    rw [mergedParameter] at hf
    rcases Outcome.result_bind_error.1 hf with hf | ⟨node', hnode', hf⟩
    · rw [Outcome.result_liftM, hnode] at hf
      cases hf
    · rw [Outcome.result_liftM, hnode] at hnode'
      obtain rfl := Except.ok.inj hnode'
      rw [Schema.merge_skipsParameter hdocument hkeys hf] at hskips
      cases hskips
  · obtain ⟨place, hplace⟩ := h.place
    rw [classify_of_place hplace] at hf
    cases hf

/-- What an entry leads to stands in the entry or in the document. -/
theorem isJson_of_named? {document entry : Value} {name : String} {fields : Keyed Value}
    (hdocument : document.IsJson) (hentry : entry.IsJson)
    (h : named? document entry = some (name, fields)) : (Value.map fields).IsJson := by
  obtain ⟨target, htarget, hopened⟩ := trace_of_named? h
  have htarget' : target.IsJson := by
    rcases Schema.trace_ok htarget with rfl | hwithin
    · exact hentry
    · exact hdocument.within hwithin
  rwa [htarget'.opened.symm.trans hopened] at htarget'

/-- Entries of the usual shape can all be collected. -/
theorem collectFrom_of_shape (settings : Settings) {document : Value} (operation : String)
    {entries : List Value}
    (h : ∀ entry ∈ entries, ∀ name fields, named? document entry = some (name, fields) →
      IsWellShaped fields) (done : List Declaration) :
    ∃ ds, (collectFrom settings document operation done entries).result = .ok ds := by
  induction entries generalizing done with
  | nil => exact ⟨done, rfl⟩
  | cons entry rest ih =>
    obtain ⟨declared, hdeclared⟩ :
        ∃ declared, (declare settings document operation entry).result = .ok declared := by
      rw [result_declare]
      cases hnamed : named? document entry with
      | none => exact ⟨_, rfl⟩
      | some e =>
        obtain ⟨name, fields⟩ := e
        obtain ⟨place, hplace⟩ := (h entry List.mem_cons_self name fields hnamed).place
        simp only
        split
        · exact ⟨_, rfl⟩
        · exact ⟨_, by rw [hplace]; rfl⟩
    rw [result_collectFrom_cons, hdeclared]
    exact ih (fun entry' hentry' => h entry' (List.mem_cons_of_mem _ hentry')) _

/-! ## Operations -/

theorem declarationsOf_withParameters (c : Compiler) (fields : Keyed Value) (ps qs : List Value) :
    declarationsOf c (withParameters fields ps) (.list qs) =
      (collectFrom c.settings c.document ((identifier? fields).getD "") [] (qs ++ ps)).result := by
  unfold declarationsOf withParameters
  show (collect _ _ _ _ _).result = _
  rw [field_parameters_put, (agreeBeside_put fields _).identifier?]
  rfl

/-- The names that a body requires are texts if the operation compiles without parameters. -/
theorem texts_bodyRequired {c : Compiler} {operation : String} {fields : Keyed Value}
    {body : Option Body} {s : Signature} {name description : Value} {method : String} {path : Scalar}
    {tool : Tool}
    (hfields : (Value.field fields "parameters").orElse (.list []) = .list [])
    (hjson : Value.IsJson ((body.map (·.schema)).getD .null))
    (hs : (signature c operation fields (.list []) ((body.map (·.schema)).getD .null)).result = .ok s)
    (h : assemble c name description method path body s = .ok tool) :
    ∀ v ∈ bodyRequired ((body.map (·.schema)).getD .null), ∃ t, v = .text t := by
  obtain ⟨ds, earlier, hds, hholds, hrequired, htexts, hearlier⟩ := required_signature hs
  rw [hfields] at hds
  obtain rfl : ds = [] := (Except.ok.inj hds).symm
  have hnil : earlier = [] := by
    refine List.eq_nil_iff_forall_not_mem.2 fun v hv => ?_
    obtain ⟨t, rfl⟩ := htexts v hv
    obtain ⟨d, hd, -⟩ := (hearlier t).1 hv
    cases hd
  rw [hnil] at hrequired
  exact texts_of_assemble hholds hrequired (isJson_bodyRequired hjson) h

/-- **Declarations that do not break an operation give a tool**, if the operation compiles without
parameters. -/
theorem compile_of_declarations {c : Compiler} {path : Scalar} {method : String}
    {fields : Keyed Value} {tool : Tool} {ps qs : List Value} {ds : List Declaration}
    (hdocument : c.document.IsJson) (hoperation : (Value.map fields).IsJson)
    (h : (compile c path method (withoutParameters fields) (.list [])).result = .ok tool)
    (hds : declarationsOf c (withParameters fields ps) (.list qs) = .ok ds)
    (hbreaks : ∀ d ∈ ds, ¬ Breaks c d) :
    ∃ tool', (compile c path method (withParameters fields ps) (.list qs)).result = .ok tool' := by
  obtain ⟨es, name, body, s₀, hes, hname, hbody, hs₀, hassemble⟩ := compile_inv h
  obtain rfl := Except.ok.inj hes
  have hbeside : AgreeBeside (Keyed.put fields (.text "parameters") (.list ps))
      (Keyed.without fields (.text "parameters")) :=
    (agreeBeside_put _ _).trans (agreeBeside_without _).symm
  have hjson : Value.IsJson ((body.map (·.schema)).getD .null) := by
    rw [(agreeBeside_without fields).requestBody] at hbody
    exact isJson_body hdocument hoperation hbody
  -- The declared parameters and then the body can be added.
  rw [declarationsOf_withParameters, ← (agreeBeside_without fields).identifier?, hname] at hds
  obtain ⟨declared, hdeclared⟩ := (addDeclared_ok_iff name {}).2 hbreaks
  obtain ⟨-, declared₀, -, -, hbody₀⟩ := signature_ok hs₀
  obtain ⟨s, hs⟩ := addBody_ok_of_ok hbody₀ declared
  have hsignature : (signature c name (Keyed.put fields (.text "parameters") (.list ps)) (.list qs)
      ((body.map (·.schema)).getD .null)).result = .ok s := by
    rw [result_signature (field_parameters_put _ _)]
    exact bind_eq_ok.2 ⟨ds, hds, bind_eq_ok.2 ⟨declared, hdeclared, hs⟩⟩
  -- The names are texts, so there is nothing that could not be published.
  have hnames := texts_bodyRequired (field_parameters_without fields) hjson hs₀ hassemble
  obtain ⟨ds', earlier, -, hholds, hrequired, hearlier, -⟩ := required_signature hsignature
  obtain ⟨-, -, place, -, -, hplace, htext, hdescription, -, -, -⟩ := assemble_inv hassemble
  obtain ⟨tool', htool'⟩ : ∃ tool', assemble c (.text name)
      (description (Keyed.without fields (.text "parameters"))) (Text.upper method) path body s =
        .ok tool' := by
    refine assemble_of_texts hholds (fun k hk => ?_) (fun v hv => ?_) hplace htext hdescription
    · exact (mem_namedParameters hk).elim (fun ⟨d, _, heq⟩ => ⟨d.name, heq⟩)
        (texts_bodyProperties hjson k)
    · exact (Value.mem_union (hrequired ▸ hv)).elim (hearlier v) (hnames v)
  refine ⟨tool', ?_⟩
  rw [withParameters, result_compile, hbeside.identifier?, hbeside.description, hbeside.requestBody,
    hname]
  exact bind_eq_ok.2 ⟨body, hbody, bind_eq_ok.2 ⟨s, hsignature, htool'⟩⟩

/-- **Which declared parameters an operation survives.**  An operation of a JSON document that compiles
without parameters compiles with those of two lists exactly if what they declare can be collected and
none of it breaks the operation.  So it compiles if each entry that leads to a mapping with a name leads
to one of the usual shape, whatever the other entries are. -/
theorem compile_survives (c : Compiler) (path : Scalar) (method : String) (fields : Keyed Value)
    (ps qs : List Value) (tool : Tool) (hdocument : c.document.IsJson)
    (hoperation : (Value.map fields).IsJson) (hentries : ∀ entry ∈ qs ++ ps, entry.IsJson)
    (h : (compile c path method (withoutParameters fields) (.list [])).result = .ok tool) :
    ((∃ tool', (compile c path method (withParameters fields ps) (.list qs)).result = .ok tool') ↔
      ∃ ds, declarationsOf c (withParameters fields ps) (.list qs) = .ok ds ∧
        ∀ d ∈ ds, ¬ Breaks c d) ∧
    ((∀ entry ∈ qs ++ ps, ∀ name es, named? c.document entry = some (name, es) → IsWellShaped es) →
      ∃ tool', (compile c path method (withParameters fields ps) (.list qs)).result = .ok tool') := by
  refine ⟨⟨?_, ?_⟩, fun hshape => ?_⟩
  · rintro ⟨tool', htool'⟩
    obtain ⟨es, name, body, s, hes, hname, -, hs, -⟩ := compile_inv htool'
    obtain ⟨ds, declared, hds, hdeclared, -⟩ := signature_ok hs
    refine ⟨ds, bind_eq_ok.2 ⟨es, hes, ?_⟩, (addDeclared_ok_iff _ {}).1 ⟨declared, hdeclared⟩⟩
    rw [hname]
    exact hds
  · rintro ⟨ds, hds, hbreaks⟩
    exact compile_of_declarations hdocument hoperation h hds hbreaks
  · obtain ⟨ds, hds⟩ := collectFrom_of_shape c.settings ((identifier? fields).getD "") hshape []
    have hbreaks : ∀ d ∈ ds, ¬ Breaks c d := by
      intro d hd
      rcases mem_collectFrom hds d hd with hd | ⟨entry, hentry, hdeclared⟩
      · cases hd
      · have hnamed := (declaration?_eq_some.1 hdeclared).1
        have hfields := isJson_of_named? hdocument (hentries entry hentry) hnamed
        exact not_breaks_of_isWellShaped hdocument.keys hfields.keys (hshape entry hentry _ _ hnamed)
    rw [← declarationsOf_withParameters] at hds
    exact compile_of_declarations hdocument hoperation h hds hbreaks

/-- The fields of an operation with nothing but a name. -/
def bareFields : Keyed Value := [(.text "operationId", .text "op")]

/-- Its tool. -/
def bareTool : Tool where
  name := "op"
  arguments := {}
  recipe := { method := "GET", url := "/a" }

theorem isJson_bareFields : (Value.map bareFields).IsJson := by
  simp [bareFields, Value.isJson_map, Value.isJson_scalar, Value.isPlain]

/-- The fields of a parameter of the query with a schema. -/
def inQuery (schema : Value) : Keyed Value :=
  [(.text "name", .text "id"), (.text "in", .text "query"), (.text "schema", schema)]

theorem isJson_inQuery {schema : Value} (h : schema.IsJson) : (Value.map (inQuery schema)).IsJson := by
  show (Value.record [("name", .text "id"), ("in", .text "query"), ("schema", schema)]).IsJson
  simp [Value.isJson_record, Value.isJson_scalar, Value.isPlain, h]

/-- A reference that leads nowhere. -/
def danglingReference : Value := .record [("$ref", .text "#/nowhere")]

/-- An operation survives entries that declare nothing, and a schema that leads nowhere. -/
theorem compile_survives_dangling :
    ∃ tool, (compile ⟨.map [], {}, ""⟩ (.text "/a") "get"
      (withParameters bareFields [.map (inQuery danglingReference)])
      (.list [.null, danglingReference])).result = .ok tool := by
  refine (compile_survives ⟨.map [], {}, ""⟩ (.text "/a") "get" bareFields _ _ bareTool
    (by simp [Value.isJson_map]) isJson_bareFields ?_ (by rfl)).2 ?_
  · simp [isJson_inQuery, danglingReference, Value.isJson_record, Value.isJson_scalar, Value.isPlain]
  · intro entry hentry name es hnamed
    have hnull : named? (.map []) .null = none := by rfl
    have hdangling : named? (.map []) danglingReference = none := by rfl
    have hdeclared : named? (.map []) (.map (inQuery danglingReference)) =
        some ("id", inQuery danglingReference) := by rfl
    simp only [List.cons_append, List.nil_append, List.mem_cons, List.not_mem_nil, or_false] at hentry
    rcases hentry with rfl | rfl | rfl
    · rw [hnull] at hnamed
      cases hnamed
    · rw [hdangling] at hnamed
      cases hnamed
    · rw [hdeclared] at hnamed
      obtain ⟨rfl, rfl⟩ := Prod.mk.inj (Option.some.inj hnamed)
      exact ⟨⟨"query", rfl⟩, Or.inr ⟨_, rfl⟩⟩

/-- So a parameter whose schema is a text ends its operation. -/
theorem not_compile_survives :
    ¬ ∀ (c : Compiler) (path : Scalar) (method : String) (fields : Keyed Value)
      (ps qs : List Value) (tool : Tool), c.document.IsJson → (Value.map fields).IsJson →
      (∀ entry ∈ qs ++ ps, entry.IsJson) →
      (compile c path method (withoutParameters fields) (.list [])).result = .ok tool →
      ∃ tool', (compile c path method (withParameters fields ps) (.list qs)).result = .ok tool' := by
  intro h
  obtain ⟨tool', htool'⟩ := h ⟨.map [], {}, ""⟩ (.text "/a") "get" bareFields
    [.map (inQuery (.text "abc"))] [] bareTool (by simp [Value.isJson_map]) isJson_bareFields
    (by simp [isJson_inQuery, Value.isJson_scalar, Value.isPlain]) (by rfl)
  have hfails : (compile ⟨.map [], {}, ""⟩ (.text "/a") "get"
      (withParameters bareFields [.map (inQuery (.text "abc"))]) (.list [])).result =
        .error .notEntry := by rfl
  rw [hfails] at htool'
  cases htool'

end Operation

end ToolCatalog
