import ToolCatalog.Catalog
import ToolCatalog.Proofs.Operation.Assembly
import ToolCatalog.Proofs.Schema.NormalForm

/-!
# No tool asks for a removed name

Names come to a tool as those of declared parameters, of body properties, of required names that
have no property, and from the simplification of uploads.  Schemas come to it normal, names are texts
as the keys of the document are, and assembling takes the removed texts out once more.  What is left
is the one way past every filter: a required name that is spelled by its encoded bytes is not the same
as any removed name, and only when the tool is made does it become a text.

* `tools_exclude_removed`: no removed name is in a tool, but as a required name spelled by its bytes.
-/

namespace ToolCatalog

/-- No text is the same as bytes. -/
theorem Scalar.text_same_bytes (t : String) (bs : List UInt8) :
    (Scalar.text t).same (.bytes bs) = false := by
  simp [Bool.eq_false_iff, Scalar.same_iff, Scalar.identity]

/-- So nothing that is spelled by bytes is removed, and no upload rebuilds it. -/
theorem Settings.isRemoved_bytes (settings : Settings) (bs : List UInt8) :
    settings.isRemoved (.bytes bs) = false :=
  List.any_eq_false.2 fun t _ => by simp [Scalar.text_same_bytes]

theorem Upload.isFileParameter_of_bytes (settings : Settings) {v : Value} {bs : List UInt8}
    (h : v.opened = .scalar (.bytes bs)) : isFileParameter settings v = false := by
  refine List.any_eq_false.2 fun n _ => ?_
  rw [Value.same, h]
  simp [Scalar.text_same_bytes]

namespace Value

/-- What is the same as bytes is those bytes, under the parts around it. -/
theorem opened_of_same_bytes {bs : List UInt8} {w : Value}
    (h : (scalar (.bytes bs)).same w = true) : w.opened = .scalar (.bytes bs) := by
  rw [same] at h
  split at h
  · next t ht =>
    rw [Scalar.same_iff] at h
    have hb : t = .bytes bs := by
      cases t with
      | bytes bs' =>
        simp only [Scalar.identity, Identity.bytes.injEq] at h
        rw [h]
      | float x =>
        simp only [Scalar.identity, Binary64.identity, Identity.ofFraction] at h
        split at h
        · cases h
        · split at h <;> cases h
      | _ => cases h
    rw [ht, hb]
  · cases h

end Value

namespace Schema

/-- A schema omits a name: at no schema position is it a property or a required name. -/
def Omits (name : String) (schema : Value) : Prop :=
  ∀ es, Subschema .schema schema es →
    (∀ ps, Keyed.find? es (.text "properties") = some (.map ps) →
      Keyed.has ps (.text name) = false) ∧
    ∀ names, Keyed.find? es (.text "required") = some (.list names) →
      (Value.text name).isAmong names = false

/-- A normal schema omits the removed names. -/
theorem Normal.omits {settings : Settings} {schema : Value} {r : String}
    (h : Normal settings .schema schema) (hr : r ∈ settings.removed) : Omits r schema := by
  intro es hes
  have hclean := (h.subschema hes).clean
  have hnormal := h.isNormal hes
  have hremoved := isRemoved_text hr
  constructor
  · intro ps hps
    cases hhas : Keyed.has ps (.text r) with
    | false => rfl
    | true =>
      obtain ⟨k, hk, hs⟩ := Keyed.has_iff.1 hhas
      rw [isRemoved_congr hs, hnormal.properties ps hps k hk] at hremoved
      cases hremoved
  · intro names hnames
    have hl := hclean.of_find? hnames
    rw [roleOf_required] at hl
    cases hl with
    | list hvs =>
      refine List.any_eq_false.2 fun w hw hs => ?_
      -- A normal value that is the same as a text is that text.
      have hw' := hvs w hw
      rw [Value.same] at hs
      cases hw' with
      | scalar t =>
        rw [isRemoved_congr hs, (hnormal.required names hnames).notRemoved t hw] at hremoved
        cases hremoved
      | _ => cases hs

end Schema

/-- A tool excludes a name in all but its required names: it is no argument, it is not sent, and the
schemas of the arguments omit it. -/
structure Tool.Excludes (tool : Tool) (r : String) : Prop where
  properties : ∀ schema, (r, schema) ∉ tool.arguments.properties
  parameters : ∀ p ∈ tool.recipe.parameters, p.name ≠ r
  schemas : ∀ e ∈ tool.arguments.properties, Schema.Omits r e.2

namespace Upload

/-- The schema of the argument that an upload is rebuilt from has no properties. -/
theorem omits_filePathSchema (r : String) : Schema.Omits r filePathSchema := by
  intro es hes
  unfold filePathSchema at hes
  cases hes with
  | here =>
    constructor
    · intro ps h
      cases h
    · intro names h
      cases h
  | entry hv hsub =>
    simp only [List.mem_cons, Prod.mk.injEq, List.not_mem_nil, or_false] at hv
    rcases hv with ⟨-, rfl⟩ | ⟨-, rfl⟩ <;> exact absurd hsub Schema.not_subschema_scalar

end Upload

namespace Operation

open Schema

/-! ## Signatures -/

/-- Names are texts, and schemas omit the removed names. -/
structure IsFiltered (settings : Settings) (properties : Keyed Value) (locations : Keyed Location) :
    Prop where
  names : ∀ k ∈ Keyed.keys properties, ∃ t, k = .text t
  places : ∀ k ∈ Keyed.keys locations, ∃ t, k = .text t
  schemas : ∀ k v, (k, v) ∈ properties → ∀ r ∈ settings.removed, Omits r v

variable {settings : Settings}

/-- Keys stay texts when something is written under a text. -/
theorem texts_put {α : Type} {es : Keyed α} {name : String} {a : α}
    (h : ∀ k ∈ Keyed.keys es, ∃ t, k = .text t) :
    ∀ k ∈ Keyed.keys (Keyed.put es (.text name) a), ∃ t, k = .text t := by
  intro k hk
  obtain ⟨b, hb⟩ := Keyed.mem_keys.1 hk
  rcases Keyed.mem_put_text hb with hb | heq
  · exact h k (Keyed.mem_keys_of_mem hb)
  · exact ⟨name, congrArg Prod.fst heq⟩

theorem IsFiltered.put {properties : Keyed Value} {locations : Keyed Location}
    (h : IsFiltered settings properties locations) (name : String) {schema : Value}
    (hschema : ∀ r ∈ settings.removed, Omits r schema) (location : Location) :
    IsFiltered settings (Keyed.put properties (.text name) schema)
      (Keyed.put locations (.text name) location) := by
  refine ⟨texts_put h.names, texts_put h.places, fun k v hv => ?_⟩
  rcases Keyed.mem_put_text hv with hv | heq
  · exact h.schemas k v hv
  · obtain ⟨-, rfl⟩ := Prod.mk.inj heq
    exact hschema

/-- A signature whose names and schemas went through the filters before it. -/
def Signature.IsFiltered (settings : Settings) (s : Signature) : Prop :=
  Operation.IsFiltered settings s.properties s.locations

/-- The signature of the declared parameters is filtered and requires texts. -/
theorem addDeclared_filtered {c : Compiler} {operation : String} {ds : List Declaration}
    {s : Signature} (h : (addDeclared c operation {} ds).result = .ok s) :
    s.IsFiltered c.settings ∧ ∀ v ∈ s.required, ∃ t, v = .text t := by
  have hempty : Signature.IsFiltered c.settings {} := ⟨by simp, by simp, by simp⟩
  refine addDeclared_induction
    (p := fun s => s.IsFiltered c.settings ∧ ∀ v ∈ s.required, ∃ t, v = .text t) ?_
    ⟨hempty, by simp⟩ h
  rintro s d schema location - hm ⟨hs, hrequired⟩
  rw [mergedParameter] at hm
  obtain ⟨node, -, hm⟩ := Outcome.result_bind_ok.1 hm
  have hadd := hs.put d.name (fun r hr => (merge_normal hm).omits hr) location
  unfold Signature.declare
  simp only
  split
  · refine ⟨hadd, fun v hv => ?_⟩
    rcases Value.mem_union hv with hv | hv
    · exact hrequired v hv
    · exact ⟨d.name, List.mem_singleton.1 hv⟩
  · exact ⟨hadd, hrequired⟩

/-- The properties of a normal body are normal. -/
theorem normal_propertiesOfBody {es ps : Keyed Value}
    (h : Normal settings .schema (.map es)) (hps : propertiesOfBody es = .ok ps) :
    Normal settings .properties (.map ps) := by
  have hnil : Normal settings .properties (.map []) := .map (by simp) (by simp) (by simp)
  unfold propertiesOfBody Value.fields at hps
  split at hps
  · next fs hfs =>
    obtain rfl := Except.ok.inj hps
    unfold Value.orElse at hfs
    split at hfs
    · unfold Value.field at hfs
      cases hv : Keyed.find? es (.text "properties") with
      | none =>
        rw [hv] at hfs
        cases hfs
      | some v =>
        rw [hv] at hfs
        have hn := h.clean.of_find? hv
        rw [roleOf_properties] at hn
        cases hn with
        | map hschema hkeys hentries =>
          obtain rfl := Value.map.inj hfs
          exact .map hschema hkeys hentries
        | _ => cases hfs
    · obtain rfl := Value.map.inj hfs
      exact hnil
  · cases hps

/-- Their schemas are normal. -/
theorem normal_of_propertiesOfBody {es ps : Keyed Value}
    (h : Normal settings .schema (.map es)) (hps : propertiesOfBody es = .ok ps) :
    ∀ k v, (k, v) ∈ ps → Normal settings .schema v := by
  cases normal_propertiesOfBody h hps with
  | map _ _ hentries => exact hentries

/-- **The signature of an operation is filtered**, and every required name that is no text is one of
its body. -/
theorem signature_filtered {c : Compiler} {operation : String} {fields : Keyed Value}
    {pathParameters body : Value} {s : Signature} (hkeys : body.HasTextKeys)
    (hbody : Normal c.settings .schema body)
    (h : (signature c operation fields pathParameters body).result = .ok s) :
    s.IsFiltered c.settings ∧ ((∀ es, body ≠ .map es) ∧ (∀ v ∈ s.required, ∃ t, v = .text t) ∨
      ∃ es names earlier, body = .map es ∧ requiredOfBody es = .ok names ∧
        s.required = Value.union earlier names ∧ ∀ v ∈ earlier, ∃ t, v = .text t) := by
  obtain ⟨ds, declared, -, hdeclared, h⟩ := signature_ok h
  obtain ⟨hfiltered, hrequired⟩ := addDeclared_filtered hdeclared
  rcases addBody_ok h with ⟨es, ps, s', names, rfl, hps, hadd, hnames, rfl⟩ | ⟨hmap, rfl⟩
  · have hps' : (Value.map ps).HasTextKeys :=
      keysEverywhere_fields (keysEverywhere_orElse hereditary_texts
        (keysEverywhere_field hkeys "properties")) hps
    have htexts := (Value.keysEverywhere_map.1 hps').1
    have hnormal := normal_of_propertiesOfBody hbody hps
    obtain ⟨hs', heq⟩ := addProperties_induction
      (p := fun s => s.IsFiltered c.settings ∧ s.required = declared.required)
      (fun s name schema location he hs => by
        obtain ⟨t, rfl⟩ := htexts name (Keyed.mem_keys_of_mem he)
        exact ⟨hs.1.put t (fun r hr => (hnormal _ schema he).omits hr) location, hs.2⟩) ⟨hfiltered, rfl⟩ hadd
    refine ⟨hs', Or.inr ⟨es, names, declared.required, rfl, hnames, ?_, hrequired⟩⟩
    rw [Signature.require, heq]
  · exact ⟨hfiltered, Or.inl ⟨hmap, hrequired⟩⟩

/-! ## What a tool presents -/

variable {c : Compiler} {body : Option Body} {s : Signature}

/-- Simplifying an upload keeps names and schemas filtered. -/
theorem presented_filtered (h : s.IsFiltered c.settings) :
    IsFiltered c.settings (presented c body s).properties (presented c body s).locations := by
  unfold presented
  split
  · unfold Upload.simplify
    split
    · exact h
    · refine IsFiltered.put ⟨fun k hk => ?_, h.places, fun k v hv => ?_⟩ _
        (fun r _ => Upload.omits_filePathSchema r) _
      · obtain ⟨v, hv⟩ := Keyed.mem_keys.1 hk
        exact h.names k (Keyed.mem_keys_of_mem (List.mem_filter.1 hv).1)
      · exact h.schemas k v (List.mem_filter.1 hv).1
  · exact h

/-- The required names that are presented are those of the signature, but for the names that an upload
rebuilds, and the argument of an upload. -/
theorem mem_presented_required {v : Value} (h : v ∈ (presented c body s).required) :
    v ∈ s.required ∨ v = .text Upload.filePath := by
  unfold presented at h
  split at h
  · unfold Upload.simplify at h
    split at h
    · exact Or.inl h
    · rcases List.mem_append.1 h with h | h
      · exact Or.inl (List.mem_filter.1 h).1
      · exact Or.inr (List.mem_singleton.1 h)
  · exact Or.inl h

theorem presented_required_of_mem {v : Value} (h : v ∈ s.required)
    (hv : Upload.isFileParameter c.settings v = false) : v ∈ (presented c body s).required := by
  unfold presented
  split
  · unfold Upload.simplify
    split
    · exact h
    · exact List.mem_append_left _ (List.mem_filter.2 ⟨h, by simp [hv]⟩)
  · exact h

/-! ## What a tool asks for -/

theorem assemble_excludes {name description : Value} {method : String} {path : Scalar} {tool : Tool}
    (hs : s.IsFiltered c.settings)
    (h : assemble c name description method path body s = .ok tool) {r : String}
    (hr : r ∈ c.settings.removed) : tool.Excludes r := by
  obtain ⟨hproperties, -, hparameters⟩ := assemble_ok h
  have hu := @presented_filtered c body s hs
  have hremoved := isRemoved_text hr
  have hnamed := Field.named_ok hproperties
  constructor
  · intro schema hmem
    obtain ⟨k, hk, hname⟩ := hnamed _ hmem
    obtain ⟨hk, hkept⟩ := List.mem_filter.1 hk
    obtain ⟨t, rfl⟩ := hu.names k (Keyed.mem_keys_of_mem hk)
    obtain rfl := Except.ok.inj hname
    rw [hremoved] at hkept
    cases hkept
  · intro p hp heq
    obtain ⟨e, he, hwire⟩ := (mapM_eq_ok hparameters).1 p hp
    obtain ⟨he, hkept⟩ := List.mem_filter.1 he
    obtain ⟨t, ht⟩ := hu.places e.1 (Keyed.mem_keys_of_mem he)
    have hname := wireParameter_name hwire
    rw [ht, Field.key_text] at hname
    rw [ht, Except.ok.inj hname, heq, hremoved] at hkept
    simp at hkept
  · intro e he
    obtain ⟨k, hk, -⟩ := hnamed e he
    exact hu.schemas k e.2 (List.mem_filter.1 hk).1 r hr

/-- A removed name that a tool requires is spelled by bytes in the signature. -/
theorem bytes_of_required {name description : Value} {method : String} {path : Scalar} {tool : Tool}
    (h : assemble c name description method path body s = .ok tool) {r : String}
    (hr : r ∈ c.settings.removed) (hrequired : r ∈ tool.arguments.required.getD []) :
    ∃ bs : List UInt8, Value.scalar (.bytes bs) ∈ s.required ∧
      String.fromUTF8? ⟨bs.toArray⟩ = some r := by
  obtain ⟨-, ⟨required, texts, hwithout, htexts, heq⟩, -⟩ := assemble_ok h
  have hmem : r ∈ texts := by
    rw [heq] at hrequired
    cases texts with
    | nil => simp at hrequired
    | cons t rest => simpa using hrequired
  obtain ⟨v, hv, hvr⟩ := (mapM_eq_ok htexts).1 r hmem
  obtain ⟨hv, hkept⟩ := (mem_withoutRemoved hwithout v).1 hv
  rcases Field.text_ok hvr with rfl | ⟨bs, rfl, hbs⟩
  · have hremoved := isRemoved_text hr
    rw [hkept _ rfl] at hremoved
    cases hremoved
  · rcases mem_presented_required hv with hv | hv
    · exact ⟨bs, hv, hbs⟩
    · cases hv

/-- A name that the signature spells by bytes passes every filter. -/
theorem required_of_bytes {name description : Value} {method : String} {path : Scalar} {tool : Tool}
    (h : assemble c name description method path body s = .ok tool) {r : String} {v : Value}
    {bs : List UInt8} (hv : v ∈ s.required) (hopened : v.opened = .scalar (.bytes bs))
    (hbs : String.fromUTF8? ⟨bs.toArray⟩ = some r) :
    r ∈ tool.arguments.required.getD [] := by
  obtain ⟨-, ⟨required, texts, hwithout, htexts, heq⟩, -⟩ := assemble_ok h
  have hfile := Upload.isFileParameter_of_bytes c.settings hopened
  have hstays : v ∈ required := by
    refine (mem_withoutRemoved hwithout v).2 ⟨presented_required_of_mem hv hfile, fun k hk => ?_⟩
    subst hk
    obtain rfl := Value.scalar.inj hopened
    exact c.settings.isRemoved_bytes bs
  obtain ⟨t, ht, htext⟩ := (mapM_eq_ok htexts).2 v hstays
  have htr : t = r := by
    rcases Field.text_ok htext with rfl | ⟨bs', rfl, hbs'⟩
    · cases hopened
    · obtain rfl : bs' = bs := by simpa [Value.opened] using hopened
      rw [hbs] at hbs'
      exact (Option.some.inj hbs').symm
  rw [htr] at ht
  rw [heq]
  cases texts with
  | nil => cases ht
  | cons t' rest => exact ht

/-- The body of an operation requires a name by its encoded bytes. -/
def RequiresByBytes (c : Compiler) (operation : Value) (r : String) : Prop :=
  ∃ fields body es names bs, operation.fields = .ok fields ∧
    (requestBody c.settings c.document fields).result = .ok (some body) ∧ body.schema = .map es ∧
    requiredOfBody es = .ok names ∧ Value.scalar (.bytes bs) ∈ names ∧
    String.fromUTF8? ⟨bs.toArray⟩ = some r

/-- **A compiled operation excludes the removed names**, and requires one exactly if its body requires
it by its bytes. -/
theorem compile_excludes {path : Scalar} {method : String} {operation pathParameters : Value}
    {tool : Tool} (hdocument : c.document.HasTextKeys) (hoperation : operation.HasTextKeys)
    (h : (compile c path method operation pathParameters).result = .ok tool) {r : String}
    (hr : r ∈ c.settings.removed) :
    tool.Excludes r ∧
      (r ∈ tool.arguments.required.getD [] ↔ RequiresByBytes c operation r) := by
  obtain ⟨fields, name, body, s, hfields, hbody, hs, hassemble⟩ := compile_ok h
  -- The concrete schema of the body is normal and has texts as keys.
  have hschema : Normal c.settings .schema ((body.map (·.schema)).getD .null) ∧
      Value.HasTextKeys ((body.map (·.schema)).getD .null) := by
    cases body with
    | none => exact ⟨.scalar _, Value.keysEverywhere_scalar _⟩
    | some b =>
      obtain ⟨node, hnode, hmerge⟩ := requestBody_ok hereditary_texts hdocument
        (keysEverywhere_fields hoperation hfields) hbody
      exact ⟨merge_normal hmerge, hereditary_texts.merge hdocument hnode hmerge⟩
  obtain ⟨hfiltered, hrequired⟩ := signature_filtered hschema.2 hschema.1 hs
  refine ⟨assemble_excludes hfiltered hassemble hr, ?_⟩
  constructor
  · intro hmem
    obtain ⟨bs, hbs, hutf8⟩ := bytes_of_required hassemble hr hmem
    rcases hrequired with ⟨-, htexts⟩ | ⟨es, names, earlier, hes, hnames, heq, htexts⟩
    · obtain ⟨t, ht⟩ := htexts _ hbs
      cases ht
    · cases body with
      | none => cases hes
      | some b =>
        refine ⟨fields, b, es, names, bs, hfields, hbody, hes, hnames, ?_, hutf8⟩
        rw [heq] at hbs
        rcases Value.mem_union hbs with hbs | hbs
        · obtain ⟨t, ht⟩ := htexts _ hbs
          cases ht
        · exact hbs
  · rintro ⟨fields', b, es', names', bs, hfields', hbody', hes', hnames', hbs, hutf8⟩
    rw [hfields] at hfields'
    obtain rfl := Except.ok.inj hfields'
    rw [hbody] at hbody'
    obtain rfl := Except.ok.inj hbody'
    rcases hrequired with ⟨hmap, -⟩ | ⟨es, names, earlier, hes, hnames, heq, -⟩
    · exact absurd hes' (hmap es')
    · obtain rfl := Value.map.inj (hes.symm.trans hes')
      rw [hnames] at hnames'
      obtain rfl := Except.ok.inj hnames'
      obtain ⟨w, hw, hsame⟩ := Value.exists_same_of_mem earlier hbs
      rw [← heq] at hw
      exact required_of_bytes hassemble hw (Value.opened_of_same_bytes hsame) hutf8

end Operation

namespace Catalog

/-! ## Catalogs -/

theorem mem_put {catalog : Catalog} {tool : Tool} {e : String × Tool} (h : e ∈ put catalog tool) :
    e ∈ catalog ∨ e.2 = tool := by
  induction catalog with
  | nil =>
    rw [put] at h
    rw [List.mem_singleton.1 h]
    exact Or.inr rfl
  | cons f rest ih =>
    obtain ⟨name, old⟩ := f
    unfold put at h
    split at h
    · rcases List.mem_cons.1 h with rfl | h
      · exact Or.inr rfl
      · exact Or.inl (List.mem_cons_of_mem _ h)
    · rcases List.mem_cons.1 h with rfl | h
      · exact Or.inl List.mem_cons_self
      · exact (ih h).imp (List.mem_cons_of_mem _) id

/-- Adding a site changes a catalog by the tool of the site at most. -/
theorem addSite_ok {c : Compiler} {catalog catalog' : Catalog} {site : Site}
    (h : (addSite c catalog site).result = .ok catalog') :
    ∀ e ∈ catalog', e ∈ catalog ∨ (compileSite c site).result = .ok e.2 := by
  rw [addSite, Outcome.result_inspect] at h
  cases hs : (compileSite c site).result with
  | error f =>
    simp only [hs] at h
    split at h
    · obtain ⟨-, -, h⟩ := Outcome.result_bind_ok.1 h
      obtain rfl := Except.ok.inj h
      exact fun e he => Or.inl he
    · cases h
  | ok tool =>
    simp only [hs] at h
    have hput : catalog' = put catalog tool := by
      split at h
      · obtain ⟨-, -, h⟩ := Outcome.result_bind_ok.1 h
        exact (Except.ok.inj h).symm
      · exact (Except.ok.inj h).symm
    subst hput
    intro e he
    rcases mem_put he with he | rfl
    · exact Or.inl he
    · exact Or.inr rfl

theorem addSites_ok {c : Compiler} {sites : List Site} {catalog catalog' : Catalog}
    (h : (sites.foldlM (addSite c) catalog).result = .ok catalog') :
    ∀ e ∈ catalog', e ∈ catalog ∨ ∃ site ∈ sites, (compileSite c site).result = .ok e.2 := by
  induction sites generalizing catalog with
  | nil =>
    rw [List.foldlM_nil] at h
    obtain rfl := Except.ok.inj h
    exact fun e he => Or.inl he
  | cons site rest ih =>
    rw [List.foldlM_cons] at h
    obtain ⟨next, hnext, h⟩ := Outcome.result_bind_ok.1 h
    intro e he
    rcases ih h e he with he | ⟨site', hsite', he⟩
    · rcases addSite_ok hnext e he with he | he
      · exact Or.inl he
      · exact Or.inr ⟨site, List.mem_cons_self, he⟩
    · exact Or.inr ⟨site', List.mem_cons_of_mem _ hsite', he⟩

/-- The operations of a document. -/
def sitesOfDocument (document : Value) : List Site :=
  match document.fields with
  | .error _ => []
  | .ok fields =>
    match (pathsOf fields).result with
    | .error _ => []
    | .ok paths => sites paths

/-- **The tools of a catalog** are those of operations of the document. -/
theorem compile_ok {c : Compiler} {catalog : Catalog} (h : (compile c).result = .ok catalog) :
    ∀ e ∈ catalog, ∃ site ∈ sitesOfDocument c.document, (compileSite c site).result = .ok e.2 := by
  rw [compile] at h
  obtain ⟨fields, hfields, h⟩ := Outcome.result_bind_ok.1 h
  obtain ⟨paths, hpaths, h⟩ := Outcome.result_bind_ok.1 h
  obtain ⟨catalog', hcatalog, h⟩ := Outcome.result_bind_ok.1 h
  obtain ⟨-, -, h⟩ := Outcome.result_bind_ok.1 h
  obtain rfl := Except.ok.inj h
  have hsites : sitesOfDocument c.document = sites paths := by
    rw [Outcome.result_liftM] at hfields
    simp only [sitesOfDocument, hfields, hpaths]
  intro e he
  rw [hsites]
  rcases addSites_ok hcatalog e he with he | he
  · cases he
  · exact he

theorem keysEverywhere_paths {p : List Scalar → Prop} (hp : Schema.Hereditary p)
    {fields paths : Keyed Value} (h : (Value.map fields).KeysEverywhere p)
    (hpaths : (pathsOf fields).result = .ok paths) : (Value.map paths).KeysEverywhere p := by
  unfold pathsOf at hpaths
  split at hpaths
  · next paths' hopened =>
    obtain rfl := Except.ok.inj hpaths
    rw [← hopened]
    exact Value.keysEverywhere_opened.2
      (Operation.keysEverywhere_orElse hp (Operation.keysEverywhere_field h _))
  · obtain ⟨-, -, hpaths⟩ := Outcome.result_bind_ok.1 hpaths
    obtain rfl := Except.ok.inj hpaths
    exact hp.map_nil

theorem keysEverywhere_sitesOf {p : List Scalar → Prop} {path : Scalar} {item : Value}
    (h : item.KeysEverywhere p) : ∀ site ∈ sitesOf path item, site.operation.KeysEverywhere p := by
  intro site hsite
  unfold sitesOf at hsite
  split at hsite
  · next es hes =>
    have hes' := Value.keysEverywhere_opened.2 h
    rw [hes] at hes'
    obtain ⟨⟨method, operation⟩, hop, rfl⟩ := List.mem_map.1 hsite
    obtain ⟨method', -, hfound⟩ := List.mem_filterMap.1 hop
    split at hfound
    · next fs hfs =>
      obtain ⟨-, rfl⟩ := Prod.mk.inj (Option.some.inj hfound)
      obtain ⟨v, hv, hopened⟩ := Option.map_eq_some_iff.1 hfs
      show (Value.map fs).KeysEverywhere p
      rw [← hopened]
      exact Value.keysEverywhere_opened.2 (Schema.keysEverywhere_of_find? hes' hv)
    · cases hfound
  · cases hsite

/-- The operations of a document inherit what the document has. -/
theorem keysEverywhere_site {p : List Scalar → Prop} (hp : Schema.Hereditary p) {document : Value}
    (h : document.KeysEverywhere p) :
    ∀ site ∈ sitesOfDocument document, site.operation.KeysEverywhere p := by
  intro site hsite
  unfold sitesOfDocument at hsite
  split at hsite
  · cases hsite
  · next fields hfields =>
    split at hsite
    · cases hsite
    · next paths hpaths =>
      have hpaths' := keysEverywhere_paths hp (Operation.keysEverywhere_fields h hfields) hpaths
      obtain ⟨e, he, hsite⟩ := List.mem_flatMap.1 hsite
      exact keysEverywhere_sitesOf ((Value.keysEverywhere_map.1 hpaths').2 e.1 e.2 he) site hsite

/-- **No tool of a catalog asks for a removed name**, as an argument, as a parameter that is sent, or
at a schema position of an argument; and a tool requires a removed name exactly if the body of its
operation requires it by its encoded bytes. -/
theorem tools_exclude_removed (c : Compiler) (catalog : Catalog) (hkeys : c.document.HasTextKeys)
    (hcatalog : (compile c).result = .ok catalog) (name : String) (tool : Tool)
    (htool : (name, tool) ∈ catalog) :
    ∃ site ∈ sitesOfDocument c.document, (compileSite c site).result = .ok tool ∧
      ∀ r ∈ c.settings.removed, tool.Excludes r ∧
        (r ∈ tool.arguments.required.getD [] ↔
          Operation.RequiresByBytes c site.operation r) := by
  obtain ⟨site, hsite, htool⟩ := compile_ok hcatalog _ htool
  have hoperation := keysEverywhere_site Schema.hereditary_texts hkeys site hsite
  exact ⟨site, hsite, htool, fun r hr => Operation.compile_excludes hkeys hoperation htool hr⟩

/-- A document with one operation, whose body requires `secret` by its encoded bytes. -/
def encodedDocument : Value :=
  .record [("openapi", .text "3.0.0"), ("paths", .record [("/a", .record [("post", .record [
    ("operationId", .text "op"),
    ("requestBody", .record [("content", .record [("application/json", .record [("schema",
      .record [("required", .list [.scalar (.bytes [115, 101, 99, 114, 101, 116])])])])])])])])])]

/-- The tool of its operation. -/
def encodedTool : Tool :=
  { name := "op", arguments := { required := some ["secret"] }
    recipe := { method := "POST", url := "/a" } }

theorem encodedDocument_hasTextKeys : encodedDocument.HasTextKeys := by
  simp [encodedDocument, Value.HasTextKeys, Value.keysEverywhere_record, Value.keysEverywhere_list,
    Value.keysEverywhere_scalar]

/-- Removing `secret` keeps it out of the arguments but not out of the required names. -/
theorem tools_exclude_removed_encoded :
    ∃ site ∈ sitesOfDocument encodedDocument, encodedTool.Excludes "secret" ∧
      Operation.RequiresByBytes ⟨encodedDocument, { removed := ["secret"] }, ""⟩ site.operation
        "secret" := by
  obtain ⟨site, hsite, -, h⟩ := tools_exclude_removed
    ⟨encodedDocument, { removed := ["secret"] }, ""⟩ [("op", encodedTool)]
    encodedDocument_hasTextKeys (by rfl) "op" encodedTool (by simp)
  obtain ⟨hexcludes, hrequired⟩ := h "secret" (by simp)
  exact ⟨site, hsite, hexcludes, hrequired.1 (by simp [encodedTool])⟩

/-- So a tool may require a name that is removed. -/
theorem not_tools_require_no_removed :
    ¬ ∀ (c : Compiler) (catalog : Catalog), c.document.HasTextKeys →
      (compile c).result = .ok catalog → ∀ name tool, (name, tool) ∈ catalog →
      ∀ r ∈ c.settings.removed, r ∉ tool.arguments.required.getD [] := by
  intro h
  exact h ⟨encodedDocument, { removed := ["secret"] }, ""⟩ [("op", encodedTool)]
    encodedDocument_hasTextKeys (by rfl) "op" encodedTool (by simp) "secret" (by simp)
    (by simp [encodedTool])

end Catalog

end ToolCatalog
