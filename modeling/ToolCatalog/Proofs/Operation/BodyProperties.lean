import ToolCatalog.Proofs.Operation.Provenance
import ToolCatalog.Proofs.Operation.Survival

/-!
# Which body properties an operation survives

A property of a body needs a place.  Where its schema is a mapping, the value of `in` decides, and where
there is none, the format of a string: both are looked up among keys, so a list or a mapping there ends
the operation.  A schema that is no mapping is not searched for `in` at all but ends the operation at
once, also the Boolean that allows everything.

* `compile_bodyProperties`: an operation with nothing but a body compiles exactly if every property of the
  body has a place, and then asks for every property that an upload does not hide, and sends all.
-/

namespace ToolCatalog.Operation

/-! ## Where a property goes -/

/-- The mapping whose format says whether a schema is that of file content: that of the items of an array,
or the schema itself. -/
def contentOf (es : Keyed Value) : Keyed Value :=
  match Value.field es "type", (Value.field es "items").opened with
  | .text "array", .map items => items
  | _, _ => es

theorem isFileSchema_map (es : Keyed Value) :
    Location.isFileSchema (.map es) = Location.isFileString (contentOf es) := by
  show (match Value.field es "type", (Value.field es "items").opened with
    | .text "array", .map items => Location.isFileString items
    | _, _ => Location.isFileString es) = _
  unfold contentOf
  split
  · rfl
  · rfl

/-- A schema that is a mapping has a place in the request: a scalar stands under `in`, or nothing does
and, if it is a string or an array of strings, its format is a scalar. -/
def HasPlace (es : Keyed Value) : Prop :=
  match Keyed.find? es (.text "in") with
  | some place => ∃ s, place = .scalar s
  | none => Value.field (contentOf es) "type" = .text "string" →
      ∃ s, Value.field (contentOf es) "format" = .scalar s

/-- The location of what declares a place. -/
def declaredPlace : Value → Except Fault Location
  | .text s => .ok (Location.declared s)
  | place => if place.isKey then .ok .body else .error .notKey

section

variable {v : Value} {es : Keyed Value}

theorem isKey_iff_scalar (h : v.IsJson) : v.isKey = true ↔ ∃ s, v = .scalar s := by
  have hplain := h.plain v .self
  cases v with
  | scalar s => exact ⟨fun _ => ⟨s, rfl⟩, fun _ => rfl⟩
  | list | map => simp [Value.isKey]
  | pair | set | part => cases hplain

theorem isFileFormat_ok_iff (h : v.IsJson) :
    (∃ b, Location.isFileFormat v = .ok b) ↔ ∃ s, v = .scalar s := by
  rw [← isKey_iff_scalar h]
  have hplain := h.plain v .self
  unfold Location.isFileFormat
  rw [h.opened]
  cases v with
  | scalar s => cases s <;> simp [Value.isKey]
  | list | map => simp [Value.isKey]
  | pair | set | part => cases hplain

theorem isFileString_ok_iff (h : (Value.map es).IsJson) :
    (∃ b, Location.isFileString es = .ok b) ↔
      (Value.field es "type" = .text "string" → ∃ s, Value.field es "format" = .scalar s) := by
  rw [← isFileFormat_ok_iff (h.field "format")]
  unfold Location.isFileString
  split
  · next htype => exact ⟨fun hb _ => hb, fun hb => hb htype⟩
  · next htype => exact ⟨fun _ hstring => absurd hstring htype, fun _ => ⟨false, rfl⟩⟩

theorem isJson_contentOf (h : (Value.map es).IsJson) : (Value.map (contentOf es)).IsJson := by
  unfold contentOf
  split
  · next items _ hitems =>
    rw [← hitems, (h.field "items").opened]
    exact h.field "items"
  · exact h

/-- A mapping without `in` is classified by its format. -/
theorem classify_of_no_place (h : Keyed.find? es (.text "in") = none) :
    Location.classify (.map es) = (do
      return if ← Location.isFileString (contentOf es) then Location.file else Location.body) := by
  have hholds : (Value.map es).holds "in" = .ok false := by
    rw [Value.holds, Keyed.has, h]
    rfl
  rw [Location.classify, hholds, ← isFileSchema_map]
  rfl

/-- A mapping with `in` is classified by what stands there. -/
theorem classify_of_in {place : Value} (h : Keyed.find? es (.text "in") = some place) :
    Location.classify (.map es) = declaredPlace place := by
  have hholds : (Value.map es).holds "in" = .ok true := by
    rw [Value.holds, Keyed.has, h]
    rfl
  have hunder : (Value.map es).under "in" = .ok place := by
    simp only [Value.under, Value.opened, h]
  rw [Location.classify, hholds]
  simp only [bind, Except.bind, if_true, hunder]
  cases place with
  | scalar s => cases s <;> rfl
  | _ => rfl

/-- **A mapping can be classified** exactly if it has a place. -/
theorem classify_ok_iff (h : (Value.map es).IsJson) :
    (∃ l, Location.classify (.map es) = .ok l) ↔ HasPlace es := by
  unfold HasPlace
  cases hin : Keyed.find? es (.text "in") with
  | none =>
    simp only
    rw [classify_of_no_place hin, ← isFileString_ok_iff (isJson_contentOf h)]
    constructor
    · rintro ⟨l, hl⟩
      obtain ⟨b, hb, -⟩ := bind_eq_ok.1 hl
      exact ⟨b, hb⟩
    · rintro ⟨b, hb⟩
      exact ⟨_, bind_eq_ok.2 ⟨b, hb, rfl⟩⟩
  | some place =>
    obtain ⟨k, hk, -⟩ := Keyed.mem_of_find? hin
    simp only
    rw [classify_of_in hin, ← isKey_iff_scalar ((Value.isJson_map.1 h).2 k place hk)]
    unfold declaredPlace
    split
    · simp [Value.isKey]
    · split
      · next hkey => simp [hkey]
      · next hkey => simp [hkey]

/-- A Boolean cannot be classified: it is not searched for `in`. -/
theorem classify_bool (b : Bool) : Location.classify (.bool b) = .error .notSearchable := rfl

end

/-- **Properties can be added** exactly if each can be classified. -/
theorem addProperties_ok_iff {ps : Keyed Value} (s : Signature) :
    (∃ r, addProperties s ps = .ok r) ↔ ∀ k v, (k, v) ∈ ps → ∃ l, Location.classify v = .ok l := by
  induction ps generalizing s with
  | nil => exact ⟨by simp, fun _ => ⟨s, rfl⟩⟩
  | cons e rest ih =>
    obtain ⟨name, schema⟩ := e
    rw [addProperties]
    constructor
    · rintro ⟨r, h⟩ k v hv
      obtain ⟨l, hl, h⟩ := bind_eq_ok.1 h
      rcases List.mem_cons.1 hv with heq | hv
      · obtain ⟨rfl, rfl⟩ := Prod.mk.inj heq
        exact ⟨l, hl⟩
      · exact (ih _).1 ⟨r, h⟩ k v hv
    · intro h
      obtain ⟨l, hl⟩ := h name schema List.mem_cons_self
      obtain ⟨r, hr⟩ := (ih (s.add name schema l)).2 fun k v hv => h k v (List.mem_cons_of_mem _ hv)
      exact ⟨r, bind_eq_ok.2 ⟨l, hl, hr⟩⟩

/-! ## Operations with nothing but a body -/

/-- An operation that has a name, texts or nothing to describe it, and no declared parameters. -/
structure IsBare (fields : Keyed Value) : Prop where
  name : ∃ name, identifier? fields = some name
  summary : Value.field fields "summary" = .null ∨ ∃ t, Value.field fields "summary" = .text t
  description : Value.field fields "description" = .null ∨
    ∃ t, Value.field fields "description" = .text t
  parameters : (Value.field fields "parameters").orElse (.list []) = .list []

/-- The schema of an object with the given properties, each a mapping or a Boolean; the names that it
requires are texts. -/
structure IsObject (schema : Value) (ps : Keyed Value) : Prop where
  entries : ∃ es, schema = .map es ∧ Value.field es "properties" = .map ps ∧
    (Value.field es "required" = .null ∨ ∃ names : List String,
      Value.field es "required" = .list (names.map .text))
  properties : ∀ k v, (k, v) ∈ ps → (∃ fs, v = .map fs) ∨ ∃ b, v = .bool b

theorem orElse_text {v w : Value} (hv : v = .null ∨ ∃ t, v = .text t) (hw : ∃ t, w = .text t) :
    ∃ t, v.orElse w = .text t := by
  rcases hv with rfl | ⟨t, rfl⟩
  · exact hw
  · unfold Value.orElse
    split
    · exact ⟨t, rfl⟩
    · exact hw

/-- What describes a bare operation is a text. -/
theorem IsBare.description_text {fields : Keyed Value} (h : IsBare fields) :
    ∃ t, Operation.description fields = .text t := by
  refine orElse_text ?_ ⟨"", rfl⟩
  rcases h.summary with hsummary | ⟨t, hsummary⟩
  · rw [hsummary]
    exact h.description
  · rw [hsummary]
    unfold Value.orElse
    split
    · exact Or.inr ⟨t, rfl⟩
    · exact h.description

section

variable {schema : Value} {ps : Keyed Value}

/-- What is read of the body of an object: its properties, and required names that are texts. -/
theorem IsObject.parts (h : IsObject schema ps) :
    ∃ es names, schema = .map es ∧ propertiesOfBody es = .ok ps ∧ requiredOfBody es = .ok names ∧
      ∀ v ∈ names, ∃ t, v = .text t := by
  obtain ⟨es, rfl, hps, hrequired⟩ := h.entries
  have hproperties : propertiesOfBody es = .ok ps := by
    rw [propertiesOfBody, hps]
    cases ps <;> rfl
  rcases hrequired with hnull | ⟨names, hnames⟩
  · exact ⟨es, [], rfl, hproperties, by rw [requiredOfBody, hnull]; rfl, by simp⟩
  · refine ⟨es, names.map .text, rfl, hproperties, ?_, by simp⟩
    rw [requiredOfBody, hnames]
    cases names <;> rfl

theorem IsObject.bodyProperties (h : IsObject schema ps) : bodyProperties schema = ps := by
  obtain ⟨es, names, rfl, hproperties, -⟩ := h.parts
  rw [Operation.bodyProperties, hproperties]
  rfl

/-- The properties of a JSON object are JSON values. -/
theorem IsObject.isJson (h : IsObject schema ps) (hjson : schema.IsJson) :
    ∀ k v, (k, v) ∈ ps → v.IsJson := by
  obtain ⟨es, rfl, hps, -⟩ := h.entries
  have hmap : (Value.map ps).IsJson := hps ▸ hjson.field "properties"
  exact (Value.isJson_map.1 hmap).2

/-- **What an object adds**: its properties and then its required names, which are texts. -/
theorem IsObject.addBody (h : IsObject schema ps) (operation : String) (s : Signature) :
    ∃ names, (∀ v ∈ names, ∃ t, v = .text t) ∧
      (addBody operation s schema).result =
        (addProperties s ps).bind fun s' => .ok (s'.require names) := by
  obtain ⟨es, names, rfl, hproperties, hrequired, htexts⟩ := h.parts
  refine ⟨names, htexts, ?_⟩
  rw [propertiesOfBody] at hproperties
  rw [requiredOfBody] at hrequired
  unfold Operation.addBody
  simp only [Outcome.result_bind, Outcome.result_liftM, hproperties, hrequired]
  rfl

end

/-- The signature of an operation without declared parameters is what its body adds to nothing. -/
theorem result_signature_of_isBare {c : Compiler} {fields : Keyed Value} (h : IsBare fields) (operation : String)
    (body : Value) :
    (signature c operation fields (.list []) body).result = (addBody operation {} body).result := by
  rw [result_signature h.parameters]
  rfl

/-- A property that is classified is a named parameter. -/
theorem mem_namedParameters_of_property {c : Compiler} {ds : List Declaration} {body v : Value}
    {name : String} {l : Location} (hv : (.text name, v) ∈ bodyProperties body)
    (hl : Location.classify v = .ok l) :
    .text name ∈ Keyed.keys (namedParameters c ds body) := by
  have hproperty : ofProperty (.text name, v) = some (.text name, v, l) := by
    unfold ofProperty
    rw [hl]
  have hhas : Keyed.has (namedParameters c ds body) (.text name) = true := by
    rw [namedParameters, Keyed.ofList, Keyed.has_putAll, Bool.or_eq_true]
    have hmem : (.text name, v, l) ∈
        ds.filterMap (ofDeclaration c) ++ (bodyProperties body).filterMap ofProperty :=
      List.mem_append_right _ (List.mem_filterMap.2 ⟨_, hv, hproperty⟩)
    exact Or.inr (Keyed.has_iff.2 ⟨_, Keyed.mem_keys_of_mem hmem, Scalar.same_refl _⟩)
  obtain ⟨k, hk, hsame⟩ := Keyed.has_iff.1 hhas
  rwa [← (Scalar.same_text name k).1 hsame]

/-- **The tool of an operation without declared parameters** is assembled from what its body adds. -/
theorem result_compile_of_isBare {c : Compiler} {fields : Keyed Value} {name : String} {body : Body}
    (h : IsBare fields) (hname : identifier? fields = some name)
    (hbody : (requestBody c.settings c.document fields).result = .ok (some body)) (path : Scalar)
    (method : String) :
    (compile c path method (.map fields) (.list [])).result =
      (addBody name {} body.schema).result.bind fun s =>
        assemble c (.text name) (description fields) (Text.upper method) path (some body) s := by
  rw [result_compile, hname, hbody]
  simp only [← result_signature_of_isBare (c := c) h]
  rfl

/-- What a body adds to nothing is held. -/
theorem holds_of_addBody {c : Compiler} {name : String} {body : Value} {s : Signature}
    (h : (addBody name {} body).result = .ok s) : s.Holds (namedParameters c [] body) :=
  addBody_holds (show Signature.Holds {} [] from ⟨rfl, rfl⟩) h

/-- A named parameter that is kept is sent, and asked for unless an upload hides it. -/
theorem sent_of_aligned {settings : Settings} {hides : Bool}
    {kept : List (String × Value × Location)} {tool : Tool} (h : Aligned settings hides kept tool)
    {t : String} (ht : t ∈ kept.map (·.1)) :
    t ∈ tool.recipe.parameters.map (·.name) ∧
      (¬ (hides = true ∧ t ∈ settings.fileParameterNames) →
        t ∈ tool.arguments.properties.map (·.1)) := by
  have hnames : tool.recipe.parameters.map (·.name) = kept.map (·.1) := by
    have hsent := congrArg (List.map (·.1)) h.sent
    rwa [List.map_map, List.map_map] at hsent
  refine ⟨hnames ▸ ht, fun hshown => ?_⟩
  rw [h.asked]
  cases hides with
  | false => exact ht
  | true =>
    rw [if_pos rfl]
    refine List.mem_append_left _ (List.mem_filter.2 ⟨ht, ?_⟩)
    simpa using fun hmem => hshown ⟨rfl, hmem⟩

section

variable {c : Compiler} {fields ps : Keyed Value} {body : Body}

/-- The named parameters of an operation with nothing but a body are properties of the body. -/
theorem mem_properties_of_named (hobject : IsObject body.schema ps) {k : Scalar}
    (hk : k ∈ Keyed.keys (namedParameters c [] body.schema)) : k ∈ Keyed.keys ps := by
  rw [← hobject.bodyProperties]
  exact (mem_namedParameters hk).resolve_left fun ⟨_, hd, _⟩ => by cases hd

/-- The properties of an object can be added exactly if each is a mapping that has a place. -/
theorem IsObject.addProperties_ok_iff (hobject : IsObject body.schema ps)
    (hjson : body.schema.IsJson) (s : Signature) :
    (∃ r, addProperties s ps = .ok r) ↔ ∀ k v, (k, v) ∈ ps → ∃ es, v = .map es ∧ HasPlace es := by
  rw [Operation.addProperties_ok_iff]
  refine forall_congr' fun k => forall_congr' fun v => imp_congr_right fun hv => ?_
  rcases hobject.properties k v hv with ⟨es, rfl⟩ | ⟨b, rfl⟩
  · rw [classify_ok_iff (hobject.isJson hjson k _ hv)]
    exact ⟨fun h => ⟨es, rfl, h⟩, fun ⟨es', heq, h⟩ => Value.map.inj heq ▸ h⟩
  · simp [classify_bool]

variable (hjson : body.schema.IsJson) (hfields : IsBare fields)
  (hbody : (requestBody c.settings c.document fields).result = .ok (some body))
  (hobject : IsObject body.schema ps)

include hjson hobject

theorem texts_of_properties : ∀ k ∈ Keyed.keys ps, ∃ t, k = .text t := by
  rw [← hobject.bodyProperties]
  exact texts_bodyProperties hjson

include hfields hbody

/-- An operation with nothing but an object for its body compiles exactly if every property of the
object has a place. -/
theorem compile_ok_iff_of_object (path method : String) :
    (∃ tool, (compile c (.text path) method (.map fields) (.list [])).result = .ok tool) ↔
      ∀ k v, (k, v) ∈ ps → ∃ es, v = .map es ∧ HasPlace es := by
  obtain ⟨name, hname⟩ := hfields.name
  obtain ⟨names, htexts, hadd⟩ := hobject.addBody name {}
  rw [result_compile_of_isBare hfields hname hbody, hadd,
    ← hobject.addProperties_ok_iff hjson {}]
  constructor
  · rintro ⟨tool, htool⟩
    obtain ⟨s, hs, -⟩ := bind_eq_ok.1 htool
    obtain ⟨r, hr, -⟩ := bind_eq_ok.1 hs
    exact ⟨r, hr⟩
  · rintro ⟨r, hr⟩
    have hs : (addBody name {} body.schema).result = .ok (r.require names) := by
      rw [hadd, hr]
      rfl
    have hnone : r.required = [] :=
      addProperties_induction (p := fun s => s.required = []) (fun _ _ _ _ _ hs => hs) rfl hr
    have hholds : (r.require names).Holds (namedParameters c [] body.schema) := holds_of_addBody hs
    obtain ⟨t, ht⟩ := hfields.description_text
    obtain ⟨tool, htool⟩ : ∃ tool, assemble c (.text name) (description fields) (Text.upper method)
        (.text path) (some body) (r.require names) = .ok tool := by
      refine assemble_of_texts hholds
        (fun k hk => texts_of_properties hjson hobject k (mem_properties_of_named hobject hk))
        (fun v hv => ?_) rfl rfl (by rw [ht]; rfl)
      rw [Signature.require, hnone] at hv
      exact (Value.mem_union hv).elim (fun hv => by cases hv) (htexts v)
    exact ⟨tool, bind_eq_ok.2 ⟨_, by rw [hr]; rfl, htool⟩⟩

/-- Its tool sends every property, and asks for every one that an upload does not hide. -/
theorem sent_of_object {path : Scalar} {method : String} {tool : Tool}
    (h : (compile c path method (.map fields) (.list [])).result = .ok tool) :
    ∀ k ∈ Keyed.keys ps, ∃ name, k = .text name ∧
      name ∈ tool.recipe.parameters.map (·.name) ∧
      (¬ (hidesParameters c.settings (namedParameters c [] body.schema) body.schema = true ∧
          name ∈ c.settings.fileParameterNames) →
        name ∈ tool.arguments.properties.map (·.1)) := by
  intro k hk
  obtain ⟨t, rfl⟩ := texts_of_properties hjson hobject k hk
  refine ⟨t, rfl, ?_⟩
  obtain ⟨name, hname⟩ := hfields.name
  obtain ⟨names, -, hadd⟩ := hobject.addBody name {}
  rw [result_compile_of_isBare hfields hname hbody] at h
  obtain ⟨s, hs, hassemble⟩ := bind_eq_ok.1 h
  have hbytes : ∀ bs, .bytes bs ∉ Keyed.keys (namedParameters c [] body.schema) := by
    intro bs hbs
    obtain ⟨t', ht'⟩ := texts_of_properties hjson hobject _ (mem_properties_of_named hobject hbs)
    cases ht'
  obtain ⟨kept, hkept, haligned⟩ := assemble_aligned (holds_of_addBody hs)
    (namedParameters_distinct c [] body.schema) hbytes hassemble
  refine sent_of_aligned haligned ?_
  -- The property was classified, so it is named, and merging has removed it if it is to be removed.
  obtain ⟨v, hv⟩ := Keyed.mem_keys.1 hk
  rw [hadd] at hs
  obtain ⟨r, hr, -⟩ := bind_eq_ok.1 hs
  obtain ⟨l, hl⟩ := (addProperties_ok_iff {}).1 ⟨r, hr⟩ _ v hv
  rw [← hobject.bodyProperties] at hv
  obtain ⟨a, ha⟩ := Keyed.mem_keys.1 (mem_namedParameters_of_property hv hl)
  have hmerged := normal_of_bodyOf
    (bodyOf_eq (show (Value.map fields).fields = .ok fields from rfl) hbody)
  have hremoved := not_removed_of_bodyProperties hmerged _ (Keyed.mem_keys_of_mem hv)
  have hmem : (.text t, a) ∈
      (namedParameters c [] body.schema).filter fun e => !c.settings.isRemoved e.1 :=
    List.mem_filter.2 ⟨ha, by simp [hremoved]⟩
  rw [hkept] at hmem
  obtain ⟨e, he, heq⟩ := List.mem_map.1 hmem
  exact List.mem_map.2 ⟨e, he, Scalar.text.inj (Prod.mk.inj heq).1⟩

end

/-- **Which body properties an operation survives.**  An operation of a JSON document with nothing but a
body, whose concrete schema is that of an object, compiles exactly if each property of the body is a
mapping that has a place.  Its tool sends every property, and asks for every one that an upload does not
hide. -/
theorem compile_bodyProperties (c : Compiler) (path method : String) (fields ps : Keyed Value)
    (body : Body) (hdocument : c.document.IsJson) (hoperation : (Value.map fields).IsJson)
    (hfields : IsBare fields)
    (hbody : (requestBody c.settings c.document fields).result = .ok (some body))
    (hobject : IsObject body.schema ps) :
    ((∃ tool, (compile c (.text path) method (.map fields) (.list [])).result = .ok tool) ↔
      ∀ k v, (k, v) ∈ ps → ∃ es, v = .map es ∧ HasPlace es) ∧
    ∀ tool, (compile c (.text path) method (.map fields) (.list [])).result = .ok tool →
      ∀ k ∈ Keyed.keys ps, ∃ name, k = .text name ∧
        name ∈ tool.recipe.parameters.map (·.name) ∧
        (¬ (hidesParameters c.settings (namedParameters c [] body.schema) body.schema = true ∧
            name ∈ c.settings.fileParameterNames) →
          name ∈ tool.arguments.properties.map (·.1)) := by
  have hjson : body.schema.IsJson := isJson_body hdocument hoperation hbody
  exact ⟨compile_ok_iff_of_object hjson hfields hbody hobject path method,
    fun _ => sent_of_object hjson hfields hbody hobject⟩

/-- The fields of an operation with a body of one property. -/
def propertyFields (schema : Value) : Keyed Value :=
  [(.text "operationId", .text "op"), (.text "requestBody", .record [("content", .record
    [("application/json", .record [("schema", .record [("properties", .record [("a", schema)])])])])])]

theorem isJson_propertyFields {schema : Value} (h : schema.IsJson) :
    (Value.map (propertyFields schema)).IsJson := by
  show (Value.record [("operationId", .text "op"), ("requestBody", .record [("content", .record
    [("application/json", .record [("schema", .record [("properties",
      .record [("a", schema)])])])])])]).IsJson
  simp [Value.isJson_record, Value.isJson_scalar, Value.isPlain, h]

/-- The concrete schema of that body, if the property is concrete. -/
def propertyBody (schema : Value) : Body where
  schema := .record [("properties", .record [("a", schema)])]
  encoding := "json"

/-- A property with nothing in its schema is sent and asked for. -/
theorem compile_bodyProperties_empty : ∃ tool,
    (compile ⟨.map [], {}, ""⟩ (.text "/a") "post" (.map (propertyFields (.map []))) (.list [])).result =
      .ok tool ∧ "a" ∈ tool.recipe.parameters.map (·.name) ∧
        "a" ∈ tool.arguments.properties.map (·.1) := by
  obtain ⟨hcompiles, hsent⟩ := compile_bodyProperties ⟨.map [], {}, ""⟩ "/a" "post"
    (propertyFields (.map [])) [(.text "a", .map [])] (propertyBody (.map []))
    (by simp [Value.isJson_map])
    (isJson_propertyFields (by simp [Value.isJson_map]))
    ⟨⟨"op", by rfl⟩, Or.inl (by rfl), Or.inl (by rfl), by rfl⟩ (by rfl)
    ⟨⟨_, rfl, by rfl, Or.inl (by rfl)⟩, by simp⟩
  obtain ⟨tool, htool⟩ := hcompiles.2 (by
    intro k v hv
    obtain ⟨-, rfl⟩ := Prod.mk.inj (List.mem_singleton.1 hv)
    refine ⟨[], rfl, ?_⟩
    show Value.field (contentOf []) "type" = .text "string" → _
    intro htype
    cases htype)
  obtain ⟨name, hname, hsends, hasks⟩ := hsent tool htool (.text "a") (by simp [Keyed.keys])
  obtain rfl := Scalar.text.inj hname
  exact ⟨tool, htool, hsends, hasks (by decide)⟩

/-- So a property that is a Boolean ends its operation. -/
theorem not_compile_bodyProperties :
    ¬ ∀ (c : Compiler) (path method : String) (fields ps : Keyed Value) (body : Body),
      c.document.IsJson → (Value.map fields).IsJson → IsBare fields →
      (requestBody c.settings c.document fields).result = .ok (some body) →
      IsObject body.schema ps →
      ∃ tool, (compile c (.text path) method (.map fields) (.list [])).result = .ok tool := by
  intro h
  obtain ⟨tool, htool⟩ := h ⟨.map [], {}, ""⟩ "/a" "post" (propertyFields (.bool true))
    [(.text "a", .bool true)] (propertyBody (.bool true)) (by simp [Value.isJson_map])
    (isJson_propertyFields (Value.isJson_scalar.2 rfl))
    ⟨⟨"op", by rfl⟩, Or.inl (by rfl), Or.inl (by rfl), by rfl⟩ (by rfl)
    ⟨⟨_, rfl, by rfl, Or.inl (by rfl)⟩, by simp⟩
  have hfails : (compile ⟨.map [], {}, ""⟩ (.text "/a") "post"
      (.map (propertyFields (.bool true))) (.list [])).result = .error .notSearchable := by rfl
  rw [hfails] at htool
  cases htool

end ToolCatalog.Operation
