import ToolCatalog.Operation.Compile
import ToolCatalog.Proofs.Schema.Hereditary
import ToolCatalog.Proofs.Schema.Merging
import ToolCatalog.Proofs.Value.Field

/-!
# What compiling an operation gives, step by step

A tool is assembled from a signature, which is built from the declared parameters and then the body.
Each step is taken apart once: the parameters a tool presents and sends, the names that stay required,
what each added parameter does to the signature, where the schema of the body comes from.
-/

namespace ToolCatalog

namespace Operation

/-! ## The tool of a signature -/

/-- The parameters of an operation as its tool presents them: those of an upload are simplified. -/
def presented (c : Compiler) (body : Option Body) (s : Signature) : Upload.Simplified :=
  if Upload.isUpload c.settings s.locations ((body.map (·.schema)).getD .null) then
    Upload.simplify c.settings s.properties s.locations s.required
  else
    { properties := s.properties, locations := s.locations, required := s.required
      derived := [], uiOnly := [] }

/-- The parameters that are sent: those that are no arguments only and are not removed. -/
def sent (settings : Settings) (u : Upload.Simplified) : Keyed Location :=
  u.locations.filter fun e =>
    !(u.uiOnly.any fun n => (Scalar.text n).same e.1) && !settings.isRemoved e.1

/-- Every field of an assembled tool, with the step that it comes from. -/
theorem assemble_inv {c : Compiler} {name description : Value} {method : String} {path : Scalar}
    {body : Option Body} {s : Signature} {tool : Tool}
    (h : assemble c name description method path body s = .ok tool) :
    ∃ required texts place,
      withoutRemoved c.settings (presented c body s).required = .ok required ∧
      required.mapM Field.text = .ok texts ∧
      (Value.scalar path).show? = .ok place ∧
      Field.text name = .ok tool.name ∧
      Field.text description = .ok tool.description ∧
      Field.named ((presented c body s).properties.filter fun e => !c.settings.isRemoved e.1) =
        .ok tool.arguments.properties ∧
      (sent c.settings (presented c body s)).mapM
        (fun e => wireParameter s.properties (presented c body s).derived e.1 e.2) =
          .ok tool.recipe.parameters ∧
      tool = {
        name := tool.name
        description := tool.description
        arguments := {
          properties := tool.arguments.properties
          required := if texts.isEmpty then none else some texts }
        recipe := {
          method, url := c.baseUrl ++ place, bodyType := (body.map (·.encoding)).getD "json"
          parameters := tool.recipe.parameters } } := by
  unfold assemble at h
  obtain ⟨required, hrequired, h⟩ := bind_eq_ok.1 h
  obtain ⟨parameters, hparameters, h⟩ := bind_eq_ok.1 h
  obtain ⟨properties, hproperties, h⟩ := bind_eq_ok.1 h
  obtain ⟨texts, htexts, h⟩ := bind_eq_ok.1 h
  obtain ⟨place, hplace, h⟩ := bind_eq_ok.1 h
  obtain ⟨name', hname, h⟩ := bind_eq_ok.1 h
  obtain ⟨description', hdescription, h⟩ := bind_eq_ok.1 h
  obtain rfl := Except.ok.inj h
  exact ⟨required, texts, place, hrequired, htexts, hplace, hname, hdescription, hproperties,
    hparameters, rfl⟩

/-- Where every step of assembling gives a value, these make the tool. -/
theorem assemble_of_steps {c : Compiler} {name description : Value} {method place n t : String}
    {path : Scalar} {body : Option Body} {s : Signature} {required : List Value} {texts : List String}
    {properties : List (String × Value)} {parameters : List WireParameter}
    (hrequired : withoutRemoved c.settings (presented c body s).required = .ok required)
    (hparameters : (sent c.settings (presented c body s)).mapM
      (fun e => wireParameter s.properties (presented c body s).derived e.1 e.2) = .ok parameters)
    (hproperties : Field.named ((presented c body s).properties.filter fun e =>
      !c.settings.isRemoved e.1) = .ok properties)
    (htexts : required.mapM Field.text = .ok texts) (hplace : (Value.scalar path).show? = .ok place)
    (hname : Field.text name = .ok n) (hdescription : Field.text description = .ok t) :
    assemble c name description method path body s = .ok {
      name := n
      description := t
      arguments := { properties, required := if texts.isEmpty then none else some texts }
      recipe := {
        method, url := c.baseUrl ++ place, bodyType := (body.map (·.encoding)).getD "json"
        parameters } } :=
  bind_eq_ok.2 ⟨required, hrequired, bind_eq_ok.2 ⟨parameters, hparameters,
    bind_eq_ok.2 ⟨properties, hproperties, bind_eq_ok.2 ⟨texts, htexts,
      bind_eq_ok.2 ⟨place, hplace, bind_eq_ok.2 ⟨n, hname,
        bind_eq_ok.2 ⟨t, hdescription, rfl⟩⟩⟩⟩⟩⟩⟩

/-- **What a tool is assembled from**: the presented properties that are not removed, the names that
stay required, and a wire parameter for each parameter that is sent. -/
theorem assemble_ok {c : Compiler} {name description : Value} {method : String} {path : Scalar}
    {body : Option Body} {s : Signature} {tool : Tool}
    (h : assemble c name description method path body s = .ok tool) :
    Field.named ((presented c body s).properties.filter fun e => !c.settings.isRemoved e.1) =
        .ok tool.arguments.properties ∧
      (∃ required texts,
        withoutRemoved c.settings (presented c body s).required = .ok required ∧
        required.mapM Field.text = .ok texts ∧
        tool.arguments.required = if texts.isEmpty then none else some texts) ∧
      (sent c.settings (presented c body s)).mapM
        (fun e => wireParameter s.properties (presented c body s).derived e.1 e.2) =
          .ok tool.recipe.parameters := by
  obtain ⟨required, texts, place, hrequired, htexts, -, -, -, hproperties, hparameters, htool⟩ :=
    assemble_inv h
  exact ⟨hproperties, ⟨required, texts, hrequired, htexts, by rw [htool]⟩, hparameters⟩

/-- Whether a required name is removed: only a scalar can be. -/
def isRemovedName (settings : Settings) : Value → Bool
  | .scalar k => settings.isRemoved k
  | _ => false

/-- **The names that stay required** are those that are not removed, in their order. -/
theorem withoutRemoved_ok {settings : Settings} {names kept : List Value}
    (h : withoutRemoved settings names = .ok kept) :
    kept = names.filter fun v => !isRemovedName settings v := by
  induction names generalizing kept with
  | nil =>
    rw [withoutRemoved] at h
    exact (Except.ok.inj h).symm
  | cons name rest ih =>
    unfold withoutRemoved at h
    split at h
    · next k =>
      obtain ⟨kept', hkept, h⟩ := bind_eq_ok.1 h
      rw [List.filter_cons, isRemovedName, ← ih hkept, ← Except.ok.inj h]
      cases settings.isRemoved k <;> rfl
    · next hname =>
      split at h
      · obtain ⟨kept', hkept, h⟩ := bind_eq_ok.1 h
        obtain rfl := Except.ok.inj h
        have hnot : isRemovedName settings name = false := by
          cases name with
          | scalar k => exact absurd rfl (hname k)
          | _ => rfl
        rw [List.filter_cons, hnot, ← ih hkept]
        rfl
      · cases h

theorem mem_withoutRemoved {settings : Settings} {names kept : List Value}
    (h : withoutRemoved settings names = .ok kept) (v : Value) :
    v ∈ kept ↔ v ∈ names ∧ ∀ k, v = .scalar k → settings.isRemoved k = false := by
  rw [withoutRemoved_ok h, List.mem_filter]
  cases v <;> simp [isRemovedName]

theorem wireParameter_name {declared : Keyed Value} {derived : List (String × String)} {k : Scalar}
    {location : Location} {p : WireParameter}
    (h : wireParameter declared derived k location = .ok p) : Field.key k = .ok p.name := by
  unfold wireParameter at h
  obtain ⟨name, hname, h⟩ := bind_eq_ok.1 h
  obtain rfl := Except.ok.inj h
  exact hname

/-! ## The signature of an operation -/

/-- A signature after a declared parameter with its concrete schema and its place. -/
def Signature.declare (s : Signature) (d : Declaration) (schema : Value) (location : Location) :
    Signature :=
  let s := s.add (.text d.name) schema location
  if isRequired d schema location then s.require [.text d.name] else s

/-- What every declared parameter keeps, adding them all keeps. -/
theorem addDeclared_induction {c : Compiler} {operation : String} {p : Signature → Prop}
    {ds : List Declaration}
    (step : ∀ s d schema location, d ∈ ds → (mergedParameter c d).result = .ok schema → p s →
      p (s.declare d schema location))
    {s r : Signature} (hp : p s) (h : (addDeclared c operation s ds).result = .ok r) : p r := by
  induction ds generalizing s with
  | nil =>
    rw [addDeclared] at h
    obtain rfl := Except.ok.inj h
    exact hp
  | cons d rest ih =>
    have ih := fun {s} => @ih (fun s d' schema location hd =>
      step s d' schema location (List.mem_cons_of_mem _ hd)) s
    rw [addDeclared, Outcome.result_inspect] at h
    cases hm : (mergedParameter c d).result with
    | error f =>
      simp only [hm] at h
      split at h
      · obtain ⟨-, -, h⟩ := Outcome.result_bind_ok.1 h
        exact ih hp h
      · cases h
    | ok schema =>
      simp only [hm] at h
      obtain ⟨location, -, h⟩ := Outcome.result_bind_ok.1 h
      exact ih (step s d schema location List.mem_cons_self hm hp) h

/-- What every property of a body keeps, adding them all keeps. -/
theorem addProperties_induction {p : Signature → Prop} {ps : Keyed Value}
    (step : ∀ s name schema location, (name, schema) ∈ ps → p s → p (s.add name schema location))
    {s r : Signature} (hp : p s) (h : addProperties s ps = .ok r) : p r := by
  induction ps generalizing s with
  | nil =>
    rw [addProperties] at h
    obtain rfl := Except.ok.inj h
    exact hp
  | cons e rest ih =>
    obtain ⟨name, schema⟩ := e
    rw [addProperties] at h
    obtain ⟨location, -, h⟩ := bind_eq_ok.1 h
    exact ih (fun s name' schema' location' he =>
        step s name' schema' location' (List.mem_cons_of_mem _ he))
      (step s name schema location List.mem_cons_self hp) h

/-- The properties of a body that is a mapping. -/
def propertiesOfBody (es : Keyed Value) : Except Fault (Keyed Value) :=
  ((Value.field es "properties").orElse (.map [])).fields

/-- The required names of a body that is a mapping: the items of whatever stands there. -/
def requiredOfBody (es : Keyed Value) : Except Fault (List Value) :=
  ((Value.field es "required").orElse (.list [])).items

/-- **What a body adds to a signature**: its properties and its required names, if it is a mapping. -/
theorem addBody_ok {operation : String} {s r : Signature} {body : Value}
    (h : (addBody operation s body).result = .ok r) :
    (∃ es ps s' names, body = .map es ∧ propertiesOfBody es = .ok ps ∧
      addProperties s ps = .ok s' ∧ requiredOfBody es = .ok names ∧ r = s'.require names) ∨
    (∀ es, body ≠ .map es) ∧ r = s := by
  unfold addBody at h
  split at h
  · next es =>
    obtain ⟨ps, hps, h⟩ := Outcome.result_bind_ok.1 h
    obtain ⟨s', hs', h⟩ := Outcome.result_bind_ok.1 h
    obtain ⟨names, hnames, h⟩ := Outcome.result_bind_ok.1 h
    obtain rfl := Except.ok.inj h
    exact Or.inl ⟨es, ps, s', names, rfl, hps, hs', hnames, rfl⟩
  · obtain rfl := Except.ok.inj h
    exact Or.inr ⟨by simp, rfl⟩
  · next hmap _ =>
    obtain ⟨-, -, h⟩ := Outcome.result_bind_ok.1 h
    obtain rfl := Except.ok.inj h
    exact Or.inr ⟨hmap, rfl⟩

/-- A signature is that of the declared parameters, with what the body adds. -/
theorem signature_ok {c : Compiler} {operation : String} {fields : Keyed Value}
    {pathParameters body : Value} {s : Signature}
    (h : (signature c operation fields pathParameters body).result = .ok s) :
    ∃ ds declared, (collect c.settings c.document operation pathParameters
        ((Value.field fields "parameters").orElse (.list []))).result = .ok ds ∧
      (addDeclared c operation {} ds).result = .ok declared ∧
      (addBody operation declared body).result = .ok s := by
  rw [signature] at h
  obtain ⟨ds, hds, h⟩ := Outcome.result_bind_ok.1 h
  obtain ⟨declared, hdeclared, h⟩ := Outcome.result_bind_ok.1 h
  exact ⟨ds, declared, hds, hdeclared, h⟩

/-- The steps of compiling an operation: its fields, its identifier, its body, its signature and the
tool assembled from them. -/
theorem compile_inv {c : Compiler} {path : Scalar} {method : String}
    {operation pathParameters : Value} {tool : Tool}
    (h : (compile c path method operation pathParameters).result = .ok tool) :
    ∃ fields name body s, operation.fields = .ok fields ∧ identifier? fields = some name ∧
      (requestBody c.settings c.document fields).result = .ok body ∧
      (signature c name fields pathParameters ((body.map (·.schema)).getD .null)).result = .ok s ∧
      assemble c (.text name) (description fields) (Text.upper method) path body s = .ok tool := by
  rw [compile] at h
  obtain ⟨fields, hfields, h⟩ := Outcome.result_bind_ok.1 h
  simp only at h
  split at h
  · obtain ⟨place, -, h⟩ := Outcome.result_bind_ok.1 h
    cases h
  · next name hname =>
    obtain ⟨-, -, h⟩ := Outcome.result_bind_ok.1 h
    obtain ⟨body, hbody, h⟩ := Outcome.result_bind_ok.1 h
    obtain ⟨s, hs, h⟩ := Outcome.result_bind_ok.1 h
    exact ⟨fields, name, body, s, hfields, hname, hbody, hs, h⟩

/-- **What a compiled operation comes from**: its body, its signature and the tool assembled from
them. -/
theorem compile_ok {c : Compiler} {path : Scalar} {method : String}
    {operation pathParameters : Value} {tool : Tool}
    (h : (compile c path method operation pathParameters).result = .ok tool) :
    ∃ fields name body s, operation.fields = .ok fields ∧
      (requestBody c.settings c.document fields).result = .ok body ∧
      (signature c name fields pathParameters ((body.map (·.schema)).getD .null)).result = .ok s ∧
      assemble c (.text name) (description fields) (Text.upper method) path body s = .ok tool := by
  obtain ⟨fields, name, body, s, hfields, -, h⟩ := compile_inv h
  exact ⟨fields, name, body, s, hfields, h⟩

/-! ## The body of an operation -/

section

variable {p : List Scalar → Prop}

theorem keysEverywhere_field {es : Keyed Value} (h : (Value.map es).KeysEverywhere p)
    (name : String) : (Value.field es name).KeysEverywhere p := by
  rw [Value.field]
  cases hv : Keyed.find? es (.text name) with
  | none => exact Value.keysEverywhere_scalar _
  | some v => exact Schema.keysEverywhere_of_find? h hv

theorem keysEverywhere_orElse (hp : Schema.Hereditary p) {v : Value} (h : v.KeysEverywhere p) :
    (v.orElse (.map [])).KeysEverywhere p := by
  unfold Value.orElse
  split
  · exact h
  · exact hp.map_nil

theorem within_fields {v : Value} {es : Keyed Value} (h : v.fields = .ok es) :
    Value.Within (.map es) v := by
  unfold Value.fields at h
  split at h
  · next fs hfs =>
    obtain rfl := Except.ok.inj h
    refine .of_opened ?_
    rw [hfs]
    exact .self
  · cases h

theorem keysEverywhere_fields {v : Value} {es : Keyed Value} (h : v.KeysEverywhere p)
    (hes : v.fields = .ok es) : (Value.map es).KeysEverywhere p :=
  h.within (within_fields hes)

end

theorem within_of_find? {es : Keyed Value} {q : Scalar} {v : Value}
    (h : Keyed.find? es q = some v) : Value.Within v (.map es) := by
  obtain ⟨k, hk, -⟩ := Keyed.mem_of_find? h
  exact .entry hk .self

theorem within_under {v w : Value} {name : String} (h : v.under name = .ok w) :
    Value.Within w v := by
  unfold Value.under at h
  split at h
  · next es hes =>
    split at h
    · next hw =>
      obtain rfl := Except.ok.inj h
      refine .of_opened ?_
      rw [hes]
      exact within_of_find? hw
    · cases h
  · cases h

/-- The items of a value stand inside it or are scalars: keys, characters and bytes are made into values. -/
theorem within_items {v w : Value} {vs : List Value} (h : v.items = .ok vs) (hw : w ∈ vs) :
    Value.Within w v ∨ ∃ s, w = .scalar s := by
  induction v using Value.induction with
  | list us =>
    obtain rfl := Except.ok.inj h
    exact Or.inl (.item hw .self)
  | map es =>
    obtain rfl := Except.ok.inj h
    obtain ⟨e, -, rfl⟩ := List.mem_map.1 hw
    exact Or.inr ⟨e.1, rfl⟩
  | set ms =>
    obtain rfl := Except.ok.inj h
    obtain ⟨m, -, rfl⟩ := List.mem_map.1 hw
    exact Or.inr ⟨m, rfl⟩
  | pair a b =>
    obtain rfl := Except.ok.inj h
    rcases List.mem_cons.1 hw with rfl | hw
    · exact Or.inl (.first .self)
    · rw [List.mem_singleton.1 hw]
      exact Or.inl (.second .self)
  | part n body ih => exact (ih h).imp_left .part
  | scalar s =>
    cases s with
    | text t =>
      obtain rfl := Except.ok.inj h
      obtain ⟨c, -, rfl⟩ := List.mem_map.1 hw
      exact Or.inr ⟨_, rfl⟩
    | bytes bs =>
      obtain rfl := Except.ok.inj h
      obtain ⟨b, -, rfl⟩ := List.mem_map.1 hw
      exact Or.inr ⟨_, rfl⟩
    | _ => cases h

theorem within_pickMedia {content media : Value} {encoding : String}
    {types : List (String × String)} (h : pickMedia content types = .ok (some (media, encoding))) :
    Value.Within media content := by
  induction types with
  | nil => cases h
  | cons e rest ih =>
    obtain ⟨name, encoding'⟩ := e
    rw [pickMedia] at h
    obtain ⟨found, -, h⟩ := bind_eq_ok.1 h
    split at h
    · obtain ⟨w, hw, h⟩ := bind_eq_ok.1 h
      obtain ⟨rfl, rfl⟩ := Prod.mk.inj (Option.some.inj (Except.ok.inj h))
      exact within_under hw
    · exact ih h

section

variable {p : Value → Prop} (hnil : p (.map [])) (hwithin : ∀ w v, Value.Within w v → p v → p w)

include hnil hwithin

/-- What stands in a field of a mapping, or the empty mapping in place of nothing. -/
theorem inherits_field {es : Keyed Value} (h : p (.map es)) (name : String) :
    p ((Value.field es name).orElse (.map [])) := by
  rw [Value.field]
  cases hv : Keyed.find? es (.text name) with
  | none => exact hnil
  | some v =>
    show p (v.orElse (.map []))
    unfold Value.orElse
    split
    · exact hwithin v _ (within_of_find? hv) h
    · exact hnil

/-- **The schema of a body** is the concrete schema of a node that has every property that the document
and the operation hand down to what stands in them. -/
theorem requestBody_inherits {settings : Settings} {document : Value} {operation : Keyed Value}
    {body : Body} (hdocument : p document) (hoperation : p (.map operation))
    (h : (requestBody settings document operation).result = .ok (some body)) :
    ∃ node, p node ∧ (Schema.merge settings document [] node).result = .ok body.schema := by
  unfold requestBody at h
  simp only at h
  split at h
  · cases Except.ok.inj h
  · next htruthy =>
    obtain ⟨target, htarget, h⟩ := Outcome.result_bind_ok.1 h
    obtain ⟨fields, hfields, h⟩ := Outcome.result_bind_ok.1 h
    obtain ⟨picked, hpicked, h⟩ := Outcome.result_bind_ok.1 h
    have hdeclared : p (Value.field operation "requestBody") := by
      have hfield := inherits_field hnil hwithin hoperation "requestBody"
      rwa [Value.orElse, if_pos (by simpa using htruthy)] at hfield
    have htarget' : p target := by
      rcases Schema.trace_ok htarget with rfl | htarget
      · exact hdeclared
      · exact hwithin target _ htarget hdocument
    have hcontent := inherits_field hnil hwithin (hwithin _ _ (within_fields hfields) htarget')
      "content"
    split at h
    · next media encoding =>
      obtain ⟨entries, hentries, h⟩ := Outcome.result_bind_ok.1 h
      obtain ⟨schema, hschema, h⟩ := Outcome.result_bind_ok.1 h
      obtain rfl := Option.some.inj (Except.ok.inj h)
      have hmedia : p (media.orElse (.map [])) := by
        unfold Value.orElse
        split
        · exact hwithin _ _ (within_pickMedia hpicked) hcontent
        · exact hnil
      exact ⟨_, inherits_field hnil hwithin (hwithin _ _ (within_fields hentries) hmedia) _, hschema⟩
    · obtain ⟨items, -, h⟩ := Outcome.result_bind_ok.1 h
      obtain ⟨names, -, h⟩ := Outcome.result_bind_ok.1 h
      obtain ⟨-, -, h⟩ := Outcome.result_bind_ok.1 h
      cases Except.ok.inj h

end

/-- The same for what all mappings of the document and of the operation have. -/
theorem requestBody_ok {p : List Scalar → Prop} (hp : Schema.Hereditary p) {settings : Settings}
    {document : Value} {operation : Keyed Value} {body : Body} (hdocument : document.KeysEverywhere p)
    (hoperation : (Value.map operation).KeysEverywhere p)
    (h : (requestBody settings document operation).result = .ok (some body)) :
    ∃ node, node.KeysEverywhere p ∧
      (Schema.merge settings document [] node).result = .ok body.schema :=
  requestBody_inherits hp.map_nil (fun _ _ hw hv => hv.within hw) hdocument hoperation h

end Operation

end ToolCatalog
