import ToolCatalog.Proofs.Operation.Declarations
import ToolCatalog.Proofs.Schema.Locality

/-!
# Operations are isolated from each other

What an operation shares with others are the components of the document.  A reference that begins with
`#/components/` points into them, and if the components themselves spell no other references, then no chain
of references leaves them.  So the tool of an operation that spells no other references depends on the
components and on the operation alone.

The schema of a parameter need not be a mapping: a list of pairs is taken for one, and a pair may make it a
reference that is nowhere spelled as one.  A value is `Confined` if no such schema leaves the components
either.

* `compile_isolated`: operations compile alike in documents with the same components.
-/

namespace ToolCatalog

namespace Pointer

/-- How references into the components begin. -/
def componentsMark : String := "#/components/"

/-- A reference points into the components. -/
def IntoComponents (ref : String) : Prop := componentsMark.toList <+: ref.toList

instance (ref : String) : Decidable (IntoComponents ref) :=
  inferInstanceAs (Decidable (componentsMark.toList <+: ref.toList))

theorem split_of_intoComponents {ref : String} (h : IntoComponents ref) :
    ∃ segments, split ref = .ok ("components" :: segments) := by
  obtain ⟨rest, hrest⟩ := h
  refine ⟨(cutAtSlash rest).map fun cs => String.ofList (unescape cs), ?_⟩
  have hlocal : localPart? ref = some ("components/".toList ++ rest) := by
    rw [localPart?, ← hrest]
    rfl
  rw [split, hlocal]
  rfl

theorem step?_components (v : Value) : step? v "components" = v.get? "components" := by
  have hnumeral : Numeral.integer? 10 "components".toList = none := by decide
  unfold step? Value.get?
  rw [hnumeral]
  split <;> simp_all

/-- A reference into the components is followed from there. -/
theorem walk_of_intoComponents {ref : String} (h : IntoComponents ref) :
    ∃ segments, ∀ document, walk document ref =
      match document.get? "components" with
      | some v => follow ref segments v
      | none => .error (.invalidReferencePath ref "components") := by
  obtain ⟨segments, hsplit⟩ := split_of_intoComponents h
  refine ⟨segments, fun document => ?_⟩
  rw [walk, hsplit]
  show follow ref ("components" :: segments) document = _
  cases hv : document.get? "components" with
  | none => rw [follow, step?_components, hv]
  | some v => rw [follow, step?_components, hv]

/-- What a reference into the components points at stands inside them. -/
theorem within_components {document target : Value} {ref : String} (h : IntoComponents ref)
    (hwalk : walk document ref = .ok target) :
    ∃ v, document.get? "components" = some v ∧ Value.Within target v := by
  obtain ⟨segments, heq⟩ := walk_of_intoComponents h
  rw [heq] at hwalk
  split at hwalk
  · next v hv => exact ⟨v, hv, within_of_follow hwalk⟩
  · cases hwalk

end Pointer

namespace Schema

open Pointer (IntoComponents)

/-- **Documents with the same components agree on the references into them**, if the components spell no
others. -/
theorem agreeOn_components {document document' : Value}
    (hsame : document.get? "components" = document'.get? "components")
    (hcomponents : ∀ v, document.get? "components" = some v →
      ∀ ref ∈ references v, IntoComponents ref) :
    AgreeOn IntoComponents (((document.get? "components").map references).getD []) document
      document' := by
  have hlength : ∀ d : Value, (((d.get? "components").map references).getD []).length ≤
      (references d).length := by
    intro d
    cases hd : d.get? "components" with
    | none => exact Nat.zero_le _
    | some v =>
      refine (references_within_sublist ?_).length_le
      exact Pointer.within_of_step? ((Pointer.step?_components d).trans hd)
  refine ⟨fun ref href => ?_, fun ref target href hwalk => ?_, fun ref href => ?_, hlength document, ?_⟩
  · obtain ⟨segments, heq⟩ := Pointer.walk_of_intoComponents href
    rw [heq, heq, hsame]
  · obtain ⟨v, hv, hwithin⟩ := Pointer.within_components href hwalk
    rw [hv]
    exact references_within_subset hwithin
  · cases hv : document.get? "components" with
    | none => simp [hv] at href
    | some v =>
      rw [hv] at href
      exact hcomponents v hv ref href
  · rw [hsame]
    exact hlength document'

end Schema

namespace Operation

open Pointer (IntoComponents)

/-- The reference that the schema of a parameter is, once it is taken for a mapping. -/
def schemaReference? (es : Keyed Value) : Option String :=
  match ((Value.field es "schema").orElse (.map [])).toEntries with
  | .ok entries => Schema.reference? (.map entries)
  | .error _ => none

/-- A value whose references point into the components, those of a parameter's schema that is taken for a
mapping included. -/
structure Confined (v : Value) : Prop where
  references : ∀ ref ∈ Schema.references v, IntoComponents ref
  schemas : ∀ es, Value.Within (.map es) v → ∀ ref ∈ schemaReference? es, IntoComponents ref

/-! ## What is confined -/

theorem Confined.within {v w : Value} (h : Confined v) (hw : Value.Within w v) : Confined w :=
  ⟨fun ref href => h.references ref (Schema.references_within_subset hw href),
    fun es hes => h.schemas es (hes.trans hw)⟩

theorem confined_scalar (s : Scalar) : Confined (.scalar s) :=
  ⟨nofun, nofun⟩

theorem confined_list {vs : List Value} : Confined (.list vs) ↔ ∀ v ∈ vs, Confined v := by
  refine ⟨fun h v hv => h.within (.item hv .self), fun h => ⟨fun ref href => ?_, fun es hes => ?_⟩⟩
  · rw [Schema.references, Schema.referencesOfItems_eq] at href
    obtain ⟨v, hv, href⟩ := List.mem_flatMap.1 href
    exact (h v hv).references ref href
  · cases hes with
    | item hv hes => exact (h _ hv).schemas es hes

theorem confined_map {es : Keyed Value} : Confined (.map es) ↔
    (∀ ref ∈ schemaReference? es, IntoComponents ref) ∧ ∀ e ∈ es,
      (∀ ref ∈ Schema.referenceUnder e.1 e.2, IntoComponents ref) ∧ Confined e.2 := by
  constructor
  · intro h
    refine ⟨h.schemas es .self, fun e he => ⟨fun ref href => ?_, h.within (.entry he .self)⟩⟩
    exact h.references ref (Schema.mem_referencesOfEntries.2
      ⟨e.1, e.2, he, Or.inl (Schema.mem_referenceUnder.1 href)⟩)
  · rintro ⟨hschema, hes⟩
    refine ⟨fun ref href => ?_, fun fs hfs => ?_⟩
    · obtain ⟨k, v, hv, href | href⟩ := Schema.mem_referencesOfEntries.1 href
      · exact (hes _ hv).1 ref (Schema.mem_referenceUnder.2 href)
      · exact (hes _ hv).2.references ref href
    · cases hfs with
      | self => exact hschema
      | entry hv hfs => exact (hes _ hv).2.schemas fs hfs

theorem confined_nil : Confined (.map []) := confined_map.2 ⟨nofun, nofun⟩

theorem Confined.items {v : Value} (h : Confined v) {vs : List Value} (hvs : v.items = .ok vs) :
    ∀ w ∈ vs, Confined w := by
  intro w hw
  rcases within_items hvs hw with hwithin | ⟨s, rfl⟩
  · exact h.within hwithin
  · exact confined_scalar s

theorem Confined.field {es : Keyed Value} (h : Confined (.map es)) (name : String) :
    Confined ((Value.field es name).orElse (.map [])) :=
  inherits_field confined_nil (fun _ _ hw hv => hv.within hw) h name

/-- An item that is taken for an entry spells the references of what stands there. -/
theorem references_asEntry {v w : Value} {k : Scalar} (h : v.asEntry = .ok (k, w)) :
    Schema.references w ⊆ Schema.references v := by
  have hitem : ∀ {vs}, v.items = .ok vs → w ∈ vs → Schema.references w ⊆ Schema.references v := by
    intro vs hvs hw
    rcases within_items hvs hw with hwithin | ⟨s, rfl⟩
    · exact Schema.references_within_subset hwithin
    · exact List.nil_subset _
  unfold Value.asEntry at h
  split at h
  · cases h
  · next key value hitems =>
    have hvalue : value ∈ [key, value] := List.mem_cons_of_mem _ List.mem_cons_self
    split at h
    · obtain ⟨-, rfl⟩ := Prod.mk.inj (Except.ok.inj h)
      exact hitem hitems hvalue
    · split at h
      · obtain ⟨-, rfl⟩ := Prod.mk.inj (Except.ok.inj h)
        exact hitem hitems hvalue
      · cases h
  · cases h

/-- A value that is taken for a mapping spells the references of the mapping, but for the one that the
mapping may be. -/
theorem references_toEntries {v : Value} {entries : Keyed Value} (h : v.toEntries = .ok entries) :
    ∀ ref ∈ Schema.references (.map entries), ref ∈ Schema.references v ∨
      Schema.reference? (.map entries) = some ref := by
  have hopened : Schema.references v.opened ⊆ Schema.references v :=
    Schema.references_within_subset (.of_opened .self)
  intro ref href
  unfold Value.toEntries at h
  split at h
  · next es hes =>
    obtain rfl := Except.ok.inj h
    rw [hes] at hopened
    exact Or.inl (hopened href)
  · obtain ⟨items, hitems, h⟩ := bind_eq_ok.1 h
    obtain ⟨es, hes, h⟩ := bind_eq_ok.1 h
    obtain rfl := Except.ok.inj h
    rw [Schema.references, Schema.mem_referencesOfEntries] at href
    obtain ⟨k, w, hw, ⟨rfl, rfl⟩ | href⟩ := href
    · refine Or.inr ?_
      have hfind := Keyed.find?_of_mem hw (Keyed.distinct_putAll List.Pairwise.nil es)
      unfold Schema.reference?
      simp only [Value.opened]
      rw [hfind]
    · -- What stands under a key of the mapping stood in an item of the value.
      refine Or.inl (hopened ?_)
      rcases Keyed.mem_putAll hw with hw | ⟨k', hw, -⟩
      · cases hw
      · obtain ⟨item, hitem, hentry⟩ := (mapM_eq_ok hes).1 _ hw
        have hitem' : Schema.references item ⊆ Schema.references v.opened := by
          rcases within_items hitems hitem with hwithin | ⟨s, rfl⟩
          · exact Schema.references_within_subset hwithin
          · exact List.nil_subset _
        exact hitem' (references_asEntry hentry href)

/-- The schema of a confined declaration spells references into the components only. -/
theorem Confined.parameterSchema {d : Declaration} (h : Confined (.map d.fields)) {node : Value}
    (hnode : parameterSchema d = .ok node) : ∀ ref ∈ Schema.references node, IntoComponents ref := by
  unfold Operation.parameterSchema at hnode
  obtain ⟨entries, hentries, hnode⟩ := bind_eq_ok.1 hnode
  have hschema : ∀ ref ∈ Schema.references (.map entries), IntoComponents ref := by
    intro ref href
    rcases references_toEntries hentries ref href with href | href
    · exact (h.field "schema").references ref href
    · refine h.schemas d.fields .self ref ?_
      rw [schemaReference?, hentries]
      exact href
  split at hnode
  · next description hdescription =>
    obtain rfl := Except.ok.inj hnode
    intro ref href
    rw [Schema.references, Schema.mem_referencesOfEntries] at href
    obtain ⟨k, w, hw, href⟩ := href
    rcases Keyed.mem_put hw with hw | ⟨rfl, hk, -⟩
    · exact hschema ref (Schema.mem_referencesOfEntries.2 ⟨k, w, hw, href⟩)
    · rcases href with ⟨hk', -⟩ | href
      · rw [hk'] at hk
        cases hk
      · exact (h.within (within_of_find? hdescription)).references ref href
  · obtain rfl := Except.ok.inj hnode
    exact hschema

/-! ## Compilers that share the components -/

/-- Two compilers over documents with the same components, which are confined. -/
structure SharesComponents (c c' : Compiler) : Prop where
  settings : c.settings = c'.settings
  baseUrl : c.baseUrl = c'.baseUrl
  components : c.document.get? "components" = c'.document.get? "components"
  confined : ∀ v, c.document.get? "components" = some v → Confined v

namespace SharesComponents

variable {c c' : Compiler} (h : SharesComponents c c')

include h

theorem agreeOn : Schema.AgreeOn IntoComponents
    (((c.document.get? "components").map Schema.references).getD []) c.document c'.document :=
  Schema.agreeOn_components h.components fun v hv => (h.confined v hv).references

theorem trace {node : Value} (hnode : Confined node) :
    Schema.trace c.document node = Schema.trace c'.document node :=
  h.agreeOn.trace fun _ href => hnode.references _ (Schema.mem_references_of_reference? href)

/-- A chain from a confined node ends at one. -/
theorem confined_trace {node v : Value} (hnode : Confined node)
    (hv : Schema.trace c.document node = .ok v) : Confined v := by
  refine Schema.traceFrom_induction (p := Confined) (fun node ref next hnode href hwalk => ?_) hnode hv
  have hinto := hnode.references ref (Schema.mem_references_of_reference? href)
  obtain ⟨v, hv, hwithin⟩ := Pointer.within_components hinto hwalk
  exact (h.confined v hv).within hwithin

theorem requestBody {es : Keyed Value} (hes : Confined (.map es)) :
    requestBody c.settings c.document es = Operation.requestBody c'.settings c'.document es := by
  unfold Operation.requestBody
  simp only
  split
  · rfl
  · next htruthy =>
    have hdeclared : Confined (Value.field es "requestBody") := by
      have hfield := hes.field "requestBody"
      rwa [Value.orElse, if_pos (by simpa using htruthy)] at hfield
    rw [← h.trace hdeclared, h.settings]
    refine Outcome.bind_congr_ok fun target htarget => ?_
    refine Outcome.bind_congr_ok fun fields hfields => ?_
    have hfields' : Confined (.map fields) :=
      (h.confined_trace hdeclared htarget).within (within_fields hfields)
    refine Outcome.bind_congr_ok fun picked hpicked => ?_
    cases picked with
    | none => rfl
    | some picked =>
      obtain ⟨media, encoding⟩ := picked
      simp only
      refine Outcome.bind_congr_ok fun entries hentries => ?_
      have hmedia : Confined (media.orElse (.map [])) := by
        unfold Value.orElse
        split
        · exact (hfields'.field "content").within (within_pickMedia hpicked)
        · exact confined_nil
      have hschema := ((hmedia.within (within_fields hentries)).field "schema").references
      rw [h.agreeOn.merge hschema]

theorem declare (operation : String) {entry : Value} (hentry : Confined entry) :
    declare c.settings c.document operation entry =
      Operation.declare c'.settings c'.document operation entry := by
  unfold Operation.declare
  rw [h.trace hentry, h.settings]

theorem collectFrom (operation : String) {entries : List Value}
    (hentries : ∀ entry ∈ entries, Confined entry) (done : List Declaration) :
    collectFrom c.settings c.document operation done entries =
      Operation.collectFrom c'.settings c'.document operation done entries := by
  induction entries generalizing done with
  | nil => rfl
  | cons entry rest ih =>
    have ih := ih fun e he => hentries e (List.mem_cons_of_mem _ he)
    unfold Operation.collectFrom
    rw [h.declare operation (hentries entry List.mem_cons_self)]
    simp only [ih]

/-- Confined entries declare by confined mappings. -/
theorem confined_declaration {entry : Value} (hentry : Confined entry) {d : Declaration}
    (hd : declaration? c.document entry = some d) : Confined (.map d.fields) := by
  obtain ⟨target, htarget, hopened⟩ := trace_of_named? (declaration?_eq_some.1 hd).1
  refine (h.confined_trace hentry htarget).within (.of_opened ?_)
  rw [hopened]
  exact .self

theorem mergedParameter {d : Declaration} (hd : Confined (.map d.fields)) :
    mergedParameter c d = Operation.mergedParameter c' d := by
  unfold Operation.mergedParameter
  refine Outcome.bind_congr_ok fun node hnode => ?_
  rw [h.settings, h.agreeOn.merge (hd.parameterSchema hnode)]

theorem addDeclared (operation : String) {ds : List Declaration}
    (hds : ∀ d ∈ ds, Confined (.map d.fields)) (s : Signature) :
    addDeclared c operation s ds = Operation.addDeclared c' operation s ds := by
  induction ds generalizing s with
  | nil => rfl
  | cons d rest ih =>
    have ih := ih fun e he => hds e (List.mem_cons_of_mem _ he)
    unfold Operation.addDeclared
    rw [h.mergedParameter (hds d List.mem_cons_self)]
    simp only [ih]

theorem signature (operation : String) {es : Keyed Value} {pathParameters : Value}
    (hes : Confined (.map es)) (hpath : Confined pathParameters) (body : Value) :
    signature c operation es pathParameters body =
      Operation.signature c' operation es pathParameters body := by
  have hparameters : Confined ((Value.field es "parameters").orElse (.list [])) := by
    have hfield := hes.field "parameters"
    unfold Value.orElse at hfield ⊢
    split
    · next htruthy => rwa [if_pos htruthy] at hfield
    · exact confined_list.2 nofun
  unfold Operation.signature collect
  simp only [bind_assoc]
  refine Outcome.bind_congr_ok fun ofPath hofPath => ?_
  refine Outcome.bind_congr_ok fun ofOperation hofOperation => ?_
  have hentries : ∀ entry ∈ ofPath ++ ofOperation, Confined entry := by
    intro entry hentry
    exact (List.mem_append.1 hentry).elim (hpath.items hofPath entry)
      (hparameters.items hofOperation entry)
  rw [← h.collectFrom operation hentries]
  refine Outcome.bind_congr_ok fun ds hds => ?_
  rw [h.addDeclared operation fun d hd => ?_]
  rcases mem_collectFrom hds d hd with hd | ⟨entry, hentry, hd⟩
  · cases hd
  · exact h.confined_declaration (hentries entry hentry) hd

theorem assemble (name description : Value) (method : String) (path : Scalar) (body : Option Body)
    (s : Signature) : assemble c name description method path body s =
      Operation.assemble c' name description method path body s := by
  unfold Operation.assemble
  rw [h.settings, h.baseUrl]

/-- Compiling a confined operation reads nothing of the document but the components. -/
theorem compile (path : Scalar) (method : String) {operation pathParameters : Value}
    (hoperation : Confined operation) (hpath : Confined pathParameters) :
    compile c path method operation pathParameters =
      Operation.compile c' path method operation pathParameters := by
  unfold Operation.compile
  refine Outcome.bind_congr_ok fun fields hfields => ?_
  have hfields' : Confined (.map fields) := hoperation.within (within_fields hfields)
  simp only [h.requestBody hfields', h.signature _ hfields' hpath, h.assemble]

end SharesComponents

/-- **Operations are isolated from each other.**  Let two documents have the same components, and let all
references that are spelled in the components, in an operation and in the parameters of its path point into
the components; the same for the mappings that schemas of parameters are made into.  Then the operation
compiles alike in both documents: to the same tool or the same fault, and with the same events. -/
theorem compile_isolated (c c' : Compiler) (path : Scalar) (method : String)
    (operation pathParameters : Value) (hsettings : c.settings = c'.settings)
    (hbaseUrl : c.baseUrl = c'.baseUrl)
    (hsame : c.document.get? "components" = c'.document.get? "components")
    (hcomponents : ∀ v, c.document.get? "components" = some v → Confined v)
    (hoperation : Confined operation) (hpath : Confined pathParameters) :
    compile c path method operation pathParameters =
      compile c' path method operation pathParameters := by
  have hshares : SharesComponents c c' := ⟨hsettings, hbaseUrl, hsame, hcomponents⟩
  exact hshares.compile path method hoperation hpath

/-- An operation with one parameter, of the given schema. -/
def askingFor (schema : Value) : Value :=
  .record [("operationId", .text "op"), ("parameters", .list [.record [("name", .text "id"),
    ("in", .text "query"), ("schema", schema)]])]

/-- A parameter whose schema stands in the components, beside another operation and without it. -/
theorem compile_isolated_component :
    compile ⟨.record [("components", .record [("Id", .record [("type", .text "integer")])]),
          ("paths", .record [("/b", .record [("get", .record [("operationId", .text "other")])])])],
        {}, ""⟩ (.text "/a") "get" (askingFor (.record [("$ref", .text "#/components/Id")])) (.list []) =
      compile ⟨.record [("components", .record [("Id", .record [("type", .text "integer")])])], {}, ""⟩
        (.text "/a") "get" (askingFor (.record [("$ref", .text "#/components/Id")])) (.list []) := by
  refine compile_isolated _ _ _ _ _ _ rfl rfl rfl (fun v hv => ?_) ?_ ?_
  · obtain rfl := Option.some.inj hv
    simp only [Value.record, List.map_cons, List.map_nil, confined_map, confined_scalar,
      List.forall_mem_cons, List.not_mem_nil, false_implies, implies_true]
    decide
  · simp only [askingFor, Value.record, List.map_cons, List.map_nil, confined_map, confined_list,
      confined_scalar, List.forall_mem_cons, List.not_mem_nil, false_implies, implies_true]
    decide
  · exact confined_list.2 fun _ hv => (List.not_mem_nil hv).elim

/-- A schema that is a list of pairs is made into a reference to another operation, though no reference is
spelled: what it points at makes a difference. -/
theorem not_compile_isolated :
    (∀ ref ∈ Schema.references (askingFor (.list [.list [.text "$ref", .text "#/paths/~1b/x"]])),
        IntoComponents ref) ∧
      (Value.record [("paths", .record [("/b", .record [("x", .record [])])])]).get? "components" =
        (Value.record []).get? "components" ∧
      compile ⟨.record [("paths", .record [("/b", .record [("x", .record [])])])], {}, ""⟩ (.text "/a")
          "get" (askingFor (.list [.list [.text "$ref", .text "#/paths/~1b/x"]])) (.list []) ≠
        compile ⟨.record [], {}, ""⟩ (.text "/a")
          "get" (askingFor (.list [.list [.text "$ref", .text "#/paths/~1b/x"]])) (.list []) := by
  refine ⟨by decide, rfl, fun h => ?_⟩
  have hasked := congrArg (fun o : Outcome Tool => o.result.toOption.map
    fun tool => tool.arguments.properties.length) h
  revert hasked
  decide

end Operation

end ToolCatalog
