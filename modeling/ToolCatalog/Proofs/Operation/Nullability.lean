import ToolCatalog.Proofs.Operation.BodyProperties
import ToolCatalog.Proofs.Operation.Rearranging
import ToolCatalog.Proofs.Schema.Propertywise
import ToolCatalog.Proofs.Schema.Spelling
import ToolCatalog.Proofs.Schema.Visible

/-!
# Tools of bodies that allow null in either way

A tool depends on the schema of a body property for four things: whether it may be null, the type it
travels as, where it travels, and whether its format is that of a file.  Two ways to say that null is
allowed agree in the first two, and in all four where the property is no file content.  So operations whose
bodies differ in the spelling of such properties have tools that are called in the same way.

* `compile_respelled`: which spellings make no difference to a call.
-/

namespace ToolCatalog

/-! ## Named entries with the same keys -/

namespace Field

/-- Whether a name is new or not, it is written to the same place. -/
theorem names_put {fields fields' : List (String × Value)}
    (h : fields.map (·.1) = fields'.map (·.1)) (name : String) (v w : Value) :
    (put fields name v).map (·.1) = (put fields' name w).map (·.1) := by
  induction fields generalizing fields' with
  | nil =>
    obtain rfl := List.map_eq_nil_iff.1 h.symm
    rfl
  | cons e rest ih =>
    cases fields' with
    | nil => cases h
    | cons e' rest' =>
      obtain ⟨hname, hrest⟩ := List.cons.inj h
      unfold put
      rw [show e'.1 = e.1 from hname.symm]
      split
      · exact congrArg (name :: ·) hrest
      · exact congrArg (e.1 :: ·) (ih hrest)

/-- **Entries with the same keys** are named alike. -/
theorem named_pointwise {R : Scalar → Value → Value → Prop} {es fs : Keyed Value}
    (h : Keyed.Pointwise R es fs) {fields : List (String × Value)} (hfields : named es = .ok fields) :
    ∃ fields', named fs = .ok fields' ∧ fields.map (·.1) = fields'.map (·.1) := by
  have hfold : ∀ {acc acc' : List (String × Value)}, acc.map (·.1) = acc'.map (·.1) →
      es.foldlM write acc = .ok fields →
        ∃ fields', fs.foldlM write acc' = .ok fields' ∧ fields.map (·.1) = fields'.map (·.1) := by
    clear hfields
    induction h with
    | nil =>
      intro acc acc' hacc hok
      obtain rfl := Except.ok.inj hok
      exact ⟨acc', rfl, hacc⟩
    | @cons k v w es fs _ _ ih =>
      intro acc acc' hacc hok
      rw [List.foldlM_cons] at hok
      obtain ⟨next, hnext, hok⟩ := bind_eq_ok.1 hok
      obtain ⟨name, hname, rfl⟩ := write_ok hnext
      obtain ⟨fields', hfields', hsame⟩ := ih (names_put hacc name v w) hok
      refine ⟨fields', ?_, hsame⟩
      rw [List.foldlM_cons]
      exact bind_eq_ok.2 ⟨_, bind_eq_ok.2 ⟨name, hname, rfl⟩, hfields'⟩
  exact hfold rfl hfields

end Field

/-- Two tools are called in the same way: they have the same name and ask for the same arguments, of which
the same are required, and send the same request. -/
structure Tool.CalledAlike (t u : Tool) : Prop where
  name : t.name = u.name
  arguments : t.arguments.properties.map (·.1) = u.arguments.properties.map (·.1)
  required : t.arguments.required = u.arguments.required
  recipe : t.recipe = u.recipe

theorem Tool.CalledAlike.symm {t u : Tool} (h : t.CalledAlike u) : u.CalledAlike t :=
  ⟨h.name.symm, h.arguments.symm, h.required.symm, h.recipe.symm⟩

namespace Operation

/-! ## Schemas that are treated alike -/

/-- **All that a tool shows of the schema of a body property**, beside the schema itself. -/
structure TreatedAlike (v w : Value) : Prop where
  nullable : Schema.isNullable v = Schema.isNullable w
  type : Schema.wireType v = Schema.wireType w
  place : Location.classify v = Location.classify w
  format : v.get? "format" = w.get? "format"

theorem TreatedAlike.refl (v : Value) : TreatedAlike v v := ⟨rfl, rfl, rfl, rfl⟩

/-- A schema that does not travel as a file for its format. -/
def IsNoFile (schema : Value) : Prop :=
  schema.holds "in" = .ok true ∨ Location.isFileSchema schema = .ok false

section

variable {type : String} {xs : Keyed Value}

/-- Either spelling allows null. -/
theorem isNullable_of_spells
    (h : Schema.SpellsNullable type fun keyword v => Keyed.find? xs (.text keyword) = some v) :
    Schema.isNullable (.map xs) = true := by
  rcases h with ⟨-, hflag⟩ | htypes
  · simp only [Schema.isNullable, hflag, Bool.true_or]
  · have hany : [Value.text type, Value.text "null"].any (Value.same (.text "null")) = true :=
      List.any_eq_true.2 ⟨.text "null", by simp, Value.same_scalar_self _⟩
    simp only [Schema.isNullable, htypes, hany, Bool.or_true]

/-- Either spelling travels as the type beside null. -/
theorem wireType_of_spells (hnull : type ≠ "null")
    (h : Schema.SpellsNullable type fun keyword v => Keyed.find? xs (.text keyword) = some v) :
    Schema.wireType (.map xs) = type := by
  rcases h with ⟨htype, -⟩ | htypes
  · simp only [Schema.wireType, htype]
  · have hother : Value.same (.text "null") (.text type) = false := by
      rw [Bool.eq_false_iff]
      simpa [Value.same, Value.opened, Scalar.same_text] using hnull
    simp [Schema.wireType, htypes, hother]

theorem classify_of_isNoFile (hin : Keyed.find? xs (.text "in") = none) (h : IsNoFile (.map xs)) :
    Location.classify (.map xs) = .ok .body := by
  have hfile : Location.isFileSchema (.map xs) = .ok false := by
    refine h.resolve_left fun hholds => ?_
    rw [Value.holds, Keyed.has, hin] at hholds
    cases hholds
  rw [classify_of_no_place hin, ← isFileSchema_map, hfile]
  rfl

end

/-- **Schemas that differ in the spelling** are treated alike if neither is that of file content. -/
theorem treatedAlike_of_differInSpelling {type : String} (hnull : type ≠ "null") {m m' : Schema.Merged}
    (h : Schema.DifferInSpelling type m m') (hm : IsNoFile m.schema) (hm' : IsNoFile m'.schema) :
    TreatedAlike m.schema m'.schema := by
  rcases h with rfl | ⟨-, xs, xs', hxs, hxs', hbeside, hspells, hspells'⟩
  · exact .refl _
  · rw [hxs] at hm ⊢
    rw [hxs'] at hm' ⊢
    have hfind : ∀ {keyword}, Schema.isBesideType (.text keyword) = true →
        Keyed.find? xs (.text keyword) = Keyed.find? xs' (.text keyword) :=
      Schema.find?_of_besideType_eq hbeside
    have hin := hfind (show Schema.isBesideType (.text "in") = true by decide)
    refine ⟨?_, ?_, ?_, hfind (show Schema.isBesideType (.text "format") = true by decide)⟩
    · rw [isNullable_of_spells hspells, isNullable_of_spells hspells']
    · rw [wireType_of_spells hnull hspells, wireType_of_spells hnull hspells']
    · -- Where `in` stands it decides; without it only file content would not travel in the body.
      cases hplace : Keyed.find? xs (.text "in") with
      | none =>
        rw [classify_of_isNoFile hplace hm, classify_of_isNoFile (hin ▸ hplace) hm']
      | some place => rw [classify_of_in hplace, classify_of_in (hin ▸ hplace)]

/-- **Two spellings of one property**: nodes that allow null besides one type and are the same otherwise,
of which both count. -/
def SpelledAlike (counts : Value → Prop) (v w : Value) : Prop :=
  v = w ∨ ∃ type es fs, v.opened = .map es ∧ w.opened = .map fs ∧ type ≠ "null" ∧
    Schema.Respells type es fs ∧ Schema.HasPlainType es ∧ Schema.HasPlainType fs ∧ counts v ∧ counts w

theorem SpelledAlike.symm {counts : Value → Prop} {v w : Value} (h : SpelledAlike counts v w) :
    SpelledAlike counts w v := by
  rcases h with rfl | ⟨type, es, fs, hv, hw, hnull, h, hes, hfs, hcv, hcw⟩
  · exact Or.inl rfl
  · exact Or.inr ⟨type, fs, es, hw, hv, hnull, h.symm, hfs, hes, hcw, hcv⟩

/-- A property that allows null by the flag may allow it by its types instead. -/
theorem spelledAlike_withNullType {counts : Value → Prop} {type : String} {es : Keyed Value}
    (hnull : type ≠ "null") (htype : Schema.Gives es "type" (.text type))
    (hflag : Schema.Gives es "nullable" (.scalar (.bool true))) (hes : counts (.map es))
    (hrespelled : counts (.map (Schema.withNullType type es))) :
    SpelledAlike counts (.map es) (.map (Schema.withNullType type es)) :=
  Or.inr ⟨type, es, _, rfl, rfl, hnull, Schema.respells_withNullType htype hflag,
    Schema.hasPlainType_of_gives htype hflag, Schema.hasPlainType_withNullType type es, hes, hrespelled⟩

/-- A node whose concrete schema does not travel as a file for its format. -/
def MergesToNoFile (settings : Settings) (document v : Value) : Prop :=
  ∀ s, (Schema.merge settings document [] v).result = .ok s → IsNoFile s

/-- Properties that are spelled alike are left out together and merged to schemas that are treated alike. -/
theorem mergesTo_of_spelledAlike {settings : Settings} {document : Value}
    (hvendor : settings.isVendor "type" = settings.isVendor "nullable") (depth : Nat) :
    Schema.MergesTo settings (Schema.unfoldFrom settings document depth)
      (Schema.leadsToDeprecated document) (SpelledAlike (MergesToNoFile settings document))
      TreatedAlike where
  excludes v w h name := by
    rcases h with rfl | ⟨type, es, fs, hv, hw, -, h, -⟩
    · rfl
    · simp only [Settings.excludes, hv, hw, Schema.isDeprecated_of_besideType_eq h.beside]
  goes v w h := by
    rcases h with rfl | ⟨type, es, fs, hv, hw, -, h, -⟩
    · rfl
    · refine Schema.leadsToDeprecated_congr ?_
      have hopened : ∀ {v es}, v.opened = .map es →
          Schema.reference? v = Schema.reference? (.map es) := by
        intro v es hv
        simp only [Schema.reference?, hv, Value.opened]
      rw [hopened hv, hopened hw, Schema.reference?_of_besideType_eq h.beside]
  merge v w h := by
    rcases h with rfl | ⟨type, es, fs, hv, hw, hnull, h, hes, hfs, hcv, hcw⟩
    · exact fun m hm => ⟨m, hm, .refl _⟩
    · -- One step of the merger is the node unfolded once more, so it is what the node is merged to.
      have hmerged : ∀ {v m}, MergesToNoFile settings document v →
          (Schema.mergeAs settings (Schema.unfoldFrom settings document depth)
            (Schema.leadsToDeprecated document) .schema v).result = .ok m → IsNoFile m.schema :=
        fun {v m} hv hm => hv _ (Schema.merge_of_unfold
          (show (Schema.unfold settings document depth v).result = .ok m from hm))
      intro m hm
      rw [Schema.mergeAs_opened _ _ _ (by decide) v, hv] at hm
      obtain ⟨m', hm', hdiffer⟩ := Schema.mergeAs_respelled hvendor h hes hfs m hm
      rw [← hv, ← Schema.mergeAs_opened _ _ _ (by decide) v] at hm
      rw [← hw, ← Schema.mergeAs_opened _ _ _ (by decide) w] at hm'
      exact ⟨m', hm', treatedAlike_of_differInSpelling hnull hdiffer (hmerged hcv hm) (hmerged hcw hm')⟩

/-! ## Signatures that are treated alike -/

/-- Signatures with the same names in the same places, of which the same are required, and with schemas
that are treated alike. -/
structure SignatureAlike (s r : Signature) : Prop where
  properties : Keyed.Pointwise (fun _ => TreatedAlike) s.properties r.properties
  locations : s.locations = r.locations
  required : s.required = r.required

theorem SignatureAlike.refl (s : Signature) : SignatureAlike s s :=
  ⟨.refl (fun _ => .refl) _, rfl, rfl⟩

/-- Properties that are treated alike are added in the same way. -/
theorem addProperties_alike {ps qs : Keyed Value} (h : Keyed.Pointwise (fun _ => TreatedAlike) ps qs)
    {s r : Signature} (hs : SignatureAlike s r) :
    Outcome.Refines SignatureAlike (liftM (addProperties s ps) : Outcome Signature)
      (liftM (addProperties r qs)) := by
  induction h generalizing s r with
  | nil => exact .pure hs
  | @cons name v w ps qs hvw _ ih =>
    intro t ht
    rw [Outcome.result_liftM, addProperties] at ht
    obtain ⟨l, hl, ht⟩ := bind_eq_ok.1 ht
    have hadd : SignatureAlike (s.add name v l) (r.add name w l) :=
      ⟨hs.properties.put fun _ _ => hvw, by rw [Signature.add, Signature.add, hs.locations], hs.required⟩
    obtain ⟨t', ht', hsame⟩ := ih hadd t ht
    exact ⟨t', bind_eq_ok.2 ⟨l, hvw.place ▸ hl, ht'⟩, hsame⟩

theorem propertiesOfBody_alike {es fs : Keyed Value} (h : Schema.Propertywise TreatedAlike es fs) :
    Outcome.Refines (Keyed.Pointwise fun _ => TreatedAlike)
      (liftM (propertiesOfBody es) : Outcome (Keyed Value)) (liftM (propertiesOfBody fs)) := by
  rcases h.find?_properties with heq | ⟨ps, qs, hps, hqs, hsame⟩
  · have hbody : propertiesOfBody es = propertiesOfBody fs := by
      rw [propertiesOfBody, propertiesOfBody, Value.field, Value.field]
      exact congrArg (fun o : Option Value => ((o.getD .null).orElse (.map [])).fields) heq
    rw [hbody]
    exact fun ps hps => ⟨ps, hps, .refl (fun _ => .refl) ps⟩
  · have hbody : ∀ {es ps : Keyed Value}, Keyed.find? es Schema.propertiesKey = some (.map ps) →
        propertiesOfBody es = .ok ps := by
      intro es ps h
      have hfield : Value.field es "properties" = .map ps := congrArg (·.getD .null) h
      rw [propertiesOfBody, hfield]
      cases ps <;> rfl
    rw [hbody hps, hbody hqs]
    exact .pure hsame

/-- Bodies with properties that are treated alike add to a signature in the same way. -/
theorem addBody_alike {body body' : Value} (h : Schema.ValuesAlike TreatedAlike body body')
    (operation : String) (s : Signature) :
    (addBody operation s body).Refines SignatureAlike (addBody operation s body') := by
  rcases h with rfl | ⟨es, fs, rfl, rfl, h⟩
  · exact fun r hr => ⟨r, hr, .refl r⟩
  · have hrequired : Value.field es "required" = Value.field fs "required" :=
      congrArg (·.getD .null) (h.find?_eq (by decide))
    unfold addBody
    simp only [hrequired]
    refine (propertiesOfBody_alike h).bind fun ps qs _ hps => ?_
    refine (addProperties_alike hps (.refl s)).bind fun r r' _ hr => ?_
    refine (Outcome.Refines.refl _).bind ?_
    rintro names _ - rfl
    exact .pure ⟨hr.properties, hr.locations, congrArg (Value.union · names) hr.required⟩

/-- **The signatures of operations** with such bodies and the same declared parameters. -/
theorem signature_alike {c : Compiler} {fields fields' : Keyed Value} {body body' : Value}
    (hfields : Value.field fields "parameters" = Value.field fields' "parameters")
    (h : Schema.ValuesAlike TreatedAlike body body') (operation : String) (pathParameters : Value) :
    (signature c operation fields pathParameters body).Refines SignatureAlike
      (signature c operation fields' pathParameters body') := by
  unfold signature
  rw [hfields]
  refine (Outcome.Refines.refl _).bind ?_
  rintro ds _ - rfl
  refine (Outcome.Refines.refl _).bind ?_
  rintro declared _ - rfl
  exact addBody_alike h operation declared

/-! ## Tools of signatures that are treated alike -/

/-- Both bodies or neither have the properties of an upload. -/
theorem isUpload_alike {body body' : Value} (h : Schema.ValuesAlike TreatedAlike body body')
    (settings : Settings) (locations : Keyed Location) :
    Upload.isUpload settings locations body = Upload.isUpload settings locations body' := by
  rcases h with rfl | ⟨es, fs, rfl, rfl, h⟩
  · rfl
  · have hget : ∀ es : Keyed Value, (Value.map es).get? "properties" = Keyed.find? es Schema.propertiesKey :=
      fun _ => rfl
    unfold Upload.isUpload
    rcases h.find?_properties with heq | ⟨ps, qs, hps, hqs, hsame⟩
    · rw [hget, hget, heq]
    · rw [hget, hget, hps, hqs]
      simp only [hsame.has]
      refine congrArg (_ || ·) (congrArg (_ || ·) (hsame.any_eq ?_))
      intro k v w hvw
      simp only [hvw.format]

/-- Parameters as they are presented, with schemas that are treated alike and the same otherwise. -/
structure PresentedAlike (u u' : Upload.Simplified) : Prop where
  properties : Keyed.Pointwise (fun _ => TreatedAlike) u.properties u'.properties
  locations : u.locations = u'.locations
  required : u.required = u'.required
  derived : u.derived = u'.derived
  uiOnly : u.uiOnly = u'.uiOnly

theorem simplify_alike {s r : Signature} (h : SignatureAlike s r) (settings : Settings) :
    PresentedAlike (Upload.simplify settings s.properties s.locations s.required)
      (Upload.simplify settings r.properties r.locations r.required) := by
  unfold Upload.simplify
  simp only [h.properties.has, h.locations, h.required]
  split
  · exact ⟨h.properties, rfl, rfl, rfl, rfl⟩
  · refine ⟨?_, rfl, rfl, rfl, rfl⟩
    exact (h.properties.filter fun k =>
      !(Upload.hidden settings r.properties).any fun n => (Scalar.text n).same k).put fun _ _ => .refl _

theorem presented_alike {c : Compiler} {s r : Signature} (h : SignatureAlike s r)
    {body body' : Value} (hbody : Schema.ValuesAlike TreatedAlike body body') (encoding : String) :
    PresentedAlike (presented c (some ⟨body, encoding⟩) s) (presented c (some ⟨body', encoding⟩) r) := by
  unfold presented
  rw [show ((some (Body.mk body encoding)).map (·.schema)).getD .null = body from rfl,
    show ((some (Body.mk body' encoding)).map (·.schema)).getD .null = body' from rfl,
    isUpload_alike hbody, h.locations]
  split
  · exact h.locations ▸ simplify_alike h c.settings
  · exact ⟨h.properties, rfl, h.required, rfl, rfl⟩

/-- **Signatures that are treated alike** have tools that are called alike. -/
theorem assemble_alike {c : Compiler} {s r : Signature} (h : SignatureAlike s r)
    {body body' : Value} (hbody : Schema.ValuesAlike TreatedAlike body body')
    {name description : Value} {method encoding : String} {path : Scalar} {tool : Tool}
    (htool : assemble c name description method path (some ⟨body, encoding⟩) s = .ok tool) :
    ∃ tool', assemble c name description method path (some ⟨body', encoding⟩) r = .ok tool' ∧
      tool.CalledAlike tool' := by
  obtain ⟨required, texts, place, hkept, htexts, hplace, hname, hdescription, hproperties,
    hparameters, heq⟩ := assemble_inv htool
  have hpresented := presented_alike (c := c) h hbody encoding
  obtain ⟨properties', hproperties', hasked⟩ :=
    Field.named_pointwise (hpresented.properties.filter fun k => !c.settings.isRemoved k) hproperties
  have hsent : sent c.settings (presented c (some ⟨body, encoding⟩) s) =
      sent c.settings (presented c (some ⟨body', encoding⟩) r) := by
    rw [sent, sent, hpresented.locations, hpresented.uiOnly]
  -- Of a schema that is sent only the wire type is left.
  have hwire : ∀ k l, wireParameter s.properties (presented c (some ⟨body, encoding⟩) s).derived k l =
      wireParameter r.properties (presented c (some ⟨body', encoding⟩) r).derived k l := by
    intro k l
    have htype : Schema.wireType ((Keyed.find? s.properties k).getD .null) =
        Schema.wireType ((Keyed.find? r.properties k).getD .null) := by
      rcases h.properties.find? k with ⟨hs, hr⟩ | ⟨-, v, w, -, hv, hw, hvw⟩
      · rw [hs, hr]
      · rw [hv, hw]
        exact hvw.type
    rw [wireParameter, wireParameter, htype, hpresented.derived]
  rw [hpresented.required] at hkept
  simp only [hsent, hwire] at hparameters
  refine ⟨_, assemble_of_steps hkept hparameters hproperties' htexts hplace hname hdescription, ?_⟩
  rw [heq]
  exact ⟨rfl, hasked, rfl, rfl⟩

/-! ## Operations whose bodies are spelled alike -/

/-- The node that declares the schema of a body, and the encoding of the body, if there is one that is
supported. -/
def bodyNode (document : Value) (operation : Keyed Value) : Except Fault (Option (Value × String)) := do
  let declared := Value.field operation "requestBody"
  if !declared.truthy then return none
  else
    let body ← (← Schema.trace document declared).fields
    match ← pickMedia ((Value.field body "content").orElse (.map [])) mediaTypes with
    | some (media, encoding) =>
      let fields ← (media.orElse (.map [])).fields
      return some ((Value.field fields "schema").orElse (.map []), encoding)
    | none => return none

/-- **The schema of a body** is what its node is merged to. -/
theorem requestBody_of_bodyNode {settings : Settings} {document node : Value} {operation : Keyed Value}
    {encoding : String} (h : bodyNode document operation = .ok (some (node, encoding))) :
    (requestBody settings document operation).result =
      (Schema.merge settings document [] node).result.map fun s => some ⟨s, encoding⟩ := by
  unfold bodyNode at h
  simp only at h
  split at h
  · cases Except.ok.inj h
  · next htruthy =>
    obtain ⟨target, htarget, h⟩ := bind_eq_ok.1 h
    obtain ⟨body, hbody, h⟩ := bind_eq_ok.1 h
    obtain ⟨picked, hpicked, h⟩ := bind_eq_ok.1 h
    unfold requestBody
    simp only [if_neg htruthy, Outcome.result_bind, Outcome.result_liftM, htarget, hbody, hpicked,
      Except.bind]
    split at h
    · next media encoding' =>
      obtain ⟨entries, hentries, h⟩ := bind_eq_ok.1 h
      obtain ⟨rfl, rfl⟩ := Prod.mk.inj (Option.some.inj (Except.ok.inj h))
      simp only [Outcome.result_bind, Outcome.result_liftM, hentries, Except.bind]
      cases (Schema.merge settings document []
        ((Value.field entries "schema").orElse (.map []))).result <;> rfl
    · cases Except.ok.inj h

/-- One direction: whatever tool the one operation has, the other has one that is called alike. -/
theorem compile_of_differ {c : Compiler} {fields fields' : Keyed Value} {node node' : Value}
    {encoding : String}
    (hvendor : c.settings.isVendor "type" = c.settings.isVendor "nullable")
    (hfields : ∀ name, name ≠ "requestBody" → Value.field fields name = Value.field fields' name)
    (hnode : bodyNode c.document fields = .ok (some (node, encoding)))
    (hnode' : bodyNode c.document fields' = .ok (some (node', encoding)))
    (hdiffer : Schema.Differ (SpelledAlike (MergesToNoFile c.settings c.document)) c.document node node')
    {path : Scalar} {method : String} {pathParameters : Value} {tool : Tool}
    (h : (compile c path method (.map fields) pathParameters).result = .ok tool) :
    ∃ tool', (compile c path method (.map fields') pathParameters).result = .ok tool' ∧
      tool.CalledAlike tool' := by
  obtain ⟨es, name, body, s, hes, hname, hbody, hs, hassemble⟩ := compile_inv h
  obtain rfl := Except.ok.inj hes
  rw [requestBody_of_bodyNode hnode] at hbody
  cases hschema : (Schema.merge c.settings c.document [] node).result with
  | error f =>
    rw [hschema] at hbody
    cases hbody
  | ok schema =>
    rw [hschema] at hbody
    obtain rfl := Except.ok.inj hbody
    obtain ⟨schema', hschema', hbodies⟩ := Schema.merge_propertywise .refl (fun _ _ h => h.nullable)
      (mergesTo_of_spelledAlike hvendor) hdiffer hschema
    obtain ⟨s', hs', hsignatures⟩ :=
      signature_alike (hfields "parameters" (by decide)) hbodies name pathParameters s hs
    obtain ⟨tool', htool', halike⟩ := assemble_alike hsignatures hbodies hassemble
    refine ⟨tool', ?_, halike⟩
    have hname' : identifier? fields' = some name := by
      unfold identifier?
      rw [← hfields "operationId" (by decide)]
      exact hname
    have hdescription : description fields' = description fields := by
      unfold description
      rw [hfields "summary" (by decide), hfields "description" (by decide)]
    rw [result_compile, hname', requestBody_of_bodyNode hnode', hschema', hdescription]
    exact bind_eq_ok.2 ⟨_, rfl, bind_eq_ok.2 ⟨s', hs', htool'⟩⟩

/-- **Which spellings make no difference to a call.**  If the keywords `type` and `nullable` are both
vendor extensions or neither is, operations whose bodies differ in how some properties allow null, none of
them file content, compile both or neither, to tools that are called alike. -/
theorem compile_respelled (c : Compiler) (path : Scalar) (method encoding : String)
    (fields fields' : Keyed Value) (pathParameters node node' : Value)
    (hvendor : c.settings.isVendor "type" = c.settings.isVendor "nullable")
    (hfields : ∀ name, name ≠ "requestBody" → Value.field fields name = Value.field fields' name)
    (hnode : bodyNode c.document fields = .ok (some (node, encoding)))
    (hnode' : bodyNode c.document fields' = .ok (some (node', encoding)))
    (hdiffer : Schema.Differ (SpelledAlike (MergesToNoFile c.settings c.document)) c.document
      node node') :
    (∀ tool, (compile c path method (.map fields) pathParameters).result = .ok tool →
      ∃ tool', (compile c path method (.map fields') pathParameters).result = .ok tool' ∧
        tool.CalledAlike tool') ∧
    ∀ tool', (compile c path method (.map fields') pathParameters).result = .ok tool' →
      ∃ tool, (compile c path method (.map fields) pathParameters).result = .ok tool ∧
        tool.CalledAlike tool' := by
  constructor
  · exact fun _ => compile_of_differ hvendor hfields hnode hnode' hdiffer
  · intro tool' htool'
    obtain ⟨tool, htool, halike⟩ := compile_of_differ hvendor
      (fun name hname => (hfields name hname).symm) hnode' hnode (hdiffer.symm fun _ _ => .symm) htool'
    exact ⟨tool, htool, halike.symm⟩

/-- The schema of a body that requires its one property. -/
def requiringNode (property : Value) : Value :=
  .record [("required", .list [.text "a"]), ("properties", .record [("a", property)])]

/-- The fields of an operation with that body. -/
def requiringFields (property : Value) : Keyed Value :=
  [(.text "operationId", .text "op"), (.text "requestBody", .record [("content", .record
    [("application/json", .record [("schema", requiringNode property)])])])]

/-- A text that may be null, by the flag. -/
def flaggedText : Keyed Value := [(.text "type", .text "string"), (.text "nullable", .bool true)]

theorem field_requiringFields (property property' : Value) {name : String} (h : name ≠ "requestBody") :
    Value.field (requiringFields property) name = Value.field (requiringFields property') name := by
  have hname : (Scalar.text name).same (.text "requestBody") = false := by
    rw [Bool.eq_false_iff, Ne, Scalar.same_text]
    simpa using h.symm
  simp [Value.field, requiringFields, hname]

theorem differ_requiringNode {counts : Value → Prop} (document : Value)
    (hflagged : counts (.map flaggedText))
    (hrespelled : counts (.map (Schema.withNullType "string" flaggedText))) :
    Schema.Differ (SpelledAlike counts) document (requiringNode (.map flaggedText))
      (requiringNode (.map (Schema.withNullType "string" flaggedText))) := by
  have hgives : Schema.Gives flaggedText "type" (.text "string") ∧
      Schema.Gives flaggedText "nullable" (.bool true) := by
    constructor <;> constructor <;> simp [flaggedText]
  refine .here rfl rfl (.cons _ (Or.inl rfl) (.cons _ (Or.inr ⟨rfl, _, _, rfl, rfl, ?_⟩) .nil))
  exact .cons _ (spelledAlike_withNullType (by decide) hgives.1 hgives.2 hflagged hrespelled) .nil

/-- A text that may be null is asked for in the same way in either spelling. -/
theorem compile_respelled_text : ∃ tool tool',
    (compile ⟨.map [], {}, ""⟩ (.text "/a") "post" (.map (requiringFields (.map flaggedText)))
      (.list [])).result = .ok tool ∧
    (compile ⟨.map [], {}, ""⟩ (.text "/a") "post"
      (.map (requiringFields (.map (Schema.withNullType "string" flaggedText)))) (.list [])).result =
        .ok tool' ∧ tool.CalledAlike tool' := by
  have hcounts : ∀ {v s}, (Schema.merge {} (.map []) [] v).result = .ok s → IsNoFile s →
      MergesToNoFile {} (.map []) v := by
    intro v s hv hs s' hs'
    rw [hv] at hs'
    exact Except.ok.inj hs' ▸ hs
  obtain ⟨hthere, -⟩ := compile_respelled ⟨.map [], {}, ""⟩ (.text "/a") "post" "json"
    (requiringFields (.map flaggedText)) _ (.list []) (requiringNode (.map flaggedText)) _ (by decide)
    (fun _ => field_requiringFields _ _) (by rfl) (by rfl)
    (differ_requiringNode (.map []) (hcounts (s := .map flaggedText) (by rfl) (Or.inr (by rfl)))
      (hcounts (s := .map (Schema.withNullType "string" flaggedText)) (by rfl) (Or.inr (by rfl))))
  obtain ⟨tool', htool', halike⟩ := hthere _ (by rfl)
  exact ⟨_, tool', by rfl, htool', halike⟩

/-- But where the flag is a vendor extension and the types are not, one spelling is not read. -/
theorem not_compile_respelled :
    ¬ ∀ (c : Compiler) (path : Scalar) (method encoding : String) (fields fields' : Keyed Value)
      (pathParameters node node' : Value),
      (∀ name, name ≠ "requestBody" → Value.field fields name = Value.field fields' name) →
      bodyNode c.document fields = .ok (some (node, encoding)) →
      bodyNode c.document fields' = .ok (some (node', encoding)) →
      Schema.Differ (SpelledAlike fun _ => True) c.document node node' →
      ∀ tool tool', (compile c path method (.map fields) pathParameters).result = .ok tool →
        (compile c path method (.map fields') pathParameters).result = .ok tool' →
        tool.arguments.required = tool'.arguments.required ∧
          tool.recipe.parameters = tool'.recipe.parameters := by
  intro h
  obtain ⟨hrequired, -⟩ := h ⟨.map [], { vendorMark := "null" }, ""⟩ (.text "/a") "post" "json"
    (requiringFields (.map flaggedText)) _ (.list []) (requiringNode (.map flaggedText)) _
    (fun _ => field_requiringFields _ _) (by rfl) (by rfl)
    (differ_requiringNode (.map []) trivial trivial) _ _ (by rfl) (by rfl)
  cases hrequired

end Operation

end ToolCatalog
