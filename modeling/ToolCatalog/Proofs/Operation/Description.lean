import ToolCatalog.Proofs.Operation.Provenance
import ToolCatalog.Proofs.Schema.Giving

/-!
# The description of a parameter

A declared parameter may have a description beside its schema.  It is written among the keywords of the schema
before these are merged.  There it wins over the description of the target of a reference, which it is written
over, and over those of the parts, which come after it.

* `compile_describes`: a tool asks for a parameter with the description that its declaration has.
-/

namespace ToolCatalog.Operation

open Schema

/-- A declaration says nothing of the schema of its parameter, or gives a mapping that is not itself
deprecated. -/
def Declaration.IsCurrent (d : Declaration) : Prop :=
  Value.field d.fields "schema" = .null ∨
    ∃ es, (Value.field d.fields "schema").opened = .map es ∧ Settings.isDeprecated es = false

/-- The keywords that the schema of a parameter has. -/
theorem toEntries_of_isCurrent {d : Declaration} (h : d.IsCurrent)
    (hwell : (Value.map d.fields).WellFormed) :
    ∃ es, ((Value.field d.fields "schema").orElse (.map [])).toEntries = .ok es ∧
      Settings.isDeprecated es = false ∧ Keyed.Distinct es := by
  rcases h with hnull | ⟨es, hes, hcurrent⟩
  · rw [hnull]
    exact ⟨[], rfl, rfl, List.Pairwise.nil⟩
  · unfold Value.orElse
    split
    · have hdistinct : Keyed.Distinct es := by
        refine keysEverywhere_field hwell "schema" es (.of_opened ?_)
        rw [hes]
        exact .self
      exact ⟨es, by rw [Value.toEntries, hes], hcurrent, hdistinct⟩
    · exact ⟨[], rfl, rfl, List.Pairwise.nil⟩

/-- **The raw schema of a parameter with a description** gives that description. -/
theorem parameterSchema_gives {d : Declaration} {description : Value} (h : d.IsCurrent)
    (hwell : (Value.map d.fields).WellFormed)
    (hdescription : Keyed.find? d.fields (.text "description") = some description) :
    ∃ es, parameterSchema d = .ok (.map es) ∧ Settings.isDeprecated es = false ∧
      Gives es "description" description := by
  obtain ⟨es, hes, hcurrent, hdistinct⟩ := toEntries_of_isCurrent h hwell
  refine ⟨Keyed.put es (.text "description") description, ?_, ?_, ?_⟩
  · refine bind_eq_ok.2 ⟨es, hes, ?_⟩
    simp only [hdescription]
    rfl
  · rw [← hcurrent, Settings.isDeprecated, Settings.isDeprecated, Keyed.find?_put,
      if_neg (by decide)]
  · refine gives_of_mem (Keyed.distinct_put hdistinct _ _) (Keyed.mem_of_find?_text ?_)
    rw [Keyed.find?_put, if_pos (Scalar.same_refl _)]

/-- **The concrete schema of a parameter** has the description of the parameter. -/
theorem mergedParameter_describes {c : Compiler} {d : Declaration} {xs : Keyed Value}
    {description : String} (hvendor : c.settings.isVendor "description" = false) (h : d.IsCurrent)
    (hwell : (Value.map d.fields).WellFormed)
    (hdescription : Keyed.find? d.fields (.text "description") = some (.text description))
    (hxs : (mergedParameter c d).result = .ok (.map xs)) :
    Keyed.find? xs (.text "description") = some (.text description) := by
  obtain ⟨es, hes, hcurrent, hgives⟩ := parameterSchema_gives h hwell hdescription
  obtain ⟨node, hnode, hmerge⟩ := Outcome.result_bind_ok.1 hxs
  obtain rfl := Except.ok.inj (hes.symm.trans hnode)
  obtain ⟨m, hm, hschema⟩ := Outcome.result_bind_ok.1 hmerge
  obtain ⟨n, hn, hfound⟩ := hgives.find?_mergeAs ⟨by decide, hvendor⟩ hcurrent hm
    (Except.ok.inj hschema)
  rw [show roleOf "description" = .schema from rfl, mergeAs_scalar] at hn
  rwa [← Except.ok.inj hn] at hfound

theorem merged_of_ofDeclaration {c : Compiler} {d : Declaration} {k : Scalar} {schema : Value}
    {location : Location} (h : ofDeclaration c d = some (k, schema, location)) :
    (mergedParameter c d).result = .ok schema := by
  unfold ofDeclaration at h
  split at h
  · next hschema _ =>
    obtain ⟨-, heq⟩ := Prod.mk.inj (Option.some.inj h)
    obtain ⟨rfl, -⟩ := Prod.mk.inj heq
    exact hschema
  · cases h

/-- The fields of a declared parameter stand in the document or in what declares it. -/
theorem wellFormed_of_declarationsOf {c : Compiler} {operation pathParameters : Value}
    {ds : List Declaration} (hdocument : c.document.WellFormed) (hoperation : operation.WellFormed)
    (hparameters : pathParameters.WellFormed)
    (h : declarationsOf c operation pathParameters = .ok ds) :
    ∀ d ∈ ds, (Value.map d.fields).WellFormed := by
  intro d hd
  obtain ⟨fields, hfields, h⟩ := bind_eq_ok.1 h
  obtain ⟨ofPath, hofPath, h⟩ := Outcome.result_bind_ok.1 h
  obtain ⟨ofOperation, hofOperation, h⟩ := Outcome.result_bind_ok.1 h
  have hdeclared : ((Value.field fields "parameters").orElse (.list [])).WellFormed := by
    unfold Value.orElse
    split
    · exact keysEverywhere_field (keysEverywhere_fields hoperation hfields) _
    · exact Value.keysEverywhere_list.2 (by simp)
  have hitems : ∀ {v entry : Value} {vs : List Value}, v.WellFormed → v.items = .ok vs → entry ∈ vs →
      entry.WellFormed := by
    intro v entry vs hv hvs hentry
    rcases within_items hvs hentry with hwithin | ⟨s, rfl⟩
    · exact hv.within hwithin
    · exact Value.keysEverywhere_scalar s
  rcases declare_of_mem_collectFrom h d hd with hd | ⟨entry, hentry, hdeclare⟩
  · cases hd
  · have hentryWell : entry.WellFormed :=
      (List.mem_append.1 hentry).elim (hitems hparameters hofPath) (hitems hdeclared hofOperation)
    obtain ⟨target, htarget, hopened⟩ :=
      trace_of_named? (declaration?_eq_some.1 (declare_eq_some hdeclare)).1
    have htargetWell : target.WellFormed := by
      rcases trace_ok htarget with rfl | hwithin
      · exact hentryWell
      · exact hdocument.within hwithin
    refine htargetWell.within (.of_opened ?_)
    rw [hopened]
    exact .self

/-- **The description of a parameter** that survives is that of its argument, if its concrete schema is a mapping
and no upload rebuilds it: whatever its raw schema refers to and is composed of. -/
theorem compile_describes (c : Compiler) (path : Scalar) (method : String)
    (operation pathParameters : Value) (tool : Tool)
    (hvendor : c.settings.isVendor "description" = false) (hdocument : c.document.WellFormed)
    (hoperation : operation.WellFormed) (hparameters : pathParameters.WellFormed)
    (h : (compile c path method operation pathParameters).result = .ok tool) :
    ∃ body ds, bodyOf c operation = .ok body ∧ declarationsOf c operation pathParameters = .ok ds ∧
      ∀ d xs location description, Survives c ds body d (.map xs) location →
        Keyed.find? d.fields (.text "description") = some (.text description) → d.IsCurrent →
        (hidesParameters c.settings (namedParameters c ds body) body = true →
          d.name ∉ c.settings.fileParameterNames) →
        tool.arguments.properties.lookup d.name = some (.map xs) ∧
          Keyed.find? xs (.text "description") = some (.text description) := by
  obtain ⟨b, ds, earlier, name, toolDescription, s, hbody, hds, hs, -, -, -, hassemble⟩ :=
    compile_required_inv h
  refine ⟨_, ds, hbody, hds, fun d xs location description hsurvives hdescription hcurrent hfile => ?_⟩
  have hshown : ¬ Withholds c.settings (namedParameters c ds ((b.map (·.schema)).getD .null))
      ((b.map (·.schema)).getD .null) d.name := by
    rintro (hremoved | ⟨hhides, hmem⟩)
    · have hkept := not_removed_of_declarationsOf hds d hsurvives.mem
      rw [c.settings.isRemoved_text] at hkept
      simp [hremoved] at hkept
    · exact hfile hhides hmem
  have hwell := wellFormed_of_declarationsOf hdocument hoperation hparameters hds d hsurvives.mem
  exact ⟨hsurvives.lookup_asked hs hshown (assemble_ok hassemble).1,
    mergedParameter_describes hvendor hcurrent hwell hdescription (merged_of_ofDeclaration hsurvives.named)⟩

/-- A limit, which is a size, which is composed of a part; and a schema that is deprecated.  All but the last
have descriptions. -/
def limitDocument : Value :=
  .record [("Limit", .record [("$ref", .text "#/Size"), ("description", .text "A limit.")]),
    ("Size", .record [("description", .text "A size."), ("allOf", .list [
      .record [("description", .text "A part."), ("type", .text "integer")]])]),
    ("Old", .record [("deprecated", .bool true)])]

/-- A parameter that refers to a limit and is composed of parts besides. -/
def limitParameter : Declaration where
  name := "limit"
  place := "query"
  fields := [(.text "name", .text "limit"), (.text "in", .text "query"),
    (.text "description", .text "How many."),
    (.text "schema", .record [("$ref", .text "#/Limit"), ("description", .text "Its own."),
      ("allOf", .list [.record [("$ref", .text "#/Old")],
        .record [("description", .text "Beside."), ("minimum", .int 1)]])])]

/-- What the schema of the parameter comes to. -/
def mergedLimit : Keyed Value :=
  [(.text "description", .text "How many."), (.text "type", .text "integer"), (.text "minimum", .int 1)]

/-- An operation with the parameter. -/
def limitOperation : Value :=
  .record [("operationId", .text "op"), ("parameters", .list [.map limitParameter.fields])]

def limitTool : Tool where
  name := "op"
  arguments := { properties := [("limit", .map mergedLimit)], required := none }
  recipe :=
    { method := "GET", url := "/a"
      parameters := [{ name := "limit", location := .query, type := "integer" }] }

/-- The description of the parameter wins over the five others. -/
theorem compile_describes_limit :
    limitTool.arguments.properties.lookup "limit" = some (.map mergedLimit) ∧
      Keyed.find? mergedLimit (.text "description") = some (.text "How many.") := by
  have hdocument : limitDocument.WellFormed := by
    simp [limitDocument, Value.WellFormed, Value.keysEverywhere_record, Value.keysEverywhere_list,
      Value.keysEverywhere_scalar, Scalar.same]
  have hoperation : limitOperation.WellFormed := by
    simp [limitOperation, limitParameter, Value.WellFormed, Value.record, Value.keysEverywhere_map,
      Value.keysEverywhere_list, Value.keysEverywhere_scalar, Scalar.same, or_imp, forall_and]
  obtain ⟨body, ds, hbody, hds, h⟩ := compile_describes ⟨limitDocument, {}, ""⟩ (.text "/a") "get"
    limitOperation (.list []) limitTool (by decide) hdocument hoperation
    (Value.keysEverywhere_list.2 (by simp)) (by rfl)
  obtain rfl : body = .null := (Except.ok.inj hbody).symm
  obtain rfl : ds = [limitParameter] := (Except.ok.inj hds).symm
  exact h limitParameter mergedLimit .query "How many."
    ⟨by rfl, ⟨[], [], rfl, by simp⟩, by simp [bodyProperties]⟩ rfl (.inr ⟨_, rfl, by decide⟩)
    fun _ => by decide

end ToolCatalog.Operation
