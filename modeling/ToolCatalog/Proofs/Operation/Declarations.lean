import ToolCatalog.Proofs.Operation.Assembly
import ToolCatalog.Proofs.Schema.Failure

/-!
# What the entries of a list of parameters declare

An entry of a list of parameters is a mapping with a name, or a reference that leads to one; any other
entry declares nothing, and neither does one that is excluded.  What is declared is collected by name
and place.  The parameters of an operation are one of its fields: `withParameters` writes that field, and
operations that agree beside it differ in nothing but what is collected.
-/

namespace ToolCatalog

namespace Operation

/-! ## Entries -/

/-- The mapping with a name that an entry is or leads to, if there is one. -/
def named? (document entry : Value) : Option (String × Keyed Value) :=
  match (Schema.trace document entry).map Value.opened with
  | .ok (.map fields) =>
    match Value.field fields "name" with
    | .text name => some (name, fields)
    | _ => none
  | _ => none

/-- The mapping is at the end of the chain of references that starts at the entry. -/
theorem trace_of_named? {document entry : Value} {name : String} {fields : Keyed Value}
    (h : named? document entry = some (name, fields)) :
    ∃ target, Schema.trace document entry = .ok target ∧ target.opened = .map fields := by
  unfold named? at h
  split at h
  · next es htrace =>
    split at h
    · obtain ⟨-, rfl⟩ := Prod.mk.inj (Option.some.inj h)
      cases htarget : Schema.trace document entry with
      | error f =>
        rw [htarget] at htrace
        cases htrace
      | ok target =>
        rw [htarget] at htrace
        exact ⟨target, rfl, Except.ok.inj htrace⟩
    · cases h
  · cases h

/-- What an entry declares if it is not excluded: there is nothing to declare without a name, and without
a text for the place. -/
def declaration? (document entry : Value) : Option Declaration :=
  match named? document entry with
  | some (name, fields) =>
    match (Value.field fields "in").show? with
    | .ok place => some { name, place, fields }
    | .error _ => none
  | none => none

theorem declaration?_eq_some {document entry : Value} {d : Declaration} :
    declaration? document entry = some d ↔
      named? document entry = some (d.name, d.fields) ∧
        (Value.field d.fields "in").show? = .ok d.place := by
  unfold declaration?
  cases hnamed : named? document entry with
  | none => simp
  | some e =>
    obtain ⟨name, fields⟩ := e
    obtain ⟨name', place, fields'⟩ := d
    simp only [Option.some.injEq, Prod.mk.injEq]
    cases hplace : (Value.field fields "in").show? with
    | error f =>
      simp only [reduceCtorEq, false_iff, not_and, and_imp]
      rintro - rfl
      simp [hplace]
    | ok place' =>
      simp only [Option.some.injEq, Declaration.mk.injEq]
      constructor
      · rintro ⟨rfl, rfl, rfl⟩
        exact ⟨⟨rfl, rfl⟩, hplace⟩
      · rintro ⟨⟨rfl, rfl⟩, h⟩
        rw [hplace] at h
        exact ⟨rfl, Except.ok.inj h, rfl⟩

/-- **What becomes of an entry**: without a name it is left out, and so it is if it is excluded; else it
is declared for its place, which needs a text. -/
theorem result_declare (settings : Settings) (document : Value) (operation : String) (entry : Value) :
    (declare settings document operation entry).result =
      match named? document entry with
      | none => .ok none
      | some (name, fields) =>
        if settings.excludes (.text name) (.map fields) then .ok none
        else (Value.field fields "in").show?.map fun place => some { name, place, fields } := by
  unfold declare named?
  cases htrace : Schema.trace document entry with
  | error f =>
    simp only [Except.map, Schema.isOwn_of_trace htrace]
    rfl
  | ok v =>
    simp only [Except.map]
    cases hopened : v.opened with
    | map fields =>
      simp only
      cases hname : Value.field fields "name" with
      | scalar s =>
        cases s with
        | text name =>
          simp only
          split
          · rfl
          · rw [Outcome.result_bind, Outcome.result_liftM]
            cases (Value.field fields "in").show? <;> rfl
        | _ => rfl
      | _ => rfl
    | _ => rfl

/-- A declaration comes from an entry that is not excluded. -/
theorem declare_eq_some {settings : Settings} {document : Value} {operation : String} {entry : Value}
    {d : Declaration} (h : (declare settings document operation entry).result = .ok (some d)) :
    declaration? document entry = some d := by
  rw [result_declare] at h
  rw [declaration?_eq_some]
  cases hnamed : named? document entry with
  | none =>
    rw [hnamed] at h
    cases h
  | some e =>
    obtain ⟨name, fields⟩ := e
    rw [hnamed] at h
    simp only at h
    split at h
    · cases h
    · cases hplace : (Value.field fields "in").show? with
      | error f =>
        rw [hplace] at h
        cases h
      | ok place =>
        rw [hplace] at h
        obtain rfl := Option.some.inj (Except.ok.inj h)
        exact ⟨rfl, hplace⟩

/-! ## Collecting declarations -/

theorem replace_cons (d e : Declaration) (rest : List Declaration) : replace d (e :: rest) =
    if e.name = d.name ∧ e.place = d.place then d :: rest else e :: replace d rest := rfl

theorem mem_replace {d e : Declaration} {ds : List Declaration} (h : e ∈ replace d ds) :
    e ∈ ds ∨ e = d := by
  induction ds with
  | nil =>
    rw [replace] at h
    exact Or.inr (List.mem_singleton.1 h)
  | cons f rest ih =>
    rw [replace_cons] at h
    split at h
    · rcases List.mem_cons.1 h with rfl | h
      · exact Or.inr rfl
      · exact Or.inl (List.mem_cons_of_mem _ h)
    · rcases List.mem_cons.1 h with rfl | h
      · exact Or.inl List.mem_cons_self
      · exact (ih h).imp (List.mem_cons_of_mem _) id

/-- Declarations that are kept or left out by their name and their place are so before another takes
its place among them or after. -/
theorem filter_replace {keep : Declaration → Bool}
    (hkeep : ∀ d e : Declaration, d.name = e.name → d.place = e.place → keep d = keep e)
    (d : Declaration) (ds : List Declaration) :
    (replace d ds).filter keep = if keep d then replace d (ds.filter keep) else ds.filter keep := by
  induction ds with
  | nil =>
    rw [replace, List.filter_cons]
    rfl
  | cons e rest ih =>
    rw [replace_cons]
    by_cases hsame : e.name = d.name ∧ e.place = d.place
    · have heq := hkeep e d hsame.1 hsame.2
      rw [if_pos hsame, List.filter_cons, List.filter_cons, heq]
      split
      · rw [replace_cons, if_pos hsame]
      · rfl
    · rw [if_neg hsame, List.filter_cons, List.filter_cons, ih]
      split
      · split
        · rw [replace_cons, if_neg hsame]
        · rfl
      · rfl

/-- One entry after another is collected. -/
theorem result_collectFrom_cons (settings : Settings) (document : Value) (operation : String)
    (done : List Declaration) (entry : Value) (rest : List Value) :
    (collectFrom settings document operation done (entry :: rest)).result =
      (declare settings document operation entry).result.bind fun d =>
        (collectFrom settings document operation
          (match d with
            | some d => replace d done
            | none => done) rest).result := by
  rw [collectFrom, Outcome.result_bind]
  congr 1
  funext d
  cases d <;> rfl

/-- **Leaving out entries** leaves out the declarations that are not kept, and nothing else: if no entry
that is left out declares one that is kept, or ends the operation, and every other declares such only. -/
theorem collectFrom_filter {settings : Settings} {document : Value} (operation : String)
    {keep : Declaration → Bool} {stays : Value → Bool}
    (hkeep : ∀ d e : Declaration, d.name = e.name → d.place = e.place → keep d = keep e)
    {entries : List Value}
    (hleft : ∀ entry ∈ entries, stays entry = false →
      (declare settings document operation entry).result = .ok none ∨
        ∃ d, (declare settings document operation entry).result = .ok (some d) ∧ keep d = false)
    (hstays : ∀ entry ∈ entries, stays entry = true → ∀ d,
      (declare settings document operation entry).result = .ok (some d) → keep d = true)
    (done : List Declaration) :
    (collectFrom settings document operation (done.filter keep) (entries.filter stays)).result =
      (collectFrom settings document operation done entries).result.map (List.filter keep) := by
  induction entries generalizing done with
  | nil => rfl
  | cons entry rest ih =>
    have ih := ih (fun e he => hleft e (List.mem_cons_of_mem _ he))
      fun e he => hstays e (List.mem_cons_of_mem _ he)
    rw [result_collectFrom_cons, List.filter_cons]
    cases hentry : stays entry with
    | false =>
      rw [if_neg (by simp)]
      rcases hleft entry List.mem_cons_self hentry with hnone | ⟨d, hsome, hd⟩
      · rw [hnone]
        exact ih done
      · -- What the entry declares takes the place of nothing that is kept.
        have hdone := filter_replace hkeep d done
        rw [hd, if_neg (by simp)] at hdone
        rw [hsome, ← hdone]
        exact ih (replace d done)
    | true =>
      rw [if_pos rfl, result_collectFrom_cons]
      cases hdeclared : (declare settings document operation entry).result with
      | error f => rfl
      | ok declared =>
        cases declared with
        | none => exact ih done
        | some d =>
          have hdone := filter_replace hkeep d done
          rw [hstays entry List.mem_cons_self hentry d hdeclared, if_pos rfl] at hdone
          show (collectFrom settings document operation (replace d (done.filter keep)) _).result = _
          rw [← hdone]
          exact ih (replace d done)

/-- **Every declaration is that of an entry**: it is there from the start, or an entry declares it. -/
theorem declare_of_mem_collectFrom {settings : Settings} {document : Value} {operation : String}
    {done ds : List Declaration} {entries : List Value}
    (h : (collectFrom settings document operation done entries).result = .ok ds) :
    ∀ d ∈ ds, d ∈ done ∨
      ∃ entry ∈ entries, (declare settings document operation entry).result = .ok (some d) := by
  induction entries generalizing done with
  | nil =>
    rw [collectFrom] at h
    obtain rfl := Except.ok.inj h
    exact fun d hd => Or.inl hd
  | cons entry rest ih =>
    rw [result_collectFrom_cons] at h
    obtain ⟨declared, hdeclared, h⟩ := bind_eq_ok.1 h
    intro d hd
    rcases ih h d hd with hd | ⟨entry', hentry', hd⟩
    · cases declared with
      | none => exact Or.inl hd
      | some d' =>
        rcases mem_replace hd with hd | rfl
        · exact Or.inl hd
        · exact Or.inr ⟨entry, List.mem_cons_self, hdeclared⟩
    · exact Or.inr ⟨entry', List.mem_cons_of_mem _ hentry', hd⟩

theorem mem_collectFrom {settings : Settings} {document : Value} {operation : String}
    {done ds : List Declaration} {entries : List Value}
    (h : (collectFrom settings document operation done entries).result = .ok ds) :
    ∀ d ∈ ds, d ∈ done ∨ ∃ entry ∈ entries, declaration? document entry = some d := by
  intro d hd
  rcases declare_of_mem_collectFrom h d hd with hd | ⟨entry, hentry, hd⟩
  · exact Or.inl hd
  · exact Or.inr ⟨entry, hentry, declare_eq_some hd⟩

/-- What is declared is not excluded. -/
theorem not_excludes_of_declare {settings : Settings} {document : Value} {operation : String}
    {entry : Value} {d : Declaration}
    (h : (declare settings document operation entry).result = .ok (some d)) :
    settings.excludes (.text d.name) (.map d.fields) = false := by
  rw [result_declare] at h
  split at h
  · cases h
  · next name fields _ =>
    split at h
    · cases h
    · next hexcludes =>
      cases hplace : (Value.field fields "in").show? with
      | error f =>
        rw [hplace] at h
        cases h
      | ok place =>
        rw [hplace] at h
        obtain rfl := Option.some.inj (Except.ok.inj h)
        simpa using hexcludes

/-! ## Adding declared parameters -/

/-- Whether the schema of a declared parameter cannot be had, so that the parameter is skipped. -/
def isSkipped (c : Compiler) (d : Declaration) : Bool :=
  match (mergedParameter c d).result with
  | .error f => f.skipsParameter
  | .ok _ => false

/-- **Adding one declared parameter after another**: one is skipped, ends the operation, or is added if
it has a place. -/
theorem result_addDeclared_cons (c : Compiler) (operation : String) (s : Signature) (d : Declaration)
    (rest : List Declaration) :
    (addDeclared c operation s (d :: rest)).result =
      match (mergedParameter c d).result with
      | .error f => if f.skipsParameter then (addDeclared c operation s rest).result else .error f
      | .ok schema => (Location.classify (.map d.fields)).bind fun location =>
          (addDeclared c operation (s.declare d schema location) rest).result := by
  rw [addDeclared, Outcome.result_inspect]
  cases (mergedParameter c d).result with
  | error f =>
    simp only
    split
    · rw [Outcome.result_bind]
      rfl
    · rfl
  | ok schema =>
    simp only
    rw [Outcome.result_bind]
    rfl

/-- Skipped parameters may as well not be there. -/
theorem addDeclared_filter {c : Compiler} {keep : Declaration → Bool} {ds : List Declaration}
    (h : ∀ d ∈ ds, keep d = false → isSkipped c d = true) (operation : String) (s : Signature) :
    (addDeclared c operation s (ds.filter keep)).result = (addDeclared c operation s ds).result := by
  induction ds generalizing s with
  | nil => rfl
  | cons d rest ih =>
    have ih := ih fun d' hd' => h d' (List.mem_cons_of_mem _ hd')
    rw [List.filter_cons, result_addDeclared_cons]
    cases hd : keep d with
    | true =>
      rw [if_pos rfl, result_addDeclared_cons]
      simp only [ih]
    | false =>
      have hskipped := h d List.mem_cons_self hd
      unfold isSkipped at hskipped
      rw [if_neg (by simp), ih]
      split at hskipped
      · rw [if_pos hskipped]
      · cases hskipped

/-! ## Operations that agree beside their parameters -/

/-- An operation with the given parameters in place of its own. -/
def withParameters (fields : Keyed Value) (parameters : List Value) : Value :=
  .map (Keyed.put fields (.text "parameters") (.list parameters))

/-- An operation without its parameters. -/
def withoutParameters (fields : Keyed Value) : Value :=
  .map (Keyed.without fields (.text "parameters"))

/-- Two operations have the same fields, their parameters aside. -/
def AgreeBeside (es fs : Keyed Value) : Prop :=
  ∀ name, name ≠ "parameters" → Value.field es name = Value.field fs name

theorem AgreeBeside.symm {es fs : Keyed Value} (h : AgreeBeside es fs) : AgreeBeside fs es :=
  fun name hname => (h name hname).symm

theorem AgreeBeside.trans {es fs gs : Keyed Value} (hes : AgreeBeside es fs)
    (hfs : AgreeBeside fs gs) : AgreeBeside es gs :=
  fun name hname => (hes name hname).trans (hfs name hname)

theorem agreeBeside_put (es : Keyed Value) (v : Value) :
    AgreeBeside (Keyed.put es (.text "parameters") v) es := by
  intro name hname
  have hother : ¬ (Scalar.text name).same (.text "parameters") = true := by
    rw [Scalar.same_text]
    simpa using hname.symm
  rw [Value.field, Value.field, Keyed.find?_put, if_neg hother]

theorem agreeBeside_without (es : Keyed Value) :
    AgreeBeside (Keyed.without es (.text "parameters")) es := by
  intro name hname
  have hother : ¬ (Scalar.text "parameters").same (.text name) = true := by
    rw [Scalar.same_text]
    simpa using hname
  rw [Value.field, Value.field, Keyed.find?_without, if_neg hother]

section

variable {es fs : Keyed Value} (h : AgreeBeside es fs)

include h

theorem AgreeBeside.identifier? : identifier? es = Operation.identifier? fs := by
  unfold Operation.identifier?
  rw [h "operationId" (by decide)]

theorem AgreeBeside.description : description es = Operation.description fs := by
  unfold Operation.description
  rw [h "summary" (by decide), h "description" (by decide)]

theorem AgreeBeside.requestBody (settings : Settings) (document : Value) :
    requestBody settings document es = Operation.requestBody settings document fs := by
  unfold Operation.requestBody
  rw [h "requestBody" (by decide)]

end

/-- Parameters that were written are the ones that are read. -/
theorem field_parameters_put (es : Keyed Value) (ps : List Value) :
    (Value.field (Keyed.put es (.text "parameters") (.list ps)) "parameters").orElse (.list []) =
      .list ps := by
  rw [Value.field, Keyed.find?_put, if_pos (Scalar.same_refl _)]
  cases ps <;> rfl

theorem field_parameters_without (es : Keyed Value) :
    (Value.field (Keyed.without es (.text "parameters")) "parameters").orElse (.list []) =
      .list [] := by
  rw [Value.field, Keyed.find?_without, if_pos (Scalar.same_refl _)]
  rfl

/-- **The tool of an operation that is a mapping**, step by step. -/
theorem result_compile (c : Compiler) (path : Scalar) (method : String) (es : Keyed Value)
    (pathParameters : Value) :
    (compile c path method (.map es) pathParameters).result =
      match identifier? es with
      | none => (Value.scalar path).show?.bind fun place =>
          .error (.missingOperationId (Text.upper method) place)
      | some name => (requestBody c.settings c.document es).result.bind fun body =>
          (signature c name es pathParameters ((body.map (·.schema)).getD .null)).result.bind
            fun s => assemble c (.text name) (description es) (Text.upper method) path body s := by
  unfold compile
  simp only [Value.fields, Value.opened, Outcome.result_bind, Outcome.result_liftM]
  show Outcome.result _ = _
  cases identifier? es with
  | none =>
    simp only [Outcome.result_bind, Outcome.result_liftM, Outcome.result_fail]
  | some name =>
    simp only [Outcome.result_bind, Outcome.result_liftM, Outcome.result_report]
    rfl

/-- Operations that agree beside their parameters and have the same signatures have the same tool, or
the same fault. -/
theorem compile_congr {c : Compiler} {es fs : Keyed Value} {pathParameters pathParameters' : Value}
    (h : AgreeBeside es fs)
    (hsignature : ∀ name body, (signature c name es pathParameters body).result =
      (signature c name fs pathParameters' body).result) (path : Scalar) (method : String) :
    (compile c path method (.map es) pathParameters).result =
      (compile c path method (.map fs) pathParameters').result := by
  rw [result_compile, result_compile, h.identifier?, h.description, h.requestBody]
  simp only [hsignature]

/-- The signature of an operation whose parameters are a list. -/
theorem result_signature {c : Compiler} {name : String} {fields : Keyed Value} {ps : List Value}
    (hfields : (Value.field fields "parameters").orElse (.list []) = .list ps) (qs : List Value)
    (body : Value) :
    (signature c name fields (.list qs) body).result =
      (collectFrom c.settings c.document name [] (qs ++ ps)).result.bind fun ds =>
        (addDeclared c name {} ds).result.bind fun s => (addBody name s body).result := by
  have hcollect : (collect c.settings c.document name (.list qs) (.list ps)).result =
      (collectFrom c.settings c.document name [] (qs ++ ps)).result := rfl
  rw [signature, hfields, Outcome.result_bind, hcollect]
  simp only [Outcome.result_bind]

end Operation

end ToolCatalog
