import ToolCatalog.Proofs.Operation.Alignment
import ToolCatalog.Proofs.Operation.Declarations
import ToolCatalog.Proofs.Catalog.Exclusion

/-!
# Which arguments a tool requires

A later declaration of a name takes the place of an earlier one: of several, the last gives the schema
and the location.  The required names are only ever added to.  So a tool requires a name that any of its
declarations requires, be it the last or not, and the schema it publishes for the name may be that of a
declaration that does not require it.

* `compile_required`: exactly which names are required; and where a name is required by its last
  declaration if it is by any, the published schema is that of a declaration that requires it.
-/

namespace ToolCatalog

namespace Keyed

variable {α : Type}

theorem find?_putAll_of_not_same {es news : Keyed α} {k : Scalar}
    (h : ∀ e ∈ news, k.same e.1 = false) : find? (putAll es news) k = find? es k := by
  induction news generalizing es with
  | nil => rfl
  | cons e rest ih =>
    show find? (putAll (put es e.1 e.2) rest) k = _
    rw [ih fun e' he' => h e' (List.mem_cons_of_mem _ he'), find?_put,
      if_neg (by simp [h e List.mem_cons_self])]

/-- **The last entry that is written counts**: it is found unless a later one has its key. -/
theorem find?_ofList_last {before after : List (Scalar × α)} {k : Scalar} {a : α}
    (h : ∀ e ∈ after, k.same e.1 = false) :
    find? (ofList (before ++ (k, a) :: after)) k = some a := by
  have hsplit : ofList (before ++ (k, a) :: after) = putAll (put (putAll [] before) k a) after := by
    rw [ofList, putAll, List.foldl_append]
    rfl
  rw [hsplit, find?_putAll_of_not_same h, find?_put, if_pos (Scalar.same_refl k)]

end Keyed

/-- A name is spelled by its encoded bytes among values. -/
def Value.IsSpelledAmong (name : String) (vs : List Value) : Prop :=
  ∃ bs : List UInt8, .scalar (.bytes bs) ∈ vs ∧ String.fromUTF8? ⟨bs.toArray⟩ = some name

namespace Field

/-- The texts of values are those that are texts and those that are spelled by bytes. -/
theorem mem_texts_iff {vs : List Value} {texts : List String} (h : vs.mapM text = .ok texts)
    (name : String) : name ∈ texts ↔ Value.text name ∈ vs ∨ Value.IsSpelledAmong name vs := by
  have hmem : ∀ v ∈ vs, text v = .ok name → name ∈ texts := by
    intro v hv hvn
    obtain ⟨other, hother, hvo⟩ := (mapM_eq_ok h).2 v hv
    rw [hvn] at hvo
    rwa [Except.ok.inj hvo]
  constructor
  · intro hname
    obtain ⟨v, hv, hvn⟩ := (mapM_eq_ok h).1 name hname
    rcases text_ok hvn with rfl | ⟨bs, rfl, hbs⟩
    · exact Or.inl hv
    · exact Or.inr ⟨bs, hv, hbs⟩
  · rintro (hname | ⟨bs, hbs, hutf8⟩)
    · exact hmem _ hname (key_text name)
    · exact hmem _ hbs (key_bytes hutf8)

end Field

/-- The schema and the location that a tool publishes for a name: it asks for the name with the schema,
and sends it, to that location alone. -/
structure Tool.Publishes (tool : Tool) (name : String) (schema : Value) (location : Location) :
    Prop where
  asked : tool.arguments.properties.lookup name = some schema
  sent : ∃ p ∈ tool.recipe.parameters, p.name = name
  location : ∀ p ∈ tool.recipe.parameters, p.name = name → p.location = location

namespace Operation

/-! ## Requiring and surviving -/

/-- The names that a body requires; one that is no mapping requires none. -/
def bodyRequired : Value → List Value
  | .map es => (requiredOfBody es).toOption.getD []
  | _ => []

/-- A declaration makes its name required: its schema and its location can be had, it says so, and the
name is a part of the path or may not be null. -/
def Requires (c : Compiler) (d : Declaration) : Prop :=
  ∃ schema location, ofDeclaration c d = some (.text d.name, schema, location) ∧
    isRequired d schema location = true

/-- A declaration survives with its schema and its location: no later one names the same, and no property
of the body does. -/
structure Survives (c : Compiler) (ds : List Declaration) (body : Value) (d : Declaration)
    (schema : Value) (location : Location) : Prop where
  named : ofDeclaration c d = some (.text d.name, schema, location)
  last : ∃ before after, ds = before ++ d :: after ∧
    ∀ e ∈ after, e.name = d.name → ofDeclaration c e = none
  unnamed : ∀ k ∈ Keyed.keys (bodyProperties body), Field.key k ≠ .ok d.name

/-- A tool withholds a name from its arguments: the name is removed, or rebuilt from `file_path`. -/
def Withholds (settings : Settings) (parameters : Keyed (Value × Location)) (body : Value)
    (name : String) : Prop :=
  name ∈ settings.removed ∨
    hidesParameters settings parameters body = true ∧ name ∈ settings.fileParameterNames

/-- A declaration names nothing but its own name. -/
theorem ofDeclaration_name {c : Compiler} {d : Declaration} {k : Scalar} {schema : Value}
    {location : Location} (h : ofDeclaration c d = some (k, schema, location)) : k = .text d.name := by
  unfold ofDeclaration at h
  split at h
  · exact (Prod.mk.inj (Option.some.inj h)).1.symm
  · cases h

theorem ofProperty_name {e : Scalar × Value} {k : Scalar} {schema : Value} {location : Location}
    (h : ofProperty e = some (k, schema, location)) : k = e.1 := by
  unfold ofProperty at h
  split at h
  · exact (Prod.mk.inj (Option.some.inj h)).1.symm
  · cases h

section

variable {c : Compiler} {ds : List Declaration} {body : Value} {d : Declaration} {schema : Value}
  {location : Location} (h : Survives c ds body d schema location)

include h

theorem Survives.mem : d ∈ ds := by
  obtain ⟨before, after, rfl, -⟩ := h.last
  exact List.mem_append_right _ List.mem_cons_self

/-- **A declaration that survives is found** under its name. -/
theorem Survives.find? :
    Keyed.find? (namedParameters c ds body) (.text d.name) = some (schema, location) := by
  obtain ⟨before, after, rfl, hafter⟩ := h.last
  rw [namedParameters, List.filterMap_append, List.filterMap_cons_some h.named, List.append_assoc,
    List.cons_append]
  refine Keyed.find?_ofList_last fun e he => ?_
  obtain ⟨k, schema', location'⟩ := e
  rw [Bool.eq_false_iff, Ne, Scalar.same_text]
  rintro rfl
  rcases List.mem_append.1 he with he | he
  · obtain ⟨d', hd', heq⟩ := List.mem_filterMap.1 he
    have hname := Scalar.text.inj (ofDeclaration_name heq)
    rw [hafter d' hd' hname.symm] at heq
    cases heq
  · obtain ⟨⟨k, v⟩, he, heq⟩ := List.mem_filterMap.1 he
    obtain rfl := ofProperty_name heq
    exact h.unnamed _ (Keyed.mem_keys_of_mem he) (Field.key_text _)

/-- Whatever is named like a declaration that survives is its name. -/
theorem Survives.eq_text_of_key {k : Scalar}
    (hk : k ∈ Keyed.keys (namedParameters c ds body)) (hkey : Field.key k = .ok d.name) :
    k = .text d.name := by
  rcases mem_namedParameters hk with ⟨d', -, rfl⟩ | hk
  · rw [Field.key_text] at hkey
    rw [Except.ok.inj hkey]
  · exact absurd hkey (h.unnamed k hk)

end

/-! ## The required names of a signature -/

/-- A text is in a union of texts if it is in one of the two lists. -/
theorem text_mem_union {vs ws : List Value} (hvs : ∀ v ∈ vs, ∃ t, v = .text t)
    (hws : ∀ v ∈ ws, ∃ t, v = .text t) {n : String} :
    Value.text n ∈ Value.union vs ws ↔ Value.text n ∈ vs ∨ Value.text n ∈ ws := by
  constructor
  · exact Value.mem_union
  · rintro (h | h)
    · exact Value.subset_union vs ws h
    · obtain ⟨w, hw, hsame⟩ := Value.exists_same_of_mem vs h
      obtain ⟨t, rfl⟩ := (Value.mem_union hw).elim (hvs w) (hws w)
      obtain rfl := Scalar.text.inj ((Scalar.same_text n _).1 hsame)
      exact hw

section

variable {c : Compiler} {d : Declaration} {schema : Value} {location : Location}

theorem not_requires_of_error {f : Fault} (h : (mergedParameter c d).result = .error f) :
    ¬ Requires c d := by
  rintro ⟨schema, location, hd, -⟩
  unfold ofDeclaration at hd
  rw [h] at hd
  cases hd

/-- Whether a declaration requires its name is seen from its schema and its location. -/
theorem requires_iff (hschema : (mergedParameter c d).result = .ok schema)
    (hlocation : Location.classify (.map d.fields) = .ok location) :
    Requires c d ↔ isRequired d schema location = true := by
  have hd : ofDeclaration c d = some (.text d.name, schema, location) := by
    unfold ofDeclaration
    rw [hschema, hlocation]
  constructor
  · rintro ⟨schema', location', hd', hr⟩
    rw [hd] at hd'
    obtain ⟨-, heq⟩ := Prod.mk.inj (Option.some.inj hd')
    obtain ⟨rfl, rfl⟩ := Prod.mk.inj heq
    exact hr
  · exact fun hr => ⟨schema, location, hd, hr⟩

/-- Declaring a parameter adds its name to the required ones if it is to be, and no other. -/
theorem mem_required_declare (d : Declaration) (schema : Value) (location : Location)
    {s : Signature} (hs : ∀ v ∈ s.required, ∃ t, v = .text t) (n : String) :
    (∀ v ∈ (s.declare d schema location).required, ∃ t, v = .text t) ∧
      (Value.text n ∈ (s.declare d schema location).required ↔
        Value.text n ∈ s.required ∨ d.name = n ∧ isRequired d schema location = true) := by
  have hsingle : ∀ v ∈ [Value.text d.name], ∃ t, v = .text t :=
    fun v hv => ⟨d.name, List.mem_singleton.1 hv⟩
  unfold Signature.declare
  simp only
  split
  · next hr =>
    refine ⟨fun v hv => (Value.mem_union hv).elim (hs v) (hsingle v), ?_⟩
    show Value.text n ∈ Value.union s.required [.text d.name] ↔ _
    rw [text_mem_union hs hsingle, List.mem_singleton]
    simp [hr, eq_comm]
  · next hr =>
    refine ⟨hs, ?_⟩
    show Value.text n ∈ s.required ↔ _
    simp [hr]

end

/-- **The names that declared parameters require** are those of the declarations that require their
names, whatever is declared after them. -/
theorem mem_required_addDeclared {c : Compiler} {operation : String} {ds : List Declaration}
    {s r : Signature} (hs : ∀ v ∈ s.required, ∃ t, v = .text t)
    (h : (addDeclared c operation s ds).result = .ok r) (n : String) :
    Value.text n ∈ r.required ↔ Value.text n ∈ s.required ∨ ∃ d ∈ ds, d.name = n ∧ Requires c d := by
  induction ds generalizing s with
  | nil =>
    rw [addDeclared] at h
    obtain rfl := Except.ok.inj h
    simp
  | cons d rest ih =>
    rw [result_addDeclared_cons] at h
    cases hm : (mergedParameter c d).result with
    | error f =>
      simp only [hm] at h
      split at h
      · rw [ih hs h]
        simp [not_requires_of_error hm]
      · cases h
    | ok schema =>
      simp only [hm] at h
      obtain ⟨location, hlocation, h⟩ := bind_eq_ok.1 h
      obtain ⟨htexts, hdeclare⟩ := mem_required_declare d schema location hs n
      rw [← requires_iff hm hlocation] at hdeclare
      rw [ih htexts h, hdeclare, or_assoc]
      simp

/-- What a body adds to the required names does not depend on the parameters before it. -/
theorem required_addBody {operation : String} {s r : Signature} {body : Value}
    (h : (addBody operation s body).result = .ok r) :
    r.required = Value.union s.required (bodyRequired body) := by
  rcases addBody_ok h with ⟨es, ps, s', names, rfl, -, hadd, hnames, rfl⟩ | ⟨hmap, rfl⟩
  · have hsame := addProperties_induction (p := fun s' => s'.required = s.required)
      (fun _ _ _ _ _ hs => hs) rfl hadd
    rw [bodyRequired, hnames, Signature.require, hsame]
    rfl
  · have hnone : bodyRequired body = [] := by
      cases body with
      | map es => exact absurd rfl (hmap es)
      | _ => rfl
    rw [hnone]
    rfl

/-- The required names of a signature: those of the declared parameters, then those of the body. -/
theorem required_signature {c : Compiler} {operation : String} {fields : Keyed Value}
    {pathParameters body : Value} {s : Signature}
    (h : (signature c operation fields pathParameters body).result = .ok s) :
    ∃ ds earlier, (collect c.settings c.document operation pathParameters
        ((Value.field fields "parameters").orElse (.list []))).result = .ok ds ∧
      s.Holds (namedParameters c ds body) ∧
      s.required = Value.union earlier (bodyRequired body) ∧
      (∀ v ∈ earlier, ∃ t, v = .text t) ∧
      ∀ n, Value.text n ∈ earlier ↔ ∃ d ∈ ds, d.name = n ∧ Requires c d := by
  obtain ⟨ds, hds, hholds⟩ := signature_holds h
  obtain ⟨ds', declared, hds', hdeclared, hbody⟩ := signature_ok h
  rw [hds] at hds'
  obtain rfl := Except.ok.inj hds'
  refine ⟨ds, declared.required, hds, hholds, ?_, (addDeclared_filtered hdeclared).2, fun n => ?_⟩
  · exact required_addBody hbody
  · rw [mem_required_addDeclared (by simp) hdeclared]
    simp

/-! ## The required names of a tool -/

section

variable {c : Compiler} {body : Option Body} {s : Signature} {all : Keyed (Value × Location)}

/-- What is the same as a text is that text, under the parts around it. -/
theorem opened_of_same_text {n : String} {w : Value} (h : (Value.text n).same w = true) :
    w.opened = .text n := by
  rw [Value.same] at h
  split at h
  · next t ht => rw [ht, (Scalar.same_text n t).1 h]
  · cases h

theorem isFileParameter_of_opened {settings : Settings} {v : Value} {n : String}
    (h : v.opened = .text n) :
    Upload.isFileParameter settings v = decide (n ∈ settings.fileParameterNames) := by
  rw [← any_same_text, Upload.isFileParameter]
  congr 1
  funext m
  rw [Value.same, h]

/-- Whether a required name of a signature stays required: it is not removed, and not one that an
upload hides. -/
def keepsName (settings : Settings) (hides : Bool) (v : Value) : Bool :=
  !isRemovedName settings v && !(hides && Upload.isFileParameter settings v)

/-- A single text stays required unless it is removed. -/
theorem eq_of_mapM_singleton {settings : Settings} {n : String} {texts : List String}
    (h : ([Value.text n].filter fun v => !isRemovedName settings v).mapM Field.text = .ok texts) :
    texts = if n ∉ settings.removed then [n] else [] := by
  have hremoved : isRemovedName settings (.text n) = decide (n ∈ settings.removed) :=
    settings.isRemoved_text n
  rw [List.filter_cons, hremoved] at h
  by_cases hmem : n ∈ settings.removed
  · rw [if_neg (not_not_intro hmem)]
    simp only [hmem, decide_true, Bool.not_true, Bool.false_eq_true, if_false] at h
    exact (Except.ok.inj h).symm
  · rw [if_pos hmem]
    simp only [hmem, decide_false, Bool.not_false, if_true] at h
    exact (Except.ok.inj h).symm

/-- **What a tool requires**: the texts of the names that stay required, and then `file_path` if it is
an upload. -/
theorem assemble_required {name description : Value} {method : String} {path : Scalar} {tool : Tool}
    (hs : s.Holds all) (h : assemble c name description method path body s = .ok tool) :
    tool.arguments.required ≠ some [] ∧ ∃ texts,
      (s.required.filter (keepsName c.settings
        (hidesParameters c.settings all ((body.map (·.schema)).getD .null)))).mapM Field.text =
          .ok texts ∧
      tool.arguments.required.getD [] = texts ++
        if hidesParameters c.settings all ((body.map (·.schema)).getD .null) = true ∧
          Upload.filePath ∉ c.settings.removed then [Upload.filePath] else [] := by
  obtain ⟨-, ⟨required, texts, hwithout, htexts, heq⟩, -⟩ := assemble_ok h
  have hgetD : tool.arguments.required.getD [] = texts := by
    rw [heq]
    cases texts <;> rfl
  have hnonempty : tool.arguments.required ≠ some [] := by
    rw [heq]
    cases texts <;> simp
  refine ⟨hnonempty, ?_⟩
  rw [hgetD]
  rw [withoutRemoved_ok hwithout] at htexts
  cases hhides : hidesParameters c.settings all ((body.map (·.schema)).getD .null) with
  | false =>
    rw [presented_of_not_hides hs hhides] at htexts
    refine ⟨texts, ?_, by simp⟩
    rw [← htexts]
    congr 1
    exact List.filter_congr fun v _ => by simp [keepsName]
  | true =>
    rw [presented_of_hides hs hhides, List.filter_append, List.mapM_append] at htexts
    obtain ⟨kept, hkept, htexts⟩ := bind_eq_ok.1 htexts
    obtain ⟨added, hadded, htexts⟩ := bind_eq_ok.1 htexts
    obtain rfl := Except.ok.inj htexts
    refine ⟨kept, ?_, ?_⟩
    · rw [← hkept, List.filter_filter]
      rfl
    · rw [eq_of_mapM_singleton hadded]
      simp

section

theorem keepsName_text {settings : Settings} {schema : Value} (n : String) :
    keepsName settings (hidesParameters settings all schema) (.text n) = true ↔
      ¬ Withholds settings all schema n := by
  have hremoved : isRemovedName settings (.text n) = decide (n ∈ settings.removed) :=
    settings.isRemoved_text n
  rw [keepsName, hremoved, isFileParameter_of_opened (n := n) rfl, Withholds]
  cases hidesParameters settings all schema <;> simp

/-- No name that is spelled by bytes is taken out: it is the same as no text. -/
theorem keepsName_bytes (settings : Settings) (hides : Bool) (bs : List UInt8) :
    keepsName settings hides (.scalar (.bytes bs)) = true := by
  have hremoved : isRemovedName settings (.scalar (.bytes bs)) = false := settings.isRemoved_bytes bs
  have hfile := Upload.isFileParameter_of_bytes settings (v := .scalar (.bytes bs)) rfl
  rw [keepsName, hremoved, hfile]
  simp

variable {settings : Settings} {hides : Bool} {texts : List String} {vs : List Value}

/-- A name that does not stay required is the same as a text. -/
theorem exists_same_of_not_keepsName {v : Value} (h : keepsName settings hides v = false) :
    ∃ n, (Value.text n).same v = true := by
  rw [keepsName, Bool.and_eq_false_iff, Bool.not_eq_false', Bool.not_eq_false',
    Bool.and_eq_true] at h
  rcases h with hremoved | ⟨-, hfile⟩
  · cases v with
    | scalar k =>
      obtain ⟨n, -, hsame⟩ := List.any_eq_true.1 hremoved
      exact ⟨n, hsame⟩
    | _ => cases hremoved
  · obtain ⟨n, -, hsame⟩ := List.any_eq_true.1 hfile
    exact ⟨n, hsame⟩

/-- A name that stays required stays so whatever parts are around it. -/
theorem keepsName_of_opened {v : Value} {k : Scalar} (hopened : v.opened = .scalar k)
    (h : keepsName settings hides (.scalar k) = true) : keepsName settings hides v = true := by
  unfold keepsName at h ⊢
  rw [Bool.and_eq_true, Bool.not_eq_true', Bool.not_eq_true'] at h ⊢
  constructor
  · cases v with
    | scalar t =>
      obtain rfl := Value.scalar.inj hopened
      exact h.1
    | _ => rfl
  · rw [← h.2]
    congr 1
    unfold Upload.isFileParameter
    congr 1
    funext m
    rw [Value.same, Value.same, hopened]
    rfl

/-- What opens to a scalar that stays required is that scalar, or it would have no text. -/
theorem mem_kept_of_opened
    (h : (vs.filter (keepsName settings hides)).mapM Field.text = .ok texts) {w : Value} {k : Scalar}
    (hw : w ∈ vs) (hopened : w.opened = .scalar k)
    (hk : keepsName settings hides (.scalar k) = true) :
    .scalar k ∈ vs.filter (keepsName settings hides) := by
  have hkept : w ∈ vs.filter (keepsName settings hides) :=
    List.mem_filter.2 ⟨hw, keepsName_of_opened hopened hk⟩
  obtain ⟨t, -, ht⟩ := (mapM_eq_ok h).2 w hkept
  rw [Field.opened_of_text ht] at hopened
  rwa [hopened] at hkept

variable {earlier names : List Value}

/-- **The texts that stay required** are those that are not withheld. -/
theorem text_mem_kept_iff {schema : Value}
    (h : ((Value.union earlier names).filter
      (keepsName settings (hidesParameters settings all schema))).mapM Field.text = .ok texts)
    (n : String) :
    Value.text n ∈ (Value.union earlier names).filter
        (keepsName settings (hidesParameters settings all schema)) ↔
      ¬ Withholds settings all schema n ∧ (Value.text n ∈ names ∨ Value.text n ∈ earlier) := by
  constructor
  · intro hmem
    obtain ⟨hmem, hkeeps⟩ := List.mem_filter.1 hmem
    exact ⟨(keepsName_text n).1 hkeeps, (Value.mem_union hmem).symm⟩
  · rintro ⟨hshown, hmem⟩
    have hkeeps := (keepsName_text n).2 hshown
    rcases hmem with hmem | hmem
    · obtain ⟨w, hw, hsame⟩ := Value.exists_same_of_mem earlier hmem
      exact mem_kept_of_opened h hw (opened_of_same_text hsame) hkeeps
    · exact List.mem_filter.2 ⟨Value.subset_union _ _ hmem, hkeeps⟩

/-- **The names that stay required by their bytes** are all that are added so. -/
theorem isSpelledAmong_kept_iff (htexts : ∀ v ∈ earlier, ∃ t, v = .text t)
    (h : ((Value.union earlier names).filter (keepsName settings hides)).mapM Field.text = .ok texts)
    (n : String) :
    Value.IsSpelledAmong n ((Value.union earlier names).filter (keepsName settings hides)) ↔
      Value.IsSpelledAmong n names := by
  constructor
  · rintro ⟨bs, hbs, hutf8⟩
    rcases Value.mem_union (List.mem_filter.1 hbs).1 with hbs | hbs
    · obtain ⟨t, ht⟩ := htexts _ hbs
      cases ht
    · exact ⟨bs, hbs, hutf8⟩
  · rintro ⟨bs, hbs, hutf8⟩
    obtain ⟨w, hw, hsame⟩ := Value.exists_same_of_mem earlier hbs
    exact ⟨bs, mem_kept_of_opened h hw (Value.opened_of_same_bytes hsame) (keepsName_bytes _ _ _),
      hutf8⟩

end

/-- What is not withheld passes every filter after the signature. -/
theorem passes_of_not_withholds {settings : Settings} {parameters : Keyed (Value × Location)}
    {schema v : Value} {n : String} (hv : v.opened = .text n)
    (h : ¬ Withholds settings parameters schema n) :
    (∀ k, v = .scalar k → settings.isRemoved k = false) ∧
      (hidesParameters settings parameters schema = true →
        Upload.isFileParameter settings v = false) := by
  rw [Withholds, not_or, not_and] at h
  constructor
  · rintro k rfl
    obtain rfl := Value.scalar.inj hv
    simp [settings.isRemoved_text, h.1]
  · intro hhides
    simp [isFileParameter_of_opened hv, h.2 hhides]

/-- **Which names a tool requires**, `file_path` aside: what the signature requires as bytes, and what
it requires as a text and is not withheld. -/
theorem required_iff {name description : Value} {method : String} {path : Scalar} {tool : Tool}
    {earlier names : List Value} (hs : s.Holds all)
    (hrequired : s.required = Value.union earlier names)
    (htexts : ∀ v ∈ earlier, ∃ t, v = .text t)
    (h : assemble c name description method path body s = .ok tool) {n : String}
    (hn : n ≠ Upload.filePath) :
    n ∈ tool.arguments.required.getD [] ↔
      (∃ bs : List UInt8, Value.scalar (.bytes bs) ∈ names ∧
        String.fromUTF8? ⟨bs.toArray⟩ = some n) ∨
      ¬ Withholds c.settings all ((body.map (·.schema)).getD .null) n ∧
        (Value.text n ∈ names ∨ Value.text n ∈ earlier) := by
  obtain ⟨-, texts, hkept, hlist⟩ := assemble_required hs h
  rw [hrequired] at hkept
  have hmem : n ∈ tool.arguments.required.getD [] ↔ n ∈ texts := by
    rw [hlist, List.mem_append]
    split <;> simp [hn]
  rw [hmem, Field.mem_texts_iff hkept, text_mem_kept_iff hkept, isSpelledAmong_kept_iff htexts hkept,
    or_comm]
  exact Iff.rfl

/-! ## What a tool publishes -/

/-- A property that is not withheld is asked for as it is in the signature, and nothing else is under
its name but `file_path`. -/
theorem mem_asked_iff (hs : s.Holds all) {k : Scalar} {v : Value}
    (hk : hidesParameters c.settings all ((body.map (·.schema)).getD .null) = true →
      k ≠ .text Upload.filePath) :
    (k, v) ∈ ((presented c body s).properties.filter fun e => !c.settings.isRemoved e.1) ↔
      (k, v) ∈ s.properties ∧ c.settings.isRemoved k = false ∧
        (hidesParameters c.settings all ((body.map (·.schema)).getD .null) = true →
          ((Upload.hidden c.settings s.properties).any fun n => (Scalar.text n).same k) = false) := by
  cases h : hidesParameters c.settings all ((body.map (·.schema)).getD .null) with
  | false =>
    rw [presented_of_not_hides hs h]
    simp
  | true =>
    have hnew : Keyed.has s.properties (.text Upload.filePath) = false := by
      rw [hs.properties, Keyed.has_mapValues]
      exact not_has_of_hides h
    rw [presented_of_hides hs h]
    simp only
    rw [Keyed.put_of_not_has (Keyed.not_has_filter hnew _), List.mem_filter, List.mem_append,
      List.mem_filter, List.mem_singleton, Prod.mk.injEq]
    simp only [hk h, false_and, or_false, Bool.not_eq_true', forall_const]
    rw [and_assoc, and_congr_right_iff]
    exact fun _ => And.comm

end

/-- The schema and the location of a named parameter are those it is found with. -/
theorem eq_of_mem_namedParameters {c : Compiler} {ds : List Declaration} {body : Value} {k : Scalar}
    {a b : Value × Location} (hmem : (k, a) ∈ namedParameters c ds body)
    (hfound : Keyed.find? (namedParameters c ds body) k = some b) : a = b := by
  rw [Keyed.find?_of_mem hmem (namedParameters_distinct c ds body)] at hfound
  exact Option.some.inj hfound

section

variable {c : Compiler} {ds : List Declaration} {body : Option Body} {s : Signature} {d : Declaration}
  {schema : Value} {location : Location}
  (hsurvives : Survives c ds ((body.map (·.schema)).getD .null) d schema location)
  (hs : s.Holds (namedParameters c ds ((body.map (·.schema)).getD .null)))
  (hshown : ¬ Withholds c.settings (namedParameters c ds ((body.map (·.schema)).getD .null))
    ((body.map (·.schema)).getD .null) d.name)

include hsurvives hs hshown

/-- The name of a declaration that survives is asked for with its schema. -/
theorem Survives.lookup_asked {fields : List (String × Value)}
    (h : Field.named ((presented c body s).properties.filter fun e => !c.settings.isRemoved e.1) =
      .ok fields) : fields.lookup d.name = some schema := by
  have hfound := hsurvives.find?
  obtain ⟨hremoved, hfile⟩ := passes_of_not_withholds (v := .text d.name) rfl hshown
  -- An upload that has a parameter of the name `file_path` hides nothing.
  have hpath : hidesParameters c.settings (namedParameters c ds ((body.map (·.schema)).getD .null))
      ((body.map (·.schema)).getD .null) = true → d.name ≠ Upload.filePath := by
    intro hhides heq
    have hnew := not_has_of_hides hhides
    rw [← heq, Keyed.has, hfound] at hnew
    cases hnew
  refine Field.lookup_named h ⟨.text d.name, ?_, Field.key_text _⟩ ?_
  · refine (mem_asked_iff hs fun hhides => by simpa using hpath hhides).2
      ⟨?_, hremoved _ rfl, fun hhides => ?_⟩
    · rw [hs.properties]
      exact List.mem_map.2 ⟨_, Keyed.mem_of_find?_text hfound, rfl⟩
    · have hhas : Keyed.has s.properties (.text d.name) = true := by
        rw [hs.properties, Keyed.has_mapValues, Keyed.has, hfound]
        rfl
      have hnot := hfile hhides
      rw [isFileParameter_of_opened (n := d.name) rfl] at hnot
      rw [any_same_text]
      simpa [Upload.mem_hidden hhas] using hnot
  · rintro ⟨k, v⟩ he hkey
    have hk : hidesParameters c.settings (namedParameters c ds ((body.map (·.schema)).getD .null))
        ((body.map (·.schema)).getD .null) = true → k ≠ .text Upload.filePath := by
      rintro hhides rfl
      exact hpath hhides (Except.ok.inj hkey).symm
    obtain ⟨he, -⟩ := (mem_asked_iff hs hk).1 he
    rw [hs.properties] at he
    obtain ⟨⟨k', a⟩, ha, heq⟩ := List.mem_map.1 he
    obtain ⟨rfl, rfl⟩ := Prod.mk.inj heq
    obtain rfl := hsurvives.eq_text_of_key (Keyed.mem_keys_of_mem ha) hkey
    rw [eq_of_mem_namedParameters ha hfound]

/-- **A declaration that survives is published**, unless its name is withheld. -/
theorem Survives.publishes {name description : Value} {method : String} {path : Scalar} {tool : Tool}
    (h : assemble c name description method path body s = .ok tool) :
    tool.Publishes d.name schema location := by
  obtain ⟨hproperties, -, hparameters⟩ := assemble_ok h
  have hfound := hsurvives.find?
  rw [sent_presented hs] at hparameters
  refine ⟨hsurvives.lookup_asked hs hshown hproperties, ?_, ?_⟩
  · have hremoved := (passes_of_not_withholds (v := .text d.name) rfl hshown).1 _ rfl
    obtain ⟨p, hp, hwire⟩ := (mapM_eq_ok hparameters).2 (.text d.name, location)
      (List.mem_map.2
        ⟨_, List.mem_filter.2 ⟨Keyed.mem_of_find?_text hfound, by simp [hremoved]⟩, rfl⟩)
    exact ⟨p, hp, (Except.ok.inj (wireParameter_name hwire)).symm⟩
  · intro p hp hname
    obtain ⟨⟨k, l⟩, he, hwire⟩ := (mapM_eq_ok hparameters).1 p hp
    obtain ⟨⟨k', a⟩, ha, heq⟩ := List.mem_map.1 he
    obtain ⟨rfl, rfl⟩ := Prod.mk.inj heq
    have ha := (List.mem_filter.1 ha).1
    have hkey := wireParameter_name hwire
    rw [hname] at hkey
    obtain rfl := hsurvives.eq_text_of_key (Keyed.mem_keys_of_mem ha) hkey
    rw [wireParameter_text hwire, eq_of_mem_namedParameters ha hfound]

end

/-- What a compiled operation comes from, in terms of the body and the declarations of the
operation. -/
theorem compile_required_inv {c : Compiler} {path : Scalar} {method : String}
    {operation pathParameters : Value} {tool : Tool}
    (h : (compile c path method operation pathParameters).result = .ok tool) :
    ∃ body ds earlier name description s,
      bodyOf c operation = .ok ((body.map (·.schema)).getD .null) ∧
      declarationsOf c operation pathParameters = .ok ds ∧
      s.Holds (namedParameters c ds ((body.map (·.schema)).getD .null)) ∧
      s.required = Value.union earlier (bodyRequired ((body.map (·.schema)).getD .null)) ∧
      (∀ v ∈ earlier, ∃ t, v = .text t) ∧
      (∀ n, Value.text n ∈ earlier ↔ ∃ d ∈ ds, d.name = n ∧ Requires c d) ∧
      assemble c name description (Text.upper method) path body s = .ok tool := by
  obtain ⟨fields, name, body, s, hfields, hname, hbody, hs, hassemble⟩ := compile_inv h
  obtain ⟨ds, earlier, hds, hrest⟩ := required_signature hs
  exact ⟨body, ds, earlier, _, _, s, bodyOf_eq hfields hbody, declarationsOf_eq hfields hname hds,
    hrest.1, hrest.2.1, hrest.2.2.1, hrest.2.2.2, hassemble⟩

/-- **Which names a compiled operation requires**, and when the schema and the location that its tool
publishes for a required name are those of a declaration that requires it: when the last declaration
of the name requires it if any does. -/
theorem compile_required (c : Compiler) (path : Scalar) (method : String)
    (operation pathParameters : Value) (tool : Tool)
    (h : (compile c path method operation pathParameters).result = .ok tool) :
    ∃ body ds, bodyOf c operation = .ok body ∧ declarationsOf c operation pathParameters = .ok ds ∧
      ∀ n, n ≠ Upload.filePath →
        (n ∈ tool.arguments.required.getD [] ↔
          (∃ bs : List UInt8, Value.scalar (.bytes bs) ∈ bodyRequired body ∧
            String.fromUTF8? ⟨bs.toArray⟩ = some n) ∨
          ¬ Withholds c.settings (namedParameters c ds body) body n ∧
            (Value.text n ∈ bodyRequired body ∨ ∃ d ∈ ds, d.name = n ∧ Requires c d)) ∧
        (n ∈ tool.arguments.required.getD [] →
          ((∃ d ∈ ds, d.name = n ∧ Requires c d) → ∃ d schema location,
            d.name = n ∧ Survives c ds body d schema location ∧
              isRequired d schema location = true) →
          (∃ v ∈ bodyRequired body, Field.text v = .ok n) ∨
          ∃ d schema location, d.name = n ∧ Survives c ds body d schema location ∧
            isRequired d schema location = true ∧ tool.Publishes n schema location) := by
  obtain ⟨b, ds, earlier, name, description, s, hbody, hds, hs, hrequired, htexts, hearlier,
    hassemble⟩ := compile_required_inv h
  refine ⟨_, ds, hbody, hds, fun n hn => ?_⟩
  have hiff := required_iff hs hrequired htexts hassemble hn
  rw [hearlier] at hiff
  refine ⟨hiff, fun hmem hlast => ?_⟩
  rcases hiff.1 hmem with ⟨bs, hbs, hutf8⟩ | ⟨hshown, htext | hdeclared⟩
  · refine Or.inl ⟨_, hbs, ?_⟩
    simp [Field.text, Value.text?, hutf8]
  · exact Or.inl ⟨_, htext, rfl⟩
  · obtain ⟨d, schema, location, rfl, hsurvives, hr⟩ := hlast hdeclared
    exact Or.inr ⟨d, schema, location, rfl, hsurvives, hr,
      hsurvives.publishes hs hshown hassemble⟩

/-- A part of the path that is required. -/
def requiredInPath : Declaration where
  name := "id"
  place := "path"
  fields := [(.text "name", .text "id"), (.text "in", .text "path"), (.text "required", .bool true)]

/-- A parameter of the query that has the same name and is not required. -/
def optionalInQuery : Declaration where
  name := "id"
  place := "query"
  fields := [(.text "name", .text "id"), (.text "in", .text "query")]

/-- An operation with two declared parameters. -/
def twiceDeclared (first second : Declaration) : Value :=
  .record [("operationId", .text "op"),
    ("parameters", .list [.map first.fields, .map second.fields])]

/-- The tool of an operation that declares `id` twice, for the location that counts. -/
def twiceDeclaredTool (location : Location) : Tool where
  name := "op"
  arguments := { properties := [("id", .map [])], required := some ["id"] }
  recipe := { method := "GET", url := "/a", parameters := [{ name := "id", location }] }

/-- Where the last declaration requires the name, it is published. -/
theorem compile_required_by_last :
    (twiceDeclaredTool .path).Publishes "id" (.map []) .path := by
  obtain ⟨body, ds, hbody, hds, h⟩ := compile_required ⟨.map [], {}, ""⟩ (.text "/a") "get"
    (twiceDeclared optionalInQuery requiredInPath) (.list []) (twiceDeclaredTool .path) (by rfl)
  obtain rfl : body = .null := (Except.ok.inj hbody).symm
  obtain rfl : ds = [optionalInQuery, requiredInPath] := (Except.ok.inj hds).symm
  have hsurvives : Survives ⟨.map [], {}, ""⟩ [optionalInQuery, requiredInPath] .null requiredInPath
      (.map []) .path :=
    ⟨by rfl, ⟨[optionalInQuery], [], rfl, by simp⟩, by simp [bodyProperties]⟩
  rcases (h "id" (by decide)).2 (by simp [twiceDeclaredTool])
    (fun _ => ⟨requiredInPath, _, _, rfl, hsurvives, by rfl⟩) with ⟨v, hv, -⟩ | h
  · cases hv
  · obtain ⟨d, schema, location, hname, hd, hrequired, hpublishes⟩ := h
    have hd' : d = requiredInPath := by
      rcases List.mem_cons.1 hd.mem with rfl | hmem
      · cases hrequired
      · exact List.mem_singleton.1 hmem
    subst hd'
    obtain ⟨-, heq⟩ := Prod.mk.inj (Option.some.inj (hd.named.symm.trans hsurvives.named))
    obtain ⟨rfl, rfl⟩ := Prod.mk.inj heq
    exact hpublishes

/-- So a tool may require a name that the last declaration of it does not. -/
theorem not_compile_required_by_last :
    ¬ ∀ (c : Compiler) (path : Scalar) (method : String) (operation pathParameters : Value)
      (tool : Tool), (compile c path method operation pathParameters).result = .ok tool →
      ∃ body ds, bodyOf c operation = .ok body ∧ declarationsOf c operation pathParameters = .ok ds ∧
        ∀ n ∈ tool.arguments.required.getD [], n ≠ Upload.filePath →
          (∃ v ∈ bodyRequired body, Field.text v = .ok n) ∨
          ∃ d schema location, d.name = n ∧ Survives c ds body d schema location ∧
            isRequired d schema location = true ∧ tool.Publishes n schema location := by
  intro h
  obtain ⟨body, ds, hbody, hds, h⟩ := h ⟨.map [], {}, ""⟩ (.text "/a") "get"
    (twiceDeclared requiredInPath optionalInQuery) (.list []) (twiceDeclaredTool .query) (by rfl)
  obtain rfl : body = .null := (Except.ok.inj hbody).symm
  obtain rfl : ds = [requiredInPath, optionalInQuery] := (Except.ok.inj hds).symm
  rcases h "id" (by simp [twiceDeclaredTool]) (by decide) with ⟨v, hv, -⟩ | h
  · cases hv
  · obtain ⟨d, schema, location, -, hd, hrequired, hpublishes⟩ := h
    have hlocation : Location.query = location :=
      hpublishes.location { name := "id", location := .query } (by simp [twiceDeclaredTool]) rfl
    subst hlocation
    rcases List.mem_cons.1 hd.mem with rfl | hmem
    · have hpath : ofDeclaration ⟨.map [], {}, ""⟩ requiredInPath =
          some (.text "id", .map [], .path) := by rfl
      rw [hd.named] at hpath
      cases hpath
    · obtain rfl := List.mem_singleton.1 hmem
      cases hrequired

end Operation

end ToolCatalog
