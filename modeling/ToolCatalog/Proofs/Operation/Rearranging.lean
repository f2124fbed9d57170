import ToolCatalog.Proofs.Operation.Uniqueness
import ToolCatalog.Proofs.Operation.Survival
import ToolCatalog.Proofs.Value.Rearranged

/-!
# Declared parameters in another order

The order in which parameters are declared shows in a tool as the order of what it publishes, and
nowhere else, as long as parameters of one name keep their order.  `Shifts` says that two lists of
declarations differ by the place of one of them, which is the only one of its name.

* `compile_of_shifts`: operations whose collected declarations differ so have the same tool up to order.
-/

namespace ToolCatalog

/-! ## Named entries -/

namespace Field

/-- Writing under a name puts it in place of what was there: up to order, in front of the others. -/
theorem put_perm_cons {fields : List (String × Value)} (h : (fields.map (·.1)).Nodup) (name : String)
    (v : Value) :
    (put fields name v).Perm ((name, v) :: fields.filter fun e => e.1 != name) := by
  induction fields with
  | nil => exact .refl _
  | cons e rest ih =>
    obtain ⟨other, w⟩ := e
    rw [List.map_cons, List.nodup_cons] at h
    unfold put
    split
    · next heq =>
      subst heq
      have hrest : rest.filter (fun e => e.1 != name) = rest := by
        refine List.filter_eq_self.2 fun e he => ?_
        simp only [bne_iff_ne, ne_eq]
        rintro rfl
        exact h.1 (List.mem_map.2 ⟨e, he, rfl⟩)
      rw [List.filter_cons, if_neg (by simp), hrest]
    · next hne =>
      rw [List.filter_cons, if_pos (by simpa using fun heq => hne heq.symm)]
      exact ((ih h.2).cons _).trans (.swap _ _ _)

theorem nodup_put {fields : List (String × Value)} (h : (fields.map (·.1)).Nodup) (name : String)
    (v : Value) : ((put fields name v).map (·.1)).Nodup := by
  rw [((put_perm_cons h name v).map _).nodup_iff, List.map_cons, List.nodup_cons]
  refine ⟨?_, h.sublist (List.filter_sublist.map _)⟩
  simp

theorem put_perm {fields fields' : List (String × Value)} (h : fields.Perm fields')
    (hnodup : (fields.map (·.1)).Nodup) (name : String) (v : Value) :
    (put fields name v).Perm (put fields' name v) :=
  (put_perm_cons hnodup name v).trans (((h.filter _).cons _).trans
    (put_perm_cons ((h.map _).nodup_iff.1 hnodup) name v).symm)

/-- Writing under two names in one order or in the other. -/
theorem put_put_perm {fields : List (String × Value)} (h : (fields.map (·.1)).Nodup)
    {name other : String} (hne : name ≠ other) (v w : Value) :
    (put (put fields name v) other w).Perm (put (put fields other w) name v) := by
  have hput : ∀ {name other : String} (v w : Value), name ≠ other →
      (put (put fields name v) other w).Perm ((other, w) :: (name, v) ::
        (fields.filter fun e => e.1 != name).filter fun e => e.1 != other) := by
    intro name other v w hne
    refine (put_perm_cons (nodup_put h name v) other w).trans (.cons _ ?_)
    refine ((put_perm_cons h name v).filter _).trans ?_
    rw [List.filter_cons, if_pos (by simpa using hne)]
  refine (hput v w hne).trans (.trans (.swap _ _ _) (.trans ?_ (hput w v hne.symm).symm))
  rw [List.filter_filter, List.filter_filter, List.filter_congr fun e _ => Bool.and_comm _ _]

/-- Write a value under the name of a key. -/
def write (fields : List (String × Value)) (e : Scalar × Value) :
    Except Fault (List (String × Value)) := do
  return put fields (← key e.1) e.2

theorem foldlM_write_text (es : Keyed Value) (fields : List (String × Value)) (name : String)
    (v : Value) :
    ((.text name, v) :: es).foldlM write fields = es.foldlM write (put fields name v) := rfl

theorem write_ok {fields next : List (String × Value)} {e : Scalar × Value}
    (h : write fields e = .ok next) : ∃ name, key e.1 = .ok name ∧ next = put fields name e.2 := by
  obtain ⟨name, hname, h⟩ := bind_eq_ok.1 h
  exact ⟨name, hname, (Except.ok.inj h).symm⟩

theorem write_perm {fields fields' next : List (String × Value)} {e : Scalar × Value}
    (hperm : fields.Perm fields') (hnodup : (fields.map (·.1)).Nodup)
    (h : write fields e = .ok next) :
    (next.map (·.1)).Nodup ∧ ∃ next', write fields' e = .ok next' ∧ next.Perm next' := by
  obtain ⟨name, hname, rfl⟩ := write_ok h
  refine ⟨nodup_put hnodup name e.2, put fields' name e.2, ?_, put_perm hperm hnodup name e.2⟩
  exact bind_eq_ok.2 ⟨name, hname, rfl⟩

/-- Writing one entry after another to fields in another order. -/
theorem foldlM_write_perm {es : Keyed Value} {acc acc' fields : List (String × Value)}
    (hperm : acc.Perm acc') (hnodup : (acc.map (·.1)).Nodup)
    (h : es.foldlM write acc = .ok fields) :
    ∃ fields', es.foldlM write acc' = .ok fields' ∧ fields.Perm fields' := by
  induction es generalizing acc acc' with
  | nil =>
    obtain rfl := Except.ok.inj h
    exact ⟨acc', rfl, hperm⟩
  | cons e rest ih =>
    rw [List.foldlM_cons] at h
    obtain ⟨next, hnext, h⟩ := bind_eq_ok.1 h
    obtain ⟨hnodup', next', hnext', hperm'⟩ := write_perm hperm hnodup hnext
    obtain ⟨fields', hfields', hp⟩ := ih hperm' hnodup' h
    exact ⟨fields', by rw [List.foldlM_cons]; exact bind_eq_ok.2 ⟨next', hnext', hfields'⟩, hp⟩

/-- The same for entries in another order. -/
theorem foldlM_write_rearranged {es es' : Keyed Value} (hes : Keyed.Rearranged es es')
    {acc acc' fields : List (String × Value)} (hperm : acc.Perm acc')
    (hnodup : (acc.map (·.1)).Nodup) (h : es.foldlM write acc = .ok fields) :
    ∃ fields', es'.foldlM write acc' = .ok fields' ∧ fields.Perm fields' := by
  induction hes generalizing acc acc' fields with
  | nil => exact foldlM_write_perm hperm hnodup h
  | cons e _ ih =>
    rw [List.foldlM_cons] at h
    obtain ⟨next, hnext, h⟩ := bind_eq_ok.1 h
    obtain ⟨hnodup', next', hnext', hperm'⟩ := write_perm hperm hnodup hnext
    obtain ⟨fields', hfields', hp⟩ := ih hperm' hnodup' h
    exact ⟨fields', by rw [List.foldlM_cons]; exact bind_eq_ok.2 ⟨next', hnext', hfields'⟩, hp⟩
  | @swap s t a b es hst =>
    have hperm' : (put (put acc s a) t b).Perm (put (put acc' t b) s a) :=
      (put_put_perm hnodup hst a b).trans
        (put_perm (put_perm hperm hnodup t b) (nodup_put hnodup t b) s a)
    rw [foldlM_write_text, foldlM_write_text] at h ⊢
    exact foldlM_write_perm hperm' (nodup_put (nodup_put hnodup s a) t b) h
  | trans _ _ ih ih' =>
    obtain ⟨fields', hfields', hp⟩ := ih (.refl acc) hnodup h
    obtain ⟨fields'', hfields'', hp'⟩ := ih' hperm hnodup hfields'
    exact ⟨fields'', hfields'', hp.trans hp'⟩

/-- **Entries in another order** are named in another order. -/
theorem named_rearranged {es es' : Keyed Value} (hes : Keyed.Rearranged es es')
    {fields : List (String × Value)} (h : named es = .ok fields) :
    ∃ fields', named es' = .ok fields' ∧ fields.Perm fields' :=
  foldlM_write_rearranged hes (.refl []) List.nodup_nil h

end Field

/-- Two tools publish the same, up to the order of their arguments, of the required ones and of the
parameters that they send. -/
structure Tool.PublishesSame (t u : Tool) : Prop where
  name : t.name = u.name
  description : t.description = u.description
  type : t.arguments.type = u.arguments.type
  properties : t.arguments.properties.Perm u.arguments.properties
  required : (t.arguments.required.getD []).Perm (u.arguments.required.getD [])
  method : t.recipe.method = u.recipe.method
  url : t.recipe.url = u.recipe.url
  bodyType : t.recipe.bodyType = u.recipe.bodyType
  parameters : t.recipe.parameters.Perm u.recipe.parameters

namespace Operation

/-! ## The tool of rearranged parameters -/

section

variable {c : Compiler} {body : Option Body} {s s' : Signature} {all all' : Keyed (Value × Location)}

/-- Names can be looked up among the removed ones exactly if none of them is a collection. -/
theorem withoutRemoved_ok_iff {settings : Settings} {names : List Value} :
    (∃ kept, withoutRemoved settings names = .ok kept) ↔ ∀ v ∈ names, v.isKey = true := by
  induction names with
  | nil => exact ⟨by simp, fun _ => ⟨[], rfl⟩⟩
  | cons name rest ih =>
    rw [List.forall_mem_cons, ← ih]
    constructor
    · rintro ⟨kept, h⟩
      unfold withoutRemoved at h
      split at h
      · obtain ⟨kept', hkept', -⟩ := bind_eq_ok.1 h
        exact ⟨rfl, kept', hkept'⟩
      · split at h
        · next hkey =>
          obtain ⟨kept', hkept', -⟩ := bind_eq_ok.1 h
          exact ⟨hkey, kept', hkept'⟩
        · cases h
    · rintro ⟨hkey, kept, hkept⟩
      unfold withoutRemoved
      split
      · exact ⟨_, bind_eq_ok.2 ⟨kept, hkept, rfl⟩⟩
      · rw [if_pos hkey]
        exact ⟨_, bind_eq_ok.2 ⟨kept, hkept, rfl⟩⟩

theorem withoutRemoved_perm {settings : Settings} {names names' kept : List Value}
    (h : names.Perm names') (hkept : withoutRemoved settings names = .ok kept) :
    ∃ kept', withoutRemoved settings names' = .ok kept' ∧ kept.Perm kept' := by
  obtain ⟨kept', hkept'⟩ := withoutRemoved_ok_iff.2 fun v hv =>
    withoutRemoved_ok_iff.1 ⟨kept, hkept⟩ v (h.mem_iff.2 hv)
  refine ⟨kept', hkept', ?_⟩
  rw [withoutRemoved_ok hkept, withoutRemoved_ok hkept']
  exact h.filter _

theorem hidesParameters_rearranged (h : Keyed.Rearranged all all') (settings : Settings)
    (body : Value) : hidesParameters settings all body = hidesParameters settings all' body := by
  have hany : (Keyed.mapValues Prod.snd all).any (·.2 == Location.file) =
      (Keyed.mapValues Prod.snd all').any (·.2 == Location.file) := (h.mapValues _).perm.any_eq
  rw [hidesParameters, hidesParameters, Upload.isUpload, Upload.isUpload, hany, h.has]

/-- **What is presented of rearranged parameters** is rearranged, and the same is rebuilt and kept from
being sent. -/
theorem presented_rearranged (hs : s.Holds all) (hs' : s'.Holds all')
    (hall : Keyed.Rearranged all all') (hrequired : s.required.Perm s'.required) :
    Keyed.Rearranged (presented c body s).properties (presented c body s').properties ∧
      (presented c body s).required.Perm (presented c body s').required ∧
      (presented c body s).derived = (presented c body s').derived := by
  have hproperties : Keyed.Rearranged s.properties s'.properties := by
    rw [hs.properties, hs'.properties]
    exact hall.mapValues _
  cases h : hidesParameters c.settings all ((body.map (·.schema)).getD .null) with
  | false =>
    rw [presented_of_not_hides hs h,
      presented_of_not_hides hs' ((hidesParameters_rearranged hall _ _).symm.trans h)]
    exact ⟨hproperties, hrequired, rfl⟩
  | true =>
    have hhidden : Upload.hidden c.settings s.properties = Upload.hidden c.settings s'.properties := by
      unfold Upload.hidden
      simp only [hproperties.has]
    rw [presented_of_hides hs h,
      presented_of_hides hs' ((hidesParameters_rearranged hall _ _).symm.trans h), hhidden]
    exact ⟨(hproperties.filter _).put _ _, (hrequired.filter _).append_right _, rfl⟩

/-- **Rearranged parameters make the same tool** up to order. -/
theorem assemble_rearranged {name description : Value} {method : String} {path : Scalar} {tool : Tool}
    (hs : s.Holds all) (hs' : s'.Holds all') (hall : Keyed.Rearranged all all')
    (hrequired : s.required.Perm s'.required)
    (h : assemble c name description method path body s = .ok tool) :
    ∃ tool', assemble c name description method path body s' = .ok tool' ∧
      tool.PublishesSame tool' := by
  obtain ⟨required, texts, place, hkept, htexts, hplace, hname, hdescription, hproperties,
    hparameters, htool⟩ := assemble_inv h
  obtain ⟨hpresented, hnames, hderived⟩ : Keyed.Rearranged (presented c body s).properties
      (presented c body s').properties ∧ _ := presented_rearranged hs hs' hall hrequired
  obtain ⟨required', hkept', hperm⟩ := withoutRemoved_perm hnames hkept
  obtain ⟨texts', htexts', hperm'⟩ := mapM_perm hperm htexts
  obtain ⟨properties', hproperties', hasked⟩ :=
    Field.named_rearranged (hpresented.filter _) hproperties
  have hsent : (sent c.settings (presented c body s)).Perm (sent c.settings (presented c body s')) := by
    rw [sent_presented hs, sent_presented hs']
    exact ((hall.filter _).mapValues _).perm
  have hwire : (fun e : Scalar × Location =>
        wireParameter s.properties (presented c body s).derived e.1 e.2) =
      fun e => wireParameter s'.properties (presented c body s').derived e.1 e.2 := by
    have hfind : ∀ k, Keyed.find? s.properties k = Keyed.find? s'.properties k := by
      intro k
      rw [hs.properties, hs'.properties]
      exact (hall.mapValues _).find? k
    funext e
    rw [wireParameter, wireParameter, hfind, hderived]
  obtain ⟨parameters', hparameters', hsends⟩ := mapM_perm hsent hparameters
  rw [hwire] at hparameters'
  refine ⟨_, assemble_of_steps hkept' hparameters' hproperties' htexts' hplace hname hdescription, ?_⟩
  have hgetD : ∀ names : List String, (if names.isEmpty then none else some names).getD [] = names := by
    intro names
    cases names <;> rfl
  rw [htool]
  refine ⟨rfl, rfl, rfl, hasked, ?_, rfl, rfl, rfl, hsends⟩
  simp only [hgetD]
  exact hperm'

end

/-! ## Declarations that differ by the place of one -/

/-- Two lists of declarations differ at most by the place of one that shares its name with no other. -/
def Shifts (ds ds' : List Declaration) : Prop :=
  ds = ds' ∨ ∃ d before after before' after', ds = before ++ d :: after ∧
    ds' = before' ++ d :: after' ∧ before ++ after = before' ++ after' ∧
    ∀ e ∈ before ++ after, e.name ≠ d.name

theorem Shifts.mem_iff {ds ds' : List Declaration} (h : Shifts ds ds') (e : Declaration) :
    e ∈ ds ↔ e ∈ ds' := by
  rcases h with rfl | ⟨d, before, after, before', after', rfl, rfl, heq, -⟩
  · exact Iff.rfl
  · have hmem := congrArg (e ∈ ·) heq
    simp only [List.mem_append, List.mem_cons, eq_iff_iff] at hmem ⊢
    rw [or_left_comm, hmem, or_left_comm]

section

variable {c : Compiler}

/-- A declaration of a name of its own may be named first. -/
theorem namedParameters_move (body : Value) {d : Declaration} {before after : List Declaration}
    (h : ∀ e ∈ before ++ after, e.name ≠ d.name) :
    Keyed.Rearranged (namedParameters c (before ++ d :: after) body)
      (namedParameters c (d :: (before ++ after)) body) := by
  rw [namedParameters, namedParameters, Keyed.ofList, Keyed.ofList, List.filterMap_append]
  cases hd : ofDeclaration c d with
  | none =>
    rw [List.filterMap_cons_none hd, List.filterMap_cons_none hd, List.filterMap_append]
    exact .refl _
  | some e =>
    obtain ⟨k, a⟩ := e
    obtain rfl := ofDeclaration_name hd
    rw [List.filterMap_cons_some hd, List.filterMap_cons_some hd, List.filterMap_append,
      List.append_assoc, List.cons_append, List.cons_append, List.append_assoc]
    refine Keyed.Rearranged.putAll_move [] _ _ a fun e he => ?_
    obtain ⟨d', hd', heq⟩ := List.mem_filterMap.1 he
    exact ⟨d'.name, ofDeclaration_name heq, h d' (List.mem_append_left _ hd')⟩

/-- **Shifted declarations** name rearranged parameters. -/
theorem Shifts.rearranged {ds ds' : List Declaration} (h : Shifts ds ds') (body : Value) :
    Keyed.Rearranged (namedParameters c ds body) (namedParameters c ds' body) := by
  rcases h with rfl | ⟨d, before, after, before', after', rfl, rfl, heq, hname⟩
  · exact .refl _
  · refine (namedParameters_move body hname).trans ?_
    rw [heq] at hname ⊢
    exact (namedParameters_move body hname).symm

/-- Declared parameters require texts, each once. -/
theorem nodup_required_addDeclared {operation : String} {ds : List Declaration} {r : Signature}
    (h : (addDeclared c operation {} ds).result = .ok r) :
    r.required.Nodup ∧ ∀ v ∈ r.required, ∃ t, v = .text t := by
  refine addDeclared_induction
    (p := fun s => s.required.Nodup ∧ ∀ v ∈ s.required, ∃ t, v = .text t)
    (fun s d schema location _ _ hs => ?_) ⟨List.nodup_nil, by simp⟩ h
  refine ⟨?_, (mem_required_declare d schema location hs.2 "").1⟩
  unfold Signature.declare
  simp only
  split
  · show (Value.union s.required [.text d.name]).Nodup
    show (Value.addNew s.required (.text d.name)).Nodup
    unfold Value.addNew
    split
    · exact hs.1
    · next hamong =>
      refine List.nodup_append.2 ⟨hs.1, by simp, fun v hv w hw heq => hamong ?_⟩
      rw [heq, List.mem_singleton.1 hw] at hv
      exact List.any_eq_true.2 ⟨_, hv, Value.same_scalar_self _⟩
  · exact hs.1

/-- Declarations in another order require the same names. -/
theorem required_addDeclared_perm {operation : String} {ds ds' : List Declaration} {r r' : Signature}
    (hmem : ∀ d, d ∈ ds ↔ d ∈ ds') (h : (addDeclared c operation {} ds).result = .ok r)
    (h' : (addDeclared c operation {} ds').result = .ok r') : r.required.Perm r'.required := by
  obtain ⟨hnodup, htexts⟩ := nodup_required_addDeclared h
  obtain ⟨hnodup', htexts'⟩ := nodup_required_addDeclared h'
  have htext : ∀ t, .text t ∈ r.required ↔ .text t ∈ r'.required := by
    intro t
    rw [mem_required_addDeclared (by simp) h, mem_required_addDeclared (by simp) h']
    simp only [hmem]
  refine (List.perm_ext_iff_of_nodup hnodup hnodup').2 fun v => ⟨fun hv => ?_, fun hv => ?_⟩
  · obtain ⟨t, rfl⟩ := htexts v hv
    exact (htext t).1 hv
  · obtain ⟨t, rfl⟩ := htexts' v hv
    exact (htext t).2 hv

/-- **The signature of shifted declarations** has rearranged parameters and requires the same names. -/
theorem Shifts.addBody_ok {operation : String} {ds ds' : List Declaration} {body : Value}
    {declared s : Signature} (h : Shifts ds ds')
    (hdeclared : (addDeclared c operation {} ds).result = .ok declared)
    (hs : (addBody operation declared body).result = .ok s) :
    ∃ declared' s', (addDeclared c operation {} ds').result = .ok declared' ∧
      (addBody operation declared' body).result = .ok s' ∧
      s.Holds (namedParameters c ds body) ∧ s'.Holds (namedParameters c ds' body) ∧
      s.required.Perm s'.required := by
  obtain ⟨declared', hdeclared'⟩ := (addDeclared_ok_iff operation {}).2 fun d hd =>
    (addDeclared_ok_iff operation {}).1 ⟨declared, hdeclared⟩ d ((h.mem_iff d).2 hd)
  obtain ⟨s', hs'⟩ := addBody_ok_of_ok hs declared'
  have hholds : ∀ {ds : List Declaration} {declared s : Signature},
      (addDeclared c operation {} ds).result = .ok declared →
      (addBody operation declared body).result = .ok s → s.Holds (namedParameters c ds body) := by
    intro ds declared s hdeclared hs
    have hadded := addBody_holds
      (addDeclared_holds (show Signature.Holds {} [] from ⟨rfl, rfl⟩) hdeclared) hs
    rwa [namedParameters, Keyed.ofList, Keyed.putAll, List.foldl_append]
  refine ⟨declared', s', hdeclared', hs', hholds hdeclared hs, hholds hdeclared' hs', ?_⟩
  rw [required_addBody hs, required_addBody hs']
  exact Value.union_perm (required_addDeclared_perm h.mem_iff hdeclared hdeclared') _

/-- **Shifted declarations make the same tool** up to order. -/
theorem compile_of_shifts {path : Scalar} {method : String} {fields : Keyed Value}
    {ps ps' qs qs' : List Value} {tool : Tool}
    (hshifts : ∀ operation ds, (collectFrom c.settings c.document operation [] (qs ++ ps)).result =
      .ok ds → ∃ ds', (collectFrom c.settings c.document operation [] (qs' ++ ps')).result = .ok ds' ∧
        Shifts ds ds')
    (h : (compile c path method (withParameters fields ps) (.list qs)).result = .ok tool) :
    ∃ tool', (compile c path method (withParameters fields ps') (.list qs')).result = .ok tool' ∧
      tool.PublishesSame tool' := by
  have hbeside : AgreeBeside (Keyed.put fields (.text "parameters") (.list ps'))
      (Keyed.put fields (.text "parameters") (.list ps)) :=
    (agreeBeside_put _ _).trans (agreeBeside_put _ _).symm
  obtain ⟨es, name, body, s, hes, hname, hbody, hs, hassemble⟩ := compile_inv h
  obtain rfl := Except.ok.inj hes
  rw [result_signature (field_parameters_put _ _)] at hs
  obtain ⟨ds, hds, hs⟩ := bind_eq_ok.1 hs
  obtain ⟨declared, hdeclared, hs⟩ := bind_eq_ok.1 hs
  obtain ⟨ds', hds', hshift⟩ := hshifts name ds hds
  obtain ⟨declared', s', hdeclared', hs', hholds, hholds', hrequired⟩ :=
    hshift.addBody_ok hdeclared hs
  obtain ⟨tool', htool', hsame⟩ :=
    assemble_rearranged hholds hholds' (hshift.rearranged _) hrequired hassemble
  refine ⟨tool', ?_, hsame⟩
  rw [withParameters, result_compile, hbeside.identifier?, hbeside.description, hbeside.requestBody,
    hname]
  refine bind_eq_ok.2 ⟨body, hbody, bind_eq_ok.2 ⟨s', ?_, htool'⟩⟩
  rw [result_signature (field_parameters_put _ _)]
  exact bind_eq_ok.2 ⟨ds', hds', bind_eq_ok.2 ⟨declared', hdeclared', hs'⟩⟩

end

end Operation

end ToolCatalog
