import ToolCatalog.Proofs.Operation.Rearranging
import ToolCatalog.Proofs.Operation.Skipping

/-!
# Parameters that an operation declares again

A parameter of the path may be declared again by the operation, for the same name and the same place.
Then the later declaration takes the place of the earlier one, so the earlier may be left out: the order of
the declarations is all that changes.  But an excluded entry is left out before it can take any place, and
what the path declares stays.

* `compile_overrides`: when what an operation declares again may be deleted from the path, and what is
  compiled where it may not.
-/

namespace ToolCatalog.Operation

/-! ## Entries for one name and one place -/

/-- Whether an entry leads to a mapping with a name that is excluded. -/
def isExcluded (settings : Settings) (document entry : Value) : Bool :=
  match named? document entry with
  | some (name, fields) => settings.excludes (.text name) (.map fields)
  | none => false

/-- The entries that are not declared for a name and a place. -/
def withoutDeclared (document : Value) (name place : String) (entries : List Value) : List Value :=
  entries.filter fun entry => !isDeclaredAs document name place entry

/-- Whether a declaration is for a name and a place. -/
def isFor (name place : String) (d : Declaration) : Bool := d.name == name && d.place == place

variable {settings : Settings} {document : Value} {operation name place : String}

theorem isFor_iff {d : Declaration} : isFor name place d = true ↔ d.name = name ∧ d.place = place := by
  simp [isFor]

theorem isFor_congr (d e : Declaration) (hname : d.name = e.name) (hplace : d.place = e.place) :
    isFor name place d = isFor name place e := by
  rw [isFor, isFor, hname, hplace]

/-- **What becomes of an entry with a name and a place**: it is declared unless it is excluded. -/
theorem declare_of_declaration {entry : Value} {d : Declaration}
    (h : declaration? document entry = some d) :
    (declare settings document operation entry).result =
      .ok (if isExcluded settings document entry then none else some d) := by
  obtain ⟨hnamed, hplace⟩ := declaration?_eq_some.1 h
  rw [result_declare, isExcluded, hnamed]
  simp only [hplace]
  split <;> rfl

theorem withoutDeclared_append (entries entries' : List Value) :
    withoutDeclared document name place (entries ++ entries') =
      withoutDeclared document name place entries ++ withoutDeclared document name place entries' :=
  List.filter_append ..

theorem withoutDeclared_twice (entries : List Value) :
    withoutDeclared document name place (withoutDeclared document name place entries) =
      withoutDeclared document name place entries := by
  simp [withoutDeclared, List.filter_filter]

/-- Whatever an entry for the name and the place declares is for them. -/
theorem declare_of_isDeclaredAs {entry : Value} (h : isDeclaredAs document name place entry = true) :
    (declare settings document operation entry).result = .ok none ∨
      ∃ d, (declare settings document operation entry).result = .ok (some d) ∧
        isFor name place d = true := by
  obtain ⟨d, hd, hfor⟩ := isDeclaredAs_iff.1 h
  rw [declare_of_declaration hd]
  cases isExcluded settings document entry with
  | true => exact Or.inl rfl
  | false => exact Or.inr ⟨d, rfl, isFor_iff.2 hfor⟩

theorem isDeclaredAs_of_declare {entry : Value} {d : Declaration}
    (h : (declare settings document operation entry).result = .ok (some d)) :
    isDeclaredAs document name place entry = isFor name place d := by
  rw [isDeclaredAs, declare_eq_some h]
  rfl

/-! ## Collecting for one name and one place -/

/-- **Without the entries for a name and a place** everything else is collected. -/
theorem collectFrom_withoutDeclared (done : List Declaration) (entries : List Value) :
    (collectFrom settings document operation (done.filter fun d => !isFor name place d)
        (withoutDeclared document name place entries)).result =
      (collectFrom settings document operation done entries).result.map
        (List.filter fun d => !isFor name place d) := by
  refine collectFrom_filter operation (fun d e hname hplace => ?_) (fun entry _ hentry => ?_)
    (fun entry _ hentry d hd => ?_) done
  · rw [isFor_congr d e hname hplace]
  · rw [Bool.not_eq_false'] at hentry
    exact (declare_of_isDeclaredAs hentry).imp_right fun ⟨d, hd, hfor⟩ => ⟨d, hd, by rw [hfor]; rfl⟩
  · rwa [isDeclaredAs_of_declare hd] at hentry

/-- **Entries that declare nothing** may be left out. -/
theorem collectFrom_withoutExcluded {entries : List Value}
    (h : ∀ entry ∈ entries, isDeclaredAs document name place entry = true →
      isExcluded settings document entry = true) (done : List Declaration) :
    (collectFrom settings document operation done
        (withoutDeclared document name place entries)).result =
      (collectFrom settings document operation done entries).result := by
  have hdeclares : ∀ entry ∈ entries, (!isDeclaredAs document name place entry) = false →
      (declare settings document operation entry).result = .ok none := by
    intro entry hentry hdeclared
    rw [Bool.not_eq_false'] at hdeclared
    obtain ⟨d, hd, -⟩ := isDeclaredAs_iff.1 hdeclared
    rw [declare_of_declaration hd, h entry hentry hdeclared]
    rfl
  have hall : ∀ ds : List Declaration, (ds.filter fun _ => true) = ds := fun ds =>
    List.filter_eq_self.2 fun _ _ => rfl
  have hfilter : (collectFrom settings document operation (done.filter fun _ => true)
      (withoutDeclared document name place entries)).result =
      (collectFrom settings document operation done entries).result.map
        (List.filter fun _ => true) :=
    collectFrom_filter operation (fun _ _ _ _ => rfl)
      (fun entry hentry hdeclared => Or.inl (hdeclares entry hentry hdeclared))
      (fun _ _ _ _ _ => rfl) done
  rw [hall] at hfilter
  rw [hfilter]
  cases (collectFrom settings document operation done entries).result with
  | error f => rfl
  | ok ds => rw [Except.map, hall]

theorem find?_replace (d : Declaration) (ds : List Declaration) :
    (replace d ds).find? (isFor name place) =
      if isFor name place d then some d else ds.find? (isFor name place) := by
  induction ds with
  | nil =>
    rw [replace, List.find?_cons]
    cases isFor name place d <;> rfl
  | cons e rest ih =>
    rw [replace_cons]
    split
    · next hsame =>
      rw [List.find?_cons, List.find?_cons, isFor_congr e d hsame.1 hsame.2]
      cases isFor name place d <;> rfl
    · next hsame =>
      rw [List.find?_cons, List.find?_cons, ih]
      cases he : isFor name place e with
      | false => rfl
      | true =>
        cases hd : isFor name place d with
        | false => rfl
        | true =>
          obtain ⟨hname, hplace⟩ := isFor_iff.1 he
          obtain ⟨hname', hplace'⟩ := isFor_iff.1 hd
          exact absurd ⟨hname.trans hname'.symm, hplace.trans hplace'.symm⟩ hsame

/-- No two of the declarations are for the same name and the same place. -/
def AllDiffer (ds : List Declaration) : Prop :=
  ds.Pairwise fun d e => ¬ (d.name = e.name ∧ d.place = e.place)

theorem AllDiffer.replace {ds : List Declaration} (h : AllDiffer ds) (d : Declaration) :
    AllDiffer (replace d ds) := by
  induction ds with
  | nil => exact List.pairwise_singleton _ _
  | cons e rest ih =>
    obtain ⟨he, hrest⟩ := List.pairwise_cons.1 h
    rw [replace_cons]
    split
    · next hsame =>
      refine List.pairwise_cons.2 ⟨fun f hf => ?_, hrest⟩
      rw [← hsame.1, ← hsame.2]
      exact he f hf
    · next hsame =>
      refine List.pairwise_cons.2 ⟨fun f hf => ?_, ih hrest⟩
      rcases mem_replace hf with hf | rfl
      · exact he f hf
      · exact hsame

theorem AllDiffer.collectFrom {done ds : List Declaration} {entries : List Value}
    (hdone : AllDiffer done)
    (h : (collectFrom settings document operation done entries).result = .ok ds) : AllDiffer ds := by
  induction entries generalizing done with
  | nil =>
    obtain rfl := Except.ok.inj h
    exact hdone
  | cons entry rest ih =>
    rw [result_collectFrom_cons] at h
    obtain ⟨declared, -, h⟩ := bind_eq_ok.1 h
    cases declared with
    | none => exact ih hdone h
    | some d => exact ih (hdone.replace d) h

/-- What is collected for a name and a place is the same whatever was there before, if one of the entries
declares it. -/
theorem find?_collectFrom {done done' ds ds' : List Declaration} {entries : List Value}
    (h : (collectFrom settings document operation done entries).result = .ok ds)
    (h' : (collectFrom settings document operation done' entries).result = .ok ds')
    (hdone : done.find? (isFor name place) = done'.find? (isFor name place) ∨
      ∃ entry ∈ entries, isDeclaredAs document name place entry = true ∧
        isExcluded settings document entry = false) :
    ds.find? (isFor name place) = ds'.find? (isFor name place) := by
  induction entries generalizing done done' with
  | nil =>
    obtain rfl := Except.ok.inj h
    obtain rfl := Except.ok.inj h'
    exact hdone.resolve_right (by simp)
  | cons entry rest ih =>
    rw [result_collectFrom_cons] at h h'
    obtain ⟨declared, hdeclared, h⟩ := bind_eq_ok.1 h
    obtain ⟨declared', hdeclared', h'⟩ := bind_eq_ok.1 h'
    rw [hdeclared] at hdeclared'
    obtain rfl := Except.ok.inj hdeclared'
    refine ih h h' ?_
    rcases hdone with hdone | ⟨other, hother, hfor, hstays⟩
    · cases declared with
      | none => exact Or.inl hdone
      | some d => exact Or.inl (by simp only [find?_replace, hdone])
    · rcases List.mem_cons.1 hother with rfl | hother
      · -- From this entry on the declaration is the one of the entry.
        obtain ⟨d, hd, hsame⟩ := isDeclaredAs_iff.1 hfor
        rw [declare_of_declaration hd, hstays] at hdeclared
        obtain rfl := Except.ok.inj hdeclared
        exact Or.inl (by simp [find?_replace, isFor_iff.2 hsame])
      · exact Or.inr ⟨other, hother, hfor, hstays⟩

theorem result_collectFrom_append (done : List Declaration) (entries entries' : List Value) :
    (collectFrom settings document operation done (entries ++ entries')).result =
      (collectFrom settings document operation done entries).result.bind fun ds =>
        (collectFrom settings document operation ds entries').result := by
  induction entries generalizing done with
  | nil => rfl
  | cons entry rest ih =>
    rw [List.cons_append, result_collectFrom_cons, result_collectFrom_cons]
    cases (declare settings document operation entry).result with
    | error f => rfl
    | ok d => exact ih _

/-- Declarations that all differ are the one for a name and a place, if there is one, among the others. -/
theorem AllDiffer.split {ds : List Declaration} (h : AllDiffer ds) {d : Declaration}
    (hd : ds.find? (isFor name place) = some d) :
    ∃ before after, ds = before ++ d :: after ∧
      (ds.filter fun e => !isFor name place e) = before ++ after := by
  obtain ⟨hfor, before, after, rfl, hbefore⟩ := List.find?_eq_some_iff_append.1 hd
  refine ⟨before, after, rfl, ?_⟩
  have hafter : ∀ e ∈ after, (!isFor name place e) = true := by
    intro e he
    have hne := (List.pairwise_cons.1 (List.pairwise_append.1 h).2.1).1 e he
    cases hother : isFor name place e with
    | false => rfl
    | true =>
      obtain ⟨hname, hplace⟩ := isFor_iff.1 hfor
      obtain ⟨hname', hplace'⟩ := isFor_iff.1 hother
      exact absurd ⟨hname.trans hname'.symm, hplace.trans hplace'.symm⟩ hne
  rw [List.filter_append, List.filter_cons, hfor, if_neg (by simp), List.filter_eq_self.2 hbefore,
    List.filter_eq_self.2 hafter]

/-- Two lists with the same declaration for a name and a place, the only one of that name, and with the same
others, differ at most by its place. -/
theorem AllDiffer.shifts {ds ds' : List Declaration} (h : AllDiffer ds) (h' : AllDiffer ds')
    (hothers : (ds.filter fun d => !isFor name place d) = ds'.filter fun d => !isFor name place d)
    (hfound : ds.find? (isFor name place) = ds'.find? (isFor name place))
    (honly : ∀ e ∈ ds, e.name = name → e.place = place) : Shifts ds ds' := by
  cases hd : ds.find? (isFor name place) with
  | none =>
    have hall : ∀ {ds : List Declaration}, ds.find? (isFor name place) = none →
        (ds.filter fun d => !isFor name place d) = ds := fun hnone =>
      List.filter_eq_self.2 fun d hd => by simpa using List.find?_eq_none.1 hnone d hd
    rw [hall hd, hall (hfound ▸ hd)] at hothers
    exact Or.inl hothers
  | some d =>
    obtain ⟨before, after, rfl, hrest⟩ := h.split hd
    obtain ⟨before', after', rfl, hrest'⟩ := h'.split (hfound ▸ hd)
    rw [hrest, hrest'] at hothers
    refine Or.inr ⟨d, before, after, before', after', rfl, rfl, hothers, fun e he hname => ?_⟩
    have hdname : d.name = name := (isFor_iff.1 (List.find?_eq_some_iff_append.1 hd).1).1
    rw [← hrest, List.mem_filter] at he
    obtain ⟨hmem, hother⟩ := he
    have hfor : isFor name place e = true :=
      isFor_iff.2 ⟨hname.trans hdname, honly e hmem (hname.trans hdname)⟩
    rw [hfor] at hother
    cases hother

/-- **A declaration that comes again** stands in another place among the same others if other entries for
its name and its place come before it. -/
theorem shifts_of_withoutDeclared_eq {ds : List Declaration} {ps qs qs' : List Value}
    (heq : withoutDeclared document name place qs = withoutDeclared document name place qs')
    (hplace : ∀ entry ∈ qs ++ ps, ∀ d, declaration? document entry = some d → d.name = name →
      d.place = place)
    (hagain : ∃ entry ∈ ps, isDeclaredAs document name place entry = true ∧
      isExcluded settings document entry = false)
    (h : (collectFrom settings document operation [] (qs ++ ps)).result = .ok ds) :
    ∃ ds', (collectFrom settings document operation [] (qs' ++ ps)).result = .ok ds' ∧
      Shifts ds ds' := by
  have hkept : ∀ entries, (collectFrom settings document operation []
        (withoutDeclared document name place entries)).result =
      (collectFrom settings document operation [] entries).result.map
        (List.filter fun d => !isFor name place d) := collectFrom_withoutDeclared []
  have hsame := hkept (qs' ++ ps)
  rw [withoutDeclared_append, ← heq, ← withoutDeclared_append, hkept (qs ++ ps), h] at hsame
  cases h' : (collectFrom settings document operation [] (qs' ++ ps)).result with
  | error f =>
    rw [h'] at hsame
    cases hsame
  | ok ds' =>
    rw [h'] at hsame
    have hfound : ds.find? (isFor name place) = ds'.find? (isFor name place) := by
      rw [result_collectFrom_append] at h h'
      obtain ⟨done, -, hds⟩ := bind_eq_ok.1 h
      obtain ⟨done', -, hds'⟩ := bind_eq_ok.1 h'
      exact find?_collectFrom hds hds' (Or.inr hagain)
    have honly : ∀ e ∈ ds, e.name = name → e.place = place := by
      intro e he hname
      rcases mem_collectFrom h e he with hnil | ⟨entry, hentry, hdeclared⟩
      · cases hnil
      · exact hplace entry hentry e hdeclared hname
    exact ⟨ds', rfl, (AllDiffer.collectFrom List.Pairwise.nil h).shifts
      (AllDiffer.collectFrom List.Pairwise.nil h') (Except.ok.inj hsame) hfound honly⟩

/-! ## The tool -/

/-- Two results are tools that publish the same up to order, or neither is a tool. -/
def SamePublished : Except Fault Tool → Except Fault Tool → Prop
  | .ok t, .ok t' => t.PublishesSame t'
  | .error _, .error _ => True
  | _, _ => False

theorem samePublished_of_ok {r r' : Except Fault Tool}
    (h : ∀ t, r = .ok t → ∃ t', r' = .ok t' ∧ t.PublishesSame t')
    (h' : ∀ t', r' = .ok t' → ∃ t, r = .ok t) : SamePublished r r' := by
  cases hr : r with
  | ok t =>
    obtain ⟨t', rfl, hsame⟩ := h t hr
    exact hsame
  | error f =>
    cases hr' : r' with
    | error f' => trivial
    | ok t' =>
      obtain ⟨t, ht⟩ := h' t' hr'
      rw [hr] at ht
      cases ht

/-- **When an operation overrides its path.**  Let no entry for a name be declared for another place.  If
one of the entries of the operation for the name and the place is not excluded, those of the path may be
deleted: the same is published.  If all of them are excluded, they may be deleted instead, and what the
path declares stays. -/
theorem compile_overrides (c : Compiler) (path : Scalar) (method : String) (fields : Keyed Value)
    (ps qs : List Value) (name place : String)
    (hplace : ∀ entry ∈ qs ++ ps, ∀ d, declaration? c.document entry = some d → d.name = name →
      d.place = place) :
    ((∃ entry ∈ ps, isDeclaredAs c.document name place entry = true ∧
        isExcluded c.settings c.document entry = false) →
      SamePublished (compile c path method (withParameters fields ps) (.list qs)).result
        (compile c path method (withParameters fields ps)
          (.list (withoutDeclared c.document name place qs))).result) ∧
    ((∀ entry ∈ ps, isDeclaredAs c.document name place entry = true →
        isExcluded c.settings c.document entry = true) →
      (compile c path method (withParameters fields ps) (.list qs)).result =
        (compile c path method (withParameters fields (withoutDeclared c.document name place ps))
          (.list qs)).result) := by
  constructor
  · intro hagain
    have hleft : (withoutDeclared c.document name place qs ++ ps).Sublist (qs ++ ps) :=
      List.filter_sublist.append_right ps
    refine samePublished_of_ok (fun tool htool => ?_) (fun tool htool => ?_)
    · exact compile_of_shifts (fun operation ds hds =>
        shifts_of_withoutDeclared_eq (withoutDeclared_twice qs).symm hplace hagain hds) htool
    · obtain ⟨tool', htool', -⟩ := compile_of_shifts (fun operation ds hds =>
        shifts_of_withoutDeclared_eq (withoutDeclared_twice qs)
          (fun entry hentry => hplace entry (hleft.subset hentry)) hagain hds) htool
      exact ⟨tool', htool'⟩
  · intro hexcluded
    refine compile_congr ((agreeBeside_put _ _).trans (agreeBeside_put _ _).symm)
      (fun operation body => ?_) path method
    rw [result_signature (field_parameters_put _ _), result_signature (field_parameters_put _ _),
      result_collectFrom_append, result_collectFrom_append]
    simp only [collectFrom_withoutExcluded hexcluded]

/-- The query parameter `id` with one more entry. -/
def idParameter (entry : String × Value) : Value :=
  .record [("name", .text "id"), ("in", .text "query"), entry]

/-- The tool of an operation that declares `id` with one more entry, where its path declares an integer
unless that is left out. -/
def idTool (entry : String × Value) (qs : List Value) : Except Fault Tool :=
  (compile ⟨.null, {}, ""⟩ (.text "/a") "get"
    (withParameters [(.text "operationId", .text "op")] [idParameter entry]) (.list qs)).result

/-- What is declared for the path as an integer. -/
def integerId : Value := idParameter ("schema", .record [("type", .text "integer")])

/-- Each is declared for the query. -/
theorem place_of_idParameters (entries : List (String × Value))
    (h : ∀ e ∈ entries, e.1 = "schema" ∨ e.1 = "deprecated") :
    ∀ entry ∈ entries.map idParameter, ∀ d, declaration? .null entry = some d → d.name = "id" →
      d.place = "query" := by
  intro entry hentry d hd _
  obtain ⟨⟨key, v⟩, he, rfl⟩ := List.mem_map.1 hentry
  rcases h _ he with rfl | rfl
  · exact congrArg Declaration.place (Option.some.inj hd).symm
  · exact congrArg Declaration.place (Option.some.inj hd).symm

/-- A declaration of the operation as a text takes the place of the one of the path. -/
theorem compile_overrides_again :
    SamePublished (idTool ("schema", .record [("type", .text "string")]) [integerId])
      (idTool ("schema", .record [("type", .text "string")])
        (withoutDeclared .null "id" "query" [integerId])) := by
  refine (compile_overrides ⟨.null, {}, ""⟩ (.text "/a") "get" [(.text "operationId", .text "op")]
    [idParameter ("schema", .record [("type", .text "string")])] [integerId] "id" "query" ?_).1
      ⟨_, List.mem_cons_self, by rfl, by rfl⟩
  exact place_of_idParameters [("schema", .record [("type", .text "integer")]),
    ("schema", .record [("type", .text "string")])] (by simp)

/-- But one that is deprecated does not: the one of the path is published. -/
theorem not_compile_overrides :
    ¬ ∀ (c : Compiler) (path : Scalar) (method : String) (fields : Keyed Value) (ps qs : List Value)
      (name place : String),
      (∀ entry ∈ qs ++ ps, ∀ d, declaration? c.document entry = some d → d.name = name →
        d.place = place) →
      (∃ entry ∈ ps, isDeclaredAs c.document name place entry = true) →
      SamePublished (compile c path method (withParameters fields ps) (.list qs)).result
        (compile c path method (withParameters fields ps)
          (.list (withoutDeclared c.document name place qs))).result := by
  intro h
  have hsame : SamePublished (idTool ("deprecated", .scalar (.bool true)) [integerId])
      (idTool ("deprecated", .scalar (.bool true)) (withoutDeclared .null "id" "query" [integerId])) :=
    h ⟨.null, {}, ""⟩ (.text "/a") "get" [(.text "operationId", .text "op")] _ [integerId] "id" "query"
      (place_of_idParameters [("schema", .record [("type", .text "integer")]),
        ("deprecated", .scalar (.bool true))] (by simp)) ⟨_, List.mem_cons_self, by rfl⟩
  have hpublished := hsame.parameters.length_eq
  cases hpublished

end ToolCatalog.Operation
