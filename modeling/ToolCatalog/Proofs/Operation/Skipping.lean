import ToolCatalog.Proofs.Operation.Declarations

/-!
# Skipping a parameter leaves no trace

An entry that leads to nothing with a name is left out when parameters are collected, and one whose
schema cannot be had is left out when they are added.  If no other entry is declared for the name and
the place of the latter, then it stood in the way of none, so the tool is the one of the entries without
it.  `isKept` says this of declarations: they are kept or left out by their name and their place alone,
so leaving out commutes with collecting.

* `compile_without_bad`: an operation compiles as it does without its bad entries.
-/

namespace ToolCatalog.Operation

/-! ## Bad entries -/

/-- Whether an entry is declared for a name and a place. -/
def isDeclaredAs (document : Value) (name place : String) (entry : Value) : Bool :=
  match declaration? document entry with
  | some d => d.name == name && d.place == place
  | none => false

/-- **Whether an entry is bad** among others: it leads to nothing with a name, or its schema cannot be
had and no other entry is declared for its name and its place. -/
def isBad (c : Compiler) (entries : List Value) (entry : Value) : Bool :=
  match named? c.document entry, declaration? c.document entry with
  | none, _ => true
  | some _, some d =>
    isSkipped c d && entries.countP (isDeclaredAs c.document d.name d.place) == 1
  | some _, none => false

/-- The entries of a list that are not bad among others. -/
def withoutBad (c : Compiler) (entries part : List Value) : List Value :=
  part.filter fun entry => !isBad c entries entry

/-- Whether a declaration is kept: no bad entry is declared for its name and its place. -/
def isKept (c : Compiler) (entries : List Value) (d : Declaration) : Bool :=
  !entries.any fun entry => isBad c entries entry && isDeclaredAs c.document d.name d.place entry

theorem isDeclaredAs_iff {document entry : Value} {name place : String} :
    isDeclaredAs document name place entry = true ↔
      ∃ d, declaration? document entry = some d ∧ d.name = name ∧ d.place = place := by
  unfold isDeclaredAs
  cases declaration? document entry <;> simp

theorem isBad_of_declaration {c : Compiler} {entries : List Value} {entry : Value} {d : Declaration}
    (h : declaration? c.document entry = some d) :
    isBad c entries entry =
      (isSkipped c d && entries.countP (isDeclaredAs c.document d.name d.place) == 1) := by
  rw [isBad, (declaration?_eq_some.1 h).1, h]

theorem isKept_congr (c : Compiler) (entries : List Value) (d e : Declaration)
    (hname : d.name = e.name) (hplace : d.place = e.place) :
    isKept c entries d = isKept c entries e := by
  rw [isKept, isKept, hname, hplace]

/-- Two members of a list are the same if only one of it has a property that both have. -/
theorem eq_of_countP_eq_one {α : Type} {p : α → Bool} {l : List α} (h : l.countP p = 1) {a b : α}
    (ha : a ∈ l) (hpa : p a = true) (hb : b ∈ l) (hpb : p b = true) : a = b := by
  rw [List.countP_eq_length_filter] at h
  obtain ⟨x, hx⟩ := List.length_eq_one_iff.1 h
  have hall : ∀ y ∈ l, p y = true → y = x := by
    intro y hy hpy
    have hmem : y ∈ l.filter p := List.mem_filter.2 ⟨hy, hpy⟩
    rw [hx] at hmem
    exact List.mem_singleton.1 hmem
  rw [hall a ha hpa, hall b hb hpb]

section

variable {c : Compiler} {entries : List Value}

/-- What a bad entry declares is not kept. -/
theorem isKept_of_isBad {entry : Value} {d : Declaration} (hentry : entry ∈ entries)
    (hd : declaration? c.document entry = some d) (hbad : isBad c entries entry = true) :
    isKept c entries d = false := by
  have hdeclared : isDeclaredAs c.document d.name d.place entry = true :=
    isDeclaredAs_iff.2 ⟨d, hd, rfl, rfl⟩
  rw [isKept, Bool.not_eq_false']
  exact List.any_eq_true.2 ⟨entry, hentry, by rw [hbad, hdeclared]; rfl⟩

/-- **What is not kept is declared by a bad entry**, since no other is declared for the same name and
the same place; so it is skipped. -/
theorem isBad_of_not_isKept {entry : Value} {d : Declaration} (hentry : entry ∈ entries)
    (hd : declaration? c.document entry = some d) (hkept : isKept c entries d = false) :
    isBad c entries entry = true ∧ isSkipped c d = true := by
  rw [isKept, Bool.not_eq_false'] at hkept
  obtain ⟨other, hother, h⟩ := List.any_eq_true.1 hkept
  rw [Bool.and_eq_true] at h
  obtain ⟨hbad, hdeclared⟩ := h
  obtain ⟨d', hd', hname, hplace⟩ := isDeclaredAs_iff.1 hdeclared
  have hbad' := hbad
  rw [isBad_of_declaration hd', Bool.and_eq_true, beq_iff_eq, hname, hplace] at hbad'
  have heq : other = entry := eq_of_countP_eq_one hbad'.2 hother hdeclared hentry
    (isDeclaredAs_iff.2 ⟨d, hd, rfl, rfl⟩)
  subst heq
  rw [hd] at hd'
  obtain rfl := Option.some.inj hd'
  exact ⟨hbad, hbad'.1⟩

/-- A bad entry does not end the operation when it is collected. -/
theorem declare_of_isBad {entry : Value} (hbad : isBad c entries entry = true) (operation : String) :
    (declare c.settings c.document operation entry).result = .ok none ∨
      ∃ d, (declare c.settings c.document operation entry).result = .ok (some d) := by
  rw [result_declare]
  cases hnamed : named? c.document entry with
  | none => exact Or.inl rfl
  | some e =>
    obtain ⟨name, fields⟩ := e
    cases hd : declaration? c.document entry with
    | none =>
      rw [isBad, hnamed, hd] at hbad
      cases hbad
    | some d =>
      obtain ⟨hnamed', hplace⟩ := declaration?_eq_some.1 hd
      rw [hnamed] at hnamed'
      obtain ⟨rfl, rfl⟩ := Prod.mk.inj (Option.some.inj hnamed')
      simp only [hplace]
      split
      · exact Or.inl rfl
      · exact Or.inr ⟨_, rfl⟩

/-! ## Collecting without bad entries -/

/-- **Collecting without the bad entries** leaves out the declarations that are not kept, and nothing
else. -/
theorem collectFrom_withoutBad (operation : String) {part : List Value} (hpart : part ⊆ entries)
    (done : List Declaration) :
    (collectFrom c.settings c.document operation (done.filter (isKept c entries))
        (withoutBad c entries part)).result =
      (collectFrom c.settings c.document operation done part).result.map
        (List.filter (isKept c entries)) := by
  refine collectFrom_filter operation (isKept_congr c entries) (fun entry hentry hbad => ?_)
    (fun entry hentry hbad d hd => ?_) done
  · rw [Bool.not_eq_false'] at hbad
    refine (declare_of_isBad hbad operation).imp_right fun ⟨d, hd⟩ => ⟨d, hd, ?_⟩
    exact isKept_of_isBad (hpart hentry) (declare_eq_some hd) hbad
  · cases hkept : isKept c entries d with
    | true => rfl
    | false =>
      rw [(isBad_of_not_isKept (hpart hentry) (declare_eq_some hd) hkept).1] at hbad
      cases hbad

/-- The signature of an operation is the one of its entries that are not bad. -/
theorem signature_withoutBad (operation : String) (fields : Keyed Value) (ps qs : List Value)
    (body : Value) :
    (signature c operation
        (Keyed.put fields (.text "parameters") (.list (withoutBad c (qs ++ ps) ps)))
        (.list (withoutBad c (qs ++ ps) qs)) body).result =
      (signature c operation (Keyed.put fields (.text "parameters") (.list ps)) (.list qs)
        body).result := by
  have hcollect := collectFrom_withoutBad (c := c) operation (List.Subset.refl (qs ++ ps)) []
  rw [withoutBad, List.filter_append] at hcollect
  rw [result_signature (field_parameters_put _ _), result_signature (field_parameters_put _ _),
    withoutBad, withoutBad, ← List.filter_nil (p := isKept c (qs ++ ps)), hcollect]
  cases hds : (collectFrom c.settings c.document operation [] (qs ++ ps)).result with
  | error f =>
    rw [List.filter_nil, hds]
    rfl
  | ok ds =>
    have hskipped : ∀ d ∈ ds, isKept c (qs ++ ps) d = false → isSkipped c d = true := by
      intro d hd hkept
      rcases mem_collectFrom hds d hd with hd | ⟨entry, hentry, hdeclared⟩
      · cases hd
      · exact (isBad_of_not_isKept hentry hdeclared hkept).2
    rw [List.filter_nil, hds]
    simp only [Except.map, Except.bind, addDeclared_filter hskipped]

end

/-- **Skipping a parameter leaves no trace.**  An operation compiles to the tool, or fails with the
fault, of the same operation without the bad entries, wherever they stand among the parameters of the
path and of the operation. -/
theorem compile_without_bad (c : Compiler) (path : Scalar) (method : String) (fields : Keyed Value)
    (ps qs : List Value) :
    (compile c path method (withParameters fields (withoutBad c (qs ++ ps) ps))
        (.list (withoutBad c (qs ++ ps) qs))).result =
      (compile c path method (withParameters fields ps) (.list qs)).result :=
  compile_congr ((agreeBeside_put _ _).trans (agreeBeside_put _ _).symm)
    (fun name body => signature_withoutBad name fields ps qs body) path method

end ToolCatalog.Operation
