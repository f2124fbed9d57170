import ToolCatalog.Proofs.Schema.Pruning

/-!
# What is left is the pruned schema

`Prunes` follows the steps of a merge; pruning works on the finished schema.  They come to the same up
to the order of keys: pruning handles properties and names entry by entry, and in a schema it touches
the required names only.
-/

namespace ToolCatalog.Schema

section

variable (settings : Settings)

/-! ## Pruning entry by entry -/

/-- The entries of a mapping that has a role, each pruned. -/
def pruneRows (role : Role) (es : Keyed Value) : Keyed Value :=
  es.map fun e => (e.1, pruneAs settings (role.under e.1) e.2)

theorem pruneAs_literal (v : Value) : pruneAs settings .literal v = v := by
  cases v <;> rfl

/-- An atom is not touched. -/
theorem pruneAs_atom {role : Role} {v : Value} (h : IsAtom v) : pruneAs settings role v = v := by
  cases v with
  | scalar | pair | set => rfl
  | _ => exact absurd h id

theorem pruneAs_list {role : Role} (h : role ≠ .literal) (vs : List Value) :
    pruneAs settings role (.list vs) = .list (pruneItems settings vs) := by
  cases role with
  | literal => exact absurd rfl h
  | _ => rfl

theorem pruneAs_map {role : Role} (h : role ≠ .literal) (es : Keyed Value) :
    pruneAs settings role (.map es) = .map (pruneEntries settings role es) := by
  cases role with
  | literal => exact absurd rfl h
  | _ => rfl

theorem pruneItems_atoms {vs : List Value} (h : ∀ v ∈ vs, IsAtom v) : pruneItems settings vs = vs := by
  induction vs with
  | nil => rfl
  | cons v rest ih =>
    show pruneAs settings .schema v :: pruneItems settings rest = _
    rw [pruneAs_atom settings (h v List.mem_cons_self),
      ih fun w hw => h w (List.mem_cons_of_mem _ hw)]

theorem pruneEntries_names (es : Keyed Value) :
    pruneEntries settings .names es = pruneRows settings .names es := by
  induction es with
  | nil => rfl
  | cons e rest ih =>
    show (e.1, pruneAs settings (Role.under .names e.1) e.2) :: pruneEntries settings .names rest = _
    rw [ih]
    rfl

theorem pruneEntries_properties (es : Keyed Value) :
    pruneEntries settings .properties es =
      pruneRows settings .properties (es.filter fun e => !settings.isRemoved e.1) := by
  induction es with
  | nil => rfl
  | cons e rest ih =>
    obtain ⟨k, v⟩ := e
    show (if settings.isRemoved k then pruneEntries settings .properties rest
      else (k, pruneAs settings (Role.under .properties k) v) ::
        pruneEntries settings .properties rest) = _
    rw [ih, List.filter_cons]
    cases settings.isRemoved k with
    | true => rfl
    | false => rfl

theorem pruneEntries_schema (k : Scalar) (v : Value) (rest : Keyed Value) :
    pruneEntries settings .schema ((k, v) :: rest) =
      match k, pruneAs settings (Role.under .schema k) v with
      | .text "required", .list names =>
        if (names.filter (survives settings)).isEmpty then pruneEntries settings .schema rest
        else (k, .list (names.filter (survives settings))) :: pruneEntries settings .schema rest
      | k, w => (k, w) :: pruneEntries settings .schema rest := rfl

/-- A keyword other than the required names stays, with its value pruned. -/
theorem pruneEntries_other {k : Scalar} {v : Value} {rest : Keyed Value}
    (hk : requiredKey.same k = false) :
    pruneEntries settings .schema ((k, v) :: rest) =
      (k, pruneAs settings (Role.under .schema k) v) :: pruneEntries settings .schema rest := by
  rw [pruneEntries_schema]
  split
  · rw [Scalar.same_refl] at hk
    cases hk
  · rfl

/-- Of required names those are left that survive, and no empty list. -/
theorem pruneEntries_required {names : List Value} {rest : Keyed Value}
    (hnames : ∀ v ∈ names, IsAtom v) :
    pruneEntries settings .schema ((requiredKey, .list names) :: rest) =
      if (names.filter (survives settings)).isEmpty then pruneEntries settings .schema rest
      else (requiredKey, .list (names.filter (survives settings))) ::
        pruneEntries settings .schema rest := by
  have hpruned : pruneAs settings (Role.under .schema requiredKey) (.list names) = .list names := by
    rw [under_schema, roleOf_required, pruneAs_list settings (by decide),
      pruneItems_atoms settings hnames]
  have h := pruneEntries_schema settings requiredKey (.list names) rest
  rw [hpruned] at h
  exact h

variable {settings}

theorem keys_pruneEntries (es : Keyed Value) :
    (Keyed.keys (pruneEntries settings .schema es)).Sublist (Keyed.keys es) := by
  induction es with
  | nil => exact List.nil_sublist _
  | cons e rest ih =>
    obtain ⟨k, v⟩ := e
    rw [pruneEntries_schema]
    split
    · split
      · exact ih.cons _
      · exact ih.cons_cons _
    · exact ih.cons_cons _

/-- All keywords but the required names stay, with their values pruned. -/
theorem without_pruneEntries (es : Keyed Value) :
    Keyed.without (pruneEntries settings .schema es) requiredKey =
      pruneRows settings .schema (Keyed.without es requiredKey) := by
  induction es with
  | nil => rfl
  | cons e rest ih =>
    obtain ⟨k, v⟩ := e
    rw [Keyed.without_cons]
    by_cases hk : requiredKey.same k = true
    · rw [if_pos hk, pruneEntries_schema, ← ih]
      split
      · split
        · rfl
        · rw [Keyed.without_cons, if_pos hk]
      · rw [Keyed.without_cons, if_pos hk]
    · rw [if_neg hk, pruneEntries_other settings (by simpa using hk), Keyed.without_cons, if_neg hk, ih]
      rfl

theorem find?_pruneEntries_of_none {es : Keyed Value} (h : Keyed.find? es requiredKey = none) :
    Keyed.find? (pruneEntries settings .schema es) requiredKey = none := by
  induction es with
  | nil => rfl
  | cons e rest ih =>
    obtain ⟨k, v⟩ := e
    rw [Keyed.find?_cons] at h
    split at h
    · cases h
    · next hk =>
      rw [pruneEntries_other settings (by simpa using hk), Keyed.find?_cons, if_neg hk]
      exact ih h

/-- **Required names after pruning** are those that survive. -/
theorem find?_pruneEntries {es : Keyed Value} {names : List Value}
    (h : Keyed.find? es requiredKey = some (.list names)) (hnames : ∀ v ∈ names, IsAtom v)
    (hdistinct : Keyed.Distinct es) :
    Keyed.find? (pruneEntries settings .schema es) requiredKey =
      if (names.filter (survives settings)).isEmpty then none
      else some (.list (names.filter (survives settings))) := by
  induction es with
  | nil => cases h
  | cons e rest ih =>
    obtain ⟨k, v⟩ := e
    rw [Keyed.distinct_cons] at hdistinct
    rw [Keyed.find?_cons] at h
    split at h
    · next hk =>
      obtain rfl := (Scalar.same_text _ _).1 hk
      obtain rfl := Option.some.inj h
      rw [pruneEntries_required settings hnames]
      split
      · exact find?_pruneEntries_of_none (Keyed.find?_eq_none hdistinct.1)
      · rw [Keyed.find?_cons, if_pos hk]
    · next hk =>
      rw [pruneEntries_other settings (by simpa using hk), Keyed.find?_cons, if_neg hk]
      exact ih h hdistinct.2

/-! ## The two are alike -/

theorem PrunesItems.alike {vs ws : List Value} (h : PrunesItems settings vs ws)
    (ih : ∀ v w, v ∈ vs → w ∈ ws → Prunes settings .schema v w →
      Value.Alike w (pruneAs settings .schema v)) :
    Value.Alike (.list ws) (.list (pruneItems settings vs)) := by
  induction vs generalizing ws with
  | nil =>
    cases h
    rw [pruneItems]
    exact .refl _
  | cons v rest ihrest =>
    cases h with
    | cons hv hrest =>
      rw [pruneItems]
      refine .list_cons (ih _ _ List.mem_cons_self List.mem_cons_self hv) (ihrest hrest ?_)
      exact fun v' w' hv' hw' =>
        ih v' w' (List.mem_cons_of_mem _ hv') (List.mem_cons_of_mem _ hw')

theorem PrunesRows.alike {role : Role} {es fs : Keyed Value} (h : PrunesRows settings role es fs)
    (ih : ∀ k v w, (k, v) ∈ es → (k, w) ∈ fs → Prunes settings (role.under k) v w →
      Value.Alike w (pruneAs settings (role.under k) v)) :
    Value.Alike (.map fs) (.map (pruneRows settings role es)) := by
  induction es generalizing fs with
  | nil =>
    cases h
    exact .refl _
  | cons e rest ihrest =>
    cases h with
    | cons hv hrest =>
      refine .map_cons (ih _ _ _ List.mem_cons_self List.mem_cons_self hv) (ihrest hrest ?_)
      exact fun k v' w' hv' hw' =>
        ih k v' w' (List.mem_cons_of_mem _ hv') (List.mem_cons_of_mem _ hw')

/-- **What is left of a value is the pruned value**, up to the order of keys. -/
theorem Prunes.alike {role : Role} {v w : Value} (h : Prunes settings role v w) (hv : v.WellFormed)
    (hw : w.WellFormed) : Value.Alike w (pruneAs settings role v) := by
  have hatom : ∀ {role v w}, IsAtom v → Prunes settings role v w →
      Value.Alike w (pruneAs settings role v) := by
    intro role v w hv h
    rw [h.eq_of_atom hv, pruneAs_atom settings hv]
    exact .refl v
  induction v using Value.induction generalizing role w with
  | list vs ih =>
    cases h with
    | literal =>
      rw [pruneAs_literal]
      exact .refl _
    | list hr hitems =>
      rw [pruneAs_list settings hr]
      refine hitems.alike fun v' w' hv' hw' hprunes => ?_
      exact ih v' hv' hprunes (Value.keysEverywhere_list.1 hv v' hv')
        (Value.keysEverywhere_list.1 hw w' hw')
  | map es ih _ =>
    obtain ⟨hkeys, hentries⟩ := Value.keysEverywhere_map.1 hv
    cases h with
    | literal =>
      rw [pruneAs_literal]
      exact .refl _
    | properties hrows =>
      obtain ⟨-, hentries'⟩ := Value.keysEverywhere_map.1 hw
      rw [pruneAs_map settings (by decide), pruneEntries_properties]
      refine hrows.alike fun k v' w' hv' hw' hprunes => ?_
      have hv' := (List.mem_filter.1 hv').1
      exact ih k v' hv' hprunes (hentries k v' hv') (hentries' k w' hw')
    | names hrows =>
      obtain ⟨-, hentries'⟩ := Value.keysEverywhere_map.1 hw
      rw [pruneAs_map settings (by decide), pruneEntries_names]
      refine hrows.alike fun k v' w' hv' hw' hprunes => ?_
      exact ih k v' hv' hprunes (hentries k v' hv') (hentries' k w' hw')
    | @schema _ fs hrows hlisted hatoms hrequired =>
      obtain ⟨hkeys', hentries'⟩ := Value.keysEverywhere_map.1 hw
      rw [pruneAs_map settings (by decide)]
      refine .of_without (s := "required") ?_ ?_ hkeys' (hkeys.sublist (keys_pruneEntries es))
      · -- All other keywords are related one by one.
        rw [without_pruneEntries]
        refine hrows.alike fun k v' w' hv' hw' hprunes => ?_
        have hv' := (Keyed.mem_without.1 hv').1
        have hw' := (Keyed.mem_without.1 hw').1
        exact ih k v' hv' hprunes (hentries k v' hv') (hentries' k w' hw')
      · -- The required names that are left are those that survive.
        rw [hrequired, find?_setRequired]
        cases hfind : Keyed.find? es requiredKey with
        | none =>
          rw [find?_pruneEntries_of_none hfind, openRequired_of_none hfind]
          rfl
        | some v =>
          obtain ⟨names, rfl⟩ := hlisted v hfind
          rw [openRequired_of_find? hfind] at hatoms ⊢
          rw [find?_pruneEntries hfind hatoms hkeys]
  | part n body _ =>
    cases h with
    | literal =>
      rw [pruneAs_literal]
      exact .refl _
  | scalar s => exact hatom trivial h
  | pair a b _ _ => exact hatom trivial h
  | set ms => exact hatom trivial h

end

end ToolCatalog.Schema
