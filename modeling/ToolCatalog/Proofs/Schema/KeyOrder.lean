import ToolCatalog.Proofs.Schema.Merging
import ToolCatalog.Proofs.Schema.References
import ToolCatalog.Proofs.Value.Reordered

/-!
# What merging asks does not depend on the order of keys

Every question that merging asks of a node has the same answer for nodes that are equal up to the order of
keys: whether it is deprecated, a reference or composed, and of which parts.  References into documents that
are equal up to the order of keys lead to such nodes, and the same references are spelled in both, so that
chains of references are followed just as far.

* `leadsToDeprecated_reordered`: the same chains meet a deprecated node.
-/

namespace ToolCatalog

open Value (Reordered)

namespace Schema

/-! ## Questions about a node -/

section

variable {v w : Value} {es fs : Keyed Value}

theorem isDeprecated_reordered (h : Reordered (.map es) (.map fs)) :
    Settings.isDeprecated es = Settings.isDeprecated fs := by
  have hflag := h.find? (.text "deprecated")
  unfold Settings.isDeprecated
  generalize Keyed.find? es (.text "deprecated") = found, Keyed.find? fs (.text "deprecated") = found'
    at hflag
  cases hflag with
  | none => rfl
  | some hvw => cases hvw.alike <;> rfl

theorem reference?_reordered (h : Reordered v w) : reference? v = reference? w := by
  have hopened := h.opened
  unfold reference?
  generalize v.opened = x, w.opened = y at hopened
  cases hopened.alike with
  | @map es fs =>
    have href := hopened.find? (.text "$ref")
    simp only
    generalize Keyed.find? es (.text "$ref") = found, Keyed.find? fs (.text "$ref") = found' at href
    cases href with
    | none => rfl
    | some hvw => cases hvw.alike <;> rfl
  | _ => rfl

theorem isDeprecatedNode_reordered (h : Reordered v w) : isDeprecatedNode v = isDeprecatedNode w := by
  have hopened := h.opened
  unfold isDeprecatedNode
  generalize v.opened = x, w.opened = y at hopened
  cases hopened.alike with
  | map => exact isDeprecated_reordered hopened
  | _ => rfl

theorem excludes_reordered (settings : Settings) (name : Scalar) (h : Reordered v w) :
    settings.excludes name v = settings.excludes name w :=
  congrArg (settings.isRemoved name || ·) (isDeprecatedNode_reordered h)

theorem isNullable_reordered (h : Reordered v w) : isNullable v = isNullable w := by
  cases h.alike with
  | @map es fs =>
    show (_ || _) = (_ || _)
    congr 1
    · have hflag := h.find? (.text "nullable")
      generalize Keyed.find? es (.text "nullable") = found,
        Keyed.find? fs (.text "nullable") = found' at hflag
      cases hflag with
      | none => rfl
      | some hvw => cases hvw.alike <;> rfl
    · have htype := h.find? (.text "type")
      generalize Keyed.find? es (.text "type") = found, Keyed.find? fs (.text "type") = found'
        at htype
      cases htype with
      | none => rfl
      | some hvw =>
        cases hvw.alike with
        | list =>
          exact Value.Reordered.isAmong (Value.reordered_scalar (.text "null"))
            (Value.reordered_list.1 hvw)
        | _ => rfl
  | _ => rfl

/-- What stands under a key is opened to values whose keys are in another order. -/
theorem opened_find?_reordered (h : Reordered (.map es) (.map fs)) (q : Scalar) :
    Option.Rel Reordered ((Keyed.find? es q).map Value.opened)
      ((Keyed.find? fs q).map Value.opened) := by
  have hq := h.find? q
  generalize Keyed.find? es q = found, Keyed.find? fs q = found' at hq
  cases hq with
  | none => exact .none
  | some hvw => exact .some hvw.opened

theorem isComposed_reordered (h : Reordered (.map es) (.map fs)) : isComposed es = isComposed fs := by
  have hallOf := opened_find?_reordered h (.text "allOf")
  unfold isComposed
  generalize (Keyed.find? es (.text "allOf")).map Value.opened = found,
    (Keyed.find? fs (.text "allOf")).map Value.opened = found' at hallOf
  cases hallOf with
  | none => rfl
  | some hvw =>
    obtain ⟨hvw, -⟩ := hvw
    cases hvw <;> rfl

theorem branchesOf_reordered (h : Reordered (.map es) (.map fs)) :
    List.Forall₂ Reordered (branchesOf es) (branchesOf fs) := by
  have hallOf := opened_find?_reordered h (.text "allOf")
  unfold branchesOf
  generalize (Keyed.find? es (.text "allOf")).map Value.opened = found,
    (Keyed.find? fs (.text "allOf")).map Value.opened = found' at hallOf
  cases hallOf with
  | none => exact .nil
  | some hvw =>
    cases hvw.alike with
    | list => exact Value.reordered_list.1 hvw
    | _ => exact .nil

theorem hasSiblings_reordered (h : Reordered (.map es) (.map fs)) : hasSiblings es = hasSiblings fs := by
  have hany : ∀ es : Keyed Value, hasSiblings es = (Keyed.keys es).any (· != .text "$ref") := by
    intro es
    rw [hasSiblings, Keyed.keys, List.any_map]
    rfl
  rw [hany, hany]
  exact h.keys_perm.any_eq

theorem isStructural_reordered (h : Reordered (.map es) (.map fs)) : isStructural es = isStructural fs := by
  funext k
  rw [isStructural, isStructural, isReference, isReference, reference?_reordered h,
    isComposed_reordered h]

end

/-! ## Following references -/

section

variable {document document' : Value}

theorem item?_reordered {vs ws : List Value} (h : List.Forall₂ Reordered vs ws) (index : Int) :
    Option.Rel Reordered (Pointer.item? vs index) (Pointer.item? ws index) := by
  have hget : ∀ n : Nat, Option.Rel Reordered vs[n]? ws[n]? := by
    intro n
    induction h generalizing n with
    | nil => exact .none
    | cons hvw _ ih =>
      cases n with
      | zero => exact .some hvw
      | succ n => exact ih n
  unfold Pointer.item?
  rw [h.length_eq]
  generalize (if index < 0 then index + (ws.length : Int) else index) = position
  simp only
  split
  · exact .none
  · exact hget _

theorem step?_reordered {v w : Value} (h : Reordered v w) (segment : String) :
    Option.Rel Reordered (Pointer.step? v segment) (Pointer.step? w segment) := by
  have hopened := h.opened
  unfold Pointer.step?
  generalize v.opened = x, w.opened = y at hopened
  cases hopened.alike with
  | map => exact hopened.find? _
  | list =>
    cases Numeral.integer? 10 segment.toList with
    | none => exact .none
    | some index => exact item?_reordered (Value.reordered_list.1 hopened) index
  | _ => exact .none

theorem follow_reordered {ref : String} {segments : List String} {v w target : Value}
    (h : Reordered v w) (htarget : Pointer.follow ref segments v = .ok target) :
    ∃ target', Pointer.follow ref segments w = .ok target' ∧ Reordered target target' := by
  induction segments generalizing v w with
  | nil =>
    obtain rfl := Except.ok.inj htarget
    exact ⟨w, rfl, h⟩
  | cons segment rest ih =>
    have hstep := step?_reordered h segment
    rw [Pointer.follow] at htarget ⊢
    generalize Pointer.step? v segment = next, Pointer.step? w segment = next' at hstep htarget
    cases hstep with
    | none => cases htarget
    | some hnext => exact ih hnext htarget

/-- **A reference points at the same node** whatever the order of keys. -/
theorem walk_reordered {ref : String} {target : Value} (h : Reordered document document')
    (htarget : Pointer.walk document ref = .ok target) :
    ∃ target', Pointer.walk document' ref = .ok target' ∧ Reordered target target' := by
  obtain ⟨segments, hsegments, htarget⟩ := bind_eq_ok.1 htarget
  obtain ⟨target', htarget', hsame⟩ := follow_reordered h htarget
  exact ⟨target', bind_eq_ok.2 ⟨segments, hsegments, htarget'⟩, hsame⟩

theorem leadsToDeprecatedFrom_reordered (h : Reordered document document') {bound : Bound}
    {seen : List String} {v w : Value} {gone : Bool} (hvw : Reordered v w)
    (hgone : leadsToDeprecatedFrom document bound seen v = .ok gone) :
    leadsToDeprecatedFrom document' bound seen w = .ok gone := by
  induction bound generalizing seen v w with
  | reached =>
    rw [leadsToDeprecatedFrom_eq] at hgone ⊢
    rwa [← reference?_reordered hvw]
  | further rest ih =>
    rw [leadsToDeprecatedFrom_eq] at hgone ⊢
    rw [← reference?_reordered hvw]
    split at hgone
    · exact hgone
    · next ref _ =>
      split at hgone
      · next hstop => rwa [if_pos hstop]
      · next hstop =>
        rw [if_neg hstop]
        simp only at hgone ⊢
        split at hgone
        · cases hgone
        · next next hnext =>
          obtain ⟨next', hnext', hsame⟩ := walk_reordered h hnext
          rw [hnext']
          simp only
          rw [← isDeprecatedNode_reordered hsame]
          split at hgone
          · next hdeprecated => rwa [if_pos hdeprecated]
          · next hdeprecated =>
            rw [if_neg hdeprecated]
            exact ih () hsame hgone

theorem referenceUnder_alike (k : Scalar) {v w : Value} (h : Value.Alike v w) :
    referenceUnder k v = referenceUnder k w := by
  have hnone : ∀ {u : Value}, (∀ s, u ≠ .scalar s) → referenceUnder k u = [] := by
    intro u hu
    unfold referenceUnder
    split
    · exact absurd rfl (hu _)
    · rfl
  cases h with
  | scalar s => rfl
  | set ms => rfl
  | _ => rw [hnone (by simp), hnone (by simp)]

theorem referencesOfItems_perm {vs ws : List Value} (h : List.Forall₂ Reordered vs ws)
    (hitems : ∀ v ∈ vs, ∀ {w}, Reordered v w → (references v).Perm (references w)) :
    (referencesOfItems vs).Perm (referencesOfItems ws) := by
  induction h with
  | nil => exact .refl _
  | cons hvw _ ih =>
    rw [referencesOfItems, referencesOfItems]
    exact (hitems _ List.mem_cons_self hvw).append
      (ih fun v hv => hitems v (List.mem_cons_of_mem _ hv))

theorem referencesOfEntries_perm {es fs : Keyed Value}
    (h : Keyed.Pointwise (fun _ => Reordered) es fs)
    (hentries : ∀ k v, (k, v) ∈ es → ∀ {w}, Reordered v w → (references v).Perm (references w)) :
    (referencesOfEntries es).Perm (referencesOfEntries fs) := by
  rw [referencesOfEntries_eq, referencesOfEntries_eq]
  induction h with
  | nil => exact .refl _
  | @cons k v w es fs hvw _ ih =>
    have hinside := hentries k v List.mem_cons_self hvw
    rw [List.flatMap_cons, List.flatMap_cons, referenceUnder_alike k hvw.alike]
    exact (hinside.append_left _).append
      (ih fun q u hu => hentries q u (List.mem_cons_of_mem _ hu))

/-- **The same references are spelled** whatever the order of keys. -/
theorem references_perm {v w : Value} (h : Reordered v w) : (references v).Perm (references w) := by
  induction v using Value.induction generalizing w with
  | scalar s => cases h.alike; exact .refl _
  | set ms => cases h.alike; exact .refl _
  | list vs ih =>
    cases h.alike with
    | list => exact referencesOfItems_perm (Value.reordered_list.1 h) ih
  | map es ih _ =>
    cases h.alike with
    | map =>
      obtain ⟨gs, hperm, hpointwise⟩ := h.exists_pointwise
      have hmoved : (referencesOfEntries es).Perm (referencesOfEntries gs) := by
        rw [referencesOfEntries_eq, referencesOfEntries_eq]
        exact hperm.flatMap_right _
      exact hmoved.trans (referencesOfEntries_perm hpointwise
        fun k v hv => ih k v (hperm.mem_iff.2 hv))
  | pair a b iha ihb =>
    obtain ⟨halike, hwellFormed⟩ := h
    cases halike with
    | pair ha hb =>
      exact (iha ⟨ha, hwellFormed.within (.first .self)⟩).append
        (ihb ⟨hb, hwellFormed.within (.second .self)⟩)
  | part n body ih =>
    obtain ⟨halike, hwellFormed⟩ := h
    cases halike with
    | @part _ _ body' hbody =>
      show (references (body ())).Perm (references (body' ()))
      exact ih ⟨hbody, Value.keysEverywhere_part.1 hwellFormed⟩

theorem leadsToDeprecated_reordered (h : Reordered document document') {v w : Value} {gone : Bool}
    (hvw : Reordered v w) (hgone : leadsToDeprecated document v = .ok gone) :
    leadsToDeprecated document' w = .ok gone := by
  have hbound : chainBound document' = chainBound document := by
    rw [chainBound, chainBound, (references_perm h).length_eq]
  rw [leadsToDeprecated, hbound]
  exact leadsToDeprecatedFrom_reordered h hvw hgone

end

end Schema

end ToolCatalog
