import ToolCatalog.Proofs.Schema.Merging
import ToolCatalog.Proofs.Schema.References

/-!
# Better resolvers give better merges

Merging asks its resolver for the references that the node spells and for no others, and asks about
deprecated targets for what stands inside the node.  So if one resolver is below another on those
references, in the sense that it gives the same or has not been able to finish, then the merge with the
first is below the merge with the second.
-/

namespace ToolCatalog.Schema

variable {settings : Settings} {deprecated deprecated' : Value → Except Fault Bool}
  {stuck : Fault → Prop} {follow follow' : String → Outcome Merged}

theorem mergeItems_below {vs : List Value}
    (h : ∀ v ∈ vs, (mergeAs settings follow deprecated .schema v).Below stuck
      (mergeAs settings follow' deprecated' .schema v)) :
    (mergeItems settings follow deprecated vs).Below stuck
      (mergeItems settings follow' deprecated' vs) := by
  induction vs with
  | nil =>
    rw [mergeItems_nil, mergeItems_nil]
    exact .refl _
  | cons v rest ih =>
    rw [mergeItems_cons, mergeItems_cons]
    have ih := ih fun w hw => h w (List.mem_cons_of_mem _ hw)
    exact (h v List.mem_cons_self).bind fun m => ih.bind fun ws => .refl _

theorem mergeNamed_below {es : Keyed Value}
    (h : ∀ k v, (k, v) ∈ es → (mergeAs settings follow deprecated .schema v).Below stuck
      (mergeAs settings follow' deprecated' .schema v)) :
    (mergeNamed settings follow deprecated es).Below stuck
      (mergeNamed settings follow' deprecated' es) := by
  induction es with
  | nil =>
    rw [mergeNamed_nil, mergeNamed_nil]
    exact .refl _
  | cons e rest ih =>
    obtain ⟨name, v⟩ := e
    rw [mergeNamed_cons, mergeNamed_cons]
    have ih := ih fun k w hw => h k w (List.mem_cons_of_mem _ hw)
    exact (h name v List.mem_cons_self).bind fun m => ih.bind fun ns => .refl _

theorem mergeProperties_below {es : Keyed Value}
    (h : ∀ k v, (k, v) ∈ es → (mergeAs settings follow deprecated .schema v).Below stuck
      (mergeAs settings follow' deprecated' .schema v))
    (hdeprecated : ∀ k v, (k, v) ∈ es → deprecated v = deprecated' v) :
    (mergeProperties settings follow deprecated es).Below stuck
      (mergeProperties settings follow' deprecated' es) := by
  induction es with
  | nil =>
    rw [mergeProperties_nil, mergeProperties_nil]
    exact .refl _
  | cons e rest ih =>
    obtain ⟨name, v⟩ := e
    rw [mergeProperties_cons, mergeProperties_cons, hdeprecated name v List.mem_cons_self]
    have ih := ih (fun k w hw => h k w (List.mem_cons_of_mem _ hw))
      fun k w hw => hdeprecated k w (List.mem_cons_of_mem _ hw)
    split
    · refine Outcome.Below.bind (.refl _) fun _ => ?_
      exact ih.bind fun q => .refl _
    · refine (h name v List.mem_cons_self).bind fun m => ?_
      refine Outcome.Below.bind (.refl _) fun gone => ?_
      split
      · refine Outcome.Below.bind (.refl _) fun _ => ?_
        exact ih.bind fun q => .refl _
      · exact ih.bind fun q => .refl _

theorem mergeEntries_below {skips : Scalar → Bool} {es : Keyed Value}
    (h : ∀ k v, (k, v) ∈ es → ∀ role, (mergeAs settings follow deprecated role v).Below stuck
      (mergeAs settings follow' deprecated' role v)) :
    (mergeEntries settings follow deprecated skips es).Below stuck
      (mergeEntries settings follow' deprecated' skips es) := by
  induction es with
  | nil =>
    rw [mergeEntries_nil, mergeEntries_nil]
    exact .refl _
  | cons e rest ih =>
    obtain ⟨k, v⟩ := e
    rw [mergeEntries_cons, mergeEntries_cons]
    have ih := ih fun k w hw => h k w (List.mem_cons_of_mem _ hw)
    split
    · exact ih
    · split
      · next keyword =>
        split
        · exact ih
        · exact (h _ v List.mem_cons_self _).bind fun m => ih.bind fun q => .refl _
      · exact .refl _
      · exact .refl _

theorem mergeBranches_below {bs : List Value} {into : Parts}
    (h : ∀ b ∈ bs, (mergeAs settings follow deprecated .schema b).Below stuck
      (mergeAs settings follow' deprecated' .schema b)) :
    (mergeBranches settings follow deprecated bs into).Below stuck
      (mergeBranches settings follow' deprecated' bs into) := by
  induction bs generalizing into with
  | nil =>
    rw [mergeBranches_nil, mergeBranches_nil]
    exact .refl _
  | cons b rest ih =>
    rw [mergeBranches_cons, mergeBranches_cons]
    have ih := fun {q} => @ih q fun c hc => h c (List.mem_cons_of_mem _ hc)
    refine (h b List.mem_cons_self).bind fun m => ?_
    split
    · exact Outcome.Below.bind (.refl _) fun entries => ih
    · exact ih

theorem mergeBeside_below {es : Keyed Value}
    (hes : ∀ k v, (k, v) ∈ es → ∀ role, (mergeAs settings follow deprecated role v).Below stuck
      (mergeAs settings follow' deprecated' role v))
    (hbs : ∀ b ∈ branchesOf es, (mergeAs settings follow deprecated .schema b).Below stuck
      (mergeAs settings follow' deprecated' .schema b)) :
    (mergeBeside settings follow deprecated es).Below stuck
      (mergeBeside settings follow' deprecated' es) := by
  rw [mergeBeside, mergeBeside]
  refine (mergeEntries_below hes).bind fun own => ?_
  rw [compose, compose]
  refine Outcome.Below.bind (.refl _) fun rest => ?_
  split
  · rw [mergeBranchesIn_eq, mergeBranchesIn_eq]
    exact (mergeBranches_below hbs).bind fun whole => .refl _
  · exact .refl _

theorem overlay_below {es : Keyed Value} {target : Merged} {beside beside' : Unit → Outcome Parts}
    (h : (beside ()).Below stuck (beside' ())) :
    (overlay settings es target beside).Below stuck (overlay settings es target beside') := by
  unfold overlay
  split
  · split
    · exact h.bind fun own => .refl _
    · exact .refl _
  · exact .refl _

/-- **Merging is monotone in its resolver**, on the references that the node spells. -/
theorem mergeAs_below {role : Role} {v : Value}
    (h : ∀ ref ∈ references v, (follow ref).Below stuck (follow' ref))
    (hdeprecated : ∀ w, Value.Within w v → deprecated w = deprecated' w) :
    (mergeAs settings follow deprecated role v).Below stuck
      (mergeAs settings follow' deprecated' role v) := by
  induction v using node_induction generalizing role with
  | scalar s =>
    rw [mergeAs_scalar, mergeAs_scalar]
    exact .refl _
  | pair a b _ _ =>
    rw [mergeAs_pair, mergeAs_pair]
    exact .refl _
  | set ms =>
    rw [mergeAs_set, mergeAs_set]
    exact .refl _
  | list vs ih =>
    by_cases hr : role = .literal
    · subst hr
      rw [mergeAs_literal, mergeAs_literal]
      exact .refl _
    · rw [mergeAs_list _ _ _ hr, mergeAs_list _ _ _ hr]
      have hvs : ∀ v ∈ vs, (mergeAs settings follow deprecated .schema v).Below stuck
          (mergeAs settings follow' deprecated' .schema v) :=
        fun v hv => ih v hv (fun ref href => h ref (references_within_subset (.item hv .self) href))
          fun w hw => hdeprecated w (.item hv hw)
      exact (mergeItems_below hvs).bind fun ws => .refl _
  | part n body ih =>
    by_cases hr : role = .literal
    · subst hr
      rw [mergeAs_literal, mergeAs_literal]
      exact .refl _
    · rw [mergeAs_part _ _ _ hr, mergeAs_part _ _ _ hr]
      exact ih (fun ref href => h ref (references_within_subset (.part .self) href))
        fun w hw => hdeprecated w (.part hw)
  | map es ih ihbranches =>
    have hes : ∀ k v, (k, v) ∈ es → ∀ role,
        (mergeAs settings follow deprecated role v).Below stuck
          (mergeAs settings follow' deprecated' role v) :=
      fun k v hv role => ih k v hv
        (fun ref href => h ref (references_within_subset (.entry hv .self) href))
        fun w hw => hdeprecated w (.entry hv hw)
    cases role with
    | literal =>
      rw [mergeAs_literal, mergeAs_literal]
      exact .refl _
    | properties =>
      rw [mergeAs_properties, mergeAs_properties]
      refine (mergeProperties_below (fun k v hv => hes k v hv _) fun k v hv => ?_).bind
        fun ps => .refl _
      exact hdeprecated v (.entry hv .self)
    | names =>
      rw [mergeAs_names, mergeAs_names]
      exact (mergeNamed_below fun k v hv => hes k v hv _).bind fun ns => .refl _
    | schema =>
      have hbs : ∀ b ∈ branchesOf es, (mergeAs settings follow deprecated .schema b).Below stuck
          (mergeAs settings follow' deprecated' .schema b) := by
        intro b hb
        have hwithin := within_of_mem_branchesOf hb
        exact ihbranches b hb (fun ref href => h ref (references_within_subset hwithin href))
          fun w hw => hdeprecated w (hw.trans hwithin)
      have hbeside := mergeBeside_below hes hbs
      rw [mergeAs_schema, mergeAs_schema]
      split
      · exact .refl _
      · split
        · next ref href =>
          exact (h ref (mem_references_of_reference? href)).bind fun target => overlay_below hbeside
        · exact hbeside.bind fun whole => .refl _

/-- Resolvers that agree on the references that the node spells give the same merge. -/
theorem mergeAs_congr {role : Role} {v : Value}
    (h : ∀ ref ∈ references v, follow ref = follow' ref)
    (hdeprecated : ∀ w, Value.Within w v → deprecated w = deprecated' w) :
    mergeAs settings follow deprecated role v = mergeAs settings follow' deprecated' role v := by
  have hbelow : (mergeAs settings follow deprecated role v).Below (fun _ => False)
      (mergeAs settings follow' deprecated' role v) :=
    mergeAs_below (fun ref href => Or.inr (h ref href)) hdeprecated
  exact hbelow.eq_of_finished fun _ _ => id

end ToolCatalog.Schema
