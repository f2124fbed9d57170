import ToolCatalog.Proofs.Schema.Locality
import ToolCatalog.Proofs.Schema.Required

/-!
# What is filtered out cannot influence the outcome

`visible` takes out of a node what no tool may see: at every schema position the vendor extensions, all
but the mark of a deprecated mapping, and the schemas of removed properties.  Merging what is left is
merging the node, step for step.  One place needs more than the recursion: a vendor extension beside a
reference sends the target through an overlay with nothing to lay over it, which changes nothing
because the target is finished already.

The bound that merging works with counts the references of the node, hidden ones included.  Any bound
that suffices is as good as any other.

* `merge_of_visible_eq`: nodes of which the same is visible merge alike.
-/

namespace ToolCatalog.Schema

/-! ## What is visible -/

section

variable (settings : Settings)

/-- Whether an entry is filtered out with its key: in a schema, a vendor extension. -/
def isHidden : Role → Scalar → Bool
  | .schema, .text keyword => settings.isVendor keyword
  | _, _ => false

/-- Whether what stands under a key is never looked at: among properties, a removed one. -/
def isBlanked : Role → Scalar → Bool
  | .properties, name => settings.isRemoved name
  | _, _ => false

mutual

/-- What is visible of a value in a role.  Of a deprecated schema only the mark is left. -/
def visibleAs (role : Role) : Value → Value
  | .part n body =>
    match role with
    | .literal => .part n body
    | role => .part n fun _ => visibleAs role (body ())
  | .list vs =>
    match role with
    | .literal => .list vs
    | _ => .list (visibleItems vs)
  | .map es =>
    match role with
    | .literal => .map es
    | .schema =>
      if Settings.isDeprecated es then .map [(.text "deprecated", .bool true)]
      else .map (visibleEntries .schema es)
    | role => .map (visibleEntries role es)
  | v => v

/-- What is visible of the items of a list of schemas. -/
def visibleItems : List Value → List Value
  | [] => []
  | v :: vs => visibleAs .schema v :: visibleItems vs

/-- What is visible of the entries of a mapping that has a role. -/
def visibleEntries (role : Role) : List (Scalar × Value) → List (Scalar × Value)
  | [] => []
  | (k, v) :: rest =>
    if isHidden settings role k then visibleEntries role rest
    else (k, if isBlanked settings role k then .null else visibleAs (role.under k) v) ::
      visibleEntries role rest

end

/-- **What is visible of a schema.** -/
def visible (schema : Value) : Value := visibleAs settings .schema schema

end

variable {settings : Settings}

theorem visibleAs_literal (v : Value) : visibleAs settings .literal v = v := by
  cases v <;> rfl

theorem visibleAs_list {role : Role} (h : role ≠ .literal) (vs : List Value) :
    visibleAs settings role (.list vs) = .list (visibleItems settings vs) := by
  cases role with
  | literal => exact absurd rfl h
  | _ => rfl

theorem visibleAs_part {role : Role} (h : role ≠ .literal) (n : Nat) (body : Unit → Value) :
    visibleAs settings role (.part n body) =
      .part n fun _ => visibleAs settings role (body ()) := by
  cases role with
  | literal => exact absurd rfl h
  | _ => rfl

theorem visibleAs_schema (es : Keyed Value) :
    visibleAs settings .schema (.map es) =
      if Settings.isDeprecated es then .map [(.text "deprecated", .bool true)]
      else .map (visibleEntries settings .schema es) := rfl

/-- What is visible of a mapping is a mapping. -/
theorem exists_visibleAs_map (settings : Settings) (role : Role) (es : Keyed Value) :
    ∃ fs, visibleAs settings role (.map es) = .map fs := by
  cases role with
  | schema =>
    rw [visibleAs_schema]
    split <;> exact ⟨_, rfl⟩
  | _ => exact ⟨_, rfl⟩

theorem visibleItems_cons (v : Value) (vs : List Value) :
    visibleItems settings (v :: vs) = visibleAs settings .schema v :: visibleItems settings vs := rfl

theorem visibleEntries_cons (role : Role) (k : Scalar) (v : Value) (rest : Keyed Value) :
    visibleEntries settings role ((k, v) :: rest) =
      if isHidden settings role k then visibleEntries settings role rest
      else (k, if isBlanked settings role k then .null
          else visibleAs settings (role.under k) v) :: visibleEntries settings role rest := rfl

/-- What is visible under a keyword that is no vendor extension. -/
theorem find?_visibleEntries {keyword : String} (h : settings.isVendor keyword = false)
    (es : Keyed Value) :
    Keyed.find? (visibleEntries settings .schema es) (.text keyword) =
      (Keyed.find? es (.text keyword)).map (visibleAs settings (roleOf keyword)) := by
  induction es with
  | nil => rfl
  | cons e rest ih =>
    obtain ⟨k, v⟩ := e
    rw [visibleEntries_cons, Keyed.find?_cons]
    by_cases hk : (Scalar.text keyword).same k = true
    · obtain rfl := (Scalar.same_text keyword k).1 hk
      rw [if_pos hk, isHidden, if_neg (by simp [h]), Keyed.find?_cons, if_pos hk]
      rfl
    · rw [if_neg hk, ← ih]
      split
      · rfl
      · rw [Keyed.find?_cons, if_neg hk]

/-! ## What merging looks at is visible -/

theorem isDeprecated_mark : Settings.isDeprecated [(.text "deprecated", .bool true)] = true := by
  decide

theorem isDeprecated_visibleEntries (hdeprecated : settings.isVendor "deprecated" = false) (es : Keyed Value) :
    Settings.isDeprecated (visibleEntries settings .schema es) = Settings.isDeprecated es := by
  unfold Settings.isDeprecated
  rw [find?_visibleEntries hdeprecated, show roleOf "deprecated" = .schema by decide]
  cases Keyed.find? es (.text "deprecated") with
  | none => rfl
  | some v =>
    cases v with
    | map fs =>
      obtain ⟨gs, hgs⟩ := exists_visibleAs_map settings .schema fs
      rw [Option.map_some, hgs]
    | _ => rfl

/-- What is visible of a node says whether it is deprecated. -/
theorem isDeprecatedNode_visible (hdeprecated : settings.isVendor "deprecated" = false) (v : Value) :
    isDeprecatedNode (visible settings v) = isDeprecatedNode v := by
  induction v using Value.induction with
  | map es _ _ =>
    rw [visible, visibleAs_schema]
    split
    · next h => exact isDeprecated_mark.trans h.symm
    · exact isDeprecated_visibleEntries hdeprecated es
  | part n body ih => exact ih
  | _ => rfl

/-- What is visible of a property says whether it is excluded. -/
theorem excludes_visible (hdeprecated : settings.isVendor "deprecated" = false) (name : Scalar)
    (v : Value) : settings.excludes name (visible settings v) = settings.excludes name v :=
  congrArg (settings.isRemoved name || ·) (isDeprecatedNode_visible hdeprecated v)

theorem reference?_visibleEntries (href : settings.isVendor "$ref" = false) (es : Keyed Value) :
    reference? (.map (visibleEntries settings .schema es)) = reference? (.map es) := by
  unfold reference?
  simp only [Value.opened]
  rw [find?_visibleEntries href, show roleOf "$ref" = .schema by decide]
  cases Keyed.find? es (.text "$ref") with
  | none => rfl
  | some v =>
    cases v with
    | map fs =>
      obtain ⟨gs, hgs⟩ := exists_visibleAs_map settings .schema fs
      rw [Option.map_some, hgs]
    | _ => rfl

/-- What is visible of a node that is not deprecated says which reference it is. -/
theorem reference?_visible (href : settings.isVendor "$ref" = false) {v : Value}
    (hv : isDeprecatedNode v = false) : reference? (visible settings v) = reference? v := by
  induction v using Value.induction with
  | map es _ _ =>
    have hes : Settings.isDeprecated es = false := hv
    rw [visible, visibleAs_schema, if_neg (by simp [hes]), reference?_visibleEntries href]
  | part n body ih => exact ih hv
  | _ => rfl

section

variable (hallOf : settings.isVendor "allOf" = false)

include hallOf

/-- The parts that a mapping is composed of are visible. -/
theorem opened_allOf_visible (es : Keyed Value) :
    (Keyed.find? (visibleEntries settings .schema es) (.text "allOf")).map Value.opened =
      ((Keyed.find? es (.text "allOf")).map Value.opened).map (visible settings) := by
  rw [find?_visibleEntries hallOf, show roleOf "allOf" = .schema by decide]
  cases Keyed.find? es (.text "allOf") with
  | none => rfl
  | some v =>
    simp only [Option.map_some, Option.some.injEq]
    induction v using Value.induction with
    | map fs _ _ =>
      show (visibleAs settings .schema (.map fs)).opened = visibleAs settings .schema (.map fs)
      rw [visibleAs_schema]
      split <;> rfl
    | part n body ih => exact ih
    | _ => rfl

theorem isComposed_visibleEntries (es : Keyed Value) :
    isComposed (visibleEntries settings .schema es) = isComposed es := by
  unfold isComposed
  rw [opened_allOf_visible hallOf]
  cases (Keyed.find? es (.text "allOf")).map Value.opened with
  | none => rfl
  | some v =>
    cases v with
    | map fs =>
      obtain ⟨gs, hgs⟩ := exists_visibleAs_map settings .schema fs
      rw [Option.map_some, visible, hgs]
    | _ => rfl

theorem branchesOf_visibleEntries (es : Keyed Value) :
    branchesOf (visibleEntries settings .schema es) = visibleItems settings (branchesOf es) := by
  unfold branchesOf
  rw [opened_allOf_visible hallOf]
  cases (Keyed.find? es (.text "allOf")).map Value.opened with
  | none => rfl
  | some v =>
    cases v with
    | map fs =>
      obtain ⟨gs, hgs⟩ := exists_visibleAs_map settings .schema fs
      rw [Option.map_some, visible, hgs]
      rfl
    | _ => rfl

end

/-! ## Merging what is visible -/

section

variable {follow : String → Outcome Merged} {deprecated : Value → Except Fault Bool}

theorem mergeItems_visible {vs : List Value}
    (h : ∀ v ∈ vs, mergeAs settings follow deprecated .schema (visible settings v) =
      mergeAs settings follow deprecated .schema v) :
    mergeItems settings follow deprecated (visibleItems settings vs) =
      mergeItems settings follow deprecated vs := by
  induction vs with
  | nil => rfl
  | cons v rest ih =>
    rw [visibleItems_cons, mergeItems_cons, mergeItems_cons, ← visible, h v List.mem_cons_self,
      ih fun w hw => h w (List.mem_cons_of_mem _ hw)]

theorem mergeNamed_visible {es : Keyed Value}
    (h : ∀ k v, (k, v) ∈ es → mergeAs settings follow deprecated .schema (visible settings v) =
      mergeAs settings follow deprecated .schema v) :
    mergeNamed settings follow deprecated (visibleEntries settings .names es) =
      mergeNamed settings follow deprecated es := by
  induction es with
  | nil => rfl
  | cons e rest ih =>
    obtain ⟨name, v⟩ := e
    have hcons : visibleEntries settings .names ((name, v) :: rest) =
        (name, visible settings v) :: visibleEntries settings .names rest := rfl
    rw [hcons, mergeNamed_cons, mergeNamed_cons, h name v List.mem_cons_self,
      ih fun k w hw => h k w (List.mem_cons_of_mem _ hw)]

/-- The keywords that are merged are visible. -/
theorem mergeEntries_visible {skips : Scalar → Bool} {es : Keyed Value}
    (h : ∀ k v, (k, v) ∈ es → ∀ role,
      mergeAs settings follow deprecated role (visibleAs settings role v) =
        mergeAs settings follow deprecated role v) :
    mergeEntries settings follow deprecated skips (visibleEntries settings .schema es) =
      mergeEntries settings follow deprecated skips es := by
  induction es with
  | nil => rfl
  | cons e rest ih =>
    obtain ⟨k, v⟩ := e
    have ih := ih fun k w hw => h k w (List.mem_cons_of_mem _ hw)
    rw [visibleEntries_cons, mergeEntries_cons]
    by_cases hhidden : isHidden settings .schema k = true
    · rw [if_pos hhidden, ih]
      split
      · rfl
      · cases k with
        | text keyword => exact (if_pos hhidden).symm
        | _ => cases hhidden
    · rw [if_neg hhidden, mergeEntries_cons, ih]
      split
      · rfl
      · cases k with
        | text keyword =>
          have hv := h _ v List.mem_cons_self (roleOf keyword)
          have hunder : (if isBlanked settings .schema (.text keyword) = true then Value.null
              else visibleAs settings (Role.under .schema (.text keyword)) v) =
                visibleAs settings (roleOf keyword) v := rfl
          simp only [hunder, hv]
        | _ => rfl

theorem mergeBranches_visible {bs : List Value} {into : Parts}
    (h : ∀ b ∈ bs, mergeAs settings follow deprecated .schema (visible settings b) =
      mergeAs settings follow deprecated .schema b) :
    mergeBranches settings follow deprecated (visibleItems settings bs) into =
      mergeBranches settings follow deprecated bs into := by
  induction bs generalizing into with
  | nil => rfl
  | cons b rest ih =>
    have ih := fun {q} => @ih q fun c hc => h c (List.mem_cons_of_mem _ hc)
    rw [visibleItems_cons, mergeBranches_cons, mergeBranches_cons, ← visible,
      h b List.mem_cons_self]
    simp only [ih]

/-- The properties that are kept are visible, and so is which are left out. -/
theorem mergeProperties_visible (href : settings.isVendor "$ref" = false)
    (hdeprecated : settings.isVendor "deprecated" = false)
    (hfrom : ∀ v w, reference? v = reference? w → deprecated v = deprecated w) {es : Keyed Value}
    (h : ∀ k v, (k, v) ∈ es → mergeAs settings follow deprecated .schema (visible settings v) =
      mergeAs settings follow deprecated .schema v) :
    mergeProperties settings follow deprecated (visibleEntries settings .properties es) =
      mergeProperties settings follow deprecated es := by
  induction es with
  | nil => rfl
  | cons e rest ih =>
    obtain ⟨name, v⟩ := e
    have ih := ih fun k w hw => h k w (List.mem_cons_of_mem _ hw)
    have hcons : visibleEntries settings .properties ((name, v) :: rest) =
        (name, if settings.isRemoved name then .null else visible settings v) ::
          visibleEntries settings .properties rest := rfl
    rw [hcons, mergeProperties_cons, mergeProperties_cons, ih]
    by_cases hremoved : settings.isRemoved name = true
    · have hexcluded : ∀ w, settings.excludes name w = true := fun w => by
        rw [Settings.excludes, hremoved, Bool.true_or]
      rw [if_pos (hexcluded _), if_pos (hexcluded _)]
    · rw [if_neg hremoved, excludes_visible hdeprecated]
      by_cases hex : settings.excludes name v = true
      · rw [if_pos hex, if_pos hex]
      · have hv : isDeprecatedNode v = false := by
          have := (Bool.or_eq_false_iff.1 (Bool.eq_false_iff.2 hex)).2
          exact this
        rw [if_neg hex, if_neg hex, h name v List.mem_cons_self,
          hfrom _ _ (reference?_visible href hv)]

/-! ### Nothing beside a reference -/

/-- Keywords that are all skipped come to nothing. -/
theorem mergeEntries_of_skipped {skips : Scalar → Bool} {es : Keyed Value}
    (h : ∀ k ∈ Keyed.keys es, skips k = true) :
    mergeEntries settings follow deprecated skips es = pure ⟨[], []⟩ := by
  induction es with
  | nil => rfl
  | cons e rest ih =>
    obtain ⟨k, v⟩ := e
    rw [mergeEntries_cons, if_pos (h k List.mem_cons_self),
      ih fun q hq => h q (List.mem_cons_of_mem _ hq)]

/-- A reference that stands alone comes to nothing by its own keywords. -/
theorem mergeBeside_alone {es : Keyed Value} (hreference : isReference es = true)
    (halone : hasSiblings es = false) :
    mergeBeside settings follow deprecated es = pure ⟨[], []⟩ := by
  have hkeys : ∀ k ∈ Keyed.keys es, k = .text "$ref" := by
    intro k hk
    obtain ⟨v, hv⟩ := Keyed.mem_keys.1 hk
    simpa using List.any_eq_false.1 halone _ hv
  have hskipped : ∀ k ∈ Keyed.keys es, isStructural es k = true := by
    intro k hk
    rw [hkeys k hk, isStructural, hreference]
    rfl
  have hnone : Keyed.find? es (.text "allOf") = none :=
    Keyed.find?_eq_none fun k hk => by
      rw [hkeys k hk]
      decide
  have hcomposed : isComposed es = false := by
    rw [isComposed, hnone]
    rfl
  rw [mergeBeside, mergeEntries_of_skipped hskipped, pure_bind, compose]
  simp only [hcomposed]
  rfl

/-- A merged schema that finishing leaves as it is. -/
def IsFinished (settings : Settings) (m : Merged) : Prop :=
  ∀ base, m.schema = .map base → finish settings ⟨base, m.dropped⟩ = .ok ⟨base, m.dropped⟩

theorem isFinished_of_entries_nil {m : Merged} (h : m.entries = []) : IsFinished settings m := by
  intro base hbase
  rw [Merged.entries, hbase] at h
  obtain rfl : base = [] := h
  have hall : (m.dropped.filter fun name => !Keyed.has (propertiesOf []) name) = m.dropped :=
    List.filter_eq_self.2 fun _ _ => rfl
  show Except.ok (Parts.mk [] (m.dropped.filter _)) = _
  rw [hall]

theorem isFinished_toMerged {p q : Parts} (h : finish settings p = .ok q) :
    IsFinished settings q.toMerged := by
  intro base hbase
  obtain rfl := Value.map.inj hbase
  exact finish_finished h

/-- References come to finished schemas. -/
theorem resolveFrom_finished {document : Value} {bound : Bound} {visited : List String}
    {ref : String} {m : Merged}
    (h : (resolveFrom settings document bound visited ref).result = .ok m) :
    IsFinished settings m :=
  resolveFrom_induction_finished (p := IsFinished settings)
    (fun _ hnil _ => isFinished_of_entries_nil hnil) (fun _ _ => isFinished_toMerged) h

/-- What comes to nothing changes nothing in a finished target. -/
theorem overlay_nothing {es : Keyed Value} {target : Merged} {beside : Unit → Outcome Parts}
    (htarget : IsFinished settings target) (hbeside : beside () = pure ⟨[], []⟩) :
    overlay settings es target beside = pure target := by
  unfold overlay
  split
  · next base hbase =>
    split
    · rw [hbeside, pure_bind]
      show (do
        let done ← liftM (finish settings ⟨base, target.dropped ++ []⟩)
        return done.toMerged : Outcome Merged) = pure target
      rw [List.append_nil, htarget base hbase]
      show (pure ⟨.map base, target.dropped⟩ : Outcome Merged) = pure target
      rw [← hbase]
    · rfl
  · rfl

theorem hasSiblings_of_visible {es : Keyed Value}
    (h : hasSiblings (visibleEntries settings .schema es) = true) : hasSiblings es = true := by
  induction es with
  | nil => exact h
  | cons e rest ih =>
    obtain ⟨k, v⟩ := e
    rw [visibleEntries_cons] at h
    have hcons : ∀ w : Value, ∀ others : Keyed Value,
        hasSiblings ((k, w) :: others) = (k != .text "$ref" || hasSiblings others) :=
      fun _ _ => rfl
    rw [hcons, Bool.or_eq_true]
    split at h
    · exact Or.inr (ih h)
    · rw [hcons, Bool.or_eq_true] at h
      exact h.imp_right ih

/-! ### The recursion -/

section

variable (href : settings.isVendor "$ref" = false) (hallOf : settings.isVendor "allOf" = false)
  (hdeprecated : settings.isVendor "deprecated" = false)

include href hallOf

/-- What a mapping comes to by its own keywords is visible. -/
theorem mergeBeside_visible {es : Keyed Value}
    (hes : ∀ k v, (k, v) ∈ es → ∀ role,
      mergeAs settings follow deprecated role (visibleAs settings role v) =
        mergeAs settings follow deprecated role v)
    (hbs : ∀ b ∈ branchesOf es, mergeAs settings follow deprecated .schema (visible settings b) =
      mergeAs settings follow deprecated .schema b) :
    mergeBeside settings follow deprecated (visibleEntries settings .schema es) =
      mergeBeside settings follow deprecated es := by
  have hstructural : isStructural (visibleEntries settings .schema es) = isStructural es := by
    funext k
    rw [isStructural, isStructural, isReference, isReference, reference?_visibleEntries href,
      isComposed_visibleEntries hallOf]
  rw [mergeBeside, mergeBeside, hstructural, mergeEntries_visible hes]
  congr 1
  funext own
  rw [compose, compose, isComposed_visibleEntries hallOf]
  congr 1
  funext rest
  split
  · rw [mergeBranchesIn_eq, mergeBranchesIn_eq, branchesOf_visibleEntries hallOf,
      mergeBranches_visible hbs]
  · rfl

omit hallOf in
/-- **An overlay of what is visible**: where only hidden keywords stand beside a reference, laying them
over the finished target changes nothing. -/
theorem overlay_visible {es : Keyed Value} {target : Merged} (hreference : isReference es = true)
    (htarget : IsFinished settings target)
    (hbeside : mergeBeside settings follow deprecated (visibleEntries settings .schema es) =
      mergeBeside settings follow deprecated es) :
    (overlay settings (visibleEntries settings .schema es) target fun _ =>
        mergeBeside settings follow deprecated (visibleEntries settings .schema es)) =
      overlay settings es target fun _ => mergeBeside settings follow deprecated es := by
  cases hvisible : hasSiblings (visibleEntries settings .schema es) with
  | true =>
    unfold overlay
    rw [hvisible, hasSiblings_of_visible hvisible, hbeside]
  | false =>
    have hnothing : mergeBeside settings follow deprecated (visibleEntries settings .schema es) =
        pure ⟨[], []⟩ := by
      refine mergeBeside_alone ?_ hvisible
      rwa [isReference, reference?_visibleEntries href]
    rw [overlay_nothing htarget hnothing, overlay_nothing htarget (hbeside.symm.trans hnothing)]

include hdeprecated

/-- **Merging what is visible is merging**, if references come to finished schemas. -/
theorem mergeAs_visible
    (hfollow : ∀ ref m, (follow ref).result = .ok m → IsFinished settings m)
    (hfrom : ∀ v w, reference? v = reference? w → deprecated v = deprecated w) {role : Role}
    {v : Value} :
    mergeAs settings follow deprecated role (visibleAs settings role v) =
      mergeAs settings follow deprecated role v := by
  induction v using node_induction generalizing role with
  | scalar s => rfl
  | pair a b _ _ => rfl
  | set ms => rfl
  | list vs ih =>
    by_cases hr : role = .literal
    · subst hr
      rw [visibleAs_literal]
    · rw [visibleAs_list hr, mergeAs_list _ _ _ hr, mergeAs_list _ _ _ hr,
        mergeItems_visible fun v hv => ih v hv]
  | part n body ih =>
    by_cases hr : role = .literal
    · subst hr
      rw [visibleAs_literal]
    · rw [visibleAs_part hr, mergeAs_part _ _ _ hr, mergeAs_part _ _ _ hr, ih]
  | map es ih ihbranches =>
    cases role with
    | literal => rw [visibleAs_literal]
    | properties =>
      show mergeAs settings follow deprecated .properties
        (.map (visibleEntries settings .properties es)) = _
      rw [mergeAs_properties, mergeAs_properties,
        mergeProperties_visible href hdeprecated hfrom fun k v hv => ih k v hv]
    | names =>
      show mergeAs settings follow deprecated .names (.map (visibleEntries settings .names es)) = _
      rw [mergeAs_names, mergeAs_names, mergeNamed_visible fun k v hv => ih k v hv]
    | schema =>
      rw [visibleAs_schema]
      by_cases hdep : Settings.isDeprecated es = true
      · rw [if_pos hdep, mergeAs_schema, mergeAs_schema, if_pos isDeprecated_mark, if_pos hdep]
      · have hbeside := mergeBeside_visible href hallOf (fun k v hv _ => ih k v hv)
          fun b hb => ihbranches b hb
        rw [if_neg hdep, mergeAs_schema, mergeAs_schema,
          isDeprecated_visibleEntries hdeprecated, if_neg hdep, if_neg hdep,
          reference?_visibleEntries href]
        cases hreference : reference? (.map es) with
        | none => simp only [hbeside]
        | some ref =>
          refine Outcome.bind_congr_ok fun target htarget => ?_
          refine overlay_visible href ?_ (hfollow ref target htarget) hbeside
          rw [isReference, hreference, Option.isSome_some]

end

end

/-! ## Nodes of which the same is visible -/

/-- Whether a chain of references meets a deprecated node depends on the first reference only. -/
theorem leadsToDeprecated_congr {document v w : Value} (h : reference? v = reference? w) :
    leadsToDeprecated document v = leadsToDeprecated document w := by
  rw [leadsToDeprecated, leadsToDeprecated, leadsToDeprecatedFrom_eq, leadsToDeprecatedFrom_eq, h]

/-- **What is filtered out cannot influence the outcome.**  Nodes of which the same is visible merge
alike: to the same schema or to the same fault, and with the same events on the way.  Only the marks
that merging itself looks for must be no vendor extensions. -/
theorem merge_of_visible_eq (settings : Settings) (document : Value) (visited : List String)
    (node node' : Value) (href : settings.isVendor "$ref" = false)
    (hallOf : settings.isVendor "allOf" = false)
    (hdeprecated : settings.isVendor "deprecated" = false)
    (h : visible settings node = visible settings node') :
    merge settings document visited node = merge settings document visited node' := by
  -- One bound serves both nodes.
  let bound := Bound.ofNat
    ((references document).length + (references node).length + (references node').length)
  have hmerge : ∀ v, (references document).length + (references v).length ≤ bound.length →
      mergeVisited settings document visited v =
        mergeNode settings (resolveFrom settings document bound visited)
          (leadsToDeprecated document) (visible settings v) := by
    intro v hv
    rw [mergeVisited_of_enough hv]
    exact (mergeAs_visible href hallOf hdeprecated (fun _ _ => resolveFrom_finished)
      fun _ _ => leadsToDeprecated_congr).symm
  have hlength : bound.length = (references document).length + (references node).length +
      (references node').length := Bound.length_ofNat _
  rw [merge, merge, hmerge node (by omega), hmerge node' (by omega), h]

/-- A vendor extension beside a reference, a broken reference in a deprecated property and the schema of
a removed one make no difference. -/
theorem merge_of_visible_eq_reference :
    merge { removed := ["token"] } (.record [("Base", .record [("type", .text "string")])]) []
        (.record [("x-order", .int 1), ("properties", .record [
          ("base", .record [("$ref", .text "#/Base"), ("x-note", .text "internal")]),
          ("old", .record [("deprecated", .bool true), ("$ref", .text "#/Missing")]),
          ("token", .record [("allOf", .list [.record [("$ref", .text "#/Missing")]])])])]) =
      merge { removed := ["token"] } (.record [("Base", .record [("type", .text "string")])]) []
        (.record [("properties", .record [
          ("base", .record [("$ref", .text "#/Base")]),
          ("old", .record [("type", .text "integer"), ("deprecated", .bool true)]),
          ("token", .record [])])]) :=
  merge_of_visible_eq _ _ _ _ _ (by decide) (by decide) (by decide) (by rfl)

end ToolCatalog.Schema
