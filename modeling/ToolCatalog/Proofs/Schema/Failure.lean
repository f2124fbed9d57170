import ToolCatalog.Proofs.Schema.Merging
import ToolCatalog.Proofs.Schema.References

/-!
# How merging fails

A failure of merging is one of its resolver, one of a pointer that leads nowhere, or one of the four
mismatches of kinds that the merger meets itself: keys that are bytes or no texts, a required name
that cannot be a key, properties that cannot be added to.  Where all keys are texts only the latter two
are left, and a declared parameter is skipped for those as it is for references.

* `merge_skipsParameter`: whatever goes wrong with a schema whose keys are texts, its parameter is skipped.
-/

namespace ToolCatalog.Schema

/-- The faults that merging meets by itself. -/
def IsOwnFault (e : Fault) : Prop :=
  e = .notText ∨ e = .keyNotText ∨ e = .notKey ∨ e = .notCollection

/-- The faults that merging a mapping with the given keys meets by itself: the keys are not among them if
they are texts. -/
def OwnFaultOf (ks : List Scalar) (e : Fault) : Prop :=
  IsOwnFault e ∧ ((∀ k ∈ ks, ∃ s, k = .text s) → e = .notKey ∨ e = .notCollection)

theorem ownFaultOf_notKey (ks : List Scalar) : OwnFaultOf ks .notKey :=
  ⟨Or.inr (Or.inr (Or.inl rfl)), fun _ => Or.inl rfl⟩

theorem ownFaultOf_notCollection (ks : List Scalar) : OwnFaultOf ks .notCollection :=
  ⟨Or.inr (Or.inr (Or.inr rfl)), fun _ => Or.inr rfl⟩

/-- The faults that do not come from how references are resolved: those of the merger and those of
pointers. -/
def IsPlainFault (e : Fault) : Prop :=
  IsOwnFault e ∨ (∃ ref, e = .unsupportedReference ref) ∨
    ∃ ref segment, e = .invalidReferencePath ref segment

theorem keepRequired_error {settings : Settings} {properties : Keyed Value} {dropped : List Scalar}
    {kept names : List Value} {e : Fault}
    (h : keepRequired settings properties dropped kept names = .error e) : e = .notKey := by
  induction names generalizing kept with
  | nil => cases h
  | cons name rest ih =>
    unfold keepRequired at h
    split at h
    · exact ih h
    · split at h
      · split at h <;> exact ih h
      · split at h
        · exact ih h
        · exact (Except.error.inj h).symm

theorem finish_error {settings : Settings} {p : Parts} {e : Fault}
    (h : finish settings p = .error e) : e = .notKey := by
  unfold finish at h
  simp only at h
  split at h
  · next names hn =>
    obtain hk | ⟨kept, -, h⟩ := bind_eq_error.1 h
    · exact keepRequired_error hk
    · cases h
  · cases h

theorem openProperties_error {es : Keyed Value} {e : Fault} (h : openProperties es = .error e) :
    e = .notCollection := by
  unfold openProperties at h
  split at h
  · cases h
  · split at h
    · exact (Except.error.inj h).symm
    · cases h
  · cases h

theorem fold_error {overrides : Bool} {into es : Keyed Value} {e : Fault}
    (h : fold overrides into es = .error e) : e = .notCollection := by
  induction es generalizing into with
  | nil => cases h
  | cons f rest ih =>
    obtain ⟨k, v⟩ := f
    rw [fold] at h
    obtain hentry | ⟨next, -, h⟩ := bind_eq_error.1 h
    · unfold foldEntry at hentry
      split at hentry
      · obtain hopen | ⟨existing, -, hentry⟩ := bind_eq_error.1 hentry
        · exact openProperties_error hopen
        · cases hentry
      · cases hentry
      · cases hentry
    · exact ih h

section

variable {settings : Settings} {follow : String → Outcome Merged}
  {deprecated : Value → Except Fault Bool}

theorem mergeItems_error {vs : List Value} {e : Fault}
    (h : (mergeItems settings follow deprecated vs).result = .error e) :
    ∃ v ∈ vs, (mergeAs settings follow deprecated .schema v).result = .error e := by
  induction vs with
  | nil => cases h
  | cons v rest ih =>
    rw [mergeItems_cons] at h
    rcases Outcome.result_bind_error.1 h with h | ⟨m, -, h⟩
    · exact ⟨v, List.mem_cons_self, h⟩
    · rcases Outcome.result_bind_error.1 h with h | ⟨ws, -, h⟩
      · obtain ⟨v', hv', h⟩ := ih h
        exact ⟨v', List.mem_cons_of_mem _ hv', h⟩
      · cases h

theorem mergeNamed_error {es : Keyed Value} {e : Fault}
    (h : (mergeNamed settings follow deprecated es).result = .error e) :
    ∃ k v, (k, v) ∈ es ∧ (mergeAs settings follow deprecated .schema v).result = .error e := by
  induction es with
  | nil => cases h
  | cons f rest ih =>
    obtain ⟨name, v⟩ := f
    rw [mergeNamed_cons] at h
    rcases Outcome.result_bind_error.1 h with h | ⟨m, -, h⟩
    · exact ⟨name, v, List.mem_cons_self, h⟩
    · rcases Outcome.result_bind_error.1 h with h | ⟨ns, -, h⟩
      · obtain ⟨k', v', hv', h⟩ := ih h
        exact ⟨k', v', List.mem_cons_of_mem _ hv', h⟩
      · cases h

theorem mergeProperties_error {es : Keyed Value} {e : Fault}
    (h : (mergeProperties settings follow deprecated es).result = .error e) :
    ∃ k v, (k, v) ∈ es ∧
      ((mergeAs settings follow deprecated .schema v).result = .error e ∨ deprecated v = .error e) := by
  induction es with
  | nil => cases h
  | cons f rest ih =>
    obtain ⟨name, v⟩ := f
    -- The rest of the properties fails, whatever becomes of this one.
    have hrest : ∀ {g : Parts → Parts},
        (mergeProperties settings follow deprecated rest >>= fun q => pure (g q)).result =
          .error e → ∃ k v', (k, v') ∈ (name, v) :: rest ∧
            ((mergeAs settings follow deprecated .schema v').result = .error e ∨
              deprecated v' = .error e) := by
      intro g hg
      rcases Outcome.result_bind_error.1 hg with hg | ⟨q, -, hg⟩
      · obtain ⟨k', v', hv', hg⟩ := ih hg
        exact ⟨k', v', List.mem_cons_of_mem _ hv', hg⟩
      · cases hg
    rw [mergeProperties_cons] at h
    split at h
    · rcases Outcome.result_bind_error.1 h with h | ⟨-, -, h⟩
      · cases h
      · exact hrest h
    · rcases Outcome.result_bind_error.1 h with h | ⟨m, -, h⟩
      · exact ⟨name, v, List.mem_cons_self, Or.inl h⟩
      · rcases Outcome.result_bind_error.1 h with h | ⟨gone, -, h⟩
        · exact ⟨name, v, List.mem_cons_self, Or.inr h⟩
        · split at h
          · rcases Outcome.result_bind_error.1 h with h | ⟨-, -, h⟩
            · cases h
            · exact hrest h
          · exact hrest h

theorem mergeEntries_error {skips : Scalar → Bool} {es : Keyed Value} {e : Fault}
    (h : (mergeEntries settings follow deprecated skips es).result = .error e) :
    OwnFaultOf (Keyed.keys es) e ∨ ∃ k v role, (k, v) ∈ es ∧
      (mergeAs settings follow deprecated role v).result = .error e := by
  induction es with
  | nil => cases h
  | cons f rest ih =>
    obtain ⟨k, v⟩ := f
    have hrest : (mergeEntries settings follow deprecated skips rest).result = .error e →
        OwnFaultOf (Keyed.keys ((k, v) :: rest)) e ∨ ∃ k' v' role, (k', v') ∈ (k, v) :: rest ∧
          (mergeAs settings follow deprecated role v').result = .error e := by
      intro hg
      rcases ih hg with hg | ⟨k', v', role, hv', hg⟩
      · exact Or.inl ⟨hg.1, fun hks => hg.2 fun k hk => hks k (List.mem_cons_of_mem _ hk)⟩
      · exact Or.inr ⟨k', v', role, List.mem_cons_of_mem _ hv', hg⟩
    -- A key that is no text is the fault of its mapping.
    have hkey : IsOwnFault e → (∀ s, k ≠ .text s) → OwnFaultOf (Keyed.keys ((k, v) :: rest)) e := by
      refine fun hown hk => ⟨hown, fun hks => ?_⟩
      obtain ⟨s, hs⟩ := hks k List.mem_cons_self
      exact absurd hs (hk s)
    rw [mergeEntries_cons] at h
    split at h
    · exact hrest h
    · split at h
      · next keyword =>
        split at h
        · exact hrest h
        · rcases Outcome.result_bind_error.1 h with h | ⟨m, -, h⟩
          · exact Or.inr ⟨_, v, _, List.mem_cons_self, h⟩
          · rcases Outcome.result_bind_error.1 h with h | ⟨q, -, h⟩
            · exact hrest h
            · cases h
      · obtain rfl := Except.error.inj h
        exact Or.inl (hkey (Or.inl rfl) (by simp))
      · next hk _ =>
        obtain rfl := Except.error.inj h
        exact Or.inl (hkey (Or.inr (Or.inl rfl)) hk)

theorem mergeBranches_error {bs : List Value} {into : Parts} {e : Fault}
    (h : (mergeBranches settings follow deprecated bs into).result = .error e) :
    e = .notCollection ∨ ∃ b ∈ bs, (mergeAs settings follow deprecated .schema b).result = .error e := by
  induction bs generalizing into with
  | nil => cases h
  | cons b rest ih =>
    have hrest : ∀ {q}, (mergeBranches settings follow deprecated rest q).result = .error e →
        e = .notCollection ∨ ∃ b' ∈ b :: rest,
          (mergeAs settings follow deprecated .schema b').result = .error e := by
      intro q hq
      rcases ih hq with hq | ⟨b', hb', hq⟩
      · exact Or.inl hq
      · exact Or.inr ⟨b', List.mem_cons_of_mem _ hb', hq⟩
    rw [mergeBranches_cons] at h
    rcases Outcome.result_bind_error.1 h with h | ⟨m, -, h⟩
    · exact Or.inr ⟨b, List.mem_cons_self, h⟩
    · split at h
      · rcases Outcome.result_bind_error.1 h with h | ⟨entries, -, h⟩
        · exact Or.inl (fold_error h)
        · exact hrest h
      · exact hrest h

theorem mergeBeside_error {es : Keyed Value} {e : Fault}
    (h : (mergeBeside settings follow deprecated es).result = .error e) :
    OwnFaultOf (Keyed.keys es) e ∨
      (∃ k v role, (k, v) ∈ es ∧ (mergeAs settings follow deprecated role v).result = .error e) ∨
      ∃ b ∈ branchesOf es, (mergeAs settings follow deprecated .schema b).result = .error e := by
  have hfinish : ∀ {p : Parts}, finish settings p = .error e → OwnFaultOf (Keyed.keys es) e :=
    fun hp => finish_error hp ▸ ownFaultOf_notKey _
  rw [mergeBeside] at h
  rcases Outcome.result_bind_error.1 h with h | ⟨own, -, h⟩
  · exact (mergeEntries_error h).imp id Or.inl
  · rw [compose] at h
    rcases Outcome.result_bind_error.1 h with h | ⟨rest, -, h⟩
    · exact Or.inl (hfinish h)
    · split at h
      · rcases Outcome.result_bind_error.1 h with h | ⟨whole, -, h⟩
        · rw [mergeBranchesIn_eq] at h
          rcases mergeBranches_error h with rfl | h
          · exact Or.inl (ownFaultOf_notCollection _)
          · exact Or.inr (Or.inr h)
        · exact Or.inl (hfinish h)
      · cases h

theorem overlay_error {es : Keyed Value} {target : Merged} {beside : Unit → Outcome Parts}
    {e : Fault} (h : (overlay settings es target beside).result = .error e) :
    e = .notKey ∨ e = .notCollection ∨ (beside ()).result = .error e := by
  unfold overlay at h
  split at h
  · split at h
    · rcases Outcome.result_bind_error.1 h with h | ⟨own, -, h⟩
      · exact Or.inr (Or.inr h)
      · rcases Outcome.result_bind_error.1 h with h | ⟨whole, -, h⟩
        · exact Or.inr (Or.inl (fold_error h))
        · rcases Outcome.result_bind_error.1 h with h | ⟨done, -, h⟩
          · exact Or.inl (finish_error h)
          · cases h
    · cases h
  · cases h

/-- **Where a failure of merging comes from**: the merger itself, a reference, or the question
whether a reference leads to something deprecated.  What the merger meets itself depends on the keys of
the mappings in the node. -/
theorem mergeAs_error {q : List Scalar → Prop} {p : Fault → Prop}
    (hown : ∀ ks e, q ks → OwnFaultOf ks e → p e)
    (hfollow : ∀ ref e, (follow ref).result = .error e → p e)
    (hdeprecated : ∀ v e, deprecated v = .error e → p e)
    {role : Role} {v : Value} {e : Fault} (hv : v.KeysEverywhere q)
    (h : (mergeAs settings follow deprecated role v).result = .error e) : p e := by
  induction v using node_induction generalizing role with
  | scalar s =>
    rw [mergeAs_scalar] at h
    cases h
  | pair a b _ _ =>
    rw [mergeAs_pair] at h
    cases h
  | set ms =>
    rw [mergeAs_set] at h
    cases h
  | list vs ih =>
    by_cases hr : role = .literal
    · subst hr
      rw [mergeAs_literal] at h
      cases h
    · rw [mergeAs_list _ _ _ hr] at h
      rcases Outcome.result_bind_error.1 h with h | ⟨ws, -, h⟩
      · obtain ⟨v, hmem, h⟩ := mergeItems_error h
        exact ih v hmem (Value.keysEverywhere_list.1 hv v hmem) h
      · cases h
  | part n body ih =>
    by_cases hr : role = .literal
    · subst hr
      rw [mergeAs_literal] at h
      cases h
    · rw [mergeAs_part _ _ _ hr] at h
      exact ih (Value.keysEverywhere_part.1 hv) h
  | map es ih ihbranches =>
    obtain ⟨hkeys, hentries⟩ := Value.keysEverywhere_map.1 hv
    cases role with
    | literal =>
      rw [mergeAs_literal] at h
      cases h
    | properties =>
      rw [mergeAs_properties] at h
      rcases Outcome.result_bind_error.1 h with h | ⟨ps, -, h⟩
      · obtain ⟨k, v, hmem, h | h⟩ := mergeProperties_error h
        · exact ih k v hmem (hentries k v hmem) h
        · exact hdeprecated v e h
      · cases h
    | names =>
      rw [mergeAs_names] at h
      rcases Outcome.result_bind_error.1 h with h | ⟨ns, -, h⟩
      · obtain ⟨k, v, hmem, h⟩ := mergeNamed_error h
        exact ih k v hmem (hentries k v hmem) h
      · cases h
    | schema =>
      have hbeside : (mergeBeside settings follow deprecated es).result = .error e → p e := by
        intro hb
        rcases mergeBeside_error hb with hb | ⟨k, v, role, hmem, hb⟩ | ⟨b, hb, hm⟩
        · exact hown _ e hkeys hb
        · exact ih k v hmem (hentries k v hmem) hb
        · exact ihbranches b hb (hv.within (within_of_mem_branchesOf hb)) hm
      rw [mergeAs_schema] at h
      split at h
      · cases h
      · split at h
        · rcases Outcome.result_bind_error.1 h with h | ⟨target, -, h⟩
          · exact hfollow _ e h
          · rcases overlay_error h with rfl | rfl | h
            · exact hown _ _ hkeys (ownFaultOf_notKey _)
            · exact hown _ _ hkeys (ownFaultOf_notCollection _)
            · exact hbeside h
        · rcases Outcome.result_bind_error.1 h with h | ⟨whole, -, h⟩
          · exact hbeside h
          · cases h

end

/-! ## Faults of references -/

theorem follow_error {ref : String} {segments : List String} {v : Value} {e : Fault}
    (h : Pointer.follow ref segments v = .error e) :
    ∃ segment, e = .invalidReferencePath ref segment := by
  induction segments generalizing v with
  | nil => cases h
  | cons segment rest ih =>
    rw [Pointer.follow] at h
    split at h
    · exact ih h
    · exact ⟨segment, (Except.error.inj h).symm⟩

/-- A pointer that cannot be followed is not local, or has a segment that leads nowhere. -/
theorem walk_error_cases {document : Value} {ref : String} {e : Fault}
    (h : Pointer.walk document ref = .error e) :
    e = .unsupportedReference ref ∨ ∃ segment, e = .invalidReferencePath ref segment := by
  rw [Pointer.walk] at h
  obtain hsplit | ⟨segments, -, h⟩ := bind_eq_error.1 h
  · unfold Pointer.split at hsplit
    split at hsplit
    · exact Or.inl (Except.error.inj hsplit).symm
    · cases hsplit
  · exact Or.inr (follow_error h)

theorem walk_error {document : Value} {ref : String} {e : Fault}
    (h : Pointer.walk document ref = .error e) : IsPlainFault e := by
  rcases walk_error_cases h with rfl | ⟨segment, rfl⟩
  · exact Or.inr (Or.inl ⟨ref, rfl⟩)
  · exact Or.inr (Or.inr ⟨ref, segment, rfl⟩)

/-- Looking for a deprecated node fails only where a reference on the way cannot be followed. -/
theorem walk_of_leadsToDeprecatedFrom_error {document v : Value} {bound : Bound}
    {seen : List String} {e : Fault}
    (h : leadsToDeprecatedFrom document bound seen v = .error e) :
    ∃ ref ∈ references document ++ references v, Pointer.walk document ref = .error e := by
  induction bound generalizing seen v with
  | reached =>
    rw [leadsToDeprecatedFrom_eq] at h
    split at h
    · cases h
    · split at h <;> cases h
  | further rest ih =>
    rw [leadsToDeprecatedFrom_eq] at h
    split at h
    · cases h
    · next ref href =>
      split at h
      · cases h
      · simp only at h
        split at h
        · next hwalk =>
          obtain rfl := Except.error.inj h
          exact ⟨ref, List.mem_append_right _ (mem_references_of_reference? href), hwalk⟩
        · next target hwalk =>
          have htarget := references_within_subset (Pointer.within_of_walk hwalk)
          split at h
          · cases h
          · obtain ⟨ref', href', hfails⟩ := ih () h
            refine ⟨ref', List.mem_append_left _ ?_, hfails⟩
            exact (List.mem_append.1 href').elim id fun hmem => htarget hmem

theorem leadsToDeprecatedFrom_error {document v : Value} {bound : Bound} {seen : List String}
    {e : Fault} (h : leadsToDeprecatedFrom document bound seen v = .error e) : IsPlainFault e := by
  obtain ⟨ref, -, hwalk⟩ := walk_of_leadsToDeprecatedFrom_error h
  exact walk_error hwalk

/-- **How merging a node of a document fails**: with a plain fault or with one of its resolver. -/
theorem mergeNode_error {settings : Settings} {follow : String → Outcome Merged}
    {document v : Value} {e : Fault}
    (h : (mergeNode settings follow (leadsToDeprecated document) v).result = .error e) :
    IsPlainFault e ∨ ∃ ref, (follow ref).result = .error e :=
  mergeAs_error (q := fun _ => True)
    (p := fun e => IsPlainFault e ∨ ∃ ref, (follow ref).result = .error e)
    (fun _ _ _ he => Or.inl (Or.inl he.1)) (fun ref _ he => Or.inr ⟨ref, he⟩)
    (fun _ _ he => Or.inl (leadsToDeprecatedFrom_error he)) (fun _ _ => trivial) h

/-! ## Faults told in words -/

/-- A pointer that cannot be followed is reported in words. -/
theorem isOwn_of_walk {document : Value} {ref : String} {e : Fault}
    (h : Pointer.walk document ref = .error e) : e.isOwn = true := by
  rcases walk_error_cases h with rfl | ⟨segment, rfl⟩ <;> rfl

theorem isOwn_of_traceFrom {document node : Value} {bound : Bound} {seen : List String} {e : Fault}
    (h : traceFrom document bound seen node = .error e) : e.isOwn = true := by
  induction bound generalizing seen node with
  | reached =>
    rw [traceFrom_eq] at h
    split at h
    · cases h
    · split at h
      · obtain rfl := Except.error.inj h
        rfl
      · split at h
        · obtain rfl := Except.error.inj h
          rfl
        · obtain rfl := Except.error.inj h
          rfl
  | further rest ih =>
    rw [traceFrom_eq] at h
    split at h
    · cases h
    · split at h
      · obtain rfl := Except.error.inj h
        rfl
      · split at h
        · obtain rfl := Except.error.inj h
          rfl
        · simp only at h
          split at h
          · next hwalk =>
            obtain rfl := Except.error.inj h
            exact isOwn_of_walk hwalk
          · exact ih () h

/-- **A chain of references that does not end** is reported in words. -/
theorem isOwn_of_trace {document node : Value} {e : Fault} (h : trace document node = .error e) :
    e.isOwn = true :=
  isOwn_of_traceFrom h

theorem isOwn_of_leadsToDeprecatedFrom {document v : Value} {bound : Bound} {seen : List String}
    {e : Fault} (h : leadsToDeprecatedFrom document bound seen v = .error e) : e.isOwn = true := by
  obtain ⟨ref, -, hwalk⟩ := walk_of_leadsToDeprecatedFrom_error h
  exact isOwn_of_walk hwalk

/-! ## Faults that skip a parameter -/

theorem skipsParameter_of_isOwn {e : Fault} (h : e.isOwn = true) : e.skipsParameter = true := by
  rw [Fault.skipsParameter, h, Bool.true_or, Bool.true_or]

/-- A node whose keys are texts fails with a fault that skips its parameter, if its references do. -/
theorem mergeNode_skipsParameter {settings : Settings} {document : Value}
    {follow : String → Outcome Merged}
    (hfollow : ∀ ref e, (follow ref).result = .error e → e.skipsParameter = true) {node : Value}
    (hnode : node.HasTextKeys) {e : Fault}
    (h : (mergeNode settings follow (leadsToDeprecated document) node).result = .error e) :
    e.skipsParameter = true := by
  refine mergeAs_error (p := fun e => e.skipsParameter = true) ?_ hfollow ?_ hnode h
  · intro ks e hks he
    rcases he.2 hks with rfl | rfl <;> rfl
  · exact fun v e he => skipsParameter_of_isOwn (isOwn_of_leadsToDeprecatedFrom he)

theorem resolveFrom_skipsParameter {settings : Settings} {document : Value}
    (hdocument : document.HasTextKeys) {bound : Bound} {visited : List String} {ref : String}
    {e : Fault}
    (h : (resolveFrom settings document bound visited ref).result = .error e) :
    e.skipsParameter = true := by
  induction bound generalizing visited ref e with
  | reached =>
    rw [resolveFrom_eq] at h
    split at h
    · obtain rfl := Except.error.inj h
      rfl
    · split at h
      · obtain rfl := Except.error.inj h
        rfl
      · obtain rfl := Except.error.inj h
        rfl
  | further rest ih =>
    rw [resolveFrom_eq] at h
    split at h
    · obtain rfl := Except.error.inj h
      rfl
    · split at h
      · obtain rfl := Except.error.inj h
        rfl
      · rcases Outcome.result_bind_error.1 h with h | ⟨target, htarget, h⟩
        · exact skipsParameter_of_isOwn (isOwn_of_walk h)
        · exact mergeNode_skipsParameter (fun ref e he => ih () he)
            (Value.KeysEverywhere.within hdocument (Pointer.within_of_walk htarget)) h

/-- **Whatever goes wrong with a schema whose keys are texts**, its parameter is skipped and the
operation goes on. -/
theorem merge_skipsParameter {settings : Settings} {document node : Value} {visited : List String}
    (hdocument : document.HasTextKeys) (hnode : node.HasTextKeys) {e : Fault}
    (h : (merge settings document visited node).result = .error e) :
    e.skipsParameter = true := by
  rw [merge] at h
  rcases Outcome.result_bind_error.1 h with h | ⟨m, -, h⟩
  · exact mergeNode_skipsParameter
      (fun ref e he => resolveFrom_skipsParameter hdocument he) hnode h
  · cases h

end ToolCatalog.Schema
