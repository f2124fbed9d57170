import ToolCatalog.Proofs.Schema.CycleGuard

/-!
# What merging reads of a document

Three functions follow references into a document: the one that resolves them, the one that looks for a
deprecated target and the one that traces a chain to its end.  Each reads the document at the references it
meets and nowhere else.  So two documents that have the same behind a set of references, a set that is not
left by what stands there, cannot be told apart by a node whose references are in the set.

Each function also takes a bound that it reads off the document.  A bound that leaves room for all references
that are not open is as good as any other, so bounds read off two documents are no obstacle.

* `AgreeOn.merge`: a node merges alike in documents that agree on its references.
-/

namespace ToolCatalog.Schema

/-- Documents that agree on a set of references: behind each of them stands the same in both, and what
stands there spells only references in `core`, which are in the set.  Both documents spell at least as many
references, so that the bounds they give suffice. -/
structure AgreeOn (shared : String → Prop) (core : List String) (document document' : Value) :
    Prop where
  walk : ∀ ref, shared ref → Pointer.walk document ref = Pointer.walk document' ref
  inside : ∀ ref target, shared ref → Pointer.walk document ref = .ok target →
    references target ⊆ core
  core_shared : ∀ ref ∈ core, shared ref
  length_le : core.length ≤ (references document).length
  length_le' : core.length ≤ (references document').length

/-- A document agrees with itself on all references. -/
theorem AgreeOn.refl (document : Value) :
    AgreeOn (fun _ => True) (references document) document document where
  walk _ _ := rfl
  inside _ _ _ hwalk := references_within_subset (Pointer.within_of_walk hwalk)
  core_shared _ _ := trivial
  length_le := Nat.le_refl _
  length_le' := Nat.le_refl _

/-- A bound that leaves room for all references that are not open can open one more. -/
theorem exists_further {spelled visited : List String} {ref : String} (href : ref ∈ spelled)
    (hclosed : ¬ visited.contains ref = true) {bound : Bound}
    (h : (closedAmong spelled visited).length ≤ bound.length) :
    ∃ rest, bound = .further rest ∧
      (closedAmong spelled (ref :: visited)).length ≤ (rest ()).length := by
  have hfewer := length_closedAmong_cons href (by simpa using hclosed)
  cases bound with
  | reached =>
    rw [Bound.length] at h
    omega
  | further rest =>
    rw [Bound.length] at h
    exact ⟨rest, rfl, by omega⟩

namespace AgreeOn

variable {settings : Settings} {shared : String → Prop} {core spelled : List String}
  {document document' : Value} (h : AgreeOn shared core document document')

include h

section

variable (hcore : core ⊆ spelled) (hspelled : ∀ ref ∈ spelled, shared ref)

include hcore hspelled

/-- **Chains of references** lead to the same end. -/
theorem traceFrom {bound bound' : Bound} {seen : List String} {node : Value}
    (hbound : (closedAmong spelled seen).length ≤ bound.length)
    (hbound' : (closedAmong spelled seen).length ≤ bound'.length)
    (hnode : ∀ ref, reference? node = some ref → ref ∈ spelled) :
    traceFrom document bound seen node = Schema.traceFrom document' bound' seen node := by
  rw [traceFrom_eq, traceFrom_eq]
  split
  · rfl
  · next ref href =>
    split
    · rfl
    · split
      · rfl
      · next hclosed =>
        obtain ⟨rest, rfl, hrest⟩ := exists_further (hnode ref href) hclosed hbound
        obtain ⟨rest', rfl, hrest'⟩ := exists_further (hnode ref href) hclosed hbound'
        have hfewer := length_closedAmong_cons (hnode ref href) (by simpa using hclosed)
        have hshared := hspelled ref (hnode ref href)
        simp only
        rw [← h.walk ref hshared]
        cases hwalk : Pointer.walk document ref with
        | error e => rfl
        | ok next =>
          exact traceFrom hrest hrest' fun r hr =>
            hcore (h.inside ref next hshared hwalk (mem_references_of_reference? hr))
termination_by (closedAmong spelled seen).length

/-- **Deprecated targets** are found in both documents or in neither. -/
theorem leadsToDeprecatedFrom {bound bound' : Bound} {seen : List String} {node : Value}
    (hbound : (closedAmong spelled seen).length ≤ bound.length)
    (hbound' : (closedAmong spelled seen).length ≤ bound'.length)
    (hnode : ∀ ref, reference? node = some ref → ref ∈ spelled) :
    leadsToDeprecatedFrom document bound seen node =
      Schema.leadsToDeprecatedFrom document' bound' seen node := by
  rw [leadsToDeprecatedFrom_eq, leadsToDeprecatedFrom_eq]
  split
  · rfl
  · next ref href =>
    split
    · rfl
    · next hopen =>
      have hclosed : ¬ seen.contains ref = true := fun hseen => hopen (by rw [hseen, Bool.or_true])
      obtain ⟨rest, rfl, hrest⟩ := exists_further (hnode ref href) hclosed hbound
      obtain ⟨rest', rfl, hrest'⟩ := exists_further (hnode ref href) hclosed hbound'
      have hfewer := length_closedAmong_cons (hnode ref href) (by simpa using hclosed)
      have hshared := hspelled ref (hnode ref href)
      simp only
      rw [← h.walk ref hshared]
      cases hwalk : Pointer.walk document ref with
      | error e => rfl
      | ok next =>
        have hnext := leadsToDeprecatedFrom hrest hrest' fun r hr =>
          hcore (h.inside ref next hshared hwalk (mem_references_of_reference? hr))
        simp only [hnext]
termination_by (closedAmong spelled seen).length

end

/-- A chain needs no more steps than the references of the document and one more. -/
theorem length_closedAmong_chain (first : Option String) :
    (closedAmong (first.toList ++ core) []).length ≤ (chainBound document).length ∧
      (closedAmong (first.toList ++ core) []).length ≤ (chainBound document').length := by
  have hclosed : (closedAmong (first.toList ++ core) []).length ≤ core.length + 1 := by
    refine Nat.le_trans (List.length_filter_le _ _) ?_
    rw [List.length_append]
    cases first <;> simp [Nat.add_comm]
  have hchain : ∀ d, (references d).length + 1 ≤ (chainBound d).length :=
    fun d => Bound.le_length_ofCount fun _ => (references d).length + 1
  exact ⟨Nat.le_trans hclosed (Nat.le_trans (Nat.succ_le_succ h.length_le) (hchain document)),
    Nat.le_trans hclosed (Nat.le_trans (Nat.succ_le_succ h.length_le') (hchain document'))⟩

section

variable {node : Value} (hnode : ∀ ref, reference? node = some ref → shared ref)

include hnode

theorem shared_chain : ∀ ref ∈ (reference? node).toList ++ core, shared ref := by
  intro ref href
  rcases List.mem_append.1 href with href | href
  · exact hnode ref (Option.mem_toList.1 href)
  · exact h.core_shared ref href

/-- Whether a node leads to a deprecated one is the same in both documents. -/
theorem leadsToDeprecated :
    leadsToDeprecated document node = Schema.leadsToDeprecated document' node := by
  obtain ⟨hbound, hbound'⟩ := h.length_closedAmong_chain (reference? node)
  exact h.leadsToDeprecatedFrom (List.subset_append_right _ _) (h.shared_chain hnode) hbound hbound'
    fun ref href => List.mem_append_left _ (Option.mem_toList.2 href)

/-- The node at the end of a chain is the same in both documents. -/
theorem trace : trace document node = Schema.trace document' node := by
  obtain ⟨hbound, hbound'⟩ := h.length_closedAmong_chain (reference? node)
  exact h.traceFrom (List.subset_append_right _ _) (h.shared_chain hnode) hbound hbound'
    fun ref href => List.mem_append_left _ (Option.mem_toList.2 href)

end

/-- **References of the set resolve alike.** -/
theorem resolveFrom (hcore : core ⊆ spelled) (hspelled : ∀ ref ∈ spelled, shared ref)
    {bound bound' : Bound} {visited : List String}
    (hbound : (closedAmong spelled visited).length ≤ bound.length)
    (hbound' : (closedAmong spelled visited).length ≤ bound'.length) {ref : String}
    (href : ref ∈ spelled) :
    resolveFrom settings document bound visited ref =
      Schema.resolveFrom settings document' bound' visited ref := by
  rw [resolveFrom_eq, resolveFrom_eq]
  split
  · rfl
  · split
    · rfl
    · next hclosed =>
      obtain ⟨rest, rfl, hrest⟩ := exists_further href hclosed hbound
      obtain ⟨rest', rfl, hrest'⟩ := exists_further href hclosed hbound'
      have hfewer := length_closedAmong_cons href (by simpa using hclosed)
      have hshared := hspelled ref href
      simp only
      rw [← h.walk ref hshared]
      refine Outcome.bind_congr_ok fun target htarget => ?_
      have htarget : references target ⊆ core := h.inside ref target hshared htarget
      refine mergeAs_congr (fun ref' href' => ?_) fun w hw => h.leadsToDeprecated fun ref' href' => ?_
      · exact resolveFrom hcore hspelled hrest hrest' (hcore (htarget href'))
      · exact h.core_shared ref' (htarget
          (references_within_subset hw (mem_references_of_reference? href')))
termination_by (closedAmong spelled visited).length

/-- **A node whose references are in the set merges alike**: to the same schema or the same fault, with
the same events on the way. -/
theorem merge {visited : List String} {node : Value} (hnode : ∀ ref ∈ references node, shared ref) :
    merge settings document visited node = Schema.merge settings document' visited node := by
  have hspelled : ∀ ref ∈ core ++ references node, shared ref := by
    intro ref href
    exact (List.mem_append.1 href).elim (h.core_shared ref) (hnode ref)
  have hclosed : (closedAmong (core ++ references node) visited).length ≤
      core.length + (references node).length := by
    rw [← List.length_append]
    exact List.length_filter_le _ _
  have henough : ∀ d, core.length ≤ (references d).length →
      (closedAmong (core ++ references node) visited).length ≤
        (Bound.ofCount fun _ => (references d).length + (references node).length).length :=
    fun d hd => Nat.le_trans hclosed (Nat.le_trans (Nat.add_le_add_right hd _)
      (Bound.le_length_ofCount fun _ => (references d).length + (references node).length))
  have hvisited : mergeVisited settings document visited node =
      mergeVisited settings document' visited node := by
    refine mergeAs_congr (fun ref href => ?_) fun w hw => h.leadsToDeprecated fun ref href => ?_
    · exact h.resolveFrom (List.subset_append_left _ _) hspelled (henough document h.length_le)
        (henough document' h.length_le') (List.mem_append_right _ href)
    · exact hnode ref (references_within_subset hw (mem_references_of_reference? href))
  rw [Schema.merge, Schema.merge, hvisited]

end AgreeOn

/-! ## Any bound that suffices -/

section

variable {settings : Settings} {document : Value}

/-- **A bound that leaves room for all references that are not open** is as good as any other. -/
theorem resolveFrom_of_enough {spelled : List String} (hdocument : references document ⊆ spelled)
    {bound bound' : Bound} {visited : List String}
    (h : (closedAmong spelled visited).length ≤ bound.length)
    (h' : (closedAmong spelled visited).length ≤ bound'.length) {ref : String}
    (href : ref ∈ spelled) :
    resolveFrom settings document bound visited ref =
      resolveFrom settings document bound' visited ref :=
  (AgreeOn.refl document).resolveFrom hdocument (fun _ _ => trivial) h h' href

/-- A bound for all references of the document and one more resolves a reference as the bound of chains
does. -/
theorem resolveFrom_chainBound {bound : Bound} {visited : List String} {ref : String}
    (h : (references document).length + 1 ≤ bound.length) :
    resolveFrom settings document (chainBound document) visited ref =
      resolveFrom settings document bound visited ref := by
  have hclosed : (closedAmong (ref :: references document) visited).length ≤
      (references document).length + 1 := List.length_filter_le _ _
  have hchain := Bound.le_length_ofCount fun _ => (references document).length + 1
  exact resolveFrom_of_enough (List.subset_cons_self _ _) (Nat.le_trans hclosed hchain)
    (Nat.le_trans hclosed h) List.mem_cons_self

/-- Merging a node may use any bound that is no less than the number of references. -/
theorem mergeVisited_of_enough {visited : List String} {node : Value} {bound : Bound}
    (h : (references document).length + (references node).length ≤ bound.length) :
    mergeVisited settings document visited node =
      mergeNode settings (resolveFrom settings document bound visited)
        (leadsToDeprecated document) node := by
  have hclosed : (closedAmong (references document ++ references node) visited).length ≤
      (references document).length + (references node).length := by
    rw [← List.length_append]
    exact List.length_filter_le _ _
  rw [mergeVisited]
  refine mergeAs_congr (fun ref href => ?_) fun _ _ => rfl
  refine resolveFrom_of_enough (List.subset_append_left _ _) ?_ (Nat.le_trans hclosed h)
    (List.mem_append_right _ href)
  exact Nat.le_trans hclosed (Bound.le_length_ofCount
    fun _ => (references document).length + (references node).length)

end

end ToolCatalog.Schema
