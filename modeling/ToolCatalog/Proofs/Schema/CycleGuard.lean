import ToolCatalog.Proofs.Schema.Approximation
import ToolCatalog.Proofs.Schema.Failure

/-!
# The record of open references is only a guard against cycles

`unfoldFrom` resolves references without a record of those that are open, to a given depth.  On
every branch the guarded resolver is below it and it is below the guarded resolver, so the two can
differ only where one of them has not been able to finish.

The second comparison looks at a reference at the least depth at which it finishes.  At lower depths
it does not finish, so it cannot be met again on the way, and it does no harm to call it open while
its target is merged.  Each reference that is opened is one of those that the document and the node
spell, which is why the bound suffices.

* `merge_iff_evaluate`: merging gives what the unguarded evaluator gives at some depth, and finds a
  cycle exactly if the evaluator finishes at none.
-/

namespace ToolCatalog.Schema

/-! ## The unguarded evaluator -/

/-- Resolve a local reference and merge its target, following references no deeper than `depth`. -/
def unfoldFrom (settings : Settings) (document : Value) : Nat → String → Outcome Merged
  | 0, ref =>
    if !Pointer.isLocal ref then .fail (.unsupportedReference ref) else .fail .excessiveDepth
  | depth + 1, ref =>
    if !Pointer.isLocal ref then .fail (.unsupportedReference ref)
    else do
      let target ← Pointer.walk document ref
      mergeNode settings (unfoldFrom settings document depth) (leadsToDeprecated document) target

/-- Merge a node, following references no deeper than `depth`. -/
def unfold (settings : Settings) (document : Value) (depth : Nat) (node : Value) : Outcome Merged :=
  mergeNode settings (unfoldFrom settings document depth) (leadsToDeprecated document) node

/-- **The unguarded evaluator**: the schema or the fault that a node comes to at a depth, nothing if
the depth does not suffice. -/
def evaluate (settings : Settings) (document : Value) (depth : Nat) (node : Value) :
    Option (Except Fault Value) :=
  match (unfold settings document depth node).result with
  | .ok m => some (.ok m.schema)
  | .error .excessiveDepth => none
  | .error e => some (.error e)

/-! ## Runs that did not finish -/

/-- A fault that ends a run before it is finished: a reference is open already, or the depth does not
suffice. -/
def IsStuck (e : Fault) : Prop := (∃ ref, e = .circularReference ref) ∨ e = .excessiveDepth

/-- A run that did not finish. -/
def Unfinished {α : Type} (x : Outcome α) : Prop := ∃ e, x.result = .error e ∧ IsStuck e

/-- What is below a run that did not finish did not finish. -/
theorem Unfinished.of_below {α : Type} {x y : Outcome α} (h : x.Below IsStuck y)
    (hy : Unfinished y) : Unfinished x := by
  rcases h with h | rfl
  · exact h
  · exact hy

/-- Two runs, each below the other on some third, agree as soon as one of them is finished. -/
theorem eq_of_below {α : Type} {x y : Outcome α} (h : x.Below IsStuck y) (hx : ¬ Unfinished x) :
    x = y :=
  h.eq_of_finished fun e he hs => hx ⟨e, he, hs⟩

variable {settings : Settings} {document node : Value}

/-- **Deeper is better**: what finishes at a depth is the same one level deeper. -/
theorem unfoldFrom_below_succ (n : Nat) (ref : String) :
    (unfoldFrom settings document n ref).Below IsStuck
      (unfoldFrom settings document (n + 1) ref) := by
  induction n generalizing ref with
  | zero =>
    rw [unfoldFrom, unfoldFrom]
    split
    · exact .refl _
    · exact .fail (Or.inr rfl) _
  | succ n ih =>
    rw [unfoldFrom, unfoldFrom]
    split
    · exact .refl _
    · refine Outcome.Below.bind (.refl _) fun target => ?_
      exact mergeAs_below (fun ref' _ => ih ref') fun _ _ => rfl

/-- **The guard only stops runs**: the guarded resolver is below the unguarded one. -/
theorem resolveFrom_below (bound : Bound) (visited : List String) (ref : String) :
    (resolveFrom settings document bound visited ref).Below IsStuck
      (unfoldFrom settings document bound.length ref) := by
  induction bound generalizing visited ref with
  | reached =>
    rw [Bound.length, resolveFrom_eq, unfoldFrom]
    split
    · exact .refl _
    · split <;> exact .fail (Or.inl ⟨ref, rfl⟩) _
  | further rest ih =>
    rw [Bound.length, resolveFrom_eq, unfoldFrom]
    split
    · exact .refl _
    · split
      · exact .fail (Or.inl ⟨ref, rfl⟩) _
      · refine Outcome.Below.bind (.refl _) fun target => ?_
        exact mergeAs_below (fun ref' _ => ih () (ref :: visited) ref') fun _ _ => rfl

/-- **A longer bound only lets more runs finish.** -/
theorem resolveFrom_below_longer {bound bound' : Bound} (h : bound.length ≤ bound'.length)
    (visited : List String) (ref : String) :
    (resolveFrom settings document bound visited ref).Below IsStuck
      (resolveFrom settings document bound' visited ref) := by
  induction bound generalizing bound' visited ref with
  | reached =>
    cases bound' with
    | reached => exact .refl _
    | further rest' =>
      rw [resolveFrom_eq, resolveFrom_eq]
      split
      · exact .refl _
      · split <;> exact .fail (Or.inl ⟨ref, rfl⟩) _
  | further rest ih =>
    cases bound' with
    | reached => simp [Bound.length] at h
    | further rest' =>
      rw [resolveFrom_eq, resolveFrom_eq]
      split
      · exact .refl _
      · split
        · exact .refl _
        · refine Outcome.Below.bind (.refl _) fun target => ?_
          have hrest : (rest ()).length ≤ (rest' ()).length := by simpa [Bound.length] using h
          exact mergeAs_below (fun ref' _ => ih () hrest _ ref') fun _ _ => rfl

/-- The references of `spelled` that are not open. -/
def closedAmong (spelled visited : List String) : List String :=
  spelled.filter fun ref => !visited.contains ref

/-- Opening a reference leaves fewer that are not open. -/
theorem length_closedAmong_cons {spelled visited : List String} {ref : String}
    (hs : ref ∈ spelled) (hv : ref ∉ visited) :
    (closedAmong spelled (ref :: visited)).length < (closedAmong spelled visited).length := by
  have hfilter : closedAmong spelled (ref :: visited) =
      (closedAmong spelled visited).filter fun r => r != ref := by
    unfold closedAmong
    rw [List.filter_filter]
    congr 1
    funext r
    rw [List.contains_cons, Bool.not_or]
    rfl
  rw [hfilter, List.length_filter_lt_length_iff_exists]
  refine ⟨ref, ?_, by simp⟩
  exact List.mem_filter.2 ⟨hs, by simpa using hv⟩

/-- **The guard stops no run that would finish.**  If the references that are open do not finish at a
depth, and the bound leaves room for all that are not open, then a reference that finishes at this
depth comes to the same under the guard. -/
theorem unfoldFrom_below_resolveFrom {spelled : List String}
    (hdocument : references document ⊆ spelled) (n : Nat) (bound : Bound) (visited : List String)
    (hopen : ∀ ref ∈ visited, Unfinished (unfoldFrom settings document n ref))
    (hbound : (closedAmong spelled visited).length ≤ bound.length) (ref : String)
    (href : ref ∈ spelled) :
    (unfoldFrom settings document n ref).Below IsStuck
      (resolveFrom settings document bound visited ref) := by
  induction n generalizing bound visited ref with
  | zero =>
    rw [unfoldFrom, resolveFrom_eq]
    split
    · exact .refl _
    · exact .fail (Or.inr rfl) _
  | succ k ih =>
    by_cases hbelow : Unfinished (unfoldFrom settings document k ref)
    · by_cases hvisited : ref ∈ visited
      · exact Or.inl (hopen ref hvisited)
      -- The reference does not finish below this level, so it may be called open there.
      have hfewer := length_closedAmong_cons href hvisited
      have hopen' : ∀ ref' ∈ ref :: visited, Unfinished (unfoldFrom settings document k ref') := by
        intro ref' href'
        rcases List.mem_cons.1 href' with rfl | href'
        · exact hbelow
        · exact .of_below (unfoldFrom_below_succ k ref') (hopen ref' href')
      cases bound with
      | reached =>
        rw [Bound.length] at hbound
        omega
      | further rest =>
        rw [Bound.length] at hbound
        rw [unfoldFrom, resolveFrom_eq, if_neg (show ¬ visited.contains ref = true by simpa)]
        split
        · exact .refl _
        · cases hwalk : Pointer.walk document ref with
          | error e => exact .refl _
          | ok target =>
            have hspelled : references target ⊆ spelled :=
              List.Subset.trans (references_within_subset (Pointer.within_of_walk hwalk)) hdocument
            show (mergeNode settings (unfoldFrom settings document k) (leadsToDeprecated document)
              target).Below IsStuck (mergeNode settings
                (resolveFrom settings document (rest ()) (ref :: visited))
                (leadsToDeprecated document) target)
            refine mergeAs_below (fun ref' href' => ?_) fun _ _ => rfl
            exact ih (rest ()) (ref :: visited) hopen' (by omega) ref' (hspelled href')
    · -- The reference finishes one level below already.
      rw [← eq_of_below (unfoldFrom_below_succ k ref) hbelow]
      refine ih bound visited (fun ref' href' => ?_) hbound ref href
      exact .of_below (unfoldFrom_below_succ k ref') (hopen ref' href')

/-! ## Merging a node -/

/-- Merging a node is below unfolding it to the depth that the bound allows. -/
theorem mergeVisited_below (settings : Settings) (document node : Value) (visited : List String) :
    ∃ depth, (mergeVisited settings document visited node).Below IsStuck
      (unfold settings document depth node) := by
  rw [mergeVisited]
  exact ⟨_, mergeAs_below (fun ref _ => resolveFrom_below _ visited ref) fun _ _ => rfl⟩

/-- Unfolding a node to any depth is below merging it while no reference is open. -/
theorem unfold_below (settings : Settings) (document node : Value) (depth : Nat) :
    (unfold settings document depth node).Below IsStuck
      (mergeVisited settings document [] node) := by
  have hbound := Bound.le_length_ofCount
    fun _ => (references document).length + (references node).length
  rw [unfold, mergeVisited]
  refine mergeAs_below (fun ref href => ?_) fun _ _ => rfl
  refine unfoldFrom_below_resolveFrom (List.subset_append_left _ _) depth _ [] (by simp) ?_ ref
    (List.mem_append_right _ href)
  calc (closedAmong (references document ++ references node) []).length
      ≤ (references document ++ references node).length := List.length_filter_le _ _
    _ = (references document).length + (references node).length := List.length_append
    _ ≤ _ := hbound

/-! ## Which fault ends a run that did not finish -/

theorem IsPlainFault.not_stuck {e : Fault} (h : IsPlainFault e) : ¬ IsStuck e := by
  rcases h with (rfl | rfl | rfl | rfl) | ⟨ref, rfl⟩ | ⟨ref, segment, rfl⟩ <;> simp [IsStuck]

/-- The guarded resolver is stopped by nothing but a cycle. -/
theorem resolveFrom_error {bound : Bound} {visited : List String} {ref : String} {e : Fault}
    (h : (resolveFrom settings document bound visited ref).result = .error e) :
    IsPlainFault e ∨ ∃ ref, e = .circularReference ref := by
  induction bound generalizing visited ref with
  | reached =>
    rw [resolveFrom_eq] at h
    split at h
    · obtain rfl := Except.error.inj h
      exact Or.inl (Or.inr (Or.inl ⟨ref, rfl⟩))
    · right
      split at h <;> exact ⟨ref, (Except.error.inj h).symm⟩
  | further rest ih =>
    rw [resolveFrom_eq] at h
    split at h
    · obtain rfl := Except.error.inj h
      exact Or.inl (Or.inr (Or.inl ⟨ref, rfl⟩))
    · split at h
      · exact Or.inr ⟨ref, (Except.error.inj h).symm⟩
      · rcases Outcome.result_bind_error.1 h with h | ⟨target, -, h⟩
        · exact Or.inl (walk_error h)
        · rcases mergeNode_error h with h | ⟨ref', h⟩
          · exact Or.inl h
          · exact ih () h

/-- The unguarded resolver is stopped by nothing but the depth. -/
theorem unfoldFrom_error {n : Nat} {ref : String} {e : Fault}
    (h : (unfoldFrom settings document n ref).result = .error e) :
    IsPlainFault e ∨ e = .excessiveDepth := by
  induction n generalizing ref with
  | zero =>
    rw [unfoldFrom] at h
    split at h
    · obtain rfl := Except.error.inj h
      exact Or.inl (Or.inr (Or.inl ⟨ref, rfl⟩))
    · exact Or.inr (Except.error.inj h).symm
  | succ n ih =>
    rw [unfoldFrom] at h
    split at h
    · obtain rfl := Except.error.inj h
      exact Or.inl (Or.inr (Or.inl ⟨ref, rfl⟩))
    · rcases Outcome.result_bind_error.1 h with h | ⟨target, -, h⟩
      · exact Or.inl (walk_error h)
      · rcases mergeNode_error h with h | ⟨ref', h⟩
        · exact Or.inl h
        · exact ih h

/-- A merge that did not finish met a cycle. -/
theorem mergeVisited_unfinished {visited : List String}
    (h : Unfinished (mergeVisited settings document visited node)) :
    ∃ ref, (mergeVisited settings document visited node).result =
      .error (.circularReference ref) := by
  obtain ⟨e, he, hs⟩ := h
  have hplain : IsPlainFault e ∨ ∃ ref, e = .circularReference ref := by
    rcases mergeNode_error he with h | ⟨ref, h⟩
    · exact Or.inl h
    · exact resolveFrom_error h
  rcases hplain with hp | ⟨ref, rfl⟩
  · exact absurd hs hp.not_stuck
  · exact ⟨ref, he⟩

/-- An unguarded run that did not finish ran out of depth. -/
theorem unfold_unfinished {depth : Nat} :
    Unfinished (unfold settings document depth node) ↔
      (unfold settings document depth node).result = .error .excessiveDepth := by
  constructor
  · rintro ⟨e, he, hs⟩
    have hplain : IsPlainFault e ∨ e = .excessiveDepth := by
      rcases mergeNode_error he with h | ⟨ref, h⟩
      · exact Or.inl h
      · exact unfoldFrom_error h
    rcases hplain with hp | rfl
    · exact absurd hs hp.not_stuck
    · exact he
  · intro h
    exact ⟨_, h, Or.inr rfl⟩

/-! ## The two evaluators -/

/-- What the evaluator gives is the result of the unguarded run, without the account of names. -/
theorem evaluate_eq_some {depth : Nat} {r : Except Fault Value} :
    evaluate settings document depth node = some r ↔
      ¬ Unfinished (unfold settings document depth node) ∧
        (unfold settings document depth node).result.map Merged.schema = r := by
  rw [unfold_unfinished, evaluate]
  split
  · next h => simp [h, Except.map]
  · next h => simp [h]
  · next e hne h =>
    simp only [h, Except.map, Option.some.injEq, Except.error.injEq]
    exact ⟨fun hr => ⟨hne, hr⟩, fun hr => hr.2⟩

/-- The result of a merge is that of merging with an account of names, without the account. -/
theorem result_merge (visited : List String) :
    (merge settings document visited node).result =
      (mergeVisited settings document visited node).result.map Merged.schema := by
  rw [merge, Outcome.result_bind]
  cases (mergeVisited settings document visited node).result <;> rfl

/-- **A finished merge is what the evaluator gives at some depth.** -/
theorem evaluate_iff_finished {r : Except Fault Value} :
    (∃ depth, evaluate settings document depth node = some r) ↔
      ¬ Unfinished (mergeVisited settings document [] node) ∧
        (merge settings document [] node).result = r := by
  rw [result_merge]
  constructor
  · rintro ⟨depth, h⟩
    obtain ⟨hfinished, hr⟩ := evaluate_eq_some.1 h
    rw [← eq_of_below (unfold_below settings document node depth) hfinished]
    exact ⟨hfinished, hr⟩
  · rintro ⟨hfinished, hr⟩
    obtain ⟨depth, hdepth⟩ := mergeVisited_below settings document node []
    refine ⟨depth, evaluate_eq_some.2 ?_⟩
    rw [← eq_of_below hdepth hfinished]
    exact ⟨hfinished, hr⟩

/-- A merge met a cycle exactly if it did not finish. -/
theorem merge_circular_iff {visited : List String} :
    (∃ ref, (merge settings document visited node).result = .error (.circularReference ref)) ↔
      Unfinished (mergeVisited settings document visited node) := by
  rw [result_merge]
  constructor
  · rintro ⟨ref, h⟩
    cases hm : (mergeVisited settings document visited node).result with
    | ok m =>
      rw [hm] at h
      cases h
    | error e =>
      rw [hm] at h
      obtain rfl := Except.error.inj h
      exact ⟨_, hm, Or.inl ⟨ref, rfl⟩⟩
  · intro h
    obtain ⟨ref, hm⟩ := mergeVisited_unfinished h
    exact ⟨ref, by rw [hm]; rfl⟩

/-- **The record of open references is only a guard against cycles.**  Merging a node while no
reference is open gives a schema or a fault other than a cycle exactly if the unguarded evaluator does
so at some depth, and meets a cycle exactly if the evaluator finishes at no depth.  While references
are open, merging does the same or meets a cycle. -/
theorem merge_iff_evaluate (settings : Settings) (document node : Value) :
    (∀ v, (merge settings document [] node).result = .ok v ↔
      ∃ depth, evaluate settings document depth node = some (.ok v)) ∧
    (∀ e, (∀ ref, e ≠ .circularReference ref) →
      ((merge settings document [] node).result = .error e ↔
        ∃ depth, evaluate settings document depth node = some (.error e))) ∧
    ((∃ ref, (merge settings document [] node).result = .error (.circularReference ref)) ↔
      ∀ depth, evaluate settings document depth node = none) ∧
    ∀ visited, merge settings document visited node = merge settings document [] node ∨
      ∃ ref, (merge settings document visited node).result = .error (.circularReference ref) := by
  refine ⟨fun v => ?_, fun e he => ?_, ?_, fun visited => ?_⟩
  · rw [evaluate_iff_finished, ← merge_circular_iff]
    refine ⟨fun h => ⟨?_, h⟩, fun h => h.2⟩
    rintro ⟨ref, hc⟩
    rw [h] at hc
    cases hc
  · rw [evaluate_iff_finished, ← merge_circular_iff]
    refine ⟨fun h => ⟨?_, h⟩, fun h => h.2⟩
    rintro ⟨ref, hc⟩
    rw [h] at hc
    exact he ref (Except.error.inj hc)
  · rw [merge_circular_iff]
    constructor
    · intro h depth
      cases hr : evaluate settings document depth node with
      | none => rfl
      | some r => exact absurd h (evaluate_iff_finished.1 ⟨depth, hr⟩).1
    · intro h
      refine Classical.byContradiction fun hfinished => ?_
      obtain ⟨depth, hr⟩ := evaluate_iff_finished.2 ⟨hfinished, rfl⟩
      rw [h depth] at hr
      cases hr
  · by_cases h : Unfinished (mergeVisited settings document visited node)
    · exact Or.inr (merge_circular_iff.2 h)
    · -- Both are the unguarded run at the depth at which the first is finished.
      obtain ⟨depth, hdepth⟩ := mergeVisited_below settings document node visited
      have heq := eq_of_below hdepth h
      rw [heq] at h
      left
      rw [merge, merge, heq, eq_of_below (unfold_below settings document node depth) h]

/-- A schema that refers to itself is unfolded at no depth, and a reference to another document fails at
some depth as it does under the guard. -/
theorem merge_iff_evaluate_selfReference :
    (∀ depth, evaluate {} (.record [("node", .record [("items", .record [("$ref", .text "#/node")])])])
      depth (.record [("$ref", .text "#/node")]) = none) ∧
    ∃ depth, evaluate {} .null depth (.record [("$ref", .text "other.json")]) =
      some (.error (.unsupportedReference "other.json")) :=
  ⟨(merge_iff_evaluate {} _ _).2.2.1.1 ⟨"#/node", by rfl⟩,
    ((merge_iff_evaluate {} .null _).2.1 _ (by simp)).1 (by rfl)⟩

end ToolCatalog.Schema
