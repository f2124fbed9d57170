import Mathlib.Data.Finset.Dedup
import Mathlib.Data.Finset.Card
import ToolCatalog.Proofs.Schema.Locality

/-!
# Merging ends

Merging may go from a small node to a target of any size, so nothing about the node gets smaller.  What
gets fewer are the references that are not open: a branch opens only references that the document and the
node spell, and none twice.  `resolveWithin` is the resolver with room for a number of open references and
no other bound; where it would have to open one more, it fails with a fault that merging never gives.  It
is shown to have enough room for as many references as there are different ones.

The search for a deprecated target is a loop.  `Searches` says what one run of it follows and comes to;
every run ends.

* `merge_ends`: merging, resolving and searching end, and open or follow no more references than there are.
-/

namespace ToolCatalog.Schema

/-! ## Room for open references -/

/-- Resolve a local reference and merge its target, with room for `room` references to be open at once
beyond those in `visited`. -/
def resolveWithin (settings : Settings) (document : Value) :
    Nat → List String → String → Outcome Merged
  | room, visited, ref =>
    if !Pointer.isLocal ref then .fail (.unsupportedReference ref)
    else if visited.contains ref then .fail (.circularReference ref)
    else match room with
      | 0 => .fail .excessiveDepth
      | room + 1 => do
        let target ← Pointer.walk document ref
        mergeNode settings (resolveWithin settings document room (ref :: visited))
          (leadsToDeprecated document) target

/-- Merge a node, with room for `room` references to be open at once beyond those in `visited`. -/
def mergeWithin (settings : Settings) (document : Value) (room : Nat) (visited : List String)
    (node : Value) : Outcome Merged :=
  mergeNode settings (resolveWithin settings document room visited) (leadsToDeprecated document) node

variable {settings : Settings} {document node : Value} {spelled visited : List String} {room : Nat}

/-- **Room for all references that are not open is enough**: the resolver comes to what it comes to with any
bound that suffices. -/
theorem resolveWithin_eq_resolveFrom (hdocument : references document ⊆ spelled) {bound : Bound}
    (hroom : (closedAmong spelled visited).length ≤ room)
    (hbound : (closedAmong spelled visited).length ≤ bound.length) {ref : String}
    (href : ref ∈ spelled) :
    resolveWithin settings document room visited ref =
      resolveFrom settings document bound visited ref := by
  induction room generalizing bound visited ref with
  | zero =>
    rw [resolveWithin, resolveFrom_eq]
    split
    · rfl
    · split
      · rfl
      · next hclosed =>
        have hfewer := length_closedAmong_cons href (by simpa using hclosed)
        omega
  | succ room ih =>
    rw [resolveWithin, resolveFrom_eq]
    split
    · rfl
    · split
      · rfl
      · next hclosed =>
        have hfewer := length_closedAmong_cons href (by simpa using hclosed)
        obtain ⟨rest, rfl, hrest⟩ := exists_further href hclosed hbound
        refine Outcome.bind_congr_ok fun target htarget => ?_
        have hspelled : references target ⊆ spelled :=
          List.Subset.trans (references_within_subset (Pointer.within_of_walk htarget)) hdocument
        refine mergeAs_congr (fun ref' href' => ?_) fun _ _ => rfl
        exact ih (by omega) hrest (hspelled href')

/-- The references that are not open are no more than there are different ones. -/
theorem length_closedAmong_dedup (spelled visited : List String) :
    (closedAmong spelled.dedup visited).length ≤ spelled.toFinset.card := by
  rw [List.card_toFinset]
  exact List.length_filter_le _ _

theorem mergeWithin_eq (settings : Settings) (document node : Value) (visited : List String) :
    mergeWithin settings document (references document ++ references node).toFinset.card visited node =
      mergeVisited settings document visited node := by
  have hmem : ∀ ref ∈ references document ++ references node,
      ref ∈ (references document ++ references node).dedup := fun _ href => List.mem_dedup.2 href
  have hlength : (closedAmong (references document ++ references node).dedup visited).length ≤
      (references document).length + (references node).length :=
    calc (closedAmong (references document ++ references node).dedup visited).length
        ≤ (references document ++ references node).toFinset.card := length_closedAmong_dedup _ _
      _ ≤ (references document ++ references node).length := List.toFinset_card_le _
      _ = (references document).length + (references node).length := List.length_append
  rw [mergeWithin, mergeVisited]
  refine mergeAs_congr (fun ref href => ?_) fun _ _ => rfl
  refine resolveWithin_eq_resolveFrom (fun r hr => hmem r (List.mem_append_left _ hr))
    (length_closedAmong_dedup _ _) ?_ (hmem ref (List.mem_append_right _ href))
  exact Nat.le_trans hlength (Bound.le_length_ofCount
    fun _ => (references document).length + (references node).length)

theorem resolveWithin_eq (settings : Settings) (document : Value) (visited : List String)
    (ref : String) :
    resolveWithin settings document (ref :: references document).toFinset.card visited ref =
      resolveFrom settings document (chainBound document) visited ref := by
  have hmem : ∀ r ∈ ref :: references document, r ∈ (ref :: references document).dedup :=
    fun _ hr => List.mem_dedup.2 hr
  have hlength : (closedAmong (ref :: references document).dedup visited).length ≤
      (references document).length + 1 :=
    calc (closedAmong (ref :: references document).dedup visited).length
        ≤ (ref :: references document).toFinset.card := length_closedAmong_dedup _ _
      _ ≤ (ref :: references document).length := List.toFinset_card_le _
      _ = (references document).length + 1 := List.length_cons
  refine resolveWithin_eq_resolveFrom (fun r hr => hmem r (List.mem_cons_of_mem _ hr))
    (length_closedAmong_dedup _ _) ?_ (hmem ref List.mem_cons_self)
  exact Nat.le_trans hlength (Bound.le_length_ofCount fun _ => (references document).length + 1)

/-- The guarded resolver never runs out of room. -/
theorem resolveFrom_ne_excessiveDepth (bound : Bound) (visited : List String) (ref : String) :
    (resolveFrom settings document bound visited ref).result ≠ .error .excessiveDepth := by
  intro h
  rcases resolveFrom_error h with hplain | ⟨ref', he⟩
  · exact hplain.not_stuck (Or.inr rfl)
  · cases he

theorem mergeVisited_ne_excessiveDepth (visited : List String) (node : Value) :
    (mergeVisited settings document visited node).result ≠ .error .excessiveDepth := by
  intro h
  rcases mergeNode_error h with hplain | ⟨ref, hfollow⟩
  · exact hplain.not_stuck (Or.inr rfl)
  · exact resolveFrom_ne_excessiveDepth _ _ _ hfollow

/-! ## The search for a deprecated target -/

/-- `Searches document seen node followed result`: the search that has followed the references in `seen` and
is at `node` goes on to follow `followed`, one after another, and comes to `result`. -/
inductive Searches (document : Value) :
    List String → Value → List String → Except Fault Bool → Prop
  | ends {seen : List String} {node : Value} :
    reference? node = none → Searches document seen node [] (.ok false)
  | refuses {seen : List String} {node : Value} {ref : String} :
    reference? node = some ref → Pointer.isLocal ref = false ∨ ref ∈ seen →
    Searches document seen node [] (.ok false)
  | fails {seen : List String} {node : Value} {ref : String} {e : Fault} :
    reference? node = some ref → Pointer.isLocal ref = true → ref ∉ seen →
    Pointer.walk document ref = .error e → Searches document seen node [ref] (.error e)
  | finds {seen : List String} {node next : Value} {ref : String} :
    reference? node = some ref → Pointer.isLocal ref = true → ref ∉ seen →
    Pointer.walk document ref = .ok next → isDeprecatedNode next = true →
    Searches document seen node [ref] (.ok true)
  | goesOn {seen followed : List String} {node next : Value} {ref : String} {r : Except Fault Bool} :
    reference? node = some ref → Pointer.isLocal ref = true → ref ∉ seen →
    Pointer.walk document ref = .ok next → isDeprecatedNode next = false →
    Searches document (ref :: seen) next followed r →
    Searches document seen node (ref :: followed) r

/-- A run follows no reference twice, and none that was followed before. -/
theorem Searches.nodup {seen followed : List String} {r : Except Fault Bool}
    (h : Searches document seen node followed r) :
    followed.Nodup ∧ ∀ ref ∈ followed, ref ∉ seen := by
  induction h with
  | ends _ | refuses _ _ => simp
  | fails _ _ hnew _ | finds _ _ hnew _ _ => simpa using hnew
  | goesOn _ _ hnew _ _ _ ih =>
    refine ⟨List.nodup_cons.2 ⟨fun hmem => ih.2 _ hmem List.mem_cons_self, ih.1⟩, ?_⟩
    intro ref href
    rcases List.mem_cons.1 href with rfl | href
    · exact hnew
    · exact fun hseen => ih.2 ref href (List.mem_cons_of_mem _ hseen)

/-- A run follows references that the document or the node spells. -/
theorem Searches.subset {seen followed : List String} {r : Except Fault Bool}
    (h : Searches document seen node followed r) :
    followed ⊆ references document ++ references node := by
  induction h with
  | ends _ | refuses _ _ => simp
  | fails href _ _ _ | finds href _ _ _ _ => simpa using Or.inr (mem_references_of_reference? href)
  | @goesOn seen followed node next ref r href _ _ hwalk _ _ ih =>
    have hnext := references_within_subset (Pointer.within_of_walk hwalk)
    refine List.cons_subset.2 ⟨List.mem_append_right _ (mem_references_of_reference? href), ?_⟩
    intro r hr
    rcases List.mem_append.1 (ih hr) with hr | hr
    · exact List.mem_append_left _ hr
    · exact List.mem_append_left _ (hnext hr)

/-- **The loop ends**, with what the search comes to under any bound that suffices. -/
theorem exists_searches (hdocument : references document ⊆ spelled) {bound : Bound}
    {seen : List String} (hbound : (closedAmong spelled seen).length ≤ bound.length) {node : Value}
    (hnode : ∀ ref, reference? node = some ref → ref ∈ spelled) :
    ∃ followed,
      Searches document seen node followed (leadsToDeprecatedFrom document bound seen node) := by
  rw [leadsToDeprecatedFrom_eq]
  split
  · next hnone => exact ⟨[], .ends hnone⟩
  · next ref href =>
    split
    · next hstop => exact ⟨[], .refuses href (by simpa using hstop)⟩
    · next hopen =>
      obtain ⟨hlocal, hnew⟩ : Pointer.isLocal ref = true ∧ ref ∉ seen := by simpa using hopen
      obtain ⟨rest, rfl, hrest⟩ := exists_further (hnode ref href) (by simpa using hnew) hbound
      have hfewer := length_closedAmong_cons (hnode ref href) hnew
      cases hwalk : Pointer.walk document ref with
      | error e => exact ⟨[ref], .fails href hlocal hnew hwalk⟩
      | ok next =>
        have hspelled : references next ⊆ spelled :=
          List.Subset.trans (references_within_subset (Pointer.within_of_walk hwalk)) hdocument
        by_cases hdeprecated : isDeprecatedNode next = true
        · simp only [hdeprecated, if_true]
          exact ⟨[ref], .finds href hlocal hnew hwalk hdeprecated⟩
        · simp only [if_neg hdeprecated]
          obtain ⟨followed, hfollowed⟩ := exists_searches hdocument hrest
            fun r hr => hspelled (mem_references_of_reference? hr)
          exact ⟨ref :: followed,
            .goesOn href hlocal hnew hwalk (by simpa using hdeprecated) hfollowed⟩
termination_by (closedAmong spelled seen).length

/-! ## All three -/

/-- **Merging ends.**  With room for as many open references as the document and the node spell different
ones, merging never has to open one more, and comes to what it comes to without a limit; so does resolving
a reference, which counts too.  The search for a deprecated target ends as well and follows no reference
twice. -/
theorem merge_ends (settings : Settings) (document node : Value) (visited : List String)
    (ref : String) :
    (Merged.schema <$> mergeWithin settings document
        (references document ++ references node).toFinset.card visited node =
          merge settings document visited node ∧
        (merge settings document visited node).result ≠ .error .excessiveDepth) ∧
      (Merged.schema <$> resolveWithin settings document
          (ref :: references document).toFinset.card visited ref =
            resolve settings document visited ref ∧
        (resolve settings document visited ref).result ≠ .error .excessiveDepth) ∧
      ∃ followed, Searches document [] node followed (leadsToDeprecated document node) ∧
        followed.Nodup ∧ followed ⊆ references document ++ references node := by
  have hschema : ∀ {x : Outcome Merged}, x.result ≠ .error .excessiveDepth →
      (Merged.schema <$> x).result ≠ .error .excessiveDepth := by
    intro x hx h
    rcases Outcome.result_bind_error.1 h with h | ⟨m, -, h⟩
    · exact hx h
    · cases h
  refine ⟨⟨?_, hschema (mergeVisited_ne_excessiveDepth visited node)⟩,
    ⟨?_, hschema (resolveFrom_ne_excessiveDepth _ visited ref)⟩, ?_⟩
  · rw [mergeWithin_eq]
    rfl
  · rw [resolveWithin_eq]
    rfl
  · have hbound : (closedAmong (references document ++ (reference? node).toList) []).length ≤
        (chainBound document).length :=
      calc (closedAmong (references document ++ (reference? node).toList) []).length
          ≤ (references document ++ (reference? node).toList).length := List.length_filter_le _ _
        _ ≤ (references document).length + 1 := by
          rw [List.length_append]
          cases reference? node <;> simp
        _ ≤ (chainBound document).length :=
          Bound.le_length_ofCount fun _ => (references document).length + 1
    obtain ⟨followed, hfollowed⟩ := exists_searches (List.subset_append_left _ _) hbound
      fun r hr => List.mem_append_right _ (Option.mem_toList.2 hr)
    exact ⟨followed, hfollowed, hfollowed.nodup.1, hfollowed.subset⟩

end ToolCatalog.Schema
