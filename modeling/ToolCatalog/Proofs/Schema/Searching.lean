import ToolCatalog.Proofs.Schema.Termination
import ToolCatalog.Proofs.Schema.Tracing

/-!
# The search for a deprecated target follows a merge

A property is left out if its schema refers, however indirectly, to a deprecated one.  Whether it does is
found out by a loop of its own, after the schema has been merged.  The loop has exits that a merge does not
have: it gives up at a reference that is not local or that it has followed before, and it fails at one that
leads nowhere.

After a merge that gave a schema it takes none of these exits.  A merge opens the references of a chain one
inside the other, until it comes to a node that is deprecated or no reference.  So these references are
local, lead somewhere and are all different, whatever was open before; `Opens` says this of a node.  The loop
looks at the same nodes one after another, and what it has on record is open in the merge.

* `leadsToDeprecated_follows_merge`: after a merge, the search comes to an answer, and the answer is exact.
-/

namespace ToolCatalog.Schema

/-! ## The exits of the search -/

/-- How the search leaves its loop. -/
inductive Exit where
  /-- The node it is at is no reference. -/
  | ended
  /-- The reference it is at is not local, or has been followed before. -/
  | refused
  /-- The reference it is at leads nowhere. -/
  | failed (e : Fault)
  /-- The reference it is at leads to a deprecated node. -/
  | found

/-- What the search comes to when it leaves its loop. -/
def Exit.answer : Exit → Except Fault Bool
  | ended | refused => .ok false
  | failed e => .error e
  | found => .ok true

/-- **A run of the search**: having followed the references in `seen` and being at `node`, it leaves the
loop by an exit. -/
inductive ExitsBy (document : Value) : List String → Value → Exit → Prop
  | ended {seen : List String} {node : Value} :
    reference? node = none → ExitsBy document seen node .ended
  | refused {seen : List String} {node : Value} {ref : String} :
    reference? node = some ref → Pointer.isLocal ref = false ∨ ref ∈ seen →
    ExitsBy document seen node .refused
  | failed {seen : List String} {node : Value} {ref : String} {e : Fault} :
    reference? node = some ref → Pointer.isLocal ref = true → ref ∉ seen →
    Pointer.walk document ref = .error e → ExitsBy document seen node (.failed e)
  | found {seen : List String} {node next : Value} {ref : String} :
    reference? node = some ref → Pointer.isLocal ref = true → ref ∉ seen →
    Pointer.walk document ref = .ok next → isDeprecatedNode next = true →
    ExitsBy document seen node .found
  | goesOn {seen : List String} {node next : Value} {ref : String} {exit : Exit} :
    reference? node = some ref → Pointer.isLocal ref = true → ref ∉ seen →
    Pointer.walk document ref = .ok next → isDeprecatedNode next = false →
    ExitsBy document (ref :: seen) next exit → ExitsBy document seen node exit

/-- Some node after the first on the chain of references from a node is deprecated. -/
def RefersToDeprecated (document node : Value) : Prop :=
  ∃ k > 0, ∃ v, chain? document node k = some v ∧ isDeprecatedNode v = true

section

variable {document node next : Value} {ref : String} {seen : List String} {exit : Exit}

theorem not_refersToDeprecated (hnone : reference? node = none) :
    ¬ RefersToDeprecated document node := by
  rintro ⟨k, hk, v, hv, -⟩
  exact referred?_of_lt hv hk rfl (referred?_of_none hnone)

/-- A node refers to a deprecated one if its target is deprecated or refers to a deprecated node. -/
theorem refersToDeprecated_iff (href : reference? node = some ref)
    (hwalk : Pointer.walk document ref = .ok next) :
    RefersToDeprecated document node ↔
      isDeprecatedNode next = true ∨ RefersToDeprecated document next := by
  have hnext : ∀ k, chain? document node (1 + k) = chain? document next k :=
    chain?_add_of_eq (referred?_of_walk href hwalk)
  constructor
  · rintro ⟨k, hk, v, hv, hdeprecated⟩
    obtain ⟨j, rfl⟩ : ∃ j, k = 1 + j := ⟨k - 1, by omega⟩
    rw [hnext] at hv
    rcases Nat.eq_zero_or_pos j with rfl | hj
    · obtain rfl := Option.some.inj hv
      exact Or.inl hdeprecated
    · exact Or.inr ⟨j, hj, v, hv, hdeprecated⟩
  · rintro (hdeprecated | ⟨j, -, v, hv, hdeprecated⟩)
    · exact ⟨1 + 0, by omega, next, hnext 0, hdeprecated⟩
    · exact ⟨1 + j, by omega, v, (hnext j).trans hv, hdeprecated⟩

/-- A search that neither gives up nor fails finds out whether the node refers to a deprecated one. -/
theorem ExitsBy.found_iff (hrun : ExitsBy document seen node exit)
    (hexit : exit = .ended ∨ exit = .found) :
    exit = .found ↔ RefersToDeprecated document node := by
  induction hrun with
  | ended hnone => simpa using not_refersToDeprecated hnone
  | refused _ _ => simp at hexit
  | failed _ _ _ _ => simp at hexit
  | found href _ _ hwalk hdeprecated =>
    simpa using (refersToDeprecated_iff href hwalk).2 (Or.inl hdeprecated)
  | goesOn href _ _ hwalk hcurrent _ ih =>
    rw [ih hexit, refersToDeprecated_iff href hwalk, hcurrent]
    simp

/-- A run that comes to a result leaves by an exit with this answer. -/
theorem Searches.exists_exitsBy {followed : List String} {r : Except Fault Bool}
    (hrun : Searches document seen node followed r) :
    ∃ exit, ExitsBy document seen node exit ∧ exit.answer = r := by
  induction hrun with
  | ends hnone => exact ⟨.ended, .ended hnone, rfl⟩
  | refuses href hstop => exact ⟨.refused, .refused href hstop, rfl⟩
  | fails href hlocal hnew hwalk => exact ⟨.failed _, .failed href hlocal hnew hwalk, rfl⟩
  | finds href hlocal hnew hwalk hdeprecated =>
    exact ⟨.found, .found href hlocal hnew hwalk hdeprecated, rfl⟩
  | goesOn href hlocal hnew hwalk hcurrent _ ih =>
    obtain ⟨exit, hexit, hanswer⟩ := ih
    exact ⟨exit, .goesOn href hlocal hnew hwalk hcurrent hexit, hanswer⟩

/-- Searching is a run of the loop, with nothing on record. -/
theorem exists_exitsBy_leadsToDeprecated (document node : Value) :
    ∃ exit, ExitsBy document [] node exit ∧ exit.answer = leadsToDeprecated document node := by
  obtain ⟨followed, hrun⟩ := exists_searches (List.subset_append_right _ _)
    ((AgreeOn.refl document).length_closedAmong_chain (reference? node)).1
    fun ref href => List.mem_append_left _ (Option.mem_toList.2 href)
  exact hrun.exists_exitsBy

end

/-! ## What a merge opens -/

/-- The references of the chain from a node can be opened, one inside the other and all of them while those
in `visited` are open, up to a node that is deprecated or no reference. -/
inductive Opens (document : Value) : List String → Value → Prop
  | deprecated {visited : List String} {node : Value} :
    isDeprecatedNode node = true → Opens document visited node
  | settled {visited : List String} {node : Value} :
    reference? node = none → Opens document visited node
  | opened {visited : List String} {node next : Value} {ref : String} :
    reference? node = some ref → Pointer.isLocal ref = true → ref ∉ visited →
    Pointer.walk document ref = .ok next → Opens document (ref :: visited) next →
    Opens document visited node

section

variable {settings : Settings} {document node : Value} {ref : String} {visited : List String}
  {follow : String → Outcome Merged} {deprecated : Value → Except Fault Bool} {m : Merged}

/-- The reference of a node that is not deprecated can be opened. -/
theorem Opens.target (h : Opens document visited node) (hcurrent : isDeprecatedNode node = false)
    (href : reference? node = some ref) :
    Pointer.isLocal ref = true ∧ ref ∉ visited ∧
      ∃ next, Pointer.walk document ref = .ok next ∧ Opens document (ref :: visited) next := by
  cases h with
  | deprecated hdeprecated =>
    rw [hcurrent] at hdeprecated
    cases hdeprecated
  | settled hnone =>
    rw [href] at hnone
    cases hnone
  | opened href' hlocal hnew hwalk hnext =>
    rw [href] at href'
    obtain rfl := Option.some.inj href'
    exact ⟨hlocal, hnew, _, hwalk, hnext⟩

/-- Merging follows the reference of a node that is not deprecated. -/
theorem exists_target_of_mergeNode (hcurrent : isDeprecatedNode node = false)
    (href : reference? node = some ref)
    (h : (mergeNode settings follow deprecated node).result = .ok m) :
    ∃ target, (follow ref).result = .ok target := by
  rw [mergeNode] at h
  induction node using Value.induction with
  | part n body ih =>
    rw [mergeAs_part _ _ _ (by simp)] at h
    exact ih hcurrent href h
  | map es =>
    rcases mergeAs_schema_ok h with
      ⟨hdeprecated, -⟩ | ⟨-, ⟨ref', target, href', htarget, -⟩ | ⟨hnone, -⟩⟩
    · cases hdeprecated.symm.trans hcurrent
    · obtain rfl := Option.some.inj (href'.symm.trans href)
      exact ⟨target, htarget⟩
    · cases hnone.symm.trans href
  | _ => cases href

/-- Merging a node opens its chain, if following a reference opens the chain of the target. -/
theorem opens_of_follow
    (hfollow : ∀ ref m, (follow ref).result = .ok m → Pointer.isLocal ref = true ∧ ref ∉ visited ∧
      ∃ next, Pointer.walk document ref = .ok next ∧ Opens document (ref :: visited) next)
    (h : (mergeNode settings follow deprecated node).result = .ok m) :
    Opens document visited node := by
  by_cases hdeprecated : isDeprecatedNode node = true
  · exact .deprecated hdeprecated
  · cases href : reference? node with
    | none => exact .settled href
    | some ref =>
      obtain ⟨target, htarget⟩ := exists_target_of_mergeNode (by simpa using hdeprecated) href h
      obtain ⟨hlocal, hnew, next, hwalk, hnext⟩ := hfollow ref target htarget
      exact .opened href hlocal hnew hwalk hnext

/-- A reference that is resolved is opened, and so is the chain of its target. -/
theorem opens_target_of_resolveFrom {bound : Bound}
    (h : (resolveFrom settings document bound visited ref).result = .ok m) :
    Pointer.isLocal ref = true ∧ ref ∉ visited ∧
      ∃ next, Pointer.walk document ref = .ok next ∧ Opens document (ref :: visited) next := by
  induction bound generalizing visited ref m with
  | reached =>
    obtain ⟨-, -, rest, -, hrest, -⟩ := result_resolveFrom_eq_ok.1 h
    cases hrest
  | further rest ih =>
    obtain ⟨hlocal, hnew, rest', next, hrest, hwalk, h⟩ := result_resolveFrom_eq_ok.1 h
    cases hrest
    refine ⟨hlocal, hnew, next, hwalk, ?_⟩
    apply opens_of_follow _ h
    intro ref' target htarget
    exact ih () htarget

/-- **A merge that gives a schema has opened the chain of its node.** -/
theorem opens_of_mergeNode {bound : Bound}
    (h : (mergeNode settings (resolveFrom settings document bound visited) deprecated node).result =
      .ok m) :
    Opens document visited node := by
  apply opens_of_follow _ h
  intro ref target htarget
  exact opens_target_of_resolveFrom htarget

end

/-! ## The search after the merge -/

section

variable {settings : Settings} {document node : Value} {visited seen : List String} {exit : Exit}

/-- **Where the chain can be opened, the search neither gives up nor fails.**  Its record is part of what is
open, so a reference on record would have been open already. -/
theorem Opens.ended_or_found (h : Opens document visited node)
    (hcurrent : isDeprecatedNode node = false) (hseen : seen ⊆ visited)
    (hrun : ExitsBy document seen node exit) : exit = .ended ∨ exit = .found := by
  induction hrun generalizing visited with
  | ended _ => exact Or.inl rfl
  | refused href hstop =>
    obtain ⟨hlocal, hnew, -⟩ := h.target hcurrent href
    rcases hstop with hforeign | hmem
    · rw [hlocal] at hforeign
      cases hforeign
    · exact absurd (hseen hmem) hnew
  | failed href _ _ hwalk =>
    obtain ⟨-, -, next, hnext, -⟩ := h.target hcurrent href
    rw [hwalk] at hnext
    cases hnext
  | found _ _ _ _ _ => exact Or.inr rfl
  | goesOn href _ _ hwalk hcurrent_next _ ih =>
    -- Both walks are at the same node, and both have the reference to it on record.
    obtain ⟨-, -, next, hnext, hopens⟩ := h.target hcurrent href
    obtain rfl := Except.ok.inj (hwalk.symm.trans hnext)
    exact ih hopens hcurrent_next (List.cons_subset_cons _ hseen)

/-- Where the chain can be opened, the search comes to an answer, and the answer is exact. -/
theorem Opens.leadsToDeprecated (h : Opens document visited node)
    (hcurrent : isDeprecatedNode node = false) :
    ∃ found, leadsToDeprecated document node = .ok found ∧
      (found = true ↔ RefersToDeprecated document node) := by
  obtain ⟨exit, hrun, hanswer⟩ := exists_exitsBy_leadsToDeprecated document node
  have hexit := h.ended_or_found hcurrent (List.nil_subset _) hrun
  have hfound := hrun.found_iff hexit
  rcases hexit with rfl | rfl
  · exact ⟨false, hanswer.symm, by simpa using hfound⟩
  · exact ⟨true, hanswer.symm, by simpa using hfound⟩

theorem isDeprecatedNode_of_not_excludes {name : Scalar}
    (h : settings.excludes name node = false) : isDeprecatedNode node = false :=
  (Bool.or_eq_false_iff.1 h).2

end

/-- **The search for a deprecated target agrees with the merge it follows.**  After the schema of a property
that is not excluded was merged, whatever references were open, the search comes to an answer.  It leaves its
loop because it is at a node that is no reference or has found a deprecated one, and never because a
reference is not local or on record.  It has found one exactly if some node after the first on the chain of
references is deprecated. -/
theorem leadsToDeprecated_follows_merge (settings : Settings) (document schema v : Value)
    (name : Scalar) (visited : List String) (hkept : settings.excludes name schema = false)
    (hmerge : (merge settings document visited schema).result = .ok v) :
    ∃ found, leadsToDeprecated document schema = .ok found ∧
      (∃ exit, ExitsBy document [] schema exit ∧ exit.answer = .ok found) ∧
      (∀ exit, ExitsBy document [] schema exit → exit = .ended ∨ exit = .found) ∧
      (found = true ↔
        ∃ k > 0, ∃ w, chain? document schema k = some w ∧ isDeprecatedNode w = true) := by
  obtain ⟨m, hm, -⟩ := merge_ok hmerge
  have hcurrent := isDeprecatedNode_of_not_excludes hkept
  have hopens : Opens document visited schema := opens_of_mergeNode hm
  obtain ⟨found, hfound, hexact⟩ := hopens.leadsToDeprecated hcurrent
  refine ⟨found, hfound, ?_, ?_, hexact⟩
  · rw [← hfound]
    exact exists_exitsBy_leadsToDeprecated document schema
  · intro exit hrun
    exact hopens.ended_or_found hcurrent (List.nil_subset _) hrun

/-- A schema that refers to a renamed one, which is deprecated and itself refers to another document.  The
merge does not open this last reference, and the search does not come to it. -/
theorem leadsToDeprecated_follows_merge_renamed :
    leadsToDeprecated (.record [
        ("Pet", .record [("$ref", .text "#/Animal"), ("title", .text "Pet")]),
        ("Animal", .record [("deprecated", .bool true), ("$ref", .text "animals.json")])])
      (.record [("$ref", .text "#/Pet")]) = .ok true := by
  obtain ⟨found, hfound, -, -, hexact⟩ := leadsToDeprecated_follows_merge {} (.record [
      ("Pet", .record [("$ref", .text "#/Animal"), ("title", .text "Pet")]),
      ("Animal", .record [("deprecated", .bool true), ("$ref", .text "animals.json")])])
    (.record [("$ref", .text "#/Pet")]) (.record [("title", .text "Pet")]) (.text "pet") ["#/Order"]
    (by rfl) (by rfl)
  have htrue : found = true := hexact.2 ⟨2, by decide, _, by rfl, by rfl⟩
  rw [hfound, htrue]

end ToolCatalog.Schema
