import ToolCatalog.Proofs.Schema.Locality

/-!
# Chains of references

A parameter or a body may be a reference, its target another, and so on.  `chain?` is this sequence of nodes
in itself, without a record of what was seen: each node but the first is what the reference of the one
before points at.  A chain has one of three fates: it comes to a node that is no reference, it comes to a
reference that cannot be followed, or it never ends.

The loop keeps a record of the references it has followed, and stops at one that is on record.  Two
references may be spelled differently and point at the same node, so the record says less than the nodes
that were met; but a reference that is spelled twice leads to the same node twice, and a chain that comes to
a node again goes round for ever.  The other way round, the loop has to stop somewhere, since every
reference on the way is spelled in the document, and where a chain does not end it is a repetition that
stops the loop.

* `trace_follows_chain`: the loop ends, and what it comes to is the fate of the chain.
-/

namespace ToolCatalog.Schema

/-! ## The chain -/

/-- The node that the reference of a node points at, if the node is a reference that can be followed. -/
def referred? (document node : Value) : Option Value :=
  (reference? node).bind fun ref => (Pointer.walk document ref).toOption

/-- The nodes of the chain of references that starts at a node, as far as it goes. -/
def chain? (document start : Value) : Nat → Option Value
  | 0 => some start
  | i + 1 => (chain? document start i).bind (referred? document)

/-- A node whose reference is not local or cannot be walked. -/
def IsBlocked (document node : Value) : Prop :=
  ∃ ref, reference? node = some ref ∧
    (Pointer.isLocal ref = false ∨ ∃ e, Pointer.walk document ref = .error e)

/-- The first node of a chain that has a property, and its place. -/
def IsFirst (document start : Value) (p : Value → Prop) (k : Nat) (v : Value) : Prop :=
  chain? document start k = some v ∧ p v ∧ ∀ j < k, ∀ w, chain? document start j = some w → ¬ p w

/-- What becomes of a chain: it comes to a node that is no reference, it comes to a reference that cannot
be followed, or it never ends. -/
inductive Fate (document start : Value) : Except Fault Value → Prop
  | settled {k : Nat} {v : Value} :
    chain? document start k = some v → reference? v = none → Fate document start (.ok v)
  | blocked {k : Nat} {v : Value} {ref : String} {e : Fault} :
    chain? document start k = some v → reference? v = some ref →
    Pointer.walk document ref = .error e → Fate document start (.error e)
  | endless {ref : String} :
    (∀ k, ∃ v, chain? document start k = some v) →
    Fate document start (.error (.circularReference ref))

/-- **A run of the loop** that follows references to a node that is none: having followed the references in
`seen` and being at `node`, it goes on to follow `followed`, one after another, and comes to `result`. -/
inductive Traces (document : Value) : List String → Value → List String → Except Fault Value → Prop
  | ends {seen : List String} {node : Value} :
    reference? node = none → Traces document seen node [] (.ok node)
  | refuses {seen : List String} {node : Value} {ref : String} :
    reference? node = some ref → Pointer.isLocal ref = false →
    Traces document seen node [] (.error (.unsupportedReference ref))
  | repeats {seen : List String} {node : Value} {ref : String} :
    reference? node = some ref → Pointer.isLocal ref = true → ref ∈ seen →
    Traces document seen node [] (.error (.circularReference ref))
  | fails {seen : List String} {node : Value} {ref : String} {e : Fault} :
    reference? node = some ref → Pointer.isLocal ref = true → ref ∉ seen →
    Pointer.walk document ref = .error e → Traces document seen node [ref] (.error e)
  | goesOn {seen followed : List String} {node next : Value} {ref : String} {r : Except Fault Value} :
    reference? node = some ref → Pointer.isLocal ref = true → ref ∉ seen →
    Pointer.walk document ref = .ok next → Traces document (ref :: seen) next followed r →
    Traces document seen node (ref :: followed) r

section

variable {document start node next v w : Value} {ref : String} {i j k : Nat}

theorem referred?_of_walk (href : reference? node = some ref)
    (hwalk : Pointer.walk document ref = .ok next) : referred? document node = some next := by
  simp [referred?, href, hwalk, Except.toOption]

theorem referred?_of_none (h : reference? node = none) : referred? document node = none := by
  simp [referred?, h]

/-- A reference that is not local cannot be followed. -/
theorem walk_of_not_local (h : Pointer.isLocal ref = false) :
    Pointer.walk document ref = .error (.unsupportedReference ref) := by
  have hlocal : Pointer.localPart? ref = none := by simpa [Pointer.isLocal] using h
  simp only [Pointer.walk, Pointer.split, hlocal]
  rfl

/-- Only a reference that is not local is refused as such. -/
theorem walk_eq_unsupportedReference {ref' : String} :
    Pointer.walk document ref = .error (.unsupportedReference ref') ↔
      Pointer.isLocal ref = false ∧ ref = ref' := by
  constructor
  · intro h
    by_cases hlocal : Pointer.isLocal ref = true
    · -- A local reference is split, and following segments gives another fault.
      obtain ⟨cs, hcs⟩ := Option.isSome_iff_exists.1 hlocal
      rw [Pointer.walk, Pointer.split, hcs] at h
      obtain ⟨segment, hsegment⟩ := follow_error h
      cases hsegment
    · have hnot : Pointer.isLocal ref = false := by simpa using hlocal
      rw [walk_of_not_local hnot] at h
      cases h
      exact ⟨hnot, rfl⟩
  · rintro ⟨hlocal, rfl⟩
    exact walk_of_not_local hlocal

theorem isBlocked_iff : IsBlocked document node ↔
    ∃ ref e, reference? node = some ref ∧ Pointer.walk document ref = .error e := by
  constructor
  · rintro ⟨ref, href, hlocal | ⟨e, hwalk⟩⟩
    · exact ⟨ref, _, href, walk_of_not_local hlocal⟩
    · exact ⟨ref, e, href, hwalk⟩
  · rintro ⟨ref, e, href, hwalk⟩
    exact ⟨ref, href, Or.inr ⟨e, hwalk⟩⟩

theorem IsBlocked.referred? (h : IsBlocked document node) : referred? document node = none := by
  obtain ⟨ref, e, href, hwalk⟩ := isBlocked_iff.1 h
  simp [Schema.referred?, href, hwalk, Except.toOption]

/-! ## Along a chain -/

/-- **From any node of a chain** on, the chain is that of the node. -/
theorem chain?_add (i j : Nat) :
    chain? document start (i + j) = (chain? document start i).bind fun v => chain? document v j := by
  induction j with
  | zero => simp [chain?]
  | succ j ih =>
    rw [← Nat.add_assoc, chain?, ih, Option.bind_assoc]
    rfl

theorem chain?_add_of_eq (h : chain? document start i = some v) (j : Nat) :
    chain? document start (i + j) = chain? document v j := by
  rw [chain?_add, h]
  rfl

theorem chain?_succ_of_eq (h : chain? document start i = some v) :
    chain? document start (i + 1) = referred? document v :=
  chain?_add_of_eq h 1

/-- What comes before a node of a chain is a reference that can be followed. -/
theorem referred?_of_lt (hk : chain? document start k = some v) (hjk : j < k)
    (hj : chain? document start j = some w) : referred? document w ≠ none := by
  intro hnone
  obtain ⟨d, rfl⟩ : ∃ d, k = j + 1 + d := ⟨k - (j + 1), by omega⟩
  rw [chain?_add, chain?_succ_of_eq hj, hnone] at hk
  cases hk

/-- A chain has a node before each of its nodes. -/
theorem exists_chain?_of_le (hk : chain? document start k = some v) (hjk : j ≤ k) :
    ∃ w, chain? document start j = some w := by
  obtain ⟨d, rfl⟩ : ∃ d, k = j + d := ⟨k - j, by omega⟩
  rw [chain?_add] at hk
  obtain ⟨w, hw, -⟩ := Option.bind_eq_some_iff.1 hk
  exact ⟨w, hw⟩

/-- **A chain that comes to a node again never ends.** -/
theorem exists_chain?_of_repeat (hi : chain? document start i = some v)
    (hj : chain? document start j = some v) (hij : i < j) (k : Nat) :
    ∃ w, chain? document start k = some w := by
  induction k using Nat.strongRecOn with
  | ind k ih =>
    rcases Nat.lt_or_ge j k with hjk | hkj
    · -- Beyond the second meeting, the chain is what it was after the first.
      obtain ⟨d, rfl⟩ : ∃ d, k = j + d := ⟨k - j, by omega⟩
      obtain ⟨w, hw⟩ := ih (i + d) (by omega)
      refine ⟨w, ?_⟩
      rw [chain?_add_of_eq hj, ← chain?_add_of_eq hi, hw]
    · exact exists_chain?_of_le hj hkj

/-- A chain has one last node at most. -/
theorem chain?_last_unique (hk : chain? document start k = some v)
    (hv : referred? document v = none) (hj : chain? document start j = some w)
    (hw : referred? document w = none) : v = w := by
  have hkj : k = j := by
    rcases Nat.lt_trichotomy k j with hlt | heq | hgt
    · exact absurd hv (referred?_of_lt hj hlt hk)
    · exact heq
    · exact absurd hw (referred?_of_lt hk hgt hj)
  subst hkj
  exact Option.some.inj (hk.symm.trans hj)

/-- A chain with a last node ends. -/
theorem not_endless_of_last (hk : chain? document start k = some v)
    (hv : referred? document v = none) : ¬ ∀ k, ∃ v, chain? document start k = some v := by
  intro hendless
  obtain ⟨w, hw⟩ := hendless (k + 1)
  exact referred?_of_lt hw (Nat.lt_succ_self k) hk hv

/-- A node that has what only a last node has is the first one that has it. -/
theorem isFirst_iff {p : Value → Prop} (hp : ∀ w, p w → referred? document w = none) :
    IsFirst document start p k v ↔ chain? document start k = some v ∧ p v := by
  constructor
  · rintro ⟨hk, hv, -⟩
    exact ⟨hk, hv⟩
  · rintro ⟨hk, hv⟩
    exact ⟨hk, hv, fun j hjk w hj hw => referred?_of_lt hk hjk hj (hp w hw)⟩

/-! ## The loop follows the chain -/

/-- Where the loop stands on the chain: at its `i`-th node, with the references of nodes before it on
record, each of which was followed. -/
structure Stands (document start : Value) (seen : List String) (i : Nat) (node : Value) : Prop where
  node_eq : chain? document start i = some node
  seen_before : ∀ ref ∈ seen, ∃ j < i, ∃ next, Pointer.walk document ref = .ok next ∧
    chain? document start (j + 1) = some next

theorem Stands.initial (document start : Value) : Stands document start [] 0 start where
  node_eq := rfl
  seen_before := by simp

/-- The loop moves along the chain. -/
theorem Stands.step {seen : List String} (h : Stands document start seen i node)
    (href : reference? node = some ref) (hwalk : Pointer.walk document ref = .ok next) :
    Stands document start (ref :: seen) (i + 1) next := by
  have hnext : chain? document start (i + 1) = some next := by
    rw [chain?_succ_of_eq h.node_eq, referred?_of_walk href hwalk]
  refine ⟨hnext, fun r hr => ?_⟩
  rcases List.mem_cons.1 hr with rfl | hr
  · exact ⟨i, Nat.lt_succ_self i, next, hwalk, hnext⟩
  · obtain ⟨j, hj, hafter⟩ := h.seen_before r hr
    exact ⟨j, Nat.lt_succ_of_lt hj, hafter⟩

/-- A reference that is on record has been followed from an earlier node, so the chain goes round. -/
theorem Stands.endless {seen : List String} (h : Stands document start seen i node)
    (href : reference? node = some ref) (hseen : ref ∈ seen) (k : Nat) :
    ∃ v, chain? document start k = some v := by
  obtain ⟨j, hj, next, hwalk, hafter⟩ := h.seen_before ref hseen
  have hagain : chain? document start (i + 1) = some next := by
    rw [chain?_succ_of_eq h.node_eq, referred?_of_walk href hwalk]
  exact exists_chain?_of_repeat hafter hagain (by omega) k

/-- **A run comes to the fate of the chain** on which it stands. -/
theorem Traces.fate {seen followed : List String} {r : Except Fault Value}
    (hrun : Traces document seen node followed r) (h : Stands document start seen i node) :
    Fate document start r := by
  induction hrun generalizing i with
  | ends hnone => exact .settled h.node_eq hnone
  | refuses href hlocal => exact .blocked h.node_eq href (walk_of_not_local hlocal)
  | repeats href _ hseen => exact .endless (h.endless href hseen)
  | fails href _ _ hwalk => exact .blocked h.node_eq href hwalk
  | goesOn href _ _ hwalk _ ih => exact ih (h.step href hwalk)

/-- **The loop ends**, with what tracing comes to under any bound that suffices. -/
theorem exists_traces {spelled : List String} (hdocument : references document ⊆ spelled) {bound : Bound}
    {seen : List String} (hbound : (closedAmong spelled seen).length ≤ bound.length) {node : Value}
    (hnode : ∀ ref, reference? node = some ref → ref ∈ spelled) :
    ∃ followed, Traces document seen node followed (traceFrom document bound seen node) := by
  rw [traceFrom_eq]
  split
  · next hnone => exact ⟨[], .ends hnone⟩
  · next ref href =>
    split
    · next hlocal => exact ⟨[], .refuses href (by simpa using hlocal)⟩
    · next hlocal =>
      have hlocal : Pointer.isLocal ref = true := by simpa using hlocal
      split
      · next hseen => exact ⟨[], .repeats href hlocal (by simpa using hseen)⟩
      · next hnew =>
        obtain ⟨rest, rfl, hrest⟩ := exists_further (hnode ref href) hnew hbound
        have hnew : ref ∉ seen := by simpa using hnew
        have hfewer := length_closedAmong_cons (hnode ref href) hnew
        cases hwalk : Pointer.walk document ref with
        | error e => exact ⟨[ref], .fails href hlocal hnew hwalk⟩
        | ok next =>
          have hspelled : references next ⊆ spelled :=
            List.Subset.trans (references_within_subset (Pointer.within_of_walk hwalk)) hdocument
          obtain ⟨followed, hfollowed⟩ := exists_traces hdocument hrest
            fun r hr => hspelled (mem_references_of_reference? hr)
          exact ⟨ref :: followed, .goesOn href hlocal hnew hwalk hfollowed⟩
termination_by (closedAmong spelled seen).length

/-- Tracing is a run of the loop, with nothing on record. -/
theorem exists_traces_trace (document node : Value) :
    ∃ followed, Traces document [] node followed (trace document node) :=
  exists_traces (List.subset_append_right _ _)
    ((AgreeOn.refl document).length_closedAmong_chain (reference? node)).1
    fun _ href => List.mem_append_left _ (Option.mem_toList.2 href)

/-- Tracing comes to the fate of the chain. -/
theorem trace_fate (document node : Value) : Fate document node (trace document node) := by
  obtain ⟨_, hrun⟩ := exists_traces_trace document node
  exact hrun.fate (.initial document node)

/-! ## Reading the fate off the result -/

/-- A chain comes to a node that is no reference exactly if its fate says so. -/
theorem Fate.eq_ok_iff {r : Except Fault Value} (h : Fate document start r) :
    r = .ok v ↔ ∃ k, chain? document start k = some v ∧ reference? v = none := by
  constructor
  · rintro rfl
    cases h with
    | settled hk hnone => exact ⟨_, hk, hnone⟩
  · rintro ⟨k, hk, hnone⟩
    have hlast : referred? document v = none := referred?_of_none hnone
    cases h with
    | settled hj hnone' => rw [chain?_last_unique hj (referred?_of_none hnone') hk hlast]
    | blocked hj href hwalk =>
      have hblocked := (isBlocked_iff.2 ⟨_, _, href, hwalk⟩).referred?
      rw [chain?_last_unique hj hblocked hk hlast, hnone] at href
      cases href
    | endless hendless => exact absurd hendless (not_endless_of_last hk hlast)

/-- A chain comes to a reference that cannot be followed exactly if its fate is the fault of this. -/
theorem Fate.eq_walk_error_iff {r : Except Fault Value} {e : Fault} (h : Fate document start r)
    (he : ∀ ref, e ≠ .circularReference ref) :
    r = .error e ↔ ∃ k v ref, chain? document start k = some v ∧ reference? v = some ref ∧
      Pointer.walk document ref = .error e := by
  constructor
  · rintro rfl
    cases h with
    | blocked hk href hwalk => exact ⟨_, _, _, hk, href, hwalk⟩
    | endless _ => exact absurd rfl (he _)
  · rintro ⟨k, v, ref, hk, href, hwalk⟩
    have hlast := (isBlocked_iff.2 ⟨_, _, href, hwalk⟩).referred?
    cases h with
    | settled hj hnone =>
      rw [chain?_last_unique hk hlast hj (referred?_of_none hnone), hnone] at href
      cases href
    | blocked hj href' hwalk' =>
      have hlast' := (isBlocked_iff.2 ⟨_, _, href', hwalk'⟩).referred?
      rw [chain?_last_unique hj hlast' hk hlast, href] at href'
      obtain rfl := Option.some.inj href'
      rw [hwalk] at hwalk'
      rw [Except.error.inj hwalk']
    | endless hendless => exact absurd hendless (not_endless_of_last hk hlast)

/-- The first reference of a chain that cannot be followed is the only one. -/
theorem isFirst_isBlocked_iff {k : Nat} {v : Value} :
    IsFirst document start (IsBlocked document) k v ↔
      chain? document start k = some v ∧ IsBlocked document v :=
  isFirst_iff fun _ hw => hw.referred?

/-- A chain has a reference that cannot be followed exactly if its fate is a fault of one. -/
theorem Fate.blocked_iff {r : Except Fault Value} (h : Fate document start r) :
    (∃ k v, chain? document start k = some v ∧ IsBlocked document v) ↔
      ∃ ref, r = .error (.unsupportedReference ref) ∨
        ∃ segment, r = .error (.invalidReferencePath ref segment) := by
  constructor
  · rintro ⟨k, v, hk, hv⟩
    obtain ⟨ref, e, href, hwalk⟩ := isBlocked_iff.1 hv
    refine ⟨ref, ?_⟩
    rcases walk_error_cases hwalk with rfl | ⟨segment, rfl⟩
    · exact Or.inl ((h.eq_walk_error_iff (by simp)).2 ⟨k, v, ref, hk, href, hwalk⟩)
    · exact Or.inr ⟨segment, (h.eq_walk_error_iff (by simp)).2 ⟨k, v, ref, hk, href, hwalk⟩⟩
  · rintro ⟨ref, hr | ⟨segment, hr⟩⟩ <;>
    · obtain ⟨k, v, ref', hk, href, hwalk⟩ := (h.eq_walk_error_iff (by simp)).1 hr
      exact ⟨k, v, hk, isBlocked_iff.2 ⟨ref', _, href, hwalk⟩⟩

/-- The fate is a reference that is not local exactly if this is the first that cannot be followed. -/
theorem Fate.unsupported_iff {r : Except Fault Value} {ref : String} (h : Fate document start r) :
    r = .error (.unsupportedReference ref) ↔
      ∃ k v, IsFirst document start (IsBlocked document) k v ∧ reference? v = some ref ∧
        Pointer.isLocal ref = false := by
  rw [h.eq_walk_error_iff (by simp)]
  constructor
  · rintro ⟨k, v, ref', hk, href, hwalk⟩
    obtain ⟨hlocal, rfl⟩ := walk_eq_unsupportedReference.1 hwalk
    exact ⟨k, v, isFirst_isBlocked_iff.2 ⟨hk, ref', href, Or.inl hlocal⟩, href, hlocal⟩
  · rintro ⟨k, v, hkv, href, hlocal⟩
    exact ⟨k, v, ref, hkv.1, href, walk_of_not_local hlocal⟩

/-- The fate is a reference that leads nowhere exactly if this is the first that cannot be followed. -/
theorem Fate.invalid_iff {r : Except Fault Value} {ref segment : String} (h : Fate document start r) :
    r = .error (.invalidReferencePath ref segment) ↔
      ∃ k v, IsFirst document start (IsBlocked document) k v ∧ reference? v = some ref ∧
        Pointer.walk document ref = .error (.invalidReferencePath ref segment) := by
  rw [h.eq_walk_error_iff (by simp)]
  constructor
  · rintro ⟨k, v, ref', hk, href, hwalk⟩
    obtain rfl : ref = ref' := by
      rcases walk_error_cases hwalk with h | ⟨_, h⟩ <;> cases h
      rfl
    exact ⟨k, v, isFirst_isBlocked_iff.2 ⟨hk, ref, href, Or.inr ⟨_, hwalk⟩⟩, href, hwalk⟩
  · rintro ⟨k, v, hkv, href, hwalk⟩
    exact ⟨k, v, ref, hkv.1, href, hwalk⟩

/-- A chain never ends exactly if its fate is a circular reference. -/
theorem Fate.circular_iff {r : Except Fault Value} (h : Fate document start r) :
    (∃ ref, r = .error (.circularReference ref)) ↔ ∀ k, ∃ v, chain? document start k = some v := by
  constructor
  · rintro ⟨ref, rfl⟩
    cases h with
    | blocked hk href hwalk => rcases walk_error_cases hwalk with h | ⟨_, h⟩ <;> cases h
    | endless hendless => exact hendless
  · intro hendless
    cases h with
    | settled hk hnone =>
      exact absurd hendless (not_endless_of_last hk (referred?_of_none hnone))
    | blocked hk href hwalk =>
      exact absurd hendless (not_endless_of_last hk (isBlocked_iff.2 ⟨_, _, href, hwalk⟩).referred?)
    | endless _ => exact ⟨_, rfl⟩

end

/-- **Following a chain of references is exact.**  The loop ends.  It comes to a node exactly if this is the
first of the chain that is no reference.  It finds a reference that is not local, or that leads nowhere,
exactly if the chain has one, and then it is that of the first such node.  It finds a circle exactly if the
chain never ends. -/
theorem trace_follows_chain (document node : Value) :
    (∃ followed, Traces document [] node followed (trace document node)) ∧
      (∀ v, trace document node = .ok v ↔
        ∃ k, IsFirst document node (fun w => reference? w = none) k v) ∧
      ((∃ k v, chain? document node k = some v ∧ IsBlocked document v) ↔
        ∃ ref, trace document node = .error (.unsupportedReference ref) ∨
          ∃ segment, trace document node = .error (.invalidReferencePath ref segment)) ∧
      (∀ ref, trace document node = .error (.unsupportedReference ref) ↔
        ∃ k v, IsFirst document node (IsBlocked document) k v ∧ reference? v = some ref ∧
          Pointer.isLocal ref = false) ∧
      (∀ ref segment, trace document node = .error (.invalidReferencePath ref segment) ↔
        ∃ k v, IsFirst document node (IsBlocked document) k v ∧ reference? v = some ref ∧
          Pointer.walk document ref = .error (.invalidReferencePath ref segment)) ∧
      ((∃ ref, trace document node = .error (.circularReference ref)) ↔
        ∀ k, ∃ v, chain? document node k = some v) := by
  have hfate := trace_fate document node
  refine ⟨exists_traces_trace document node, fun v => ?_, hfate.blocked_iff, fun _ => hfate.unsupported_iff,
    fun _ _ => hfate.invalid_iff, hfate.circular_iff⟩
  rw [hfate.eq_ok_iff]
  exact exists_congr fun k => (isFirst_iff fun w hw => referred?_of_none hw).symm

/-- Two spellings of one node: the loop goes round once more than the nodes would need. -/
example :
    trace (.record [("b", .list [.record [("$ref", .text "#/b/00")]])]) (.record [("$ref", .text "#/b/0")]) =
      .error (.circularReference "#/b/00") := by
  rfl

end ToolCatalog.Schema
