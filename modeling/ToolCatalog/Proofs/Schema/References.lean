import ToolCatalog.Schema.Reference
import ToolCatalog.Proofs.Outcome
import ToolCatalog.Proofs.Value.Keyed
import ToolCatalog.Proofs.Value.Induction

/-!
# The references of a document

A reference that is met while a document is worked on is spelled in it: what a reference points at
stands inside the document, and what stands inside a value spells no reference that the value does
not.  So the references of a document and of a node are all that merging the node can open.
-/

namespace ToolCatalog

namespace Pointer

theorem mem_of_item? {vs : List Value} {index : Int} {w : Value} (h : item? vs index = some w) :
    w ∈ vs := by
  unfold item? at h
  rw [Option.ite_none_left_eq_some] at h
  exact List.mem_of_getElem? h.2

/-- A segment leads to something inside. -/
theorem within_of_step? {v w : Value} {segment : String} (h : step? v segment = some w) :
    Value.Within w v := by
  unfold step? at h
  apply Value.Within.of_opened
  split at h
  · next es hes =>
    rw [hes]
    exact .entry (Keyed.mem_of_find?_text h) .self
  · next vs hvs =>
    rw [hvs]
    obtain ⟨index, -, hw⟩ := Option.bind_eq_some_iff.1 h
    exact .item (mem_of_item? hw) .self
  · cases h

theorem within_of_follow {ref : String} {segments : List String} {v w : Value}
    (h : follow ref segments v = .ok w) : Value.Within w v := by
  induction segments generalizing v with
  | nil =>
    rw [follow] at h
    obtain rfl := Except.ok.inj h
    exact .self
  | cons segment rest ih =>
    rw [follow] at h
    split at h
    · next next hnext => exact (ih h).trans (within_of_step? hnext)
    · cases h

/-- **A reference points into the document.** -/
theorem within_of_walk {document target : Value} {ref : String}
    (h : walk document ref = .ok target) : Value.Within target document := by
  rw [walk] at h
  obtain ⟨segments, -, h⟩ := bind_eq_ok.1 h
  exact within_of_follow h

end Pointer

namespace Schema

/-- The reference that stands under a key, if the key is that of references. -/
def referenceUnder : Scalar → Value → List String
  | .text "$ref", .text ref => [ref]
  | _, _ => []

theorem mem_referenceUnder {k : Scalar} {v : Value} {ref : String} :
    ref ∈ referenceUnder k v ↔ k = .text "$ref" ∧ v = .text ref := by
  unfold referenceUnder
  split
  · simp [eq_comm]
  · next hother =>
    simp only [List.not_mem_nil, false_iff]
    rintro ⟨rfl, rfl⟩
    exact hother ref rfl rfl

theorem referencesOfItems_eq (vs : List Value) : referencesOfItems vs = vs.flatMap references := by
  induction vs with
  | nil => rfl
  | cons v rest ih => rw [referencesOfItems, ih, List.flatMap_cons]

theorem referencesOfEntries_eq (es : Keyed Value) :
    referencesOfEntries es = es.flatMap fun e => referenceUnder e.1 e.2 ++ references e.2 := by
  induction es with
  | nil => rfl
  | cons e rest ih =>
    obtain ⟨k, v⟩ := e
    have hcons : referencesOfEntries ((k, v) :: rest) =
        referenceUnder k v ++ references v ++ referencesOfEntries rest := rfl
    rw [hcons, ih, List.flatMap_cons]

/-- The references spelled in a mapping: those under its own `$ref`, and those spelled in what stands under
its keys. -/
theorem mem_referencesOfEntries {es : Keyed Value} {ref : String} :
    ref ∈ referencesOfEntries es ↔
      ∃ k v, (k, v) ∈ es ∧ (k = .text "$ref" ∧ v = .text ref ∨ ref ∈ references v) := by
  simp only [referencesOfEntries_eq, List.mem_flatMap, List.mem_append, mem_referenceUnder, Prod.exists]

/-- What stands inside a value spells each reference at most as often as the value. -/
theorem references_within_sublist {w v : Value} (h : Value.Within w v) :
    (references w).Sublist (references v) := by
  induction h with
  | self => exact List.Sublist.refl _
  | item hv _ ih =>
    rw [references]
    rw [referencesOfItems_eq]
    exact ih.trans (List.sublist_flatten_of_mem (List.mem_map_of_mem hv))
  | entry hv _ ih =>
    rw [references]
    rw [referencesOfEntries_eq]
    exact (ih.trans (List.sublist_append_right _ _)).trans
      (List.sublist_flatten_of_mem (List.mem_map_of_mem hv))
  | first _ ih =>
    rw [references]
    exact ih.trans (List.sublist_append_left _ _)
  | second _ ih =>
    rw [references]
    exact ih.trans (List.sublist_append_right _ _)
  | part _ ih =>
    rw [references]
    exact ih

/-- What stands inside a value spells no reference that the value does not. -/
theorem references_within_subset {w v : Value} (h : Value.Within w v) :
    references w ⊆ references v :=
  (references_within_sublist h).subset

theorem traceFrom_eq (document : Value) (bound : Bound) (seen : List String) (node : Value) :
    traceFrom document bound seen node =
      match reference? node with
      | none => .ok node
      | some ref =>
        if !Pointer.isLocal ref then .error (.unsupportedReference ref)
        else if seen.contains ref then .error (.circularReference ref)
        else match bound with
          | .reached => .error (.circularReference ref)
          | .further rest =>
            match Pointer.walk document ref with
            | .error e => .error e
            | .ok next => traceFrom document (rest ()) (ref :: seen) next :=
  traceFrom.eq_def document bound seen node

theorem leadsToDeprecatedFrom_eq (document : Value) (bound : Bound) (seen : List String)
    (node : Value) :
    leadsToDeprecatedFrom document bound seen node =
      match reference? node with
      | none => .ok false
      | some ref =>
        if !Pointer.isLocal ref || seen.contains ref then .ok false
        else match bound with
          | .reached => .ok false
          | .further rest =>
            match Pointer.walk document ref with
            | .error e => .error e
            | .ok next =>
              if isDeprecatedNode next then .ok true
              else leadsToDeprecatedFrom document (rest ()) (ref :: seen) next :=
  leadsToDeprecatedFrom.eq_def document bound seen node

/-- What every node of a chain hands to the next, the end of the chain has. -/
theorem traceFrom_induction {document : Value} {p : Value → Prop}
    (step : ∀ node ref next, p node → reference? node = some ref →
      Pointer.walk document ref = .ok next → p next)
    {node v : Value} {bound : Bound} {seen : List String} (hnode : p node)
    (h : traceFrom document bound seen node = .ok v) : p v := by
  induction bound generalizing node seen with
  | reached =>
    rw [traceFrom_eq] at h
    split at h
    · rwa [← Except.ok.inj h]
    · split at h
      · cases h
      · split at h <;> cases h
  | further rest ih =>
    rw [traceFrom_eq] at h
    split at h
    · rwa [← Except.ok.inj h]
    · next ref href =>
      split at h
      · cases h
      · split at h
        · cases h
        · simp only at h
          split at h
          · cases h
          · next next hnext => exact ih () (step node ref next hnode href hnext) h

theorem traceFrom_ok {document node v : Value} {bound : Bound} {seen : List String}
    (h : traceFrom document bound seen node = .ok v) : v = node ∨ Value.Within v document :=
  traceFrom_induction (p := fun v => v = node ∨ Value.Within v document)
    (fun _ _ _ _ _ hwalk => Or.inr (Pointer.within_of_walk hwalk)) (Or.inl rfl) h

/-- **A chain of references** ends at the node it starts from or inside the document. -/
theorem trace_ok {document node v : Value} (h : trace document node = .ok v) :
    v = node ∨ Value.Within v document :=
  traceFrom_ok h

/-- The reference a node consists of is spelled in it. -/
theorem mem_references_of_reference? {v : Value} {ref : String} (h : reference? v = some ref) :
    ref ∈ references v := by
  induction v using Value.induction with
  | part n body ih =>
    rw [references]
    exact ih h
  | map es =>
    rw [references]
    unfold reference? at h
    simp only [Value.opened] at h
    split at h
    · next ref' hfind =>
      obtain rfl := Option.some.inj h
      exact mem_referencesOfEntries.2 ⟨_, _, Keyed.mem_of_find?_text hfind, Or.inl ⟨rfl, rfl⟩⟩
    · cases h
  | _ => cases h

end Schema

end ToolCatalog
