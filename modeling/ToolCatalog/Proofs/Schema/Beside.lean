import Mathlib.Data.List.Flatten
import ToolCatalog.Proofs.Schema.Contributing
import ToolCatalog.Proofs.Schema.Gathering
import ToolCatalog.Proofs.Schema.Locality

/-!
# What stands beside a reference or a composition

A mapping with `$ref` or `allOf` has other keywords as well.  They are merged in their place, with the one
under which the reference or the parts stand skipped.  They come to what they come to in a mapping of their
own, so that a mapping can be described by the merges of its pieces: the keywords beside, and the target or
the parts.
-/

namespace ToolCatalog.Schema

/-! ## The keywords beside, in a mapping of their own -/

section

variable {settings : Settings} {follow : String → Outcome Merged}
  {deprecated : Value → Except Fault Bool} {es : Keyed Value}

/-- Entries that are skipped may be left out, if the others are not skipped then. -/
theorem mergeEntries_filter {skips skips' : Scalar → Bool}
    (h : ∀ k ∈ Keyed.keys es, skips k = false → skips' k = false) :
    mergeEntries settings follow deprecated skips' (es.filter fun e => !skips e.1) =
      mergeEntries settings follow deprecated skips es := by
  induction es with
  | nil => rfl
  | cons e rest ih =>
    obtain ⟨k, v⟩ := e
    have ih := ih fun q hq => h q (List.mem_cons_of_mem _ hq)
    rw [List.filter_cons, mergeEntries_cons]
    cases hk : skips k with
    | true => rw [if_pos rfl, if_neg (by simp), ih]
    | false =>
      rw [if_pos (by simp), mergeEntries_cons, h k List.mem_cons_self hk, ih]

/-- The own keywords of a mapping come to the same in a mapping of their own, if nothing is skipped there
that is not skipped here. -/
theorem mergeEntries_ownKeywords {fs : Keyed Value}
    (h : ∀ k, isStructural es k = false → isStructural fs k = false) :
    mergeEntries settings follow deprecated (isStructural fs) (ownKeywords es) =
      mergeEntries settings follow deprecated (isStructural es) es :=
  mergeEntries_filter fun k _ => h k

/-- **The keywords beside `allOf`** are merged and finished. -/
theorem mergeBeside_without_allOf (hnone : reference? (.map es) = none)
    (hcomposed : isComposed es = true) :
    mergeBeside settings follow deprecated (Keyed.without es (.text "allOf")) = (do
      let own ← mergeEntries settings follow deprecated (isStructural es) es
      finish settings own) := by
  have hplain : ∀ k, isStructural (Keyed.without es (.text "allOf")) k = false := by
    intro k
    simp [isStructural, isReference_of_none (reference?_without_allOf.trans hnone),
      isComposed_without_allOf]
  have hown : mergeEntries settings follow deprecated
      (isStructural (Keyed.without es (.text "allOf"))) (ownKeywords es) =
        mergeEntries settings follow deprecated (isStructural es) es :=
    mergeEntries_ownKeywords fun k _ => hplain k
  rw [ownKeywords_of_composed hnone hcomposed] at hown
  rw [mergeBeside, hown]
  congr 1
  funext own
  rw [compose, isComposed_without_allOf]
  exact bind_pure _

/-- **The keywords beside a reference** come to what the mapping comes to, its reference aside. -/
theorem mergeBeside_without_ref {ref : String} (href : reference? (.map es) = some ref) :
    mergeBeside settings follow deprecated (Keyed.without es (.text "$ref")) =
      mergeBeside settings follow deprecated es := by
  have hskips : ∀ k, isStructural es k = false →
      isStructural (Keyed.without es (.text "$ref")) k = false := by
    intro k hk
    simp only [isStructural, Bool.or_eq_false_iff] at hk
    simp [isStructural, isReference_of_none reference?_without_ref, isComposed_without_ref, hk.2]
  have hbeside : mergeEntries settings follow deprecated
      (isStructural (Keyed.without es (.text "$ref"))) (ownKeywords (Keyed.without es (.text "$ref"))) =
        mergeEntries settings follow deprecated
          (isStructural (Keyed.without es (.text "$ref"))) (Keyed.without es (.text "$ref")) :=
    mergeEntries_ownKeywords fun _ h => h
  have hown : mergeEntries settings follow deprecated
      (isStructural (Keyed.without es (.text "$ref"))) (Keyed.without es (.text "$ref")) =
        mergeEntries settings follow deprecated (isStructural es) es := by
    rw [← hbeside, ownKeywords_without_ref href, mergeEntries_ownKeywords hskips]
  rw [mergeBeside, mergeBeside, hown]
  congr 1
  funext own
  rw [compose, compose, isComposed_without_ref]
  simp only [mergeBranchesIn_eq, branchesOf_without_ref]

end

/-! ## Pieces of a node in their place -/

section

variable {settings : Settings} {document node : Value} {visited : List String}

/-- Leaving out an entry leaves out references at most. -/
theorem references_without_sublist (es : Keyed Value) (k : Scalar) :
    (references (.map (Keyed.without es k))).Sublist (references (.map es)) := by
  rw [references, references, referencesOfEntries_eq, referencesOfEntries_eq]
  exact List.Sublist.flatMap List.filter_sublist _

/-- **A piece of a node merges by itself as it does in its place**: the bound of the node suffices. -/
theorem mergeVisited_of_references_le {piece : Value}
    (h : (references piece).length ≤ (references node).length) :
    mergeVisited settings document visited piece =
      mergeNode settings (resolveFrom settings document
        (.ofCount fun _ => (references document).length + (references node).length) visited)
        (leadsToDeprecated document) piece :=
  mergeVisited_of_enough (Nat.le_trans (Nat.add_le_add_left h _)
    (Bound.le_length_ofCount fun _ => (references document).length + (references node).length))

/-- A mapping that is no reference and not deprecated comes to what its own keywords come to. -/
theorem mergeNode_of_plain {follow : String → Outcome Merged} {deprecated : Value → Except Fault Bool}
    {es : Keyed Value} (hnone : reference? (.map es) = none)
    (hdeprecated : Settings.isDeprecated es = false) :
    mergeNode settings follow deprecated (.map es) = (do
      let whole ← mergeBeside settings follow deprecated es
      return whole.toMerged) := by
  rw [mergeNode, mergeAs_schema, if_neg (by simp [hdeprecated]), hnone]

end

/-! ## What is merged to something else than a mapping -/

section

variable {settings : Settings} {document : Value} {visited : List String}

/-- **What is merged to no mapping reports no names as left out.** -/
theorem dropped_of_not_map {node : Value} {m : Merged}
    (h : (mergeVisited settings document visited node).result = .ok m)
    (hschema : ∀ es, m.schema ≠ .map es) : m.dropped = [] :=
  mergeVisited_finished (p := fun m => (∀ es, m.schema ≠ .map es) → m.dropped = [])
    (fun _ _ hdropped _ => hdropped) (fun _ r _ hnot => absurd rfl (hnot r.entries)) h hschema

end

end ToolCatalog.Schema
