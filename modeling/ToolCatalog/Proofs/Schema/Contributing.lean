import ToolCatalog.Proofs.Schema.References
import ToolCatalog.Proofs.Schema.Required

/-!
# The mappings that contribute to a node

A schema is put together from several mappings: what stands beside `allOf` and in its branches, the
target of a reference and what stands beside it.  `Contributes` collects them from the node and the
document alone.  Two readings of it are of interest: `ContributesAnyhow` looks everywhere, and
`ContributesMerged` only where a merge looks.
-/

namespace ToolCatalog.Schema

/-! ## The mappings that contribute to a node -/

/-- **The mappings that contribute to a node**: the node if it is concrete, what contributes to the
keywords beside `allOf` or to a branch, and what contributes to the target of a reference or to the
keywords beside it.  A composed mapping and a reference are looked into only if `passes` holds of them,
and the keywords beside a reference only if `counts` holds of its target. -/
inductive Contributes (passes : Keyed Value → Prop) (counts : Value → Prop) (document : Value) :
    Value → Keyed Value → Prop
  | concrete {es : Keyed Value} :
    Settings.isDeprecated es = false → reference? (.map es) = none → isComposed es = false →
    Contributes passes counts document (.map es) es
  | rest {es fs : Keyed Value} :
    passes es → reference? (.map es) = none → isComposed es = true →
    Contributes passes counts document (.map (Keyed.without es (.text "allOf"))) fs →
    Contributes passes counts document (.map es) fs
  | branch {es fs : Keyed Value} {b : Value} :
    passes es → reference? (.map es) = none → b ∈ branchesOf es →
    Contributes passes counts document b fs →
    Contributes passes counts document (.map es) fs
  | target {es fs : Keyed Value} {ref : String} {target : Value} :
    passes es → reference? (.map es) = some ref → Pointer.walk document ref = .ok target →
    Contributes passes counts document target fs →
    Contributes passes counts document (.map es) fs
  | siblings {es fs : Keyed Value} {ref : String} {target : Value} :
    passes es → reference? (.map es) = some ref → Pointer.walk document ref = .ok target →
    counts target →
    Contributes passes counts document (.map (Keyed.without es (.text "$ref"))) fs →
    Contributes passes counts document (.map es) fs
  | part {n : Nat} {body : Unit → Value} {fs : Keyed Value} :
    Contributes passes counts document (body ()) fs →
    Contributes passes counts document (.part n body) fs

/-- A node is a mapping once references are followed: the last of them, or one that is deprecated. -/
inductive LeadsToMapping (document : Value) : Value → Prop
  | deprecated {es : Keyed Value} :
    Settings.isDeprecated es = true → LeadsToMapping document (.map es)
  | plain {es : Keyed Value} : reference? (.map es) = none → LeadsToMapping document (.map es)
  | reference {es : Keyed Value} {ref : String} {target : Value} :
    reference? (.map es) = some ref → Pointer.walk document ref = .ok target →
    LeadsToMapping document target → LeadsToMapping document (.map es)
  | part {n : Nat} {body : Unit → Value} :
    LeadsToMapping document (body ()) → LeadsToMapping document (.part n body)

/-- What contributes to a node if nothing between the node and the mapping plays a role. -/
abbrev ContributesAnyhow (document : Value) : Value → Keyed Value → Prop :=
  Contributes (fun _ => True) (fun _ => True) document

/-- What contributes to a node as nodes are merged: nothing does through a deprecated mapping, and
keywords beside a reference do only if its target leads to a mapping. -/
abbrev ContributesMerged (document : Value) : Value → Keyed Value → Prop :=
  Contributes (fun es => Settings.isDeprecated es = false) (LeadsToMapping document) document

/-- What a mapping has under `properties`, if anything, is a mapping. -/
def MapsProperties (es : Keyed Value) : Prop :=
  ∀ v, (propertiesKey, v) ∈ es → ∃ ps, v.opened = .map ps

/-- A mapping has a property of that name. -/
def Declares (es : Keyed Value) (name : Scalar) : Prop :=
  ∃ v ps, Keyed.find? es propertiesKey = some v ∧ v.opened = .map ps ∧ name ∈ Keyed.keys ps

/-- The keywords of a mapping that are merged as such. -/
def ownKeywords (es : Keyed Value) : Keyed Value := es.filter fun e => !isStructural es e.1

/-! ## Keywords beside others -/

section

variable {es : Keyed Value}

theorem reference?_without_ref : reference? (.map (Keyed.without es (.text "$ref"))) = none := by
  unfold reference?
  simp only [Value.opened, Keyed.find?_without, Scalar.same_refl, if_true]

theorem reference?_without_allOf :
    reference? (.map (Keyed.without es (.text "allOf"))) = reference? (.map es) := by
  unfold reference?
  simp only [Value.opened]
  rw [Keyed.find?_without, if_neg (by decide)]

theorem isComposed_without_ref : isComposed (Keyed.without es (.text "$ref")) = isComposed es := by
  unfold isComposed
  rw [Keyed.find?_without, if_neg (by decide)]

theorem branchesOf_without_ref : branchesOf (Keyed.without es (.text "$ref")) = branchesOf es := by
  unfold branchesOf
  rw [Keyed.find?_without, if_neg (by decide)]

theorem isDeprecated_without_ref :
    Settings.isDeprecated (Keyed.without es (.text "$ref")) = Settings.isDeprecated es := by
  unfold Settings.isDeprecated
  rw [Keyed.find?_without, if_neg (by decide)]

theorem isDeprecated_without_allOf :
    Settings.isDeprecated (Keyed.without es (.text "allOf")) = Settings.isDeprecated es := by
  unfold Settings.isDeprecated
  rw [Keyed.find?_without, if_neg (by decide)]

theorem isComposed_without_allOf : isComposed (Keyed.without es (.text "allOf")) = false := by
  unfold isComposed
  rw [Keyed.find?_without, if_pos (Scalar.same_refl _)]
  rfl

theorem branchesOf_of_not_composed (h : isComposed es = false) : branchesOf es = [] := by
  unfold isComposed at h
  unfold branchesOf
  cases hopened : (Keyed.find? es (.text "allOf")).map Value.opened with
  | none => rfl
  | some v =>
    rw [hopened] at h
    cases v with
    | list vs => cases h
    | _ => rfl

theorem isReference_of_none (h : reference? (.map es) = none) : isReference es = false := by
  rw [isReference, h]
  rfl

/-- A text under which something stands is compared as keys are. -/
theorem beq_text_eq_same (k : Scalar) (s : String) : (k == .text s) = (Scalar.text s).same k := by
  rw [Bool.eq_iff_iff, beq_iff_eq, Scalar.same_text]

theorem ownKeywords_of_concrete (hnone : reference? (.map es) = none) (h : isComposed es = false) :
    ownKeywords es = es := by
  refine List.filter_eq_self.2 fun e _ => ?_
  simp [isStructural, isReference_of_none hnone, h]

theorem ownKeywords_of_composed (hnone : reference? (.map es) = none) (h : isComposed es = true) :
    ownKeywords es = Keyed.without es (.text "allOf") := by
  refine List.filter_congr fun e _ => ?_
  simp [isStructural, isReference_of_none hnone, h, beq_text_eq_same]

/-- The keywords beside a reference are the own ones of the mapping. -/
theorem ownKeywords_without_ref {ref : String} (h : reference? (.map es) = some ref) :
    ownKeywords (Keyed.without es (.text "$ref")) = ownKeywords es := by
  have href : isReference es = true := by
    rw [isReference, h]
    rfl
  have hbeside : ∀ k, isStructural (Keyed.without es (.text "$ref")) k =
      (isComposed es && (Scalar.text "allOf").same k) := by
    intro k
    simp [isStructural, isReference_of_none reference?_without_ref, isComposed_without_ref,
      beq_text_eq_same]
  rw [ownKeywords, funext fun e : Scalar × Value => congrArg (!·) (hbeside e.1), Keyed.without,
    List.filter_filter, ownKeywords]
  refine List.filter_congr fun e _ => ?_
  rw [isStructural, href, beq_text_eq_same, beq_text_eq_same]
  cases (Scalar.text "$ref").same e.1 <;> simp

end

/-! ## What contributes at all -/

section

variable {passes : Keyed Value → Prop} {counts : Value → Prop} {document : Value} {fs : Keyed Value}

/-- Properties are mappings in all that contributes to a node, if they are everywhere in the node and in
the document. -/
theorem Contributes.mapsProperties {v : Value} (h : Contributes passes counts document v fs)
    (hdocument : ∀ gs, Value.Within (.map gs) document → MapsProperties gs)
    (hv : ∀ gs, Value.Within (.map gs) v → MapsProperties gs) : MapsProperties fs := by
  have hwithout : ∀ {es : Keyed Value} (k : Scalar),
      (∀ gs, Value.Within (.map gs) (.map es) → MapsProperties gs) →
      ∀ gs, Value.Within (.map gs) (.map (Keyed.without es k)) → MapsProperties gs := by
    intro es k hes gs hgs
    cases hgs with
    | self => exact fun v hv => hes es .self v (Keyed.mem_without.1 hv).1
    | entry hmem hgs => exact hes gs (.entry (Keyed.mem_without.1 hmem).1 hgs)
  induction h with
  | concrete _ _ _ => exact hv _ .self
  | rest _ _ _ _ ih => exact ih (hwithout _ hv)
  | branch _ _ hb _ ih => exact ih fun gs hgs => hv gs (hgs.trans (within_of_mem_branchesOf hb))
  | target _ _ hwalk _ ih =>
    exact ih fun gs hgs => hdocument gs (hgs.trans (Pointer.within_of_walk hwalk))
  | siblings _ _ _ _ _ ih => exact ih (hwithout _ hv)
  | part _ ih => exact ih fun gs hgs => hv gs (.part hgs)

/-- Nothing contributes to a node that is no mapping. -/
theorem not_contributes_of_not_map {v : Value} (h : ∀ gs, v.opened ≠ .map gs) :
    ¬ Contributes passes counts document v fs := by
  intro hv
  induction hv with
  | part _ ih => exact ih h
  | _ => exact h _ rfl

end

/-! ## What contributes as nodes are merged -/

section

variable {document : Value} {es fs : Keyed Value}

/-- Nothing contributes through a deprecated mapping. -/
theorem not_contributesMerged_of_deprecated (h : Settings.isDeprecated es = true) :
    ¬ ContributesMerged document (.map es) fs := by
  have hnot : ¬ Settings.isDeprecated es = false := by simp [h]
  intro hes
  cases hes with
  | concrete hdeprecated _ _ => exact hnot hdeprecated
  | rest hdeprecated _ _ _ => exact hnot hdeprecated
  | branch hdeprecated _ _ _ => exact hnot hdeprecated
  | target hdeprecated _ _ _ => exact hnot hdeprecated
  | siblings hdeprecated _ _ _ _ => exact hnot hdeprecated

/-- **What contributes to a mapping that is no reference**: its own keywords, and what contributes to
its branches. -/
theorem contributesMerged_plain (hdeprecated : Settings.isDeprecated es = false)
    (hnone : reference? (.map es) = none) :
    ContributesMerged document (.map es) fs ↔
      fs = ownKeywords es ∨ ∃ b ∈ branchesOf es, ContributesMerged document b fs := by
  constructor
  · intro h
    cases h with
    | concrete _ _ hcomposed => exact Or.inl (ownKeywords_of_concrete hnone hcomposed).symm
    | rest _ _ hcomposed h =>
      -- What stands beside the branches is concrete.
      have hrest : reference? (.map (Keyed.without es (.text "allOf"))) = none := by
        rw [reference?_without_allOf, hnone]
      rw [ownKeywords_of_composed hnone hcomposed]
      cases h with
      | concrete _ _ _ => exact Or.inl rfl
      | rest _ _ hcomposed' _ =>
        rw [isComposed_without_allOf] at hcomposed'
        cases hcomposed'
      | branch _ _ hb _ =>
        rw [branchesOf_of_not_composed isComposed_without_allOf] at hb
        cases hb
      | target _ href _ _ => rw [hrest] at href; cases href
      | siblings _ href _ _ _ => rw [hrest] at href; cases href
    | branch _ _ hb h => exact Or.inr ⟨_, hb, h⟩
    | target _ href _ _ => rw [hnone] at href; cases href
    | siblings _ href _ _ _ => rw [hnone] at href; cases href
  · rintro (rfl | ⟨b, hb, h⟩)
    · cases hcomposed : isComposed es with
      | false =>
        rw [ownKeywords_of_concrete hnone hcomposed]
        exact .concrete hdeprecated hnone hcomposed
      | true =>
        rw [ownKeywords_of_composed hnone hcomposed]
        refine .rest hdeprecated hnone hcomposed (.concrete ?_ ?_ isComposed_without_allOf)
        · rw [isDeprecated_without_allOf, hdeprecated]
        · rw [reference?_without_allOf, hnone]
    · exact .branch hdeprecated hnone hb h

/-- **What contributes to a reference**: what contributes to its target, and, if that leads to a mapping,
the own keywords of the reference and what contributes to its branches. -/
theorem contributesMerged_reference {ref : String} {target : Value}
    (hdeprecated : Settings.isDeprecated es = false) (href : reference? (.map es) = some ref)
    (htarget : Pointer.walk document ref = .ok target) :
    ContributesMerged document (.map es) fs ↔
      ContributesMerged document target fs ∨ LeadsToMapping document target ∧
        (fs = ownKeywords es ∨ ∃ b ∈ branchesOf es, ContributesMerged document b fs) := by
  have hbeside : ContributesMerged document (.map (Keyed.without es (.text "$ref"))) fs ↔
      fs = ownKeywords es ∨ ∃ b ∈ branchesOf es, ContributesMerged document b fs := by
    rw [← ownKeywords_without_ref href, ← @branchesOf_without_ref es]
    refine contributesMerged_plain ?_ reference?_without_ref
    rw [isDeprecated_without_ref, hdeprecated]
  rw [← hbeside]
  constructor
  · intro h
    cases h with
    | concrete _ hnone _ => rw [href] at hnone; cases hnone
    | rest _ hnone _ _ => rw [href] at hnone; cases hnone
    | branch _ hnone _ _ => rw [href] at hnone; cases hnone
    | target _ href' htarget' h =>
      obtain rfl := Option.some.inj (href.symm.trans href')
      obtain rfl := Except.ok.inj (htarget.symm.trans htarget')
      exact Or.inl h
    | siblings _ href' htarget' hleads h =>
      obtain rfl := Option.some.inj (href.symm.trans href')
      obtain rfl := Except.ok.inj (htarget.symm.trans htarget')
      exact Or.inr ⟨hleads, h⟩
  · rintro (h | ⟨hleads, h⟩)
    · exact .target hdeprecated href htarget h
    · exact .siblings hdeprecated href htarget hleads h

theorem LeadsToMapping.exists_map {v : Value} (h : LeadsToMapping document v) :
    ∃ gs, v.opened = .map gs := by
  induction h with
  | part _ ih => exact ih
  | _ => exact ⟨_, rfl⟩

/-- A reference leads where its target leads. -/
theorem leadsToMapping_reference {ref : String} {target : Value}
    (hdeprecated : Settings.isDeprecated es = false) (href : reference? (.map es) = some ref)
    (htarget : Pointer.walk document ref = .ok target) :
    LeadsToMapping document (.map es) ↔ LeadsToMapping document target := by
  refine ⟨fun h => ?_, .reference href htarget⟩
  cases h with
  | deprecated h => rw [hdeprecated] at h; cases h
  | plain h => rw [href] at h; cases h
  | reference href' htarget' h =>
    obtain rfl := Option.some.inj (href.symm.trans href')
    obtain rfl := Except.ok.inj (htarget.symm.trans htarget')
    exact h

/-- A reference that stands alone has no keywords of its own and no branches. -/
theorem nothing_beside_of_no_siblings {ref : String} (href : reference? (.map es) = some ref)
    (h : hasSiblings es = false) : ownKeywords es = [] ∧ branchesOf es = [] := by
  have hnil : Keyed.without es (.text "$ref") = [] := by
    refine List.filter_eq_nil_iff.2 fun e he => ?_
    have hkey := List.any_eq_false.1 h e he
    have hkey : e.1 = .text "$ref" := by simpa using hkey
    rw [hkey]
    simp [Scalar.same_refl]
  constructor
  · rw [← ownKeywords_without_ref href, hnil]
    rfl
  · rw [← branchesOf_without_ref, hnil]
    rfl

end

end ToolCatalog.Schema
