import Mathlib.Data.List.Pairwise
import Mathlib.Data.List.Perm.Basic
import ToolCatalog.Proofs.Value.Keyed

/-!
# Mappings written one over another

Where several mappings are written one over another, each key stands where it first appeared, with what the
last mapping that has it says.  Where they are searched one after another, the first that has a key decides.
If mappings that have a key in common agree on it, then their order shows in the order of the keys only.
-/

namespace ToolCatalog

namespace Keyed

/-- The keys of several mappings, in the order in which they first appear. -/
def joinedAll (kss : List (List Scalar)) : List Scalar := kss.foldl joined []

theorem foldl_joined (ks : List Scalar) (kss : List (List Scalar)) :
    kss.foldl joined ks = joined ks (joinedAll kss) := by
  induction kss generalizing ks with
  | nil => simp [joinedAll, joined]
  | cons qs rest ih =>
    have hcons : joinedAll (qs :: rest) = joined qs (joinedAll rest) := by
      rw [joinedAll, List.foldl_cons, joined_nil, ih]
    rw [List.foldl_cons, ih, hcons, joined_assoc]

theorem joinedAll_cons (ks : List Scalar) (kss : List (List Scalar)) :
    joinedAll (ks :: kss) = joined ks (joinedAll kss) := by
  rw [joinedAll, List.foldl_cons, joined_nil, foldl_joined]

/-- Keys that are joined are distinct if they are in each mapping. -/
theorem joinedAll_distinct {kss : List (List Scalar)}
    (h : ∀ ks ∈ kss, ks.Pairwise fun k q => k.same q = false) :
    (joinedAll kss).Pairwise fun k q => k.same q = false := by
  induction kss with
  | nil => exact List.Pairwise.nil
  | cons ks rest ih =>
    rw [joinedAll_cons]
    exact joined_distinct (h ks List.mem_cons_self) (ih fun qs hqs => h qs (List.mem_cons_of_mem _ hqs))

/-- If keys that are the same are spelled alike, the joined keys are those of all mappings. -/
theorem mem_joinedAll {kss : List (List Scalar)}
    (h : ∀ ks ∈ kss, ∀ qs ∈ kss, ∀ k ∈ ks, ∀ q ∈ qs, k.same q = true → k = q) {k : Scalar} :
    k ∈ joinedAll kss ↔ ∃ ks ∈ kss, k ∈ ks := by
  induction kss with
  | nil => simp [joinedAll]
  | cons ks rest ih =>
    have ih := ih fun ps hps qs hqs =>
      h ps (List.mem_cons_of_mem _ hps) qs (List.mem_cons_of_mem _ hqs)
    rw [joinedAll_cons, joined, List.mem_append, List.mem_filter, ih]
    simp only [List.mem_cons, exists_eq_or_imp]
    constructor
    · exact fun hk => hk.imp_right And.left
    · rintro (hk | ⟨qs, hqs, hk⟩)
      · exact Or.inl hk
      · cases hany : ks.any k.same with
        | false => exact Or.inr ⟨⟨qs, hqs, hk⟩, rfl⟩
        | true =>
          obtain ⟨q, hq, hsame⟩ := List.any_eq_true.1 hany
          exact Or.inl
            (h qs (List.mem_cons_of_mem _ hqs) ks List.mem_cons_self k hk q hq hsame ▸ hq)

/-- No two keys of a mapping are the same. -/
theorem eq_of_same_of_distinct {ks : List Scalar} (h : ks.Pairwise fun k q => k.same q = false)
    {k q : Scalar} (hk : k ∈ ks) (hq : q ∈ ks) (hsame : k.same q = true) : k = q := by
  by_contra hne
  have hsymm : Std.Symm fun k q : Scalar => k.same q = false := ⟨fun a b hab => by rwa [Scalar.same_comm]⟩
  have hdiffer := h.forall hk hq hne
  rw [hdiffer] at hsame
  cases hsame

/-- **The order of mappings shows in the order of their keys only**, if keys that are the same are spelled
alike. -/
theorem joinedAll_perm {kss qss : List (List Scalar)} (hperm : kss.Perm qss)
    (hdistinct : ∀ ks ∈ kss, ks.Pairwise fun k q => k.same q = false)
    (hspelled : ∀ ks ∈ kss, ∀ qs ∈ kss, ∀ k ∈ ks, ∀ q ∈ qs, k.same q = true → k = q) :
    (joinedAll kss).Perm (joinedAll qss) := by
  have hnodup : ∀ {ks : List Scalar}, (ks.Pairwise fun k q => k.same q = false) → ks.Nodup := by
    intro ks h
    refine h.imp fun {k q} hkq heq => ?_
    rw [heq, Scalar.same_refl] at hkq
    cases hkq
  have hdistinct' : ∀ ks ∈ qss, ks.Pairwise fun k q => k.same q = false :=
    fun ks hks => hdistinct ks (hperm.mem_iff.2 hks)
  refine (List.perm_ext_iff_of_nodup (hnodup (joinedAll_distinct hdistinct))
    (hnodup (joinedAll_distinct hdistinct'))).2 fun k => ?_
  rw [mem_joinedAll hspelled, mem_joinedAll fun ks hks qs hqs =>
    hspelled ks (hperm.mem_iff.2 hks) qs (hperm.mem_iff.2 hqs)]
  exact exists_congr fun ks => and_congr_left' hperm.mem_iff

variable {α : Type}

/-- The keys of mappings written one over another. -/
theorem keys_foldl_putAll {ess : List (Keyed α)} (h : ∀ es ∈ ess, Distinct es) (into : Keyed α) :
    keys (ess.foldl putAll into) = joined (keys into) (joinedAll (ess.map keys)) := by
  induction ess generalizing into with
  | nil => simp [joinedAll, joined]
  | cons es rest ih =>
    rw [List.foldl_cons, ih (fun fs hfs => h fs (List.mem_cons_of_mem _ hfs)),
      keys_putAll (h es List.mem_cons_self), List.map_cons, joinedAll_cons, joined_assoc]

/-- **What stands under a key in mappings written one over another**: what the last that has it says. -/
theorem find?_foldl_putAll {ess : List (Keyed α)} (h : ∀ es ∈ ess, Distinct es) (into : Keyed α)
    (q : Scalar) : find? (ess.foldl putAll into) q =
      (ess.reverse.findSome? fun es => find? es q).or (find? into q) := by
  induction ess generalizing into with
  | nil => rfl
  | cons es rest ih =>
    rw [List.foldl_cons, ih (fun fs hfs => h fs (List.mem_cons_of_mem _ hfs)),
      find?_putAll (h es List.mem_cons_self), List.reverse_cons, List.findSome?_append, ← Option.or_assoc,
      List.findSome?_singleton]

end Keyed

/-- A search finds the same in any order, if all finds agree. -/
theorem findSome?_perm {α β : Type} {f : α → Option β} {as bs : List α} (hperm : as.Perm bs)
    (h : ∀ a ∈ as, ∀ a' ∈ as, ∀ v w, f a = some v → f a' = some w → v = w) :
    as.findSome? f = bs.findSome? f := by
  have hfound : ∀ {as : List α}, (∀ a ∈ as, ∀ a' ∈ as, ∀ v w, f a = some v → f a' = some w → v = w) →
      ∀ v, as.findSome? f = some v ↔ ∃ a ∈ as, f a = some v := by
    intro as h v
    refine ⟨List.exists_of_findSome?_eq_some, fun ⟨a, ha, hv⟩ => ?_⟩
    obtain ⟨w, hw⟩ : ∃ w, as.findSome? f = some w :=
      Option.isSome_iff_exists.1 (List.findSome?_isSome_iff.2 ⟨a, ha, by rw [hv]; rfl⟩)
    obtain ⟨a', ha', hw'⟩ := List.exists_of_findSome?_eq_some hw
    rw [hw, h a ha a' ha' v w hv hw']
  refine Option.ext fun v => ?_
  rw [hfound h, hfound fun a ha a' ha' => h a (hperm.mem_iff.2 ha) a' (hperm.mem_iff.2 ha')]
  exact exists_congr fun a => and_congr_left' hperm.mem_iff

end ToolCatalog
