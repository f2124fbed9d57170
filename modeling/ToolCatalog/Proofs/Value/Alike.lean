import ToolCatalog.Proofs.Value.Induction
import ToolCatalog.Proofs.Value.Keyed

/-!
# Equality up to the order of keys

Two values are alike if they differ at most in the order in which the keys of their mappings come.
This is finer than `Value.same`, which also takes numbers of different kinds for the same.
-/

namespace ToolCatalog.Value

/-- **Equality up to the order of keys.** -/
inductive Alike : Value → Value → Prop
  | scalar (s : Scalar) : Alike (.scalar s) (.scalar s)
  | set (ms : List Scalar) : Alike (.set ms) (.set ms)
  | list {vs ws : List Value} :
    vs.length = ws.length → (∀ p ∈ vs.zip ws, Alike p.1 p.2) → Alike (.list vs) (.list ws)
  | map {es fs : List (Scalar × Value)} :
    (Keyed.keys es).Perm (Keyed.keys fs) →
    (∀ k v w, Keyed.find? es k = some v → Keyed.find? fs k = some w → Alike v w) →
    Alike (.map es) (.map fs)
  | pair {a b c d : Value} : Alike a c → Alike b d → Alike (.pair a b) (.pair c d)
  | part {n : Nat} {body body' : Unit → Value} :
    Alike (body ()) (body' ()) → Alike (.part n body) (.part n body')

theorem mem_zip_self {α : Type} {as : List α} {p : α × α} (h : p ∈ as.zip as) :
    p.1 ∈ as ∧ p.1 = p.2 := by
  induction as with
  | nil => cases h
  | cons a rest ih =>
    rw [List.zip_cons_cons] at h
    rcases List.mem_cons.1 h with rfl | h
    · exact ⟨List.mem_cons_self, rfl⟩
    · obtain ⟨hmem, heq⟩ := ih h
      exact ⟨List.mem_cons_of_mem _ hmem, heq⟩

theorem Alike.refl (v : Value) : Alike v v := by
  induction v using induction with
  | scalar s => exact .scalar s
  | set ms => exact .set ms
  | list vs ih =>
    refine .list rfl fun p hp => ?_
    obtain ⟨hmem, heq⟩ := mem_zip_self hp
    rw [← heq]
    exact ih p.1 hmem
  | map es ih _ =>
    refine .map (List.Perm.refl _) fun k v w hv hw => ?_
    obtain rfl := Option.some.inj (hv.symm.trans hw)
    obtain ⟨k', hk', -⟩ := Keyed.mem_of_find? hv
    exact ih k' v hk'
  | pair a b ha hb => exact .pair ha hb
  | part n body ih => exact .part ih

theorem Alike.list_cons {v w : Value} {vs ws : List Value} (h : Alike v w)
    (hrest : Alike (.list vs) (.list ws)) : Alike (.list (v :: vs)) (.list (w :: ws)) := by
  cases hrest with
  | list hlength hitems =>
    refine .list (by rw [List.length_cons, List.length_cons, hlength]) fun p hp => ?_
    rw [List.zip_cons_cons] at hp
    rcases List.mem_cons.1 hp with rfl | hp
    · exact h
    · exact hitems p hp

theorem Alike.map_cons {k : Scalar} {v w : Value} {es fs : Keyed Value} (h : Alike v w)
    (hrest : Alike (.map es) (.map fs)) : Alike (.map ((k, v) :: es)) (.map ((k, w) :: fs)) := by
  cases hrest with
  | map hkeys hentries =>
    refine .map (hkeys.cons k) fun q a b ha hb => ?_
    rw [Keyed.find?_cons] at ha hb
    split at ha
    · next hq =>
      rw [if_pos hq] at hb
      rw [← Option.some.inj ha, ← Option.some.inj hb]
      exact h
    · next hq =>
      rw [if_neg hq] at hb
      exact hentries q a b ha hb

/-- Mappings are alike if they are without one of their keys and have the same under it. -/
theorem Alike.of_without {es fs : Keyed Value} {s : String}
    (h : Alike (.map (Keyed.without es (.text s))) (.map (Keyed.without fs (.text s))))
    (hfind : Keyed.find? es (.text s) = Keyed.find? fs (.text s))
    (hes : Keyed.Distinct es)
    (hfs : Keyed.Distinct fs) :
    Alike (.map es) (.map fs) := by
  cases h with
  | map hkeys hentries =>
    refine .map ?_ fun k v w hv hw => ?_
    · cases hv : Keyed.find? es (.text s) with
      | none =>
        have hw := hfind.symm.trans hv
        rwa [Keyed.without_eq_self hv, Keyed.without_eq_self hw] at hkeys
      | some v =>
        obtain ⟨k, hk, hperm⟩ := Keyed.keys_perm_without hv hes
        obtain ⟨q, hq, hperm'⟩ := Keyed.keys_perm_without (hfind.symm.trans hv) hfs
        obtain rfl := (Scalar.same_text _ _).1 hk
        obtain rfl := (Scalar.same_text _ _).1 hq
        exact hperm.trans ((hkeys.cons _).trans hperm'.symm)
    · by_cases hk : (Scalar.text s).same k = true
      · rw [← Keyed.find?_congr _ hk] at hv hw
        obtain rfl := Option.some.inj (hv.symm.trans (hfind.trans hw))
        exact .refl v
      · refine hentries k v w ?_ ?_
        · rw [Keyed.find?_without, if_neg hk, hv]
        · rw [Keyed.find?_without, if_neg hk, hw]

end ToolCatalog.Value
