import Mathlib.Data.List.Forall2
import Mathlib.Data.List.Perm.Basic
import Mathlib.Data.List.Zip
import ToolCatalog.Proofs.Value.Alike
import ToolCatalog.Proofs.Value.Pointwise
import ToolCatalog.Proofs.Value.Rearranged

/-!
# Values with their keys in another order

`Reordered v w`: the values are alike, and no mapping in them has a key twice.  Such mappings have the same
keys and are reordered under each of them, so every question about a value has the same answer for both and
every way of writing to a mapping keeps them reordered.

* `Reordered.same`: the order of keys never shows in an equality.
* `Reordered.exists_pointwise`: a mapping can be brought into the order of the other, and then the two agree
  entry by entry.
-/

namespace ToolCatalog

namespace Keyed

/-- Keys that are joined to keys in another order. -/
theorem joined_perm {ks ks' qs qs' : List Scalar} (hks : ks.Perm ks') (hqs : qs.Perm qs') :
    (joined ks qs).Perm (joined ks' qs') := by
  have hany : (fun q : Scalar => !ks.any q.same) = fun q => !ks'.any q.same :=
    funext fun q => congrArg (! ·) hks.any_eq
  rw [joined, joined, hany]
  exact hks.append (hqs.filter _)

/-- Keys in another order are as distinct. -/
theorem Distinct.of_perm {α β : Type} {es : Keyed α} {fs : Keyed β} (h : Distinct es)
    (hkeys : (keys es).Perm (keys fs)) : Distinct fs :=
  hkeys.pairwise h fun {k q} hkq => by rwa [Scalar.same_comm q k]

theorem length_eq_of_keys_perm {α β : Type} {es : Keyed α} {fs : Keyed β}
    (h : (keys es).Perm (keys fs)) : es.length = fs.length := by
  have hlength := h.length_eq
  rwa [keys, keys, List.length_map, List.length_map] at hlength

/-- Entries can be brought into any order of their keys. -/
theorem exists_perm_of_keys {α : Type} {es : Keyed α} {ks : List Scalar} (h : (keys es).Perm ks) :
    ∃ gs : Keyed α, es.Perm gs ∧ keys gs = ks := by
  have hcomp := congrFun (congrFun (List.eq_map_comp_perm (Prod.fst : Scalar × α → Scalar)) ks) es
  obtain ⟨gs, hgs, hperm⟩ := cast hcomp.symm h.symm
  exact ⟨gs, hperm.symm, hgs.symm⟩

theorem pointwise_of_keys_eq {α β : Type} {R : Scalar → α → β → Prop} {es : Keyed α} {fs : Keyed β}
    (h : keys es = keys fs) (hR : ∀ k a b, (k, a) ∈ es → (k, b) ∈ fs → R k a b) :
    Pointwise R es fs := by
  induction es generalizing fs with
  | nil =>
    cases fs with
    | nil => exact .nil
    | cons f rest => cases h
  | cons e rest ih =>
    obtain ⟨k, a⟩ := e
    cases fs with
    | nil => cases h
    | cons f rest' =>
      obtain ⟨k', b⟩ := f
      rw [keys_cons, keys_cons, List.cons.injEq] at h
      obtain ⟨rfl, hrest⟩ := h
      refine .cons k (hR k a b List.mem_cons_self List.mem_cons_self) (ih hrest fun q a b ha hb => ?_)
      exact hR q a b (List.mem_cons_of_mem _ ha) (List.mem_cons_of_mem _ hb)

/-- Entries in another order find the same. -/
theorem find?_of_perm {α : Type} {es gs : Keyed α} (h : es.Perm gs) (hdistinct : Distinct es)
    (q : Scalar) : find? es q = find? gs q := by
  have hkeys : (keys es).Perm (keys gs) := h.map _
  cases ha : find? es q with
  | none =>
    have hhas : has gs q = has es q := by
      rw [has_eq_any, has_eq_any]
      exact hkeys.symm.any_eq
    rw [has, has, ha] at hhas
    exact (Option.not_isSome_iff_eq_none.1 (by rw [hhas]; simp)).symm
  | some a =>
    obtain ⟨k, hk, hsame⟩ := mem_of_find? ha
    rw [find?_congr gs hsame, find?_of_mem (h.mem_iff.1 hk) (hdistinct.of_perm hkeys)]

end Keyed

namespace Value

theorem Alike.symm {v w : Value} (h : Alike v w) : Alike w v := by
  induction h with
  | scalar s => exact .scalar s
  | set ms => exact .set ms
  | list hlength _ ih =>
    refine .list hlength.symm fun p hp => ?_
    rw [← List.zip_swap] at hp
    obtain ⟨q, hq, rfl⟩ := List.mem_map.1 hp
    exact ih q hq
  | map hkeys _ ih => exact .map hkeys.symm fun k v w hv hw => ih k w v hw hv
  | pair _ _ ih ih' => exact .pair ih ih'
  | part _ ih => exact .part ih

/-- Entries under texts may change places. -/
theorem Alike.of_rearranged {es fs : Keyed Value} (h : Keyed.Rearranged es fs) :
    Alike (.map es) (.map fs) := by
  refine .map (h.perm.map _) fun k v w hv hw => ?_
  obtain rfl := Option.some.inj (hv.symm.trans ((h.find? k).trans hw))
  exact .refl v

/-- A value that is alike to one without repeated keys has none either. -/
theorem Alike.wellFormed {v w : Value} (h : Alike v w) (hv : v.WellFormed) : w.WellFormed := by
  induction h with
  | scalar s => exact keysEverywhere_scalar s
  | set ms => exact hv
  | @list vs ws hlength _ ih =>
    refine keysEverywhere_list.2 fun w hw => ?_
    obtain ⟨i, hi, rfl⟩ := List.mem_iff_getElem.1 hw
    have hi' : i < vs.length := hlength ▸ hi
    have hzip : (vs[i], ws[i]) ∈ vs.zip ws :=
      List.mem_iff_getElem.2 ⟨i, by rw [List.length_zip]; omega, List.getElem_zip⟩
    exact ih _ hzip (keysEverywhere_list.1 hv _ (List.getElem_mem hi'))
  | @map es fs hkeys _ ih =>
    obtain ⟨hdistinct, hes⟩ := keysEverywhere_map.1 hv
    have hdistinct' : Keyed.Distinct fs := Keyed.Distinct.of_perm hdistinct hkeys
    refine keysEverywhere_map.2 ⟨hdistinct', fun k w hw => ?_⟩
    obtain ⟨v, hv⟩ := Keyed.mem_keys.1 (hkeys.mem_iff.2 (Keyed.mem_keys_of_mem hw))
    exact ih k v w (Keyed.find?_of_mem hv hdistinct) (Keyed.find?_of_mem hw hdistinct') (hes k v hv)
  | pair _ _ ih ih' =>
    intro es hes
    cases hes with
    | first hes => exact ih (fun gs hgs => hv gs (.first hgs)) es hes
    | second hes => exact ih' (fun gs hgs => hv gs (.second hgs)) es hes
  | part _ ih => exact keysEverywhere_part.2 (ih (keysEverywhere_part.1 hv))

/-- **The same value with its keys in another order**, and no key twice. -/
structure Reordered (v w : Value) : Prop where
  alike : Alike v w
  wellFormed : v.WellFormed

namespace Reordered

theorem refl {v : Value} (h : v.WellFormed) : Reordered v v := ⟨.refl v, h⟩

theorem symm {v w : Value} (h : Reordered v w) : Reordered w v :=
  ⟨h.alike.symm, h.alike.wellFormed h.wellFormed⟩

end Reordered

theorem reordered_scalar (s : Scalar) : Reordered (.scalar s) (.scalar s) :=
  .refl (keysEverywhere_scalar s)

/-- **Mappings with their keys in another order** have the same keys, and under each of them values with
their keys in another order. -/
theorem reordered_map {es fs : Keyed Value} :
    Reordered (.map es) (.map fs) ↔ Keyed.Distinct es ∧ (Keyed.keys es).Perm (Keyed.keys fs) ∧
      ∀ q, Option.Rel Reordered (Keyed.find? es q) (Keyed.find? fs q) := by
  constructor
  · rintro ⟨halike, hwellFormed⟩
    cases halike with
    | map hkeys hentries =>
      obtain ⟨hdistinct, hvalues⟩ := keysEverywhere_map.1 hwellFormed
      refine ⟨hdistinct, hkeys, fun q => ?_⟩
      have hhas : (Keyed.find? es q).isSome = (Keyed.find? fs q).isSome := by
        have hany := hkeys.any_eq (f := q.same)
        rwa [← Keyed.has_eq_any, ← Keyed.has_eq_any] at hany
      cases hv : Keyed.find? es q with
      | none =>
        rw [hv, Option.isSome_none] at hhas
        rw [Option.isSome_eq_false_iff.1 hhas.symm |> Option.isNone_iff_eq_none.1]
        exact .none
      | some v =>
        rw [hv] at hhas
        obtain ⟨w, hw⟩ := Option.isSome_iff_exists.1 hhas.symm
        obtain ⟨k, hk, -⟩ := Keyed.mem_of_find? hv
        rw [hw]
        exact .some ⟨hentries q v w hv hw, hvalues k v hk⟩
  · rintro ⟨hdistinct, hkeys, hfind⟩
    refine ⟨.map hkeys fun k v w hv hw => ?_, keysEverywhere_map.2 ⟨hdistinct, fun k v hv => ?_⟩⟩
    · have h := hfind k
      rw [hv, hw] at h
      cases h with
      | some h => exact h.alike
    · have h := hfind k
      rw [Keyed.find?_of_mem hv hdistinct] at h
      generalize Keyed.find? fs k = found at h
      cases h with
      | some h => exact h.wellFormed

/-- Lists correspond item by item. -/
theorem reordered_list {vs ws : List Value} :
    Reordered (.list vs) (.list ws) ↔ List.Forall₂ Reordered vs ws := by
  constructor
  · rintro ⟨halike, hwellFormed⟩
    cases halike with
    | list hlength hitems =>
      refine List.forall₂_iff_zip.2 ⟨hlength, fun {v w} hvw => ⟨hitems _ hvw, ?_⟩⟩
      exact keysEverywhere_list.1 hwellFormed v (List.of_mem_zip hvw).1
  · intro h
    obtain ⟨hwellFormed, halike⟩ := (List.forall₂_and_left (R := Alike) vs ws).1
      (h.imp fun v w hvw => ⟨hvw.wellFormed, hvw.alike⟩)
    obtain ⟨hlength, hitems⟩ := List.forall₂_iff_zip.1 halike
    exact ⟨.list hlength fun p hp => hitems hp, keysEverywhere_list.2 hwellFormed⟩

namespace Reordered

section

variable {v w : Value}

/-- Parts around a value change nothing. -/
theorem opened (h : Reordered v w) : Reordered v.opened w.opened := by
  obtain ⟨halike, hwellFormed⟩ := h
  induction halike with
  | part _ ih => exact ih (keysEverywhere_part.1 hwellFormed)
  | scalar s => exact ⟨.scalar s, hwellFormed⟩
  | set ms => exact ⟨.set ms, hwellFormed⟩
  | list hlength hitems _ => exact ⟨.list hlength hitems, hwellFormed⟩
  | map hkeys hentries _ => exact ⟨.map hkeys hentries, hwellFormed⟩
  | pair ha hb _ _ => exact ⟨.pair ha hb, hwellFormed⟩

theorem truthy (h : Reordered v w) : v.truthy = w.truthy := by
  have hempty : ∀ {α β : Type} {as : List α} {bs : List β}, as.length = bs.length →
      (!as.isEmpty) = !bs.isEmpty := by
    intro α β as bs hlength
    cases as <;> cases bs <;> first | rfl | cases hlength
  obtain ⟨halike, hwellFormed⟩ := h
  induction halike with
  | list hlength _ _ => exact hempty hlength
  | map hkeys _ _ => exact hempty (Keyed.length_eq_of_keys_perm hkeys)
  | part _ ih => exact ih (keysEverywhere_part.1 hwellFormed)
  | _ => rfl

theorem isKey (h : Reordered v w) : v.isKey = w.isKey := by
  obtain ⟨halike, hwellFormed⟩ := h
  induction halike with
  | pair _ _ ih ih' =>
    show (_ && _) = (_ && _)
    rw [ih fun es hes => hwellFormed es (.first hes), ih' fun es hes => hwellFormed es (.second hes)]
  | _ => rfl

theorem isPart (h : Reordered v w) (n : Nat) : v.isPart n = w.isPart n := by
  obtain ⟨halike, -⟩ := h
  cases halike <;> rfl

end

end Reordered

/-! ## Equality -/

/-- The entries of a mapping are the same as those of another if each is the same as what is found
there. -/
theorem sameEntries_iff {es fs : Keyed Value} :
    sameEntries es fs = true ↔
      ∀ k v, (k, v) ∈ es → ∃ w, Keyed.find? fs k = some w ∧ v.same w = true := by
  induction es with
  | nil => simp [sameEntries]
  | cons e rest ih =>
    obtain ⟨k, v⟩ := e
    rw [sameEntries, Bool.and_eq_true, ih]
    constructor
    · rintro ⟨hhead, hrest⟩ q u hu
      rcases List.mem_cons.1 hu with heq | hu
      · obtain ⟨rfl, rfl⟩ := Prod.mk.inj heq
        split at hhead
        · next w hw => exact ⟨w, hw, hhead⟩
        · cases hhead
      · exact hrest q u hu
    · intro h
      obtain ⟨w, hw, hsame⟩ := h k v List.mem_cons_self
      refine ⟨?_, fun q u hu => h q u (List.mem_cons_of_mem _ hu)⟩
      rw [hw]
      exact hsame

namespace Reordered

/-- Values that are compared the same way whatever the order of their keys. -/
def Compares (v : Value) : Prop :=
  ∀ {v' w w'}, Reordered v v' → Reordered w w' → v.same w = v'.same w'

theorem sameItems {vs vs' ws ws' : List Value} (hsame : ∀ v ∈ vs, Compares v)
    (hvs : List.Forall₂ Reordered vs vs') (hws : List.Forall₂ Reordered ws ws') :
    Value.sameItems vs ws = Value.sameItems vs' ws' := by
  induction hvs generalizing ws ws' with
  | nil => cases hws <;> rfl
  | @cons v v' vs vs' hv _ ih =>
    cases hws with
    | nil => rfl
    | cons hw hws =>
      show (_ && _) = (_ && _)
      rw [hsame v List.mem_cons_self hv hw,
        ih (fun u hu => hsame u (List.mem_cons_of_mem _ hu)) hws]

theorem sameEntries {es es' fs fs' : Keyed Value} (hsame : ∀ k v, (k, v) ∈ es → Compares v)
    (hes : Reordered (.map es) (.map es')) (hfs : Reordered (.map fs) (.map fs')) :
    Value.sameEntries es fs = Value.sameEntries es' fs' := by
  obtain ⟨hdistinct, hkeys, hvalues⟩ := reordered_map.1 hes
  obtain ⟨-, -, hfound⟩ := reordered_map.1 hfs
  -- Under a key of both, the one entry is as good as the other.
  have hentry : ∀ k v v', (k, v) ∈ es → (k, v') ∈ es' →
      ((∃ w, Keyed.find? fs k = some w ∧ v.same w = true) ↔
        ∃ w', Keyed.find? fs' k = some w' ∧ v'.same w' = true) := by
    intro k v v' hv hv'
    have hvv' := hvalues k
    rw [Keyed.find?_of_mem hv hdistinct,
      Keyed.find?_of_mem hv' (Keyed.Distinct.of_perm hdistinct hkeys)] at hvv'
    have hww' := hfound k
    generalize Keyed.find? fs k = found, Keyed.find? fs' k = found' at hww'
    cases hvv' with
    | some hvv' =>
      cases hww' with
      | none => simp
      | some hww' => simp [hsame k v hv hvv' hww']
  rw [Bool.eq_iff_iff, sameEntries_iff, sameEntries_iff]
  constructor
  · intro h k v' hv'
    obtain ⟨v, hv⟩ := Keyed.mem_keys.1 (hkeys.mem_iff.2 (Keyed.mem_keys_of_mem hv'))
    exact (hentry k v v' hv hv').1 (h k v hv)
  · intro h k v hv
    obtain ⟨v', hv'⟩ := Keyed.mem_keys.1 (hkeys.mem_iff.1 (Keyed.mem_keys_of_mem hv))
    exact (hentry k v v' hv hv').2 (h k v' hv')

/-- **The order of keys never shows in an equality.** -/
theorem same {v v' w w' : Value} (hv : Reordered v v') (hw : Reordered w w') :
    v.same w = v'.same w' := by
  have hcompares : Compares v := by
    clear hv hw
    induction v using induction with
    | scalar s =>
      rintro v' w w' ⟨hv, -⟩ hw
      cases hv
      have hopened := hw.opened.alike
      rw [Value.same, Value.same]
      generalize w.opened = x, w'.opened = y at hopened
      cases hopened <;> rfl
    | set ms =>
      rintro v' w w' ⟨hv, -⟩ hw
      cases hv
      have hopened := hw.opened.alike
      rw [Value.same, Value.same]
      generalize w.opened = x, w'.opened = y at hopened
      cases hopened <;> rfl
    | list vs ih =>
      intro v' w w' hv hw
      have hopened := hw.opened
      cases hv.alike with
      | list =>
        rw [Value.same, Value.same]
        generalize w.opened = x, w'.opened = y at hopened
        cases hopened.alike with
        | list => exact sameItems ih (reordered_list.1 hv) (reordered_list.1 hopened)
        | _ => rfl
    | map es ih _ =>
      intro v' w w' hv hw
      have hopened := hw.opened
      cases hv.alike with
      | map =>
        rw [Value.same, Value.same]
        generalize w.opened = x, w'.opened = y at hopened
        cases hopened.alike with
        | map =>
          show (_ && _) = (_ && _)
          rw [sameEntries (fun k v hv => ih k v hv) hv hopened,
            Keyed.length_eq_of_keys_perm (reordered_map.1 hv).2.1,
            Keyed.length_eq_of_keys_perm (reordered_map.1 hopened).2.1]
        | _ => rfl
    | pair a b iha ihb =>
      intro v' w w' hv hw
      have hopened := hw.opened
      obtain ⟨hv, hwellFormed⟩ := hv
      cases hv with
      | @pair _ _ a' b' ha hb =>
        rw [Value.same, Value.same]
        generalize w.opened = x, w'.opened = y at hopened
        obtain ⟨hxy, hx⟩ := hopened
        cases hxy with
        | pair hc hd =>
          show (_ && _) = (_ && _)
          rw [iha ⟨ha, hwellFormed.within (.first .self)⟩ ⟨hc, hx.within (.first .self)⟩,
            ihb ⟨hb, hwellFormed.within (.second .self)⟩ ⟨hd, hx.within (.second .self)⟩]
        | _ => rfl
    | part n body ih =>
      intro v' w w' hv hw
      obtain ⟨hv, hwellFormed⟩ := hv
      cases hv with
      | part hbody =>
        show (_ || _) = (_ || _)
        rw [hw.isPart, ih ⟨hbody, keysEverywhere_part.1 hwellFormed⟩ hw]
  exact hcompares hv hw

theorem isAmong {v w : Value} {vs ws : List Value} (h : Reordered v w)
    (hvs : List.Forall₂ Reordered vs ws) : v.isAmong vs = w.isAmong ws := by
  induction hvs with
  | nil => rfl
  | cons hhead _ ih =>
    show (_ || _) = (_ || _)
    rw [h.same hhead]
    exact congrArg _ ih

/-- What is added to a list without repetition is added in either order of keys. -/
theorem union {vs vs' ws ws' : List Value} (hvs : List.Forall₂ Reordered vs vs')
    (hws : List.Forall₂ Reordered ws ws') :
    List.Forall₂ Reordered (Value.union vs ws) (Value.union vs' ws') := by
  induction hws generalizing vs vs' with
  | nil => exact hvs
  | @cons w w' _ _ hw _ ih =>
    refine ih ?_
    rw [addNew, addNew, hw.isAmong hvs]
    split
    · exact hvs
    · exact List.rel_append hvs (.cons hw .nil)

/-! ## Mappings -/

section

variable {es fs : Keyed Value} (h : Reordered (.map es) (.map fs))

include h

theorem find? (q : Scalar) : Option.Rel Reordered (Keyed.find? es q) (Keyed.find? fs q) :=
  (reordered_map.1 h).2.2 q

theorem keys_perm : (Keyed.keys es).Perm (Keyed.keys fs) := (reordered_map.1 h).2.1

theorem distinct : Keyed.Distinct es := (reordered_map.1 h).1

theorem has (q : Scalar) : Keyed.has es q = Keyed.has fs q := by
  rw [Keyed.has_eq_any, Keyed.has_eq_any]
  exact h.keys_perm.any_eq

theorem put {v w : Value} (k : Scalar) (hvw : Reordered v w) :
    Reordered (.map (Keyed.put es k v)) (.map (Keyed.put fs k w)) := by
  refine reordered_map.2 ⟨Keyed.distinct_put h.distinct k v, ?_, fun q => ?_⟩
  · rw [Keyed.keys_put_eq_joined, Keyed.keys_put_eq_joined]
    exact Keyed.joined_perm h.keys_perm (.refl _)
  · rw [Keyed.find?_put, Keyed.find?_put]
    split
    · exact .some hvw
    · exact h.find? q

theorem without (k : Scalar) :
    Reordered (.map (Keyed.without es k)) (.map (Keyed.without fs k)) := by
  refine reordered_map.2 ⟨?_, ?_, fun q => ?_⟩
  · rw [Keyed.Distinct, Keyed.keys_without]
    exact List.Pairwise.sublist List.filter_sublist h.distinct
  · rw [Keyed.keys_without, Keyed.keys_without]
    exact h.keys_perm.filter _
  · rw [Keyed.find?_without, Keyed.find?_without]
    split
    · exact .none
    · exact h.find? q

theorem putAll {news news' : Keyed Value} (hnews : Reordered (.map news) (.map news')) :
    Reordered (.map (Keyed.putAll es news)) (.map (Keyed.putAll fs news')) := by
  refine reordered_map.2 ⟨Keyed.distinct_putAll h.distinct news, ?_, fun q => ?_⟩
  · rw [Keyed.keys_putAll hnews.distinct, Keyed.keys_putAll hnews.symm.distinct]
    exact Keyed.joined_perm h.keys_perm hnews.keys_perm
  · rw [Keyed.find?_putAll hnews.distinct, Keyed.find?_putAll hnews.symm.distinct]
    have hq := hnews.find? q
    generalize Keyed.find? news q = found, Keyed.find? news' q = found' at hq
    cases hq with
    | none => exact h.find? q
    | some hvw => exact .some hvw

/-- What is found under a key in one order is found in the other. -/
theorem find?_some {q : Scalar} {v : Value} (hv : Keyed.find? es q = some v) :
    ∃ w, Keyed.find? fs q = some w ∧ Reordered v w := by
  have hq := h.find? q
  rw [hv] at hq
  generalize Keyed.find? fs q = found at hq
  cases hq with
  | some hvw => exact ⟨_, rfl, hvw⟩

/-- **A mapping can be brought into the order of the other**, and then the two agree entry by entry. -/
theorem exists_pointwise :
    ∃ gs, es.Perm gs ∧ Keyed.Pointwise (fun _ => Reordered) gs fs := by
  obtain ⟨gs, hperm, hkeys⟩ := Keyed.exists_perm_of_keys h.keys_perm
  refine ⟨gs, hperm, Keyed.pointwise_of_keys_eq hkeys fun k v w hv hw => ?_⟩
  obtain ⟨w', hw', hvw⟩ := h.find?_some (Keyed.find?_of_mem (hperm.mem_iff.2 hv) h.distinct)
  rw [Keyed.find?_of_mem hw h.symm.distinct] at hw'
  rwa [Option.some.inj hw']

end

/-- Mappings are reordered if one can be brought into an order in which they agree entry by entry. -/
theorem of_perm {es gs fs : Keyed Value} (hdistinct : Keyed.Distinct es) (hperm : es.Perm gs)
    (h : Keyed.Pointwise (fun _ => Reordered) gs fs) : Reordered (.map es) (.map fs) := by
  refine reordered_map.2 ⟨hdistinct, ?_, fun q => ?_⟩
  · rw [← h.keys_eq]
    exact hperm.map _
  · rw [Keyed.find?_of_perm hperm hdistinct]
    rcases h.find? q with ⟨hgs, hfs⟩ | ⟨-, v, w, -, hv, hw, hvw⟩
    · rw [hgs, hfs]
      exact .none
    · rw [hv, hw]
      exact .some hvw

end Reordered

end Value

end ToolCatalog
