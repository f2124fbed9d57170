import Mathlib.Tactic.MkIffOfInductiveProp
import ToolCatalog.Proofs.Schema.Failure

/-!
# Well-shaped schemas fail with their references only

The merger relies on shapes that it does not check: it folds properties into properties, and it
compares required names, which a collection cannot be.  A value is well-shaped if each of its mappings
has what the merger relies on.  Shapes have to be followed through merging, as what is folded is not
what the document holds but what that was merged to: `Mergeable` is what merging establishes of the
entries of every merged schema, and folding and finishing neither fail on such entries nor lose it.

A list of required names may only hold names, but any other value may stand in its place, as the merger
leaves it alone; a reference may not, as its target may be a list.

* `merge_safe`: merging well-shaped schemas gives a schema, or fails with a fault of a reference that the
  document or the node spells.
-/

namespace ToolCatalog.Schema

/-- The entries of a mapping as the merger expects them: their keys are texts, there are properties
only in a mapping, and a list of required names holds scalars. -/
@[mk_iff]
structure FitEntries (es : Keyed Value) : Prop where
  keys : ∀ k ∈ Keyed.keys es, ∃ s, k = .text s
  properties : ∀ v, (.text "properties", v) ∈ es → ∃ ps, v.opened = .map ps
  required : ∀ v, (.text "required", v) ∈ es →
    (∃ names, v.opened = .list names ∧ ∀ name ∈ names, ∃ s, name.opened = .scalar s) ∨
      (∀ names, v.opened ≠ .list names) ∧ reference? v = none

/-- A value in which every mapping has the entries that the merger expects. -/
def WellShaped (v : Value) : Prop := ∀ es, Value.Within (.map es) v → FitEntries es

theorem WellShaped.within {v w : Value} (h : WellShaped v) (hw : Value.Within w v) : WellShaped w :=
  fun es hes => h es (hes.trans hw)

theorem wellShaped_scalar (s : Scalar) : WellShaped (.scalar s) := by
  intro es h
  cases h

theorem wellShaped_list {vs : List Value} : WellShaped (.list vs) ↔ ∀ v ∈ vs, WellShaped v := by
  constructor
  · exact fun h v hv => h.within (.item hv .self)
  · intro h es hes
    cases hes with
    | item hv hw => exact h _ hv es hw

theorem wellShaped_map {es : Keyed Value} :
    WellShaped (.map es) ↔ FitEntries es ∧ ∀ k v, (k, v) ∈ es → WellShaped v := by
  constructor
  · exact fun h => ⟨h es .self, fun k v hv => h.within (.entry hv .self)⟩
  · intro h fs hfs
    cases hfs with
    | self => exact h.1
    | entry hv hw => exact h.2 _ _ hv fs hw

/-! ## Entries that can be folded and finished -/

/-- The entries of a merged schema: its properties are a mapping, and if the required names are a list,
they are scalars. -/
structure Mergeable (es : Keyed Value) : Prop where
  properties : ∀ v, (.text "properties", v) ∈ es → ∃ ps, v = .map ps
  required : ∀ names, (.text "required", .list names) ∈ es → ∀ name ∈ names, ∃ s, name = .scalar s

namespace Mergeable

theorem nil : Mergeable [] := ⟨by simp, by simp⟩

theorem subset {es fs : Keyed Value} (h : Mergeable es) (hsub : ∀ e ∈ fs, e ∈ es) : Mergeable fs :=
  ⟨fun v hv => h.properties v (hsub _ hv), fun names hn => h.required names (hsub _ hn)⟩

theorem put {es : Keyed Value} (h : Mergeable es) {k : Scalar} {v : Value}
    (hproperties : k = .text "properties" → ∃ ps, v = .map ps)
    (hrequired : k = .text "required" → ∀ names, v = .list names →
      ∀ name ∈ names, ∃ s, name = .scalar s) : Mergeable (Keyed.put es k v) := by
  -- A key that is the same as a text is that text.
  have hkey : ∀ {s w}, (.text s, w) ∈ Keyed.put es k v → (.text s, w) ∈ es ∨ w = v ∧ k = .text s := by
    intro s w hw
    rcases Keyed.mem_put hw with hw | ⟨hwv, hsame, -⟩
    · exact Or.inl hw
    · rw [Scalar.same_comm] at hsame
      exact Or.inr ⟨hwv, (Scalar.same_text s k).1 hsame⟩
  constructor
  · intro w hw
    rcases hkey hw with hw | ⟨rfl, hk⟩
    · exact h.properties w hw
    · exact hproperties hk
  · intro names hnames
    rcases hkey hnames with hnames | ⟨hv, hk⟩
    · exact h.required names hnames
    · exact hrequired hk names hv.symm

theorem openProperties {es : Keyed Value} (h : Mergeable es) :
    ∃ existing, Schema.openProperties es = .ok existing := by
  unfold Schema.openProperties
  split
  · next ps _ => exact ⟨ps, rfl⟩
  · next v hnot hv =>
    obtain ⟨ps, rfl⟩ := h.properties v (Keyed.mem_of_find?_text hv)
    exact absurd rfl (hnot ps)
  · exact ⟨[], rfl⟩

theorem mem_openRequired {es : Keyed Value} (h : Mergeable es) :
    ∀ name ∈ openRequired es, ∃ s, name = .scalar s := by
  unfold openRequired
  split
  · next names hnames => exact h.required names (Keyed.mem_of_find?_text hnames)
  · simp

/-- One entry of a mergeable mapping can be folded into another, which stays mergeable. -/
theorem foldEntry {overrides : Bool} {into es : Keyed Value} (hinto : Mergeable into)
    (hes : Mergeable es) {k : Scalar} {v : Value} (hkv : (k, v) ∈ es) :
    ∃ r, Schema.foldEntry overrides into k v = .ok r ∧ Mergeable r := by
  unfold Schema.foldEntry
  split
  · next ps =>
    obtain ⟨existing, hexisting⟩ := hinto.openProperties
    rw [hexisting]
    exact ⟨_, rfl, hinto.put (fun _ => ⟨_, rfl⟩) (fun hk => absurd hk (by decide))⟩
  · next names =>
    refine ⟨_, rfl, hinto.put (fun hk => absurd hk (by decide)) fun _ united hunited name hname => ?_⟩
    obtain rfl := Value.list.inj hunited
    rcases Value.mem_union hname with hname | hname
    · exact hinto.mem_openRequired name hname
    · exact hes.required names hkv name hname
  · refine ⟨_, rfl, ?_⟩
    split
    · refine hinto.put (fun hk => ?_) (fun hk names hv => ?_)
      · exact hes.properties v (hk ▸ hkv)
      · exact hes.required names (hk ▸ hv ▸ hkv)
    · exact hinto

/-- **Mergeable mappings can be folded**, into one that is mergeable. -/
theorem fold {overrides : Bool} {into es : Keyed Value} (hinto : Mergeable into) (hes : Mergeable es) :
    ∃ r, Schema.fold overrides into es = .ok r ∧ Mergeable r := by
  induction es generalizing into with
  | nil => exact ⟨into, rfl, hinto⟩
  | cons e rest ih =>
    obtain ⟨k, v⟩ := e
    obtain ⟨next, hnext, hmergeable⟩ : ∃ next, Schema.foldEntry overrides into k v = .ok next ∧
        Mergeable next := hinto.foldEntry hes List.mem_cons_self
    obtain ⟨r, hr, hrmergeable⟩ := ih hmergeable (hes.subset fun _ => List.mem_cons_of_mem _)
    rw [Schema.fold, hnext]
    exact ⟨r, hr, hrmergeable⟩

end Mergeable

/-- Scalars can be put in order as required names. -/
theorem keepRequired_total (settings : Settings) (properties : Keyed Value) (dropped : List Scalar)
    {kept names : List Value} (h : ∀ name ∈ names, ∃ s, name = .scalar s) :
    ∃ ordered, keepRequired settings properties dropped kept names = .ok ordered := by
  induction names generalizing kept with
  | nil => exact ⟨kept, rfl⟩
  | cons name rest ih =>
    have hrest := fun {kept} => @ih kept fun n hn => h n (List.mem_cons_of_mem _ hn)
    obtain ⟨s, rfl⟩ := h name List.mem_cons_self
    unfold keepRequired
    split
    · exact hrest
    · simp only
      split <;> exact hrest

/-- **A mergeable mapping can be finished**, and stays mergeable. -/
theorem Mergeable.finish (settings : Settings) {p : Parts} (h : Mergeable p.entries) :
    ∃ r, Schema.finish settings p = .ok r ∧ Mergeable r.entries := by
  unfold Schema.finish
  simp only
  split
  · next names hnames =>
    have hscalars := h.required names (Keyed.mem_of_find?_text hnames)
    obtain ⟨kept, hkept⟩ : ∃ kept, keepRequired settings (propertiesOf p.entries)
        (p.dropped.filter fun name => !Keyed.has (propertiesOf p.entries) name) [] names = .ok kept :=
      keepRequired_total _ _ _ hscalars
    rw [hkept]
    refine ⟨_, rfl, ?_⟩
    simp only
    split
    · exact h.subset fun _ he => (Keyed.mem_without.1 he).1
    · refine h.put (fun hk => absurd hk (by decide)) fun _ ordered hordered name hname => ?_
      obtain rfl := Value.list.inj hordered
      exact hscalars name (mem_of_keepRequired hkept name hname)
  · exact ⟨_, rfl, h⟩

theorem Mergeable.withoutStrayRequired {es : Keyed Value} (h : Mergeable es) :
    Mergeable (withoutStrayRequired es) := by
  unfold Schema.withoutStrayRequired
  split
  · exact h
  · exact h
  · exact h.subset fun _ he => (Keyed.mem_without.1 he).1

/-! ## Steps that fail as allowed -/

/-- `Yields allowed p x`: the step `x` gives a value with the property `p`, or fails with a fault that is
allowed. -/
structure Yields {α : Type} (allowed : Fault → Prop) (p : α → Prop) (x : Outcome α) : Prop where
  value : ∀ a, x.result = .ok a → p a
  fault : ∀ e, x.result = .error e → allowed e

namespace Yields

variable {α β : Type} {allowed : Fault → Prop} {p : α → Prop} {q : β → Prop}

theorem of_result {x : Outcome α} {a : α} (hx : x.result = .ok a) (h : p a) : Yields allowed p x := by
  refine ⟨fun b hb => ?_, fun e he => ?_⟩
  · rw [hx] at hb
    exact Except.ok.inj hb ▸ h
  · rw [hx] at he
    cases he

theorem fail {e : Fault} (h : allowed e) : Yields allowed p (.fail e) := by
  refine ⟨fun a ha => ?_, fun e' he => ?_⟩
  · cases ha
  · exact Except.error.inj he ▸ h

/-- A sequence yields what its second step yields on the values of the first. -/
theorem bind {x : Outcome α} {f : α → Outcome β} (hx : Yields allowed p x)
    (hf : ∀ a, x.result = .ok a → p a → Yields allowed q (f a)) : Yields allowed q (x >>= f) := by
  refine ⟨fun b hb => ?_, fun e he => ?_⟩
  · obtain ⟨a, ha, hb⟩ := Outcome.result_bind_ok.1 hb
    exact (hf a ha (hx.value a ha)).value b hb
  · rcases Outcome.result_bind_error.1 he with he | ⟨a, ha, he⟩
    · exact hx.fault e he
    · exact (hf a ha (hx.value a ha)).fault e he

theorem mono {p' : α → Prop} {x : Outcome α} (h : Yields allowed p x) (himp : ∀ a, p a → p' a) :
    Yields allowed p' x :=
  ⟨fun a ha => himp a (h.value a ha), h.fault⟩

end Yields

section

variable {allowed : Fault → Prop} {settings : Settings}

theorem Mergeable.fold_yields {overrides : Bool} {into es : Keyed Value} (hinto : Mergeable into)
    (hes : Mergeable es) :
    Yields allowed Mergeable (liftM (Schema.fold overrides into es) : Outcome (Keyed Value)) := by
  obtain ⟨r, hr, hmergeable⟩ := hinto.fold hes
  exact .of_result hr hmergeable

theorem Mergeable.finish_yields {p : Parts} (h : Mergeable p.entries) :
    Yields allowed (fun r => Mergeable r.entries)
      (liftM (Schema.finish settings p) : Outcome Parts) := by
  obtain ⟨r, hr, hmergeable⟩ := h.finish settings
  exact .of_result hr hmergeable

variable {follow : String → Outcome Merged} {deprecated : Value → Except Fault Bool}

/-- Merging fails as allowed, and a schema merges to one that is mergeable. -/
def MergesSafely (allowed : Fault → Prop) (settings : Settings) (follow : String → Outcome Merged)
    (deprecated : Value → Except Fault Bool) (role : Role) (v : Value) : Prop :=
  Yields allowed (fun m => role = .schema → Mergeable m.entries)
    (mergeAs settings follow deprecated role v)

theorem mergeItems_yields {vs : List Value}
    (h : ∀ v ∈ vs, MergesSafely allowed settings follow deprecated .schema v) :
    Yields allowed (fun _ => True) (mergeItems settings follow deprecated vs) := by
  induction vs with
  | nil => exact .of_result rfl trivial
  | cons v rest ih =>
    rw [mergeItems_cons]
    refine (h v List.mem_cons_self).bind fun m _ _ => ?_
    refine (ih fun w hw => h w (List.mem_cons_of_mem _ hw)).bind fun ws _ _ => ?_
    exact .of_result rfl trivial

theorem mergeNamed_yields {es : Keyed Value}
    (h : ∀ k v, (k, v) ∈ es → MergesSafely allowed settings follow deprecated .schema v) :
    Yields allowed (fun _ => True) (mergeNamed settings follow deprecated es) := by
  induction es with
  | nil => exact .of_result rfl trivial
  | cons e rest ih =>
    obtain ⟨name, v⟩ := e
    rw [mergeNamed_cons]
    refine (h name v List.mem_cons_self).bind fun m _ _ => ?_
    refine (ih fun k w hw => h k w (List.mem_cons_of_mem _ hw)).bind fun ns _ _ => ?_
    exact .of_result rfl trivial

theorem mergeProperties_yields {es : Keyed Value}
    (hdeprecated : ∀ k v, (k, v) ∈ es → ∀ e, deprecated v = .error e → allowed e)
    (h : ∀ k v, (k, v) ∈ es → MergesSafely allowed settings follow deprecated .schema v) :
    Yields allowed (fun _ => True) (mergeProperties settings follow deprecated es) := by
  induction es with
  | nil => exact .of_result rfl trivial
  | cons e rest ih =>
    obtain ⟨name, v⟩ := e
    -- The rest of the properties is merged, whatever becomes of this one.
    have hrest : ∀ g : Parts → Parts, Yields allowed (fun _ => True)
        (mergeProperties settings follow deprecated rest >>= fun others => pure (g others)) :=
      fun g => (ih (fun k w hw => hdeprecated k w (List.mem_cons_of_mem _ hw))
        fun k w hw => h k w (List.mem_cons_of_mem _ hw)).bind fun others _ _ => .of_result rfl trivial
    have hreport : ∀ event, Yields allowed (fun _ => True) (Outcome.report event) :=
      fun event => .of_result rfl trivial
    rw [mergeProperties_cons]
    split
    · exact (hreport _).bind fun _ _ _ => hrest _
    · refine (h name v List.mem_cons_self).bind fun m _ _ => ?_
      have hasked : Yields allowed (fun _ => True) (liftM (deprecated v) : Outcome Bool) :=
        ⟨fun _ _ => trivial, hdeprecated name v List.mem_cons_self⟩
      refine hasked.bind fun leads _ _ => ?_
      split
      · exact (hreport _).bind fun _ _ _ => hrest _
      · exact hrest _

/-- In a list of scalars, scalars are merged to themselves. -/
theorem mergeAs_scalars {v : Value} {m : Merged} {names : List Value} (hv : v.opened = .list names)
    (hnames : ∀ name ∈ names, ∃ s, name.opened = .scalar s)
    (h : (mergeAs settings follow deprecated .schema v).result = .ok m) :
    ∃ ws, m.schema = .list ws ∧ ∀ w ∈ ws, ∃ s, w = .scalar s := by
  obtain ⟨ws, hws, rfl⟩ := mergeAs_list_ok hv h
  refine ⟨ws, rfl, fun w hw => ?_⟩
  obtain ⟨name, hname, m, hm, rfl⟩ := mergeItems_ok hws w hw
  obtain ⟨s, hs⟩ := hnames name hname
  rw [mergeAs_opened _ _ _ (by simp), hs, mergeAs_scalar] at hm
  obtain rfl := Except.ok.inj hm
  exact ⟨s, rfl⟩

/-- Only lists and references are merged to lists. -/
theorem mergeAs_ne_list {v : Value} {m : Merged} (hlist : ∀ vs, v.opened ≠ .list vs)
    (hreference : reference? v = none)
    (h : (mergeAs settings follow deprecated .schema v).result = .ok m) :
    ∀ ws, m.schema ≠ .list ws := by
  induction v using Value.induction with
  | scalar s =>
    rw [mergeAs_scalar] at h
    obtain rfl := Except.ok.inj h
    simp
  | list vs => exact absurd rfl (hlist vs)
  | map es _ _ =>
    rcases mergeAs_schema_ok h with ⟨-, rfl⟩ | ⟨-, ⟨ref, target, href, -⟩ | ⟨-, whole, -, rfl⟩⟩
    · simp
    · rw [hreference] at href
      cases href
    · simp [Parts.toMerged]
  | pair a b _ _ =>
    rw [mergeAs_pair] at h
    obtain rfl := Except.ok.inj h
    simp
  | set ms =>
    rw [mergeAs_set] at h
    obtain rfl := Except.ok.inj h
    simp
  | part n body ih =>
    rw [mergeAs_part _ _ _ (by simp)] at h
    exact ih hlist hreference h

/-- The own keywords of a mapping that fits are merged to entries that can be folded. -/
theorem mergeEntries_mergeable {skips : Scalar → Bool} {es : Keyed Value} {own : Parts}
    (hes : FitEntries es)
    (h : (mergeEntries settings follow deprecated skips es).result = .ok own) :
    Mergeable own.entries := by
  obtain ⟨-, hmem⟩ := mergeEntries_ok h
  constructor
  · intro w hw
    obtain ⟨keyword, v, m, hk, hv, -, -, hm, rfl⟩ := hmem _ w hw
    obtain rfl := Scalar.text.inj hk
    obtain ⟨ps, hps⟩ := hes.properties v hv
    obtain ⟨p, -, rfl⟩ := mergeAs_properties_ok hps hm
    exact ⟨p.entries, rfl⟩
  · intro names hnames
    obtain ⟨keyword, v, m, hk, hv, -, -, hm, heq⟩ := hmem _ _ hnames
    obtain rfl := Scalar.text.inj hk
    rw [roleOf_required] at hm
    rcases hes.required v hv with ⟨names', hnames', hscalars⟩ | ⟨hlist, hreference⟩
    · obtain ⟨ws, hws, hmerged⟩ := mergeAs_scalars hnames' hscalars hm
      obtain rfl := Value.list.inj (heq.trans hws)
      exact hmerged
    · exact absurd heq.symm (mergeAs_ne_list hlist hreference hm names)

theorem mergeEntries_yields {skips : Scalar → Bool} {es : Keyed Value}
    (hkeys : ∀ k ∈ Keyed.keys es, ∃ s, k = .text s)
    (h : ∀ k v, (k, v) ∈ es → ∀ role, MergesSafely allowed settings follow deprecated role v) :
    Yields allowed (fun _ => True) (mergeEntries settings follow deprecated skips es) := by
  induction es with
  | nil => exact .of_result rfl trivial
  | cons e rest ih =>
    obtain ⟨k, v⟩ := e
    have hrest := ih (fun k hk => hkeys k (List.mem_cons_of_mem _ hk))
      fun k w hw => h k w (List.mem_cons_of_mem _ hw)
    obtain ⟨keyword, rfl⟩ := hkeys k List.mem_cons_self
    rw [mergeEntries_cons]
    split
    · exact hrest
    · simp only
      split
      · exact hrest
      · refine (h _ v List.mem_cons_self (roleOf keyword)).bind fun m _ _ => ?_
        exact hrest.bind fun others _ _ => .of_result rfl trivial

/-- Branches that are merged to mergeable schemas can be folded in, one after another. -/
theorem mergeBranches_yields {bs : List Value} {into : Parts} (hinto : Mergeable into.entries)
    (h : ∀ b ∈ bs, MergesSafely allowed settings follow deprecated .schema b) :
    Yields allowed (fun p => Mergeable p.entries) (mergeBranches settings follow deprecated bs into) := by
  induction bs generalizing into with
  | nil => exact .of_result rfl hinto
  | cons b rest ih =>
    have hrest := fun {into} hinto => @ih into hinto fun b' hb' => h b' (List.mem_cons_of_mem _ hb')
    rw [mergeBranches_cons]
    refine (h b List.mem_cons_self).bind fun m _ hm => ?_
    split
    · next es hes =>
      have hmergeable : Mergeable es := by
        have := hm rfl
        rwa [Merged.entries, hes] at this
      exact (hinto.fold_yields hmergeable).bind fun entries _ hentries => hrest hentries
    · exact hrest hinto

/-- What a mapping that fits comes to by its own keywords can be folded. -/
theorem mergeBeside_yields {es : Keyed Value} (hes : FitEntries es)
    (hentries : ∀ k v, (k, v) ∈ es → ∀ role, MergesSafely allowed settings follow deprecated role v)
    (hbranches : ∀ b ∈ branchesOf es, MergesSafely allowed settings follow deprecated .schema b) :
    Yields allowed (fun p => Mergeable p.entries) (mergeBeside settings follow deprecated es) := by
  rw [mergeBeside]
  refine (mergeEntries_yields hes.keys hentries).bind fun own hown _ => ?_
  refine ((mergeEntries_mergeable hes hown).finish_yields).bind fun rest _ hrest => ?_
  split
  · rw [mergeBranchesIn_eq]
    have hwhole : Yields allowed (fun p => Mergeable p.entries) (mergeBranches settings follow deprecated
        (branchesOf es) ⟨withoutStrayRequired rest.entries, rest.dropped⟩) :=
      mergeBranches_yields hrest.withoutStrayRequired hbranches
    exact hwhole.bind fun whole _ hwhole => hwhole.finish_yields
  · exact .of_result rfl hrest

/-- Mergeable entries can be laid over a target that is mergeable. -/
theorem overlay_yields {es : Keyed Value} {target : Merged} {beside : Unit → Outcome Parts}
    (htarget : Mergeable target.entries)
    (hbeside : Yields allowed (fun p => Mergeable p.entries) (beside ())) :
    Yields allowed (fun m => Mergeable m.entries) (overlay settings es target beside) := by
  unfold overlay
  split
  · next base hbase =>
    rw [Merged.entries, hbase] at htarget
    split
    · refine hbeside.bind fun own _ hown => ?_
      refine (htarget.fold_yields hown).bind fun whole _ hwhole => ?_
      have hdone : Yields allowed (fun r => Mergeable r.entries)
          (liftM (finish settings ⟨whole, target.dropped ++ own.dropped⟩) : Outcome Parts) :=
        Mergeable.finish_yields (p := ⟨whole, _⟩) hwhole
      exact hdone.bind fun done _ hdone => .of_result rfl hdone
    · refine .of_result rfl ?_
      rwa [Merged.entries, hbase]
  · exact .of_result rfl htarget

/-- **A well-shaped node is merged safely**, with all that stands in it, if its references are resolved
safely. -/
theorem mergeAs_yields {u : Value} (hu : WellShaped u)
    (hfollow : ∀ ref ∈ references u, Yields allowed (fun m => Mergeable m.entries) (follow ref))
    (hdeprecated : ∀ w, Value.Within w u → ∀ e, deprecated w = .error e → allowed e)
    {v : Value} (hv : Value.Within v u) (role : Role) :
    MergesSafely allowed settings follow deprecated role v := by
  unfold MergesSafely
  induction v using node_induction generalizing role with
  | scalar s => exact .of_result rfl fun _ => .nil
  | pair a b _ _ => exact .of_result rfl fun _ => .nil
  | set ms => exact .of_result rfl fun _ => .nil
  | list vs ih =>
    by_cases hr : role = .literal
    · rw [hr, mergeAs_literal]
      exact .of_result rfl fun h => nomatch h
    · rw [mergeAs_list _ _ _ hr]
      have hitems := mergeItems_yields fun w hw => ih w hw (.trans (.item hw .self) hv) .schema
      exact hitems.bind fun ws _ _ => .of_result rfl fun _ => .nil
  | part n body ih =>
    by_cases hr : role = .literal
    · rw [hr, mergeAs_literal]
      exact .of_result rfl fun h => nomatch h
    · rw [mergeAs_part _ _ _ hr]
      exact ih (.trans (.part .self) hv) role
  | map es ih ihbranches =>
    have hentry : ∀ {k w}, (k, w) ∈ es → Value.Within w u := fun hw => .trans (.entry hw .self) hv
    cases role with
    | literal => exact .of_result rfl fun h => nomatch h
    | properties =>
      rw [mergeAs_properties]
      have hproperties := mergeProperties_yields (fun k w hw => hdeprecated w (hentry hw))
        fun k w hw => ih k w hw (hentry hw) .schema
      exact hproperties.bind fun ps _ _ => .of_result rfl fun h => nomatch h
    | names =>
      rw [mergeAs_names]
      have hnamed := mergeNamed_yields fun k w hw => ih k w hw (hentry hw) .schema
      exact hnamed.bind fun ns _ _ => .of_result rfl fun h => nomatch h
    | schema =>
      have hbeside := mergeBeside_yields (hu es hv) (fun k w hw => ih k w hw (hentry hw))
        fun b hb => ihbranches b hb ((within_of_mem_branchesOf hb).trans hv) .schema
      rw [mergeAs_schema]
      split
      · exact .of_result rfl fun _ => .nil
      · split
        · next ref href =>
          have hmem := references_within_subset hv (mem_references_of_reference? href)
          refine (hfollow ref hmem).bind fun target _ htarget => ?_
          exact (overlay_yields htarget hbeside).mono fun m hm _ => hm
        · exact hbeside.bind fun whole _ hwhole => .of_result rfl fun _ => hwhole

end

/-! ## Faults of references -/

/-- `IsFaultAmong refs e`: the fault says of one of the references that it is not local, that it leads
nowhere or that it is open already. -/
inductive IsFaultAmong (refs : List String) : Fault → Prop
  | unsupported {ref : String} : ref ∈ refs → IsFaultAmong refs (.unsupportedReference ref)
  | invalidPath {ref segment : String} :
    ref ∈ refs → IsFaultAmong refs (.invalidReferencePath ref segment)
  | circular {ref : String} : ref ∈ refs → IsFaultAmong refs (.circularReference ref)

theorem isFaultAmong_of_walk {document : Value} {refs : List String} {ref : String} {e : Fault}
    (href : ref ∈ refs) (h : Pointer.walk document ref = .error e) : IsFaultAmong refs e := by
  rcases walk_error_cases h with rfl | ⟨segment, rfl⟩
  · exact .unsupported href
  · exact .invalidPath href

section

variable {settings : Settings} {document node : Value} {spelled : List String}

/-- A node of a well-shaped document whose references are among those spelled fails with one of them. -/
theorem mergeNode_yields {follow : String → Outcome Merged} (hdocument : references document ⊆ spelled)
    (hfollow : ∀ ref ∈ spelled,
      Yields (IsFaultAmong spelled) (fun m => Mergeable m.entries) (follow ref))
    (hnode : WellShaped node) (hspelled : references node ⊆ spelled) :
    Yields (IsFaultAmong spelled) (fun m => Mergeable m.entries)
      (mergeNode settings follow (leadsToDeprecated document) node) := by
  have hdeprecated : ∀ w, Value.Within w node → ∀ e, leadsToDeprecated document w = .error e →
      IsFaultAmong spelled e := by
    intro w hw e he
    obtain ⟨ref, href, hwalk⟩ := walk_of_leadsToDeprecatedFrom_error he
    refine isFaultAmong_of_walk ?_ hwalk
    rcases List.mem_append.1 href with href | href
    · exact hdocument href
    · exact hspelled (references_within_subset hw href)
  have hmerge : MergesSafely (IsFaultAmong spelled) settings follow
      (leadsToDeprecated document) .schema node :=
    mergeAs_yields hnode (fun ref href => hfollow ref (hspelled href)) hdeprecated .self .schema
  exact hmerge.mono fun m hm => hm rfl

/-- **References into a well-shaped document** fail with faults of references. -/
theorem resolveFrom_yields (hshaped : WellShaped document) (hdocument : references document ⊆ spelled)
    (bound : Bound) (visited : List String) {ref : String} (href : ref ∈ spelled) :
    Yields (IsFaultAmong spelled) (fun m => Mergeable m.entries)
      (resolveFrom settings document bound visited ref) := by
  induction bound generalizing visited ref with
  | reached =>
    rw [resolveFrom_eq]
    split
    · exact .fail (.unsupported href)
    · split <;> exact .fail (.circular href)
  | further rest ih =>
    rw [resolveFrom_eq]
    split
    · exact .fail (.unsupported href)
    · split
      · exact .fail (.circular href)
      · have hwalk : Yields (IsFaultAmong spelled) (fun target => Value.Within target document)
            (liftM (Pointer.walk document ref) : Outcome Value) :=
          ⟨fun target htarget => Pointer.within_of_walk htarget,
            fun e he => isFaultAmong_of_walk href he⟩
        refine hwalk.bind fun target _ htarget => ?_
        exact mergeNode_yields hdocument (fun ref' href' => ih () (ref :: visited) href')
          (hshaped.within htarget) (List.Subset.trans (references_within_subset htarget) hdocument)

end

/-- **Well-shaped schemas fail with their references only**: merging gives a schema, or fails with a fault
of a reference that the document or the node spells. -/
theorem merge_safe (settings : Settings) {document node : Value} (visited : List String)
    (hdocument : WellShaped document) (hnode : WellShaped node) :
    (∃ r, (merge settings document visited node).result = .ok r) ∨
      ∃ e, (merge settings document visited node).result = .error e ∧
        IsFaultAmong (references document ++ references node) e := by
  have hspelled := List.subset_append_left (references document) (references node)
  have hmerge : Yields (IsFaultAmong (references document ++ references node)) (fun _ => True)
      (merge settings document visited node) := by
    rw [merge]
    refine (mergeNode_yields hspelled (fun ref href => resolveFrom_yields hdocument hspelled _ visited href)
      hnode (List.subset_append_right _ _)).bind fun m _ _ => ?_
    exact .of_result rfl trivial
  cases hresult : (merge settings document visited node).result with
  | ok r => exact Or.inl ⟨r, rfl⟩
  | error e => exact Or.inr ⟨e, rfl, hmerge.fault e hresult⟩

/-- A document with a schema that requires its property. -/
def petDocument : Value :=
  .record [("Pet", .record [("properties", .record [("id", .record [])]),
    ("required", .list [.text "id"])])]

/-- A composition with a flag in place of the required names, of which one part is not there. -/
def strayNode : Value :=
  .record [("allOf", .list [.record [("$ref", .text "#/Pet")], .record [("$ref", .text "#/Cat")]]),
    ("required", .bool true)]

/-- The composition fails, with the reference that leads nowhere. -/
theorem merge_safe_stray : ∃ e, (merge {} petDocument [] strayNode).result = .error e ∧
    IsFaultAmong (references petDocument ++ references strayNode) e := by
  have hshaped : WellShaped petDocument ∧ WellShaped strayNode := by
    simp [petDocument, strayNode, Value.record, wellShaped_map, wellShaped_list, wellShaped_scalar,
      fitEntries_iff, Keyed.keys, Value.opened, reference?, or_imp, forall_and]
  have hfails : (merge {} petDocument [] strayNode).result =
      .error (.invalidReferencePath "#/Cat" "Cat") := by rfl
  rcases merge_safe {} [] hshaped.1 hshaped.2 with ⟨r, hr⟩ | h
  · rw [hfails] at hr
    cases hr
  · exact h

end ToolCatalog.Schema
