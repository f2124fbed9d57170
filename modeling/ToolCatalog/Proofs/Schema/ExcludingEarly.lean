import ToolCatalog.Proofs.Schema.Hereditary
import ToolCatalog.Proofs.Schema.Pruned

/-!
# Excluding early is pruning late

Removed names are left out of properties while a schema is merged, and out of the required names each
time parts are put together.  The result is the same as if the names had been left in and were pruned
from the finished schema.  The proof runs both merges side by side: each step of the merge that
removes more refines the step of the other, with results that `Prunes` relates.

That a required list which loses its last name goes away is what the condition on required names is
for: something that is no list could then take its place.  `Evaluates` says which mappings a merge
looks at.

* `merge_prune`: merging with more removed names gives the pruned schema.
-/

namespace ToolCatalog.Schema

/-! ## What a merge looks at -/

/-- Resolving a reference gives a mapping. -/
def ResolvesToMap (settings : Settings) (document : Value) (visited : List String) (ref : String) :
    Prop :=
  ∃ bound m es, (resolveFrom settings document bound visited ref).result = .ok m ∧
    m.schema = .map es

/-- The own keywords of a mapping are merged: it is not deprecated, and if it is a reference, it has
keywords beside it and its target is a mapping. -/
def Unfolds (settings : Settings) (document : Value) (visited : List String) (es : Keyed Value) :
    Prop :=
  Settings.isDeprecated es = false ∧ ∀ ref, reference? (.map es) = some ref →
    hasSiblings es = true ∧ ResolvesToMap settings document visited ref

/-- **The mappings that a merge looks at**: `Evaluates … visited role v es` says that the own keywords
of the schema `es` are merged on the way, when `v` is merged in `role` while the references in
`visited` are open. -/
inductive Evaluates (settings : Settings) (document : Value) :
    List String → Role → Value → Keyed Value → Prop
  | self {visited : List String} {es : Keyed Value} :
    Unfolds settings document visited es → Evaluates settings document visited .schema (.map es) es
  | keyword {visited : List String} {es fs : Keyed Value} {keyword : String} {v : Value} :
    Unfolds settings document visited es → (.text keyword, v) ∈ es →
    isStructural es (.text keyword) = false → settings.isVendor keyword = false →
    Evaluates settings document visited (roleOf keyword) v fs →
    Evaluates settings document visited .schema (.map es) fs
  | branch {visited : List String} {es fs : Keyed Value} {b : Value} :
    Unfolds settings document visited es → isComposed es = true → b ∈ branchesOf es →
    Evaluates settings document visited .schema b fs →
    Evaluates settings document visited .schema (.map es) fs
  | target {visited : List String} {es fs : Keyed Value} {ref : String} {target : Value} :
    Settings.isDeprecated es = false → reference? (.map es) = some ref → ref ∉ visited →
    Pointer.walk document ref = .ok target →
    Evaluates settings document (ref :: visited) .schema target fs →
    Evaluates settings document visited .schema (.map es) fs
  | property {visited : List String} {es fs : Keyed Value} {name : Scalar} {v : Value} :
    (name, v) ∈ es → settings.excludes name v = false →
    Evaluates settings document visited .schema v fs →
    Evaluates settings document visited .properties (.map es) fs
  | named {visited : List String} {es fs : Keyed Value} {name : Scalar} {v : Value} :
    (name, v) ∈ es → Evaluates settings document visited .schema v fs →
    Evaluates settings document visited .names (.map es) fs
  | item {visited : List String} {role : Role} {vs : List Value} {v : Value} {fs : Keyed Value} :
    role ≠ .literal → v ∈ vs → Evaluates settings document visited .schema v fs →
    Evaluates settings document visited role (.list vs) fs
  | part {visited : List String} {role : Role} {n : Nat} {body : Unit → Value} {fs : Keyed Value} :
    role ≠ .literal → Evaluates settings document visited role (body ()) fs →
    Evaluates settings document visited role (.part n body) fs

/-- What a merge looks at stands in the node or in the document. -/
theorem Evaluates.within {settings : Settings} {document : Value} {visited : List String}
    {role : Role} {v : Value} {es : Keyed Value}
    (h : Evaluates settings document visited role v es) :
    Value.Within (.map es) v ∨ Value.Within (.map es) document := by
  induction h with
  | self _ => exact Or.inl .self
  | keyword _ hmem _ _ _ ih => exact ih.imp_left (.entry hmem)
  | branch _ _ hb _ ih =>
    exact ih.imp_left fun h => h.trans (within_of_mem_branchesOf hb)
  | target _ _ _ hwalk _ ih =>
    have hdocument := Pointer.within_of_walk hwalk
    exact Or.inr (ih.elim (fun h => h.trans hdocument) id)
  | property hmem _ _ ih => exact ih.imp_left (.entry hmem)
  | named hmem _ ih => exact ih.imp_left (.entry hmem)
  | item _ hmem _ ih => exact ih.imp_left (.item hmem)
  | part _ _ ih => exact ih.imp_left .part

/-- What a mapping has under `required`, if anything, is a list. -/
def ListsRequired (es : Keyed Value) : Prop :=
  ∀ v, (requiredKey, v) ∈ es → ∃ names, v.opened = .list names

/-- Settings that remove more names than others and are the same otherwise for schemas. -/
structure RemovesMore (settings settings' : Settings) : Prop where
  vendorMark : settings'.vendorMark = settings.vendorMark
  removed : ∀ k, settings'.isRemoved k = false → settings.isRemoved k = false

/-- The two sides of a merge in a role. -/
def Agree (settings : Settings) (role : Role) (m m' : Merged) : Prop :=
  Prunes settings role m.schema m'.schema ∧ SameDropped settings m.dropped m'.dropped

/-- The two sides of a merge of a mapping. -/
def AgreeAsParts (settings : Settings) (p p' : Parts) : Prop :=
  Agree settings .schema p.toMerged p'.toMerged

section

variable {settings settings' : Settings} {follow follow' : String → Outcome Merged}
  {deprecated : Value → Except Fault Bool}

theorem sameDropped_nil : SameDropped settings [] [] := fun _ _ => rfl

/-! ## Step by step -/

theorem mergeItems_refines {vs : List Value}
    (h : ∀ v ∈ vs, (mergeAs settings follow deprecated .schema v).Refines (Agree settings' .schema)
      (mergeAs settings' follow' deprecated .schema v)) :
    (mergeItems settings follow deprecated vs).Refines (PrunesItems settings')
      (mergeItems settings' follow' deprecated vs) := by
  induction vs with
  | nil =>
    rw [mergeItems_nil, mergeItems_nil]
    exact .pure .nil
  | cons v rest ih =>
    rw [mergeItems_cons, mergeItems_cons]
    have ih := ih fun w hw => h w (List.mem_cons_of_mem _ hw)
    refine (h v List.mem_cons_self).bind fun m m' _ hm => ?_
    refine ih.bind fun ws ws' _ hws => ?_
    exact .pure (.cons hm.1 hws)

theorem mergeNamed_refines {es : Keyed Value}
    (h : ∀ k v, (k, v) ∈ es →
      (mergeAs settings follow deprecated .schema v).Refines (Agree settings' .schema)
        (mergeAs settings' follow' deprecated .schema v)) :
    (mergeNamed settings follow deprecated es).Refines (PrunesRows settings' .names)
      (mergeNamed settings' follow' deprecated es) := by
  induction es with
  | nil =>
    rw [mergeNamed_nil, mergeNamed_nil]
    exact .pure .nil
  | cons e rest ih =>
    obtain ⟨name, v⟩ := e
    rw [mergeNamed_cons, mergeNamed_cons]
    have ih := ih fun k w hw => h k w (List.mem_cons_of_mem _ hw)
    refine (h name v List.mem_cons_self).bind fun m m' _ hm => ?_
    refine ih.bind fun ns ns' _ hns => ?_
    exact .pure (.cons hm.1 hns)

theorem SameDropped.cons {d d' : List Scalar} (h : SameDropped settings d d') (name : Scalar) :
    SameDropped settings (name :: d) (name :: d') := by
  intro k hk
  rw [List.any_cons, List.any_cons, h k hk]

/-- A removed name may be dropped on one side only. -/
theorem SameDropped.cons_removed {d d' : List Scalar} (h : SameDropped settings d d') {name : Scalar}
    (hname : settings.isRemoved name = true) : SameDropped settings d (name :: d') := by
  intro k hk
  have hne : k.same name = false := by
    rw [Bool.eq_false_iff]
    intro hs
    rw [isRemoved_congr hs, hname] at hk
    cases hk
  rw [List.any_cons, hne, Bool.false_or, h k hk]

/-- A property that is excluded by fewer settings is excluded by more. -/
theorem RemovesMore.excludes (hmore : RemovesMore settings settings') (name : Scalar) (v : Value) :
    settings'.excludes name v = (settings'.isRemoved name || settings.excludes name v) := by
  unfold Settings.excludes
  cases h : settings'.isRemoved name with
  | true => rfl
  | false =>
    rw [hmore.removed name h]
    simp only [Bool.false_or]

/-- The two sides of a merge of properties. -/
def AgreeAsProperties (settings : Settings) (p p' : Parts) : Prop :=
  PrunesRows settings .properties (p.entries.filter fun e => !settings.isRemoved e.1) p'.entries ∧
    SameDropped settings p.dropped p'.dropped

/-- A removed property is left out on the one side, whatever the other does with it. -/
theorem mergeProperties_refines_removed {name : Scalar} {v : Value} {rest : Keyed Value}
    (ih : (mergeProperties settings follow deprecated rest).Refines (AgreeAsProperties settings')
      (mergeProperties settings' follow' deprecated rest))
    (hremoved : settings'.isRemoved name = true) :
    (mergeProperties settings follow deprecated ((name, v) :: rest)).Refines
      (AgreeAsProperties settings')
      (mergeProperties settings' follow' deprecated ((name, v) :: rest)) := by
  intro p hp
  obtain ⟨q, hq, hp⟩ := mergeProperties_cons_ok hp
  obtain ⟨q', hq', hrows, hsame⟩ := ih q hq
  have hleft : (mergeProperties settings' follow' deprecated ((name, v) :: rest)).result =
      .ok ⟨q'.entries, name :: q'.dropped⟩ := by
    rw [mergeProperties_cons, if_pos (by rw [Settings.excludes, hremoved, Bool.true_or])]
    exact Outcome.result_bind_ok.2 ⟨(), rfl, Outcome.result_bind_ok.2 ⟨q', hq', rfl⟩⟩
  refine ⟨_, hleft, ?_⟩
  rcases hp with rfl | ⟨-, m, -, rfl⟩
  · exact ⟨hrows, hsame.cons name⟩
  · refine ⟨?_, hsame.cons_removed hremoved⟩
    rw [List.filter_cons_of_neg (by simp [hremoved])]
    exact hrows

theorem mergeProperties_refines (hmore : RemovesMore settings settings') {es : Keyed Value}
    (h : ∀ k v, (k, v) ∈ es → settings.excludes k v = false →
      (mergeAs settings follow deprecated .schema v).Refines (Agree settings' .schema)
        (mergeAs settings' follow' deprecated .schema v)) :
    (mergeProperties settings follow deprecated es).Refines (AgreeAsProperties settings')
      (mergeProperties settings' follow' deprecated es) := by
  induction es with
  | nil =>
    rw [mergeProperties_nil, mergeProperties_nil]
    exact .pure ⟨.nil, sameDropped_nil⟩
  | cons e rest ih =>
    obtain ⟨name, v⟩ := e
    have ih := ih fun k w hw => h k w (List.mem_cons_of_mem _ hw)
    cases hremoved : settings'.isRemoved name with
    | true => exact mergeProperties_refines_removed ih hremoved
    | false =>
      -- Both sides do the same with the property.
      have hdrop : ∀ event, (Outcome.report event >>= fun _ => do
            let others ← mergeProperties settings follow deprecated rest
            return ⟨others.entries, name :: others.dropped⟩).Refines (AgreeAsProperties settings')
          (Outcome.report event >>= fun _ => do
            let others ← mergeProperties settings' follow' deprecated rest
            return ⟨others.entries, name :: others.dropped⟩) := by
        intro event
        refine (Outcome.Refines.report event event).bind fun _ _ _ _ => ?_
        refine ih.bind fun q q' _ hq => ?_
        exact .pure ⟨hq.1, hq.2.cons name⟩
      rw [mergeProperties_cons, mergeProperties_cons, hmore.excludes, hremoved, Bool.false_or]
      split
      · exact hdrop _
      · next hex =>
        refine (h name v List.mem_cons_self (by simpa using hex)).bind fun m m' _ hm => ?_
        refine (Outcome.Refines.refl _).bind ?_
        rintro gone _ - rfl
        split
        · exact hdrop _
        · refine ih.bind fun q q' _ hq => .pure ⟨?_, hq.2⟩
          rw [List.filter_cons_of_pos (by simp [hremoved])]
          exact .cons hm.1 hq.1

theorem mergeEntries_refines (hmore : RemovesMore settings settings') {skips : Scalar → Bool}
    {es : Keyed Value}
    (h : ∀ keyword v, (.text keyword, v) ∈ es → skips (.text keyword) = false →
      settings.isVendor keyword = false →
      (mergeAs settings follow deprecated (roleOf keyword) v).Refines
        (Agree settings' (roleOf keyword))
        (mergeAs settings' follow' deprecated (roleOf keyword) v)) :
    (mergeEntries settings follow deprecated skips es).Refines
      (fun p p' => PrunesRows settings' .schema p.entries p'.entries ∧
        SameDropped settings' p.dropped p'.dropped)
      (mergeEntries settings' follow' deprecated skips es) := by
  induction es with
  | nil =>
    rw [mergeEntries_nil, mergeEntries_nil]
    exact .pure ⟨.nil, sameDropped_nil⟩
  | cons e rest ih =>
    obtain ⟨k, v⟩ := e
    have ih := ih fun keyword w hw => h keyword w (List.mem_cons_of_mem _ hw)
    rw [mergeEntries_cons, mergeEntries_cons]
    cases hskip : skips k with
    | true =>
      simp only [if_true]
      exact ih
    | false =>
      simp only [Bool.false_eq_true, if_false]
      split
      · next keyword =>
        have hvendor : settings'.isVendor keyword = settings.isVendor keyword := by
          unfold Settings.isVendor
          rw [hmore.vendorMark]
        rw [hvendor]
        cases hv : settings.isVendor keyword with
        | true =>
          simp only [if_true]
          exact ih
        | false =>
          simp only [Bool.false_eq_true, if_false]
          refine (h keyword v List.mem_cons_self hskip hv).bind fun m m' _ hm => ?_
          refine ih.bind fun q q' _ hq => .pure ⟨.cons hm.1 hq.1, ?_⟩
          refine SameDropped.append ?_ hq.2
          split
          · exact hm.2
          · exact sameDropped_nil
      · intro _ hfail
        cases hfail
      · intro _ hfail
        cases hfail

/-! ## The own keywords of a mapping -/

/-- The required names that a mapping has by itself are a list, if what it has there is one. -/
theorem mergeEntries_listed {skips : Scalar → Bool} {es : Keyed Value} {p : Parts}
    (hes : ListsRequired es)
    (h : (mergeEntries settings follow deprecated skips es).result = .ok p) : Listed p.entries := by
  intro w hw
  obtain ⟨-, hmem⟩ := mergeEntries_ok h
  obtain ⟨keyword, v, m, hk, hv, -, -, hm, rfl⟩ := hmem _ _ (Keyed.mem_of_find?_text hw)
  obtain rfl := Scalar.text.inj hk
  obtain ⟨names, hnames⟩ := hes v hv
  rw [roleOf_required] at hm
  obtain ⟨ws, -, rfl⟩ := mergeAs_list_ok hnames hm
  exact ⟨ws, rfl⟩

/-! ## Putting parts together -/

theorem finish_refines (hmore : RemovesMore settings settings') {p q : Parts}
    (h : Draft settings' p q) :
    (liftM (finish settings p) : Outcome Parts).Refines (AgreeAsParts settings')
      (liftM (finish settings' q)) := by
  intro r hr
  obtain ⟨r', hr', hprunes, hdropped⟩ := h.finish hmore.removed hr
  exact ⟨r', hr', hprunes, hdropped⟩

/-- The two sides of a merge as a schema, and that both are as a document can be. -/
def AgreeWell (settings : Settings) (m m' : Merged) : Prop :=
  Agree settings .schema m m' ∧ m.schema.WellFormed ∧ m'.schema.WellFormed

theorem fold_refines {overrides : Bool} {p q : Parts} (h : Draft settings' p q) {m m' : Merged}
    (hm : AgreeWell settings' m m') {es fs : Keyed Value} (hes : m.schema = .map es)
    (hfs : m'.schema = .map fs) :
    (liftM (fold overrides p.entries es) : Outcome (Keyed Value)).Refines
      (fun r r' => Draft settings' ⟨r, p.dropped ++ m.dropped⟩ ⟨r', q.dropped ++ m'.dropped⟩)
      (liftM (fold overrides q.entries fs)) := by
  obtain ⟨⟨hprunes, hdropped⟩, hwell, hwell'⟩ := hm
  rw [hes] at hprunes hwell
  rw [hfs] at hprunes hwell'
  intro r hr
  exact h.fold hprunes hdropped (Value.keysEverywhere_map.1 hwell).1
    (Value.keysEverywhere_map.1 hwell').1 hr

theorem mergeBranches_refines {bs : List Value}
    (h : ∀ b ∈ bs, (mergeAs settings follow deprecated .schema b).Refines (AgreeWell settings')
      (mergeAs settings' follow' deprecated .schema b))
    {into into' : Parts} (hinto : Draft settings' into into') :
    (mergeBranches settings follow deprecated bs into).Refines (Draft settings')
      (mergeBranches settings' follow' deprecated bs into') := by
  induction bs generalizing into into' with
  | nil =>
    rw [mergeBranches_nil, mergeBranches_nil]
    exact .pure hinto
  | cons b rest ih =>
    have ih := fun {p q} => @ih (fun c hc => h c (List.mem_cons_of_mem _ hc)) p q
    rw [mergeBranches_cons, mergeBranches_cons]
    refine (h b List.mem_cons_self).bind fun m m' _ hm => ?_
    by_cases hmap : ∃ es, m.schema = .map es
    · obtain ⟨es, hes⟩ := hmap
      obtain ⟨fs, hfs⟩ : ∃ fs, m'.schema = .map fs := by
        have hprunes := hm.1.1
        rw [hes] at hprunes
        exact hprunes.exists_map
      rw [hes, hfs]
      exact (fold_refines hinto hm hes hfs).bind fun r r' _ hr => ih hr
    · have hnext : Draft settings' ⟨into.entries, into.dropped ++ m.dropped⟩
          ⟨into'.entries, into'.dropped ++ m'.dropped⟩ :=
        { hinto with dropped := hinto.dropped.append hm.1.2 }
      split
      · next es hes => exact absurd ⟨es, hes⟩ hmap
      · split
        · next fs hfs =>
          have hprunes := hm.1.1
          rw [hfs] at hprunes
          exact absurd hprunes.map_of_map hmap
        · exact ih hnext

theorem mergeBeside_refines (hmore : RemovesMore settings settings') {es : Keyed Value}
    (hlists : ListsRequired es)
    (hes : ∀ keyword v, (.text keyword, v) ∈ es → isStructural es (.text keyword) = false →
      settings.isVendor keyword = false →
      (mergeAs settings follow deprecated (roleOf keyword) v).Refines
        (Agree settings' (roleOf keyword))
        (mergeAs settings' follow' deprecated (roleOf keyword) v))
    (hbs : isComposed es = true → ∀ b ∈ branchesOf es,
      (mergeAs settings follow deprecated .schema b).Refines (AgreeWell settings')
        (mergeAs settings' follow' deprecated .schema b)) :
    (mergeBeside settings follow deprecated es).Refines (AgreeAsParts settings')
      (mergeBeside settings' follow' deprecated es) := by
  rw [mergeBeside, mergeBeside]
  refine (mergeEntries_refines hmore hes).bind fun own own' hown h => ?_
  rw [compose, compose]
  have hrest : (liftM (finish settings own) : Outcome Parts).Refines (AgreeAsParts settings')
      (liftM (finish settings' own')) := by
    -- That the own keywords can be finished makes their required names the same on both sides.
    intro r hr
    exact finish_refines hmore (h.1.draft h.2 (mergeEntries_listed hlists hown) hr) r hr
  refine hrest.bind fun rest rest' _ hrest => ?_
  have hdraft : Draft settings' rest rest' := hrest.1.draft hrest.2
  split
  · next hcomposed =>
    rw [withoutStrayRequired_of_listed hdraft.listed, withoutStrayRequired_of_listed hdraft.listed',
      mergeBranchesIn_eq, mergeBranchesIn_eq]
    refine (mergeBranches_refines (hbs hcomposed) hdraft).bind fun whole whole' _ hwhole => ?_
    exact finish_refines hmore hwhole
  · exact .pure hrest

/-- The two sides of a mapping's own keywords, and that both are as a document can be. -/
def AgreeWellAsParts (settings : Settings) (p p' : Parts) : Prop :=
  AgreeWell settings p.toMerged p'.toMerged

theorem overlay_refines (hmore : RemovesMore settings settings') {es : Keyed Value}
    {target target' : Merged} {beside beside' : Unit → Outcome Parts}
    (htarget : Agree settings' .schema target target')
    (hbeside : (∃ base, target.schema = .map base) → hasSiblings es = true →
      (beside ()).Refines (AgreeWellAsParts settings') (beside' ())) :
    (overlay settings es target beside).Refines (Agree settings' .schema)
      (overlay settings' es target' beside') := by
  obtain ⟨hprunes, hdropped⟩ := htarget
  unfold overlay
  by_cases hmap : ∃ base, target.schema = .map base
  · obtain ⟨base, hbase⟩ := hmap
    obtain ⟨base', hbase'⟩ : ∃ base', target'.schema = .map base' := by
      rw [hbase] at hprunes
      exact hprunes.exists_map
    have hpair : Agree settings' .schema target target' := ⟨hprunes, hdropped⟩
    rw [hbase, hbase'] at hprunes
    rw [hbase, hbase']
    simp only
    split
    · next hsiblings =>
      refine (hbeside ⟨base, hbase⟩ hsiblings).bind fun own own' _ hown => ?_
      refine (fold_refines (hprunes.draft hdropped) hown rfl rfl).bind fun whole whole' _ hw => ?_
      exact (finish_refines hmore hw).bind fun done done' _ hdone => .pure hdone
    · exact .pure hpair
  · split
    · next base hbase => exact absurd ⟨base, hbase⟩ hmap
    · split
      · next base' hbase' =>
        rw [hbase'] at hprunes
        exact absurd hprunes.map_of_map hmap
      · exact .pure ⟨hprunes, hdropped⟩

end

section

variable {settings settings' : Settings} {document : Value}

/-! ## Whole merges -/

theorem Prunes.map_nil : Prunes settings .schema (.map []) (.map []) := by
  refine .schema .nil ?_ ?_ rfl
  · intro v hv
    cases hv
  · intro v hv
    cases hv

/-- The own keywords of a mapping refine each other, if what stands under them and the branches do. -/
theorem mergeBeside_refines_well (hmore : RemovesMore settings settings')
    (hdocument : document.WellFormed) {bound : Bound} {visited : List String} {es : Keyed Value}
    (hes : (Value.map es).WellFormed) (hunfolds : Unfolds settings document visited es)
    (hlists : ∀ fs, Evaluates settings document visited .schema (.map es) fs → ListsRequired fs)
    (hkeywords : ∀ keyword v, (.text keyword, v) ∈ es →
      (∀ fs, Evaluates settings document visited (roleOf keyword) v fs → ListsRequired fs) →
      (mergeAs settings (resolveFrom settings document bound visited) (leadsToDeprecated document)
          (roleOf keyword) v).Refines (Agree settings' (roleOf keyword))
        (mergeAs settings' (resolveFrom settings' document bound visited)
          (leadsToDeprecated document) (roleOf keyword) v))
    (hbranches : ∀ b ∈ branchesOf es,
      (∀ fs, Evaluates settings document visited .schema b fs → ListsRequired fs) →
      (mergeAs settings (resolveFrom settings document bound visited) (leadsToDeprecated document)
          .schema b).Refines (Agree settings' .schema)
        (mergeAs settings' (resolveFrom settings' document bound visited)
          (leadsToDeprecated document) .schema b)) :
    (mergeBeside settings (resolveFrom settings document bound visited)
        (leadsToDeprecated document) es).Refines (AgreeWellAsParts settings')
      (mergeBeside settings' (resolveFrom settings' document bound visited)
        (leadsToDeprecated document) es) := by
  -- What references resolve to is as a document can be, on either side.
  have hfollow : ∀ (s : Settings) ref m, (resolveFrom s document bound visited ref).result = .ok m →
      m.schema.WellFormed := fun _ _ _ => hereditary_distinct.resolveFrom hdocument
  have hbranch : ∀ b ∈ branchesOf es, b.WellFormed :=
    fun b hb => hes.within (within_of_mem_branchesOf hb)
  have hown := mergeBeside_refines hmore (hlists es (.self hunfolds))
    (fun keyword v hv hskip hvendor => hkeywords keyword v hv fun fs hfs =>
      hlists fs (.keyword hunfolds hv hskip hvendor hfs))
    (fun hcomposed b hb => (hbranches b hb fun fs hfs =>
        hlists fs (.branch hunfolds hcomposed hb hfs)).and
      (fun _ hm => hereditary_distinct.mergeAs (hfollow settings) (hbranch b hb) hm)
      (fun _ hm => hereditary_distinct.mergeAs (hfollow settings') (hbranch b hb) hm))
  exact hown.and (fun _ hq => hereditary_distinct.mergeBeside_map (hfollow settings) hes hq)
    (fun _ hq => hereditary_distinct.mergeBeside_map (hfollow settings') hes hq)

/-- **Merging with more removed names refines merging**, if following references does. -/
theorem mergeAs_refines (hmore : RemovesMore settings settings') (hdocument : document.WellFormed)
    {bound : Bound} {visited : List String}
    (hfollow : ∀ ref, (ref ∉ visited → ∀ target es, Pointer.walk document ref = .ok target →
        Evaluates settings document (ref :: visited) .schema target es → ListsRequired es) →
      (resolveFrom settings document bound visited ref).Refines (Agree settings' .schema)
        (resolveFrom settings' document bound visited ref))
    {role : Role} {v : Value} (hv : v.WellFormed)
    (hlists : ∀ es, Evaluates settings document visited role v es → ListsRequired es) :
    (mergeAs settings (resolveFrom settings document bound visited) (leadsToDeprecated document)
        role v).Refines (Agree settings' role)
      (mergeAs settings' (resolveFrom settings' document bound visited) (leadsToDeprecated document)
        role v) := by
  induction v using node_induction generalizing role with
  | scalar s =>
    rw [mergeAs_scalar, mergeAs_scalar]
    exact .pure ⟨.scalar s, sameDropped_nil⟩
  | pair a b _ _ =>
    rw [mergeAs_pair, mergeAs_pair]
    exact .pure ⟨.pair a b, sameDropped_nil⟩
  | set ms =>
    rw [mergeAs_set, mergeAs_set]
    exact .pure ⟨.set ms, sameDropped_nil⟩
  | list vs ih =>
    by_cases hr : role = .literal
    · subst hr
      rw [mergeAs_literal, mergeAs_literal]
      exact .pure ⟨.literal _, sameDropped_nil⟩
    · rw [mergeAs_list _ _ _ hr, mergeAs_list _ _ _ hr]
      refine (mergeItems_refines fun v hmem => ?_).bind fun ws ws' _ hws =>
        .pure ⟨.list hr hws, sameDropped_nil⟩
      exact ih v hmem (Value.keysEverywhere_list.1 hv v hmem) fun es hes =>
        hlists es (.item hr hmem hes)
  | part n body ih =>
    by_cases hr : role = .literal
    · subst hr
      rw [mergeAs_literal, mergeAs_literal]
      exact .pure ⟨.literal _, sameDropped_nil⟩
    · rw [mergeAs_part _ _ _ hr, mergeAs_part _ _ _ hr]
      exact ih (Value.keysEverywhere_part.1 hv) fun es hes => hlists es (.part hr hes)
  | map es ih ihbranches =>
    obtain ⟨-, hentries⟩ := Value.keysEverywhere_map.1 hv
    cases role with
    | literal =>
      rw [mergeAs_literal, mergeAs_literal]
      exact .pure ⟨.literal _, sameDropped_nil⟩
    | properties =>
      rw [mergeAs_properties, mergeAs_properties]
      refine (mergeProperties_refines hmore fun k v hmem hkept => ?_).bind fun ps ps' _ hps =>
        .pure ⟨.properties hps.1, hps.2⟩
      exact ih k v hmem (hentries k v hmem) fun fs hfs => hlists fs (.property hmem hkept hfs)
    | names =>
      rw [mergeAs_names, mergeAs_names]
      refine (mergeNamed_refines fun k v hmem => ?_).bind fun ns ns' _ hns =>
        .pure ⟨.names hns, sameDropped_nil⟩
      exact ih k v hmem (hentries k v hmem) fun fs hfs => hlists fs (.named hmem hfs)
    | schema =>
      have hbeside := fun hunfolds => mergeBeside_refines_well hmore hdocument hv hunfolds hlists
        (fun keyword v hmem => ih _ v hmem (hentries _ v hmem))
        (fun b hb => ihbranches b hb (hv.within (within_of_mem_branchesOf hb)))
      rw [mergeAs_schema, mergeAs_schema]
      split
      · exact .pure ⟨.map_nil, sameDropped_nil⟩
      · next hdeprecated =>
        have hdeprecated : Settings.isDeprecated es = false := by simpa using hdeprecated
        split
        · next ref href =>
          refine (hfollow ref fun hnew target fs hwalk hfs =>
            hlists fs (.target hdeprecated href hnew hwalk hfs)).bind fun m m' hm hagree => ?_
          refine overlay_refines hmore hagree fun ⟨base, hbase⟩ hsiblings => ?_
          refine hbeside ⟨hdeprecated, fun ref' href' => ⟨hsiblings, ?_⟩⟩
          obtain rfl := Option.some.inj (href.symm.trans href')
          exact ⟨bound, m, base, hm, hbase⟩
        · next hnone =>
          refine (hbeside ⟨hdeprecated, fun ref href => ?_⟩).bind fun whole whole' _ hwhole =>
            .pure hwhole.1
          rw [hnone] at href
          cases href

/-- Following references with more removed names refines following them. -/
theorem resolveFrom_refines (hmore : RemovesMore settings settings')
    (hdocument : document.WellFormed) {bound : Bound} {visited : List String} {ref : String}
    (hlists : ref ∉ visited → ∀ target es, Pointer.walk document ref = .ok target →
      Evaluates settings document (ref :: visited) .schema target es → ListsRequired es) :
    (resolveFrom settings document bound visited ref).Refines (Agree settings' .schema)
      (resolveFrom settings' document bound visited ref) := by
  induction bound generalizing visited ref with
  | reached =>
    intro m hm
    obtain ⟨-, -, rest, -, hrest, -⟩ := result_resolveFrom_eq_ok.1 hm
    cases hrest
  | further rest ih =>
    intro m hm
    obtain ⟨hlocal, hnew, rest', target, hrest, hwalk, hm⟩ := result_resolveFrom_eq_ok.1 hm
    cases hrest
    obtain ⟨m', hm', hagree⟩ := mergeAs_refines hmore hdocument (fun _ h => ih () h)
      (hdocument.within (Pointer.within_of_walk hwalk)) (hlists hnew target · hwalk) m hm
    exact ⟨m', result_resolveFrom_eq_ok.2 ⟨hlocal, hnew, rest, target, rfl, hwalk, hm'⟩, hagree⟩

/-- **A merge with more removed names gives what is left of the merged schema.** -/
theorem merge_refines (hmore : RemovesMore settings settings') (hdocument : document.WellFormed)
    {visited : List String} {node : Value} (hnode : node.WellFormed)
    (hlists : ∀ es, Evaluates settings document visited .schema node es → ListsRequired es) :
    (merge settings document visited node).Refines (Prunes settings' .schema)
      (merge settings' document visited node) := by
  rw [merge, merge]
  have h : (mergeVisited settings document visited node).Refines (Agree settings' .schema)
      (mergeVisited settings' document visited node) :=
    mergeAs_refines hmore hdocument (fun _ h => resolveFrom_refines hmore hdocument h) hnode hlists
  exact h.bind fun m m' _ hm => .pure hm.1

end

/-- **Excluding early is pruning late.**  Let `more` hold at least the removed names of the settings,
and let every mapping that the merge of a node looks at have a list under `required`, if anything.  If
the merge gives a schema, then so does the merge with `more` removed, and what it gives is the first
schema pruned, up to the order of keys. -/
theorem merge_prune (settings : Settings) (more : List String) (hmore : settings.removed ⊆ more)
    (document node r : Value) (visited : List String) (hdocument : document.WellFormed)
    (hnode : node.WellFormed)
    (hlists : ∀ es, Evaluates settings document visited .schema node es → ListsRequired es)
    (h : (merge settings document visited node).result = .ok r) :
    ∃ r', (merge { settings with removed := more } document visited node).result = .ok r' ∧
      Value.Alike r' (prune { settings with removed := more } r) := by
  have hmore : RemovesMore settings { settings with removed := more } := by
    refine ⟨rfl, fun k hk => ?_⟩
    rw [Settings.isRemoved, List.any_eq_false] at hk ⊢
    exact fun name hname => hk name (hmore hname)
  obtain ⟨r', hr', hprunes⟩ := merge_refines hmore hdocument hnode hlists r h
  refine ⟨r', hr', hprunes.alike ?_ ?_⟩
  · exact hereditary_distinct.merge hdocument hnode h
  · exact hereditary_distinct.merge hdocument hnode hr'

/-- A document with a schema that has a token, which a node refers to and requires. -/
def sessionDocument : Value :=
  .record [("Session", .record [
    ("properties", .record [("id", .record []), ("token", .record [])]),
    ("required", .list [.text "id", .text "token"])])]

/-- A node that refers to the schema with the token and is composed of a further part. -/
def sessionNode : Value :=
  .record [("$ref", .text "#/Session"), ("required", .list [.text "token"]),
    ("allOf", .list [.record [("required", .list [.text "id"])]])]

/-- The schema that the node stands for. -/
def sessionSchema : Value :=
  .record [("properties", .record [("id", .record []), ("token", .record [])]),
    ("required", .list [.text "id", .text "token"])]

/-- A token that is removed while a reference is merged is pruned from the schema it stands for. -/
theorem merge_prune_reference :
    ∃ r', (merge { removed := ["token"] } sessionDocument [] sessionNode).result = .ok r' ∧
      Value.Alike r' (prune { removed := ["token"] } sessionSchema) := by
  have hlists : ∀ v ∈ [sessionDocument, sessionNode], ∀ es, Value.Within (.map es) v →
      ListsRequired es := by
    simp [sessionDocument, sessionNode, Value.record, Value.within_map, Value.within_list,
      Value.within_scalar, ListsRequired, Value.opened, or_imp, forall_and]
  have hwell : sessionDocument.WellFormed ∧ sessionNode.WellFormed := by
    simp [sessionDocument, sessionNode, Value.WellFormed, Value.keysEverywhere_record,
      Value.keysEverywhere_list, Value.keysEverywhere_scalar, Scalar.same]
  refine merge_prune {} ["token"] (by simp) sessionDocument sessionNode sessionSchema [] hwell.1
    hwell.2 (fun es hes => ?_) (by rfl)
  rcases hes.within with h | h
  · exact hlists _ (by simp) es h
  · exact hlists _ (by simp) es h

example : prune { removed := ["token"] } sessionSchema =
    .record [("properties", .record [("id", .record [])]), ("required", .list [.text "id"])] := by
  rfl

end ToolCatalog.Schema
