import ToolCatalog.Proofs.Schema.CycleGuard
import ToolCatalog.Proofs.Schema.Required
import ToolCatalog.Proofs.Value.Pointwise

/-!
# Schemas that differ in the schemas of their properties

Two schemas with the same properties in the same order may differ in the schemas of these.  Of a property
merging looks at its name and at whether it may be null, so as long as corresponding properties agree in
that, everything else comes out the same.  The schemas themselves may stand at the ends of references.

* `merge_propertywise`: merging two such nodes gives two such schemas.
-/

namespace ToolCatalog.Schema

/-! ## Schemas property by property -/

/-- The same stands under a keyword, or the keyword is `properties` and the schemas of the properties are
related. -/
def KeywordAlike (R : Value → Value → Prop) (k : Scalar) (v w : Value) : Prop :=
  v = w ∨ k = propertiesKey ∧ ∃ ps qs, v = .map ps ∧ w = .map qs ∧ Keyed.Pointwise (fun _ => R) ps qs

/-- **Schemas that differ in their properties**, which are related. -/
abbrev Propertywise (R : Value → Value → Prop) : Keyed Value → Keyed Value → Prop :=
  Keyed.Pointwise (KeywordAlike R)

/-- The same of schemas on their way, whose entries are related. -/
structure PartsAlike (rel : Keyed Value → Keyed Value → Prop) (p q : Parts) : Prop where
  entries : rel p.entries q.entries
  dropped : p.dropped = q.dropped

/-- The same value, or mappings that differ in their properties. -/
def ValuesAlike (R : Value → Value → Prop) (v w : Value) : Prop :=
  v = w ∨ ∃ es fs, v = .map es ∧ w = .map fs ∧ Propertywise R es fs

/-- The same of merged schemas. -/
structure MergedAlike (R : Value → Value → Prop) (m n : Merged) : Prop where
  schema : ValuesAlike R m.schema n.schema
  dropped : m.dropped = n.dropped

section

variable {R : Value → Value → Prop} {es fs : Keyed Value}

theorem KeywordAlike.refl (k : Scalar) (v : Value) : KeywordAlike R k v v := Or.inl rfl

theorem KeywordAlike.of_same {k q : Scalar} {v w : Value} (hk : k.same q = true)
    (h : KeywordAlike R k v w) : KeywordAlike R q v w := by
  rcases h with rfl | ⟨rfl, h⟩
  · exact Or.inl rfl
  · exact Or.inr ⟨(Scalar.same_text _ q).1 hk, h⟩

theorem Propertywise.refl (es : Keyed Value) : Propertywise R es es :=
  Keyed.Pointwise.refl KeywordAlike.refl es

/-- Under any other keyword stands the same. -/
theorem Propertywise.find?_eq (h : Propertywise R es fs) {keyword : String}
    (hkeyword : keyword ≠ "properties") :
    Keyed.find? es (.text keyword) = Keyed.find? fs (.text keyword) :=
  Keyed.Pointwise.find?_eq h fun _ _ hvw =>
    hvw.resolve_right fun hkey => hkeyword (Scalar.text.inj hkey.1)

/-- The properties are the same, or related mappings. -/
theorem Propertywise.find?_properties (h : Propertywise R es fs) :
    Keyed.find? es propertiesKey = Keyed.find? fs propertiesKey ∨
      ∃ ps qs, Keyed.find? es propertiesKey = some (.map ps) ∧
        Keyed.find? fs propertiesKey = some (.map qs) ∧ Keyed.Pointwise (fun _ => R) ps qs := by
  rcases h.find?_text "properties" with ⟨hes, hfs⟩ | ⟨v, w, hv, hw, rfl | ⟨-, ps, qs, rfl, rfl, hps⟩⟩
  · exact Or.inl (hes.trans hfs.symm)
  · exact Or.inl (hv.trans hw.symm)
  · exact Or.inr ⟨ps, qs, hv, hw, hps⟩

variable (hrefl : ∀ v, R v v)

include hrefl

theorem Propertywise.propertiesOf (h : Propertywise R es fs) :
    Keyed.Pointwise (fun _ => R) (propertiesOf es) (propertiesOf fs) := by
  rcases h.find?_properties with heq | ⟨ps, qs, hps, hqs, hpointwise⟩
  · rw [Schema.propertiesOf, Schema.propertiesOf, heq]
    exact .refl (fun _ => hrefl) _
  · rw [Schema.propertiesOf, Schema.propertiesOf, hps, hqs]
    exact hpointwise

theorem Propertywise.openProperties (h : Propertywise R es fs) :
    Outcome.Refines (Keyed.Pointwise fun _ => R) (liftM (openProperties es) : Outcome (Keyed Value))
      (liftM (openProperties fs)) := by
  rcases h.find?_properties with heq | ⟨ps, qs, hps, hqs, hpointwise⟩
  · rw [Schema.openProperties, Schema.openProperties, heq]
    exact fun ps hps => ⟨ps, hps, .refl (fun _ => hrefl) ps⟩
  · rw [Schema.openProperties, Schema.openProperties, hps, hqs]
    exact .pure hpointwise

/-! ## Folding and finishing -/

theorem foldEntry_propertywise {overrides : Bool} {into into' : Keyed Value} {k : Scalar}
    {v w : Value} (hinto : Propertywise R into into') (h : KeywordAlike R k v w) :
    Outcome.Refines (Propertywise R) (liftM (foldEntry overrides into k v) : Outcome (Keyed Value))
      (liftM (foldEntry overrides into' k w)) := by
  have hput : ∀ {v w}, KeywordAlike R k v w →
      Propertywise R (Keyed.put into k v) (Keyed.put into' k w) := fun h =>
    hinto.put fun q hq => h.of_same hq
  have hproperties : ∀ ps qs, k = propertiesKey → v = .map ps → w = .map qs →
      Keyed.Pointwise (fun _ => R) ps qs →
      Outcome.Refines (Propertywise R)
        (liftM (foldEntry overrides into k v) : Outcome (Keyed Value))
        (liftM (foldEntry overrides into' k w)) := by
    rintro ps qs rfl rfl rfl hps r hr
    obtain ⟨existing, hexisting, hr⟩ := bind_eq_ok.1 hr
    obtain rfl := Except.ok.inj hr
    obtain ⟨existing', hexisting', hsame⟩ := hinto.openProperties hrefl existing hexisting
    exact ⟨_, bind_eq_ok.2 ⟨existing', hexisting', rfl⟩,
      hput (Or.inr ⟨rfl, _, _, rfl, rfl, hsame.putAll (fun _ h => h) hps⟩)⟩
  rcases h with rfl | ⟨hk, ps, qs, hv, hw, hps⟩
  · intro r hr
    unfold foldEntry at hr
    rw [Outcome.result_liftM] at hr
    split at hr
    · next ps =>
      exact hproperties ps ps rfl rfl rfl (.refl (fun _ => hrefl) ps) r hr
    · next names =>
      obtain rfl := Except.ok.inj hr
      refine ⟨_, rfl, ?_⟩
      rw [openRequired, openRequired, hinto.find?_eq (by decide)]
      exact hput (.refl _ _)
    · next hnot hnot' =>
      obtain rfl := Except.ok.inj hr
      refine ⟨if overrides || !Keyed.has into' k then Keyed.put into' k v else into', ?_, ?_⟩
      · rw [Outcome.result_liftM]
        unfold foldEntry
        split
        · exact absurd rfl (hnot _ rfl)
        · exact absurd rfl (hnot' _ rfl)
        · rfl
      · rw [hinto.has]
        split
        · exact hput (.refl _ _)
        · exact hinto
  · exact hproperties ps qs hk hv hw hps

theorem fold_propertywise {overrides : Bool} {into into' : Keyed Value} (hinto : Propertywise R into into')
    (h : Propertywise R es fs) :
    Outcome.Refines (Propertywise R) (liftM (fold overrides into es) : Outcome (Keyed Value))
      (liftM (fold overrides into' fs)) := by
  induction h generalizing into into' with
  | nil => exact .pure hinto
  | cons k hvw _ ih =>
    intro r hr
    rw [Outcome.result_liftM, fold] at hr
    obtain ⟨next, hnext, hr⟩ := bind_eq_ok.1 hr
    obtain ⟨next', hnext', hsame⟩ := foldEntry_propertywise hrefl hinto hvw next hnext
    obtain ⟨r', hr', hrr'⟩ := ih hsame r hr
    exact ⟨r', bind_eq_ok.2 ⟨next', hnext', hr'⟩, hrr'⟩

omit hrefl in
theorem withoutStrayRequired_propertywise (h : Propertywise R es fs) :
    Propertywise R (withoutStrayRequired es) (withoutStrayRequired fs) := by
  unfold withoutStrayRequired
  rw [h.find?_eq (by decide)]
  split
  · exact h
  · exact h
  · exact h.without _

omit hrefl in
/-- Required names depend on which of them are waived. -/
theorem keepRequired_congr {settings : Settings} {properties properties' : Keyed Value}
    {dropped : List Scalar} (h : ∀ k, isWaived settings properties dropped k =
      isWaived settings properties' dropped k) (kept names : List Value) :
    keepRequired settings properties dropped kept names =
      keepRequired settings properties' dropped kept names := by
  induction names generalizing kept with
  | nil => rfl
  | cons name rest ih =>
    unfold keepRequired
    simp only [h, ih]

variable (hnullable : ∀ v w, R v w → isNullable v = isNullable w)

include hnullable

/-- **Finishing** looks at the properties only for their names and for whether they may be null. -/
theorem finish_propertywise {settings : Settings} {p q : Parts} (h : PartsAlike (Propertywise R) p q) :
    Outcome.Refines (PartsAlike (Propertywise R)) (liftM (finish settings p) : Outcome Parts)
      (liftM (finish settings q)) := by
  have hproperties := h.entries.propertiesOf hrefl
  have hmissing : (p.dropped.filter fun name => !Keyed.has (propertiesOf p.entries) name) =
      q.dropped.filter fun name => !Keyed.has (propertiesOf q.entries) name := by
    rw [h.dropped]
    exact List.filter_congr fun name _ => by rw [hproperties.has]
  have hwaived : ∀ dropped k, isWaived settings (propertiesOf p.entries) dropped k =
      isWaived settings (propertiesOf q.entries) dropped k := by
    intro dropped k
    unfold isWaived
    rcases hproperties.find? k with ⟨hp, hq⟩ | ⟨-, v, w, -, hv, hw, hvw⟩
    · rw [hp, hq]
    · rw [hv, hw, Option.any_some, Option.any_some, hnullable v w hvw]
  intro r hr
  rw [Outcome.result_liftM] at hr ⊢
  unfold finish at hr ⊢
  simp only [← hmissing, ← h.entries.find?_eq (show "required" ≠ "properties" by decide)] at hr ⊢
  split at hr
  · obtain ⟨kept, hkept, hr⟩ := bind_eq_ok.1 hr
    obtain rfl := Except.ok.inj hr
    refine ⟨_, bind_eq_ok.2 ⟨kept, ?_, rfl⟩, ?_, rfl⟩
    · rw [← hkept, keepRequired_congr (hwaived _)]
    · show Propertywise R (if kept.isEmpty then _ else _) (if kept.isEmpty then _ else _)
      split
      · exact h.entries.without _
      · exact h.entries.put fun q _ => .refl q _
  · obtain rfl := Except.ok.inj hr
    exact ⟨_, rfl, h.entries, rfl⟩

end

/-! ## Nodes that differ in their properties -/

/-- The same stands under a keyword, or the keyword is `properties` and the nodes of the properties are
related. -/
def KeywordDiffers (Q : Value → Value → Prop) (k : Scalar) (v w : Value) : Prop :=
  v = w ∨ k = propertiesKey ∧ ∃ ps qs, v.opened = .map ps ∧ w.opened = .map qs ∧
    Keyed.Pointwise (fun _ => Q) ps qs

/-- **Nodes that differ in their properties**: mappings that do, or references to such nodes with such
keywords beside them. -/
inductive Differ (Q : Value → Value → Prop) (document : Value) : Value → Value → Prop
  | here {v w : Value} {es fs : Keyed Value} :
    v.opened = .map es → w.opened = .map fs → Keyed.Pointwise (KeywordDiffers Q) es fs →
    Differ Q document v w
  | target {v w : Value} {es fs : Keyed Value} {ref ref' : String} {target target' : Value} :
    v.opened = .map es → w.opened = .map fs →
    reference? (.map es) = some ref → reference? (.map fs) = some ref' →
    Keyed.Pointwise (fun k v w => k = .text "$ref" ∨ KeywordDiffers Q k v w) es fs →
    Pointer.isLocal ref = true → Pointer.isLocal ref' = true →
    Pointer.walk document ref = .ok target → Pointer.walk document ref' = .ok target' →
    Differ Q document target target' → Differ Q document v w

theorem KeywordDiffers.symm {Q : Value → Value → Prop} (hQ : ∀ v w, Q v w → Q w v) {k : Scalar}
    {v w : Value} (h : KeywordDiffers Q k v w) : KeywordDiffers Q k w v := by
  rcases h with rfl | ⟨hk, ps, qs, hv, hw, hps⟩
  · exact Or.inl rfl
  · exact Or.inr ⟨hk, qs, ps, hw, hv, hps.symm fun _ => hQ⟩

theorem Differ.symm {Q : Value → Value → Prop} (hQ : ∀ v w, Q v w → Q w v) {document v w : Value}
    (h : Differ Q document v w) : Differ Q document w v := by
  induction h with
  | here hv hw hes => exact .here hw hv (hes.symm fun _ _ _ => .symm hQ)
  | target hv hw href href' hes hlocal hlocal' hwalk hwalk' _ ih =>
    exact .target hw hv href' href (hes.symm fun _ _ _ h => h.imp_right (.symm hQ)) hlocal' hlocal
      hwalk' hwalk ih

/-- A relation between nodes under which they are left out together and merged to related schemas. -/
structure MergesTo (settings : Settings) (follow : String → Outcome Merged)
    (deprecated : Value → Except Fault Bool) (Q R : Value → Value → Prop) : Prop where
  excludes : ∀ v w, Q v w → ∀ name, settings.excludes name v = settings.excludes name w
  goes : ∀ v w, Q v w → deprecated v = deprecated w
  merge : ∀ v w, Q v w → (mergeAs settings follow deprecated .schema v).Refines
    (fun m n => R m.schema n.schema) (mergeAs settings follow deprecated .schema w)

section

variable {settings : Settings} {follow : String → Outcome Merged}
  {deprecated : Value → Except Fault Bool} {Q R : Value → Value → Prop}

theorem mergeProperties_propertywise (hQ : MergesTo settings follow deprecated Q R) {ps qs : Keyed Value}
    (h : Keyed.Pointwise (fun _ => Q) ps qs) :
    (mergeProperties settings follow deprecated ps).Refines
      (PartsAlike (Keyed.Pointwise fun _ => R)) (mergeProperties settings follow deprecated qs) := by
  induction h with
  | nil => exact .pure ⟨.nil, rfl⟩
  | @cons name v w ps qs hvw _ ih =>
    -- Either side reports that the property is left out, and goes on.
    have hdrop : ∀ event, (Outcome.report event >>= fun _ => do
          let others ← mergeProperties settings follow deprecated ps
          return Parts.mk others.entries (name :: others.dropped)).Refines
        (PartsAlike (Keyed.Pointwise fun _ => R))
        (Outcome.report event >>= fun _ => do
          let others ← mergeProperties settings follow deprecated qs
          return Parts.mk others.entries (name :: others.dropped)) := fun event =>
      (Outcome.Refines.report event event).bind fun _ _ _ _ =>
        ih.bind fun q q' _ hq => .pure ⟨hq.entries, congrArg (name :: ·) hq.dropped⟩
    rw [mergeProperties_cons, mergeProperties_cons, hQ.excludes _ _ hvw name, hQ.goes _ _ hvw]
    split
    · exact hdrop _
    · refine (hQ.merge _ _ hvw).bind fun m n _ hmn => ?_
      refine (Outcome.Refines.refl _).bind ?_
      rintro gone _ - rfl
      split
      · exact hdrop _
      · exact ih.bind fun q q' _ hq => .pure ⟨.cons name hmn hq.entries, hq.dropped⟩

theorem mergeEntries_propertywise (hQ : MergesTo settings follow deprecated Q R)
    {skips : Scalar → Bool} {es fs : Keyed Value}
    (h : Keyed.Pointwise (fun k v w => skips k = true ∨ KeywordDiffers Q k v w) es fs) :
    (mergeEntries settings follow deprecated skips es).Refines (PartsAlike (Propertywise R))
      (mergeEntries settings follow deprecated skips fs) := by
  induction h with
  | nil => exact .pure ⟨.nil, rfl⟩
  | @cons k v w es fs hvw _ ih =>
    rw [mergeEntries_cons, mergeEntries_cons]
    split
    · exact ih
    · next hskips =>
      have hvw := hvw.resolve_left hskips
      split
      · next keyword _ =>
        split
        · exact ih
        · have hmerge : (mergeAs settings follow deprecated (roleOf keyword) v).Refines
              (fun m n => KeywordAlike R (.text keyword) m.schema n.schema ∧ m.dropped = n.dropped)
              (mergeAs settings follow deprecated (roleOf keyword) w) := by
            rcases hvw with rfl | ⟨hkey, ps, qs, hv, hw, hps⟩
            · exact fun m hm => ⟨m, hm, .refl _ _, rfl⟩
            · obtain rfl := Scalar.text.inj hkey
              have hrole : roleOf "properties" = .properties := by decide
              rw [hrole, mergeAs_opened _ _ _ (by decide) v, mergeAs_opened _ _ _ (by decide) w, hv, hw,
                mergeAs_properties, mergeAs_properties]
              exact (mergeProperties_propertywise hQ hps).bind fun p q _ hpq =>
                .pure ⟨Or.inr ⟨rfl, p.entries, q.entries, rfl, rfl, hpq.entries⟩, hpq.dropped⟩
          refine hmerge.bind fun m n _ hmn => ih.bind fun p q _ hpq => .pure ?_
          exact ⟨.cons _ hmn.1 hpq.entries, by simp only [hmn.2, hpq.dropped]⟩
      · exact fun p hp => nomatch hp
      · exact fun p hp => nomatch hp

section

variable (hrefl : ∀ v, R v v) (hnullable : ∀ v w, R v w → isNullable v = isNullable w)

include hrefl in
theorem mergeBranches_propertywise (bs : List Value) {into into' : Parts}
    (h : PartsAlike (Propertywise R) into into') :
    (mergeBranches settings follow deprecated bs into).Refines (PartsAlike (Propertywise R))
      (mergeBranches settings follow deprecated bs into') := by
  induction bs generalizing into into' with
  | nil => exact .pure h
  | cons b rest ih =>
    rw [mergeBranches_cons, mergeBranches_cons]
    refine (Outcome.Refines.refl _).bind ?_
    rintro branch _ - rfl
    split
    · next es _ =>
      refine (fold_propertywise hrefl h.entries (.refl es)).bind fun r r' _ hr => ih ⟨hr, ?_⟩
      rw [h.dropped]
    · exact ih ⟨h.entries, by rw [h.dropped]⟩

include hrefl hnullable

/-- What two mappings come to by their own keywords. -/
theorem mergeBeside_propertywise (hQ : MergesTo settings follow deprecated Q R) {es fs : Keyed Value}
    (hstructural : isStructural es = isStructural fs) (hcomposed : isComposed es = isComposed fs)
    (hbranches : branchesOf es = branchesOf fs)
    (h : Keyed.Pointwise (fun k v w => isStructural fs k = true ∨ KeywordDiffers Q k v w) es fs) :
    (mergeBeside settings follow deprecated es).Refines (PartsAlike (Propertywise R))
      (mergeBeside settings follow deprecated fs) := by
  rw [mergeBeside, mergeBeside, hstructural]
  refine (mergeEntries_propertywise hQ h).bind fun own own' _ hown => ?_
  rw [compose, compose, hcomposed]
  refine (finish_propertywise hrefl hnullable hown).bind fun rest rest' _ hrest => ?_
  split
  · rw [mergeBranchesIn_eq, mergeBranchesIn_eq, hbranches]
    have hinto : PartsAlike (Propertywise R)
        ⟨withoutStrayRequired rest.entries, rest.dropped⟩
        ⟨withoutStrayRequired rest'.entries, rest'.dropped⟩ :=
      ⟨withoutStrayRequired_propertywise hrest.entries, hrest.dropped⟩
    exact (mergeBranches_propertywise hrefl _ hinto).bind fun whole whole' _ hwhole =>
      finish_propertywise hrefl hnullable hwhole
  · exact .pure hrest

/-- Two targets that differ in their properties are overlaid with keywords that do. -/
theorem overlay_propertywise {es fs : Keyed Value} (hsiblings : hasSiblings es = hasSiblings fs)
    {target target' : Merged} {beside beside' : Unit → Outcome Parts}
    (htarget : MergedAlike R target target')
    (hbeside : (beside ()).Refines (PartsAlike (Propertywise R)) (beside' ())) :
    (overlay settings es target beside).Refines (MergedAlike R)
      (overlay settings fs target' beside') := by
  have hmaps : ∀ base base', target.schema = .map base → target'.schema = .map base' →
      Propertywise R base base' → (overlay settings es target beside).Refines (MergedAlike R)
        (overlay settings fs target' beside') := by
    intro base base' hbase hbase' hsame
    unfold overlay
    rw [hbase, hbase', hsiblings]
    simp only
    split
    · refine hbeside.bind fun own own' _ hown => ?_
      refine (fold_propertywise hrefl hsame hown.entries).bind fun whole whole' _ hwhole => ?_
      have hparts : PartsAlike (Propertywise R) ⟨whole, target.dropped ++ own.dropped⟩
          ⟨whole', target'.dropped ++ own'.dropped⟩ := ⟨hwhole, by rw [htarget.dropped, hown.dropped]⟩
      refine (finish_propertywise hrefl hnullable hparts).bind fun done done' _ hdone => .pure ?_
      exact ⟨Or.inr ⟨_, _, rfl, rfl, hdone.entries⟩, hdone.dropped⟩
    · exact .pure htarget
  rcases htarget.schema with heq | ⟨base, base', hbase, hbase', hsame⟩
  · by_cases hmap : ∃ base, target.schema = .map base
    · obtain ⟨base, hbase⟩ := hmap
      exact hmaps base base hbase (heq ▸ hbase) (.refl base)
    · unfold overlay
      split
      · next base hbase => exact absurd ⟨base, hbase⟩ hmap
      · split
        · next base hbase => exact absurd ⟨base, heq.trans hbase⟩ hmap
        · exact .pure htarget
  · exact hmaps base base' hbase hbase' hsame

/-- **Two mappings that differ in their properties**, and possibly in what they refer to. -/
theorem mergeAs_propertywise (hQ : MergesTo settings follow deprecated Q R) {es fs : Keyed Value}
    (hreferences : reference? (.map es) = none ∧ reference? (.map fs) = none ∨
      ∃ ref ref', reference? (.map es) = some ref ∧ reference? (.map fs) = some ref' ∧
        (follow ref).Refines (MergedAlike R) (follow ref'))
    (h : Keyed.Pointwise (fun k v w => k = .text "$ref" ∧ isReference fs = true ∨
      KeywordDiffers Q k v w) es fs) :
    (mergeAs settings follow deprecated .schema (.map es)).Refines (MergedAlike R)
      (mergeAs settings follow deprecated .schema (.map fs)) := by
  have hfind : ∀ {keyword}, keyword ≠ "properties" → keyword ≠ "$ref" →
      Keyed.find? es (.text keyword) = Keyed.find? fs (.text keyword) := by
    intro keyword hproperties href
    refine h.find?_eq fun v w hvw => ?_
    rcases hvw with ⟨hkey, -⟩ | heq | ⟨hkey, -⟩
    · exact absurd (Scalar.text.inj hkey) href
    · exact heq
    · exact absurd (Scalar.text.inj hkey) hproperties
  have hdeprecated : Settings.isDeprecated es = Settings.isDeprecated fs := by
    rw [Settings.isDeprecated, Settings.isDeprecated, hfind (by decide) (by decide)]
  have hcomposed : isComposed es = isComposed fs := by
    rw [isComposed, isComposed, hfind (by decide) (by decide)]
  have hbranches : branchesOf es = branchesOf fs := by
    rw [branchesOf, branchesOf, hfind (by decide) (by decide)]
  have hreference : isReference es = isReference fs := by
    rcases hreferences with ⟨hes, hfs⟩ | ⟨ref, ref', hes, hfs, -⟩
    · rw [isReference, isReference, hes, hfs]
    · rw [isReference, isReference, hes, hfs]
      rfl
  have hstructural : isStructural es = isStructural fs := by
    funext k
    rw [isStructural, isStructural, hreference, hcomposed]
  have hsiblings : hasSiblings es = hasSiblings fs := by
    have hany : ∀ es : Keyed Value, hasSiblings es = (Keyed.keys es).any (· != .text "$ref") := by
      intro es
      rw [hasSiblings, Keyed.keys, List.any_map]
      rfl
    rw [hany, hany, h.keys_eq]
  have hbeside := mergeBeside_propertywise hrefl hnullable hQ hstructural hcomposed hbranches
    (h.mono fun k v w hvw => hvw.imp_left fun href => by simp [isStructural, href.1, href.2])
  rw [mergeAs_schema, mergeAs_schema, hdeprecated]
  split
  · exact .pure ⟨Or.inl rfl, rfl⟩
  · rcases hreferences with ⟨hes, hfs⟩ | ⟨ref, ref', hes, hfs, hfollow⟩
    · rw [hes, hfs]
      exact hbeside.bind fun whole whole' _ hwhole =>
        .pure ⟨Or.inr ⟨_, _, rfl, rfl, hwhole.entries⟩, hwhole.dropped⟩
    · rw [hes, hfs]
      exact hfollow.bind fun target target' _ htarget =>
        overlay_propertywise hrefl hnullable hsiblings htarget hbeside

end

end

/-! ## Whole merges -/

/-- A run with a value has finished. -/
theorem not_unfinished_of_ok {α : Type} {x : Outcome α} {a : α} (h : x.result = .ok a) :
    ¬ Unfinished x := by
  rintro ⟨e, he, -⟩
  rw [h] at he
  cases he

/-- What a node is merged to, it unfolds to at some depth. -/
theorem exists_unfold_of_merge {settings : Settings} {document node s : Value}
    (h : (merge settings document [] node).result = .ok s) :
    ∃ depth m, (unfold settings document depth node).result = .ok m ∧ m.schema = s := by
  obtain ⟨m, hm, rfl⟩ := merge_ok h
  obtain ⟨depth, hbelow⟩ := mergeVisited_below settings document node []
  refine ⟨depth, m, ?_, rfl⟩
  rw [← eq_of_below hbelow (not_unfinished_of_ok hm)]
  exact hm

/-- What a node unfolds to at some depth, it is merged to. -/
theorem merge_of_unfold {settings : Settings} {document node : Value} {depth : Nat} {m : Merged}
    (h : (unfold settings document depth node).result = .ok m) :
    (merge settings document [] node).result = .ok m.schema := by
  rw [result_merge, ← eq_of_below (unfold_below settings document node depth) (not_unfinished_of_ok h), h]
  rfl

section

variable {settings : Settings} {document : Value} {Q R : Value → Value → Prop}
  (hrefl : ∀ v, R v v) (hnullable : ∀ v w, R v w → isNullable v = isNullable w)
  (hQ : ∀ depth, MergesTo settings (unfoldFrom settings document depth) (leadsToDeprecated document) Q R)

include hrefl hnullable hQ

/-- Nodes that differ in their properties, at any depth of references. -/
theorem unfold_propertywise {v w : Value} (h : Differ Q document v w) (depth : Nat) :
    (unfold settings document depth v).Refines (MergedAlike R) (unfold settings document depth w) := by
  induction h generalizing depth with
  | @here v w es fs hv hw hes =>
    rw [unfold, unfold, mergeNode, mergeNode, mergeAs_opened _ _ _ (by decide) v,
      mergeAs_opened _ _ _ (by decide) w, hv, hw]
    refine mergeAs_propertywise hrefl hnullable (hQ depth) ?_ (hes.mono fun _ _ _ h => Or.inr h)
    have heq : reference? (.map es) = reference? (.map fs) := by
      have hfind : Keyed.find? es (.text "$ref") = Keyed.find? fs (.text "$ref") :=
        hes.find?_eq fun _ _ hvw => hvw.resolve_right fun hkey => absurd hkey.1 (by decide)
      unfold reference?
      simp only [Value.opened, hfind]
    cases href : reference? (.map fs) with
    | none => exact Or.inl ⟨heq.trans href, rfl⟩
    | some ref =>
      exact Or.inr ⟨ref, ref, heq.trans href, rfl, fun m hm => ⟨m, hm, Or.inl rfl, rfl⟩⟩
  | @target v w es fs ref ref' target target' hv hw href href' hes hlocal hlocal' hwalk hwalk' _ ih =>
    rw [unfold, unfold, mergeNode, mergeNode, mergeAs_opened _ _ _ (by decide) v,
      mergeAs_opened _ _ _ (by decide) w, hv, hw]
    have hreference : isReference fs = true := by
      rw [isReference, href']
      rfl
    refine mergeAs_propertywise hrefl hnullable (hQ depth) (Or.inr ⟨ref, ref', href, href', ?_⟩)
      (hes.mono fun _ _ _ h => h.imp_left fun hkey => ⟨hkey, hreference⟩)
    -- One level is spent on the reference itself.
    cases depth with
    | zero =>
      intro m hm
      rw [unfoldFrom, hlocal] at hm
      cases hm
    | succ depth =>
      rw [unfoldFrom, unfoldFrom, hlocal, hlocal', hwalk, hwalk']
      exact ih depth

/-- **Merging nodes that differ in their properties** gives schemas that do. -/
theorem merge_propertywise {v w s : Value} (h : Differ Q document v w)
    (hs : (merge settings document [] v).result = .ok s) :
    ∃ s', (merge settings document [] w).result = .ok s' ∧ ValuesAlike R s s' := by
  obtain ⟨depth, m, hm, rfl⟩ := exists_unfold_of_merge hs
  obtain ⟨m', hm', hsame⟩ := unfold_propertywise hrefl hnullable hQ h depth m hm
  exact ⟨m'.schema, merge_of_unfold hm', hsame.schema⟩

end

end ToolCatalog.Schema
