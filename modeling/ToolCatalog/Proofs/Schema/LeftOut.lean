import ToolCatalog.Proofs.Schema.Contributing
import ToolCatalog.Proofs.Schema.NormalForm
import ToolCatalog.Value.Access

/-!
# Names that are left out

A mapping that contributes to a node may declare a property that is left out, and another one may
require it.  Merging keeps account of the names that are left out, and a name leaves the account only
when another mapping defines it.  So what any of the mappings declares, the merged schema `mentions`:
it defines the property or counts it as left out.  Each step of the merge preserves that, and finishing
takes the names that count as left out from the required ones.

* `merge_requires_no_missing`: a name that a contributing mapping declares and that the merged schema
  does not define is not required.
-/

namespace ToolCatalog.Schema

/-! ## Keeping account of names

A merged schema covers mappings if it mentions what they declare.  Its properties have to be a mapping
as well: what is folded into anything else would replace it. -/

/-- What a schema on its way has under `properties`, if anything, is a mapping. -/
def Gathers (es : Keyed Value) : Prop := ∀ v, (propertiesKey, v) ∈ es → ∃ ps, v = .map ps

/-- **A merged schema mentions every property that certain mappings declare.** -/
structure Covers (contributes : Keyed Value → Prop) (m : Merged) : Prop where
  gathers : Gathers m.entries
  mentions : ∀ fs name, contributes fs → Declares fs name → m.mentions name = true

/-- No name that a merged schema counts as left out is among its required names. -/
def Settled (m : Merged) : Prop :=
  ∀ names k, Keyed.find? m.entries requiredKey = some (.list names) →
    m.dropped.any k.same = true → (Value.scalar k).isAmong names = false

theorem Covers.mono {contributes contributes' : Keyed Value → Prop} {m : Merged}
    (h : Covers contributes m) (hsub : ∀ fs, contributes' fs → contributes fs) :
    Covers contributes' m :=
  ⟨h.gathers, fun fs name hfs => h.mentions fs name (hsub fs hfs)⟩

/-- What mentions all that two merged schemas mention covers what they cover. -/
theorem Covers.join {left right : Keyed Value → Prop} {l m n : Merged} (hl : Covers left l)
    (hm : Covers right m) (hgathers : Gathers n.entries)
    (hmentions : ∀ name, l.mentions name = true ∨ m.mentions name = true → n.mentions name = true) :
    Covers (fun fs => left fs ∨ right fs) n :=
  ⟨hgathers, fun fs name hfs hname => hmentions name <|
    hfs.imp (fun h => hl.mentions fs name h hname) fun h => hm.mentions fs name h hname⟩

/-- A mapping without keywords declares nothing. -/
theorem not_declares_nil {name : Scalar} : ¬ Declares [] name := by
  rintro ⟨v, ps, hv, -⟩
  cases hv

theorem Gathers.openProperties {es : Keyed Value} (h : Gathers es) :
    openProperties es = .ok (propertiesOf es) :=
  openProperties_eq fun v hv => h v (Keyed.mem_of_find?_text hv)

/-- A schema that differs by required names alone. -/
theorem Covers.of_required {contributes : Keyed Value → Prop} {p q : Parts}
    (h : Covers contributes p.toMerged) (hsub : ∀ v, (propertiesKey, v) ∈ q.entries →
      (propertiesKey, v) ∈ p.entries)
    (hproperties : propertiesOf q.entries = propertiesOf p.entries)
    (hdropped : ∀ k, p.dropped.any k.same = true →
      Keyed.has (propertiesOf p.entries) k = true ∨ q.dropped.any k.same = true) :
    Covers contributes q.toMerged := by
  refine ⟨fun v hv => h.gathers v (hsub v hv), fun fs name hfs hname => ?_⟩
  rw [Merged.mentions_iff, Parts.entries_toMerged, Parts.dropped_toMerged, hproperties]
  rcases Merged.mentions_iff.1 (h.mentions fs name hfs hname) with hhas | hmissing
  · exact Or.inl hhas
  · exact hdropped name hmissing

/-! ## Finishing -/

section

variable {settings : Settings} {contributes : Keyed Value → Prop} {p q : Parts}

theorem propertiesOf_finish (h : finish settings p = .ok q) :
    propertiesOf q.entries = propertiesOf p.entries := by
  obtain ⟨-, ⟨-, hes⟩ | ⟨names, kept, -, -, hes⟩⟩ := finish_ok h
  · rw [hes]
  · rw [hes]
    split
    · exact propertiesOf_without _
    · exact propertiesOf_put_required _ _

/-- **Finishing keeps the account**: a name leaves it only if it is defined. -/
theorem Covers.finish (hp : Covers contributes p.toMerged) (h : finish settings p = .ok q) :
    Covers contributes q.toMerged := by
  obtain ⟨hdropped, hentries⟩ := finish_ok h
  refine hp.of_required (fun v hv => ?_) (propertiesOf_finish h) fun k hk => ?_
  · rcases hentries with ⟨-, hes⟩ | ⟨names, kept, -, -, hes⟩
    · rwa [hes] at hv
    · rw [hes] at hv
      split at hv
      · exact (Keyed.mem_without.1 hv).1
      · rcases Keyed.mem_put_text hv with hv | heq
        · exact hv
        · exact absurd (Prod.mk.inj heq).1 (by decide)
  · have hmissing := any_stillMissing p k
    rw [stillMissing, ← hdropped, hk, Bool.true_and] at hmissing
    cases hhas : Keyed.has (propertiesOf p.entries) k with
    | true => exact Or.inl rfl
    | false =>
      rw [hmissing, hhas]
      exact Or.inr rfl

/-- A name that was left out is not among those that stay. -/
theorem not_isAmong_of_dropped {properties : Keyed Value} {dropped : List Scalar}
    {names kept : List Value} {k : Scalar}
    (h : keepRequired settings properties dropped [] names = .ok kept)
    (hk : dropped.any k.same = true) : (Value.scalar k).isAmong kept = false := by
  refine keepRequired_induction (p := fun vs => (Value.scalar k).isAmong vs = false) ?_ rfl h
  intro vs name _ hvs _ hstays hkey
  rw [Value.isAmong, List.any_append, ← Value.isAmong, hvs, List.any_cons, List.any_nil,
    Bool.or_false, Bool.false_or, Value.same, Value.opened_of_isKey hkey]
  cases name with
  | scalar q =>
    simp only [staysRequired, isWaived, Bool.not_or, Bool.and_eq_true, Bool.not_eq_true'] at hstays
    have hnot := hstays.1.1
    cases hsame : k.same q with
    | false => exact hsame
    | true =>
      rw [← funext fun r => Scalar.same_congr hsame r, hk] at hnot
      cases hnot
  | _ => rfl

/-- **Finishing settles**: no required name counts as left out. -/
theorem finish_settled (h : finish settings p = .ok q) : Settled q.toMerged := by
  intro names k hnames hk
  obtain ⟨before, hkept⟩ := keepRequired_of_finish h hnames
  exact not_isAmong_of_dropped hkept hk

theorem Covers.withoutStrayRequired (h : Covers contributes p.toMerged) :
    Covers contributes (Parts.toMerged ⟨withoutStrayRequired p.entries, p.dropped⟩) := by
  refine h.of_required ?_ ?_ fun k hk => Or.inr hk
  · unfold Schema.withoutStrayRequired
    split
    · exact fun v hv => hv
    · exact fun v hv => hv
    · exact fun v hv => (Keyed.mem_without.1 hv).1
  · unfold Schema.withoutStrayRequired
    split
    · rfl
    · rfl
    · exact propertiesOf_without _

end

/-! ## Folding -/

/-- **One entry** is folded in: what was defined is, and what the entry defines. -/
theorem foldEntry_has {overrides : Bool} {into r : Keyed Value} {k : Scalar} {v : Value}
    (hinto : Gathers into) (hv : k = propertiesKey → ∃ ps, v = .map ps)
    (h : foldEntry overrides into k v = .ok r) :
    Gathers r ∧ ∀ name, Keyed.has (propertiesOf into) name = true ∨
      Keyed.has (propertiesOf [(k, v)]) name = true → Keyed.has (propertiesOf r) name = true := by
  by_cases hk : k = propertiesKey
  · subst hk
    obtain ⟨ps, rfl⟩ := hv rfl
    rw [foldEntry_properties hinto.openProperties] at h
    obtain rfl := Except.ok.inj h
    refine ⟨fun w hw => ?_, fun name hname => ?_⟩
    · rcases Keyed.mem_put_text hw with hw | heq
      · exact hinto w hw
      · exact ⟨_, (Prod.mk.inj heq).2⟩
    · rw [propertiesOf, Keyed.find?_put, if_pos (Scalar.same_refl _)]
      rw [Keyed.has_putAll, Bool.or_eq_true]
      exact hname
  · have hother : ¬ propertiesKey.same k = true := fun hsame => hk ((Scalar.same_text _ _).1 hsame)
    have hput : ∀ w, Gathers (Keyed.put into k w) ∧ ∀ name,
        Keyed.has (propertiesOf into) name = true ∨
          Keyed.has (propertiesOf [(k, v)]) name = true →
        Keyed.has (propertiesOf (Keyed.put into k w)) name = true := by
      intro w
      refine ⟨fun u hu => ?_, fun name hname => ?_⟩
      · rcases Keyed.mem_put hu with hu | ⟨-, hsame, -⟩
        · exact hinto u hu
        · rw [Scalar.same_comm] at hsame
          exact absurd hsame hother
      · rw [propertiesOf, propertiesOf, Keyed.find?_cons, if_neg hother] at hname
        rw [propertiesOf, Keyed.find?_put, if_neg hother]
        exact hname.elim id fun hnil => by cases hnil
    rcases foldEntry_ok h with ⟨ps, existing, heq, -⟩ | ⟨names, -, -, rfl⟩ | rfl | rfl
    · exact absurd heq hk
    · exact hput _
    · exact hput _
    · refine ⟨hinto, fun name hname => ?_⟩
      rw [propertiesOf, propertiesOf, Keyed.find?_cons, if_neg hother] at hname
      exact hname.elim id fun hnil => by cases hnil

/-- **Folding** leaves what either schema defines. -/
theorem fold_has {overrides : Bool} {into es r : Keyed Value} (hinto : Gathers into)
    (hes : Gathers es) (h : fold overrides into es = .ok r) :
    Gathers r ∧ ∀ name, Keyed.has (propertiesOf into) name = true ∨
      Keyed.has (propertiesOf es) name = true → Keyed.has (propertiesOf r) name = true := by
  induction es generalizing into with
  | nil =>
    obtain rfl := Except.ok.inj h
    exact ⟨hinto, fun name hname => hname.elim id fun hnil => by cases hnil⟩
  | cons e rest ih =>
    obtain ⟨k, v⟩ := e
    rw [fold] at h
    obtain ⟨next, hnext, h⟩ := bind_eq_ok.1 h
    obtain ⟨hgathers, hhas⟩ := foldEntry_has hinto (fun hk => hes v (by simp [hk])) hnext
    obtain ⟨hgathers', hhas'⟩ := ih hgathers (fun w hw => hes w (List.mem_cons_of_mem _ hw)) h
    refine ⟨hgathers', fun name hname => hhas' name ?_⟩
    rcases hname with hname | hname
    · exact Or.inl (hhas name (Or.inl hname))
    · -- The properties of the schema are those of the entry or those of the rest.
      by_cases hk : propertiesKey.same k = true
      · refine Or.inl (hhas name (Or.inr ?_))
        rw [propertiesOf, Keyed.find?_cons, if_pos hk] at hname ⊢
        exact hname
      · rw [propertiesOf, Keyed.find?_cons, if_neg hk] at hname
        exact Or.inr hname

/-- **What is folded together covers what both sides cover.** -/
theorem Covers.fold {overrides : Bool} {left right : Keyed Value → Prop} {p : Parts} {m : Merged}
    {es r : Keyed Value} (hp : Covers left p.toMerged) (hm : Covers right m)
    (hes : m.schema = .map es) (h : fold overrides p.entries es = .ok r) :
    Covers (fun fs => left fs ∨ right fs) (Parts.toMerged ⟨r, p.dropped ++ m.dropped⟩) := by
  have hentries : m.entries = es := by rw [Merged.entries, hes]
  obtain ⟨hgathers, hhas⟩ := fold_has hp.gathers (hentries ▸ hm.gathers) h
  refine hp.join hm hgathers fun name hmentions => ?_
  rw [Merged.mentions_iff, Merged.mentions_iff, hentries] at hmentions
  rw [Merged.mentions_iff, Parts.entries_toMerged, Parts.dropped_toMerged, List.any_append,
    Bool.or_eq_true]
  rcases hmentions with (hleft | hleft) | hright | hright
  · exact Or.inl (hhas name (Or.inl hleft))
  · exact Or.inr (Or.inl hleft)
  · exact Or.inl (hhas name (Or.inr hright))
  · exact Or.inr (Or.inr hright)

/-- What is no mapping adds what it has left out. -/
theorem Covers.append {left right : Keyed Value → Prop} {p : Parts} {m : Merged}
    (hp : Covers left p.toMerged) (hm : Covers right m) (hes : ∀ es, m.schema ≠ .map es) :
    Covers (fun fs => left fs ∨ right fs) (Parts.toMerged ⟨p.entries, p.dropped ++ m.dropped⟩) := by
  have hentries := Merged.entries_of_not_map hes
  refine hp.join hm hp.gathers fun name hmentions => ?_
  rw [Merged.mentions_iff, Merged.mentions_iff, hentries] at hmentions
  rw [Merged.mentions_iff, Parts.entries_toMerged, Parts.dropped_toMerged, List.any_append,
    Bool.or_eq_true]
  rcases hmentions with (hleft | hleft) | hright | hright
  · exact Or.inl hleft
  · exact Or.inr (Or.inl hleft)
  · cases hright
  · exact Or.inr (Or.inr hright)

/-! ## Merging -/

section

variable {settings : Settings} {follow : String → Outcome Merged}
  {deprecated : Value → Except Fault Bool}

/-- **Each property is merged or left out.** -/
theorem mergeProperties_mentions {es : Keyed Value} {p : Parts}
    (h : (mergeProperties settings follow deprecated es).result = .ok p) {name : Scalar}
    (hname : name ∈ Keyed.keys es) :
    Keyed.has p.entries name = true ∨ p.dropped.any name.same = true := by
  induction es generalizing p with
  | nil => cases hname
  | cons e rest ih =>
    obtain ⟨k, v⟩ := e
    obtain ⟨q, hq, hp⟩ := mergeProperties_cons_ok h
    rw [Keyed.keys_cons, List.mem_cons] at hname
    rcases hp with rfl | ⟨-, m, -, rfl⟩
    · refine hname.elim (fun heq => Or.inr ?_) fun hrest => (ih hq hrest).imp_right fun h => ?_
      · rw [heq, List.any_cons, Scalar.same_refl, Bool.true_or]
      · rw [List.any_cons, h, Bool.or_true]
    · refine hname.elim (fun heq => Or.inl ?_) fun hrest => (ih hq hrest).imp_left fun h => ?_
      · rw [heq, Keyed.has, Keyed.find?_cons, if_pos (Scalar.same_refl _)]
        rfl
      · rw [Keyed.has, Keyed.find?_cons]
        split
        · rfl
        · exact h

/-- What a mapping declares under a keyword that is merged, its merged keywords mention. -/
theorem mergeEntries_mentions (hvendor : settings.isVendor "properties" = false)
    {skips : Scalar → Bool} {es : Keyed Value} {own : Parts}
    (h : (mergeEntries settings follow deprecated skips es).result = .ok own) {name : Scalar}
    (hname : Declares (es.filter fun e => !skips e.1) name) : own.toMerged.mentions name = true := by
  obtain ⟨v, ps, hv, hps, hname⟩ := hname
  induction es generalizing own with
  | nil => cases hv
  | cons e rest ih =>
    obtain ⟨k, w⟩ := e
    obtain ⟨q, hq, hown⟩ := mergeEntries_cons_ok h
    rcases hown with ⟨hskip, rfl⟩ | ⟨hskip, keyword, rfl, hown⟩
    · rw [List.filter_cons_of_neg (by simp [hskip])] at hv
      exact ih hq hv
    rw [List.filter_cons_of_pos (by simp [hskip]), Keyed.find?_cons] at hv
    by_cases hkeyword : keyword = "properties"
    · subst hkeyword
      rw [if_pos (Scalar.same_refl _)] at hv
      obtain rfl := Option.some.inj hv
      rcases hown with ⟨hextension, -⟩ | ⟨-, m, hm, rfl⟩
      · rw [hvendor] at hextension
        cases hextension
      obtain ⟨p, hp, rfl⟩ := mergeAs_properties_ok hps hm
      rw [Merged.mentions_iff]
      simp only [Parts.dropped_toMerged, List.any_append, Bool.or_eq_true]
      exact (mergeProperties_mentions hp hname).imp_right Or.inl
    · have hne : ¬ propertiesKey.same (.text keyword) = true := fun hsame =>
        hkeyword (Scalar.text.inj ((Scalar.same_text _ _).1 hsame))
      rw [if_neg hne] at hv
      have hmentions := ih hq hv
      rcases hown with ⟨-, rfl⟩ | ⟨-, m, -, rfl⟩
      · exact hmentions
      · rw [Merged.mentions_iff, Parts.entries_toMerged, Parts.dropped_toMerged] at hmentions ⊢
        rw [propertiesOf, Keyed.find?_cons, if_neg hne, List.any_append, Bool.or_eq_true]
        exact hmentions.imp_right Or.inr

/-- **The own keywords of a mapping** cover it. -/
theorem mergeEntries_covers (hvendor : settings.isVendor "properties" = false)
    {skips : Scalar → Bool} {es : Keyed Value} {own : Parts}
    (hes : MapsProperties (es.filter fun e => !skips e.1))
    (h : (mergeEntries settings follow deprecated skips es).result = .ok own) :
    Covers (fun fs => fs = es.filter fun e => !skips e.1) own.toMerged := by
  refine ⟨fun w hw => ?_, fun fs name hfs hname => ?_⟩
  · obtain ⟨-, hmem⟩ := mergeEntries_ok h
    obtain ⟨keyword, v, m, hk, hv, hskip, -, hm, rfl⟩ := hmem _ w hw
    obtain rfl := Scalar.text.inj hk
    obtain ⟨ps, hps⟩ := hes v (List.mem_filter.2 ⟨hv, by simp [hskip]⟩)
    obtain ⟨p, -, rfl⟩ := mergeAs_properties_ok hps hm
    exact ⟨p.entries, rfl⟩
  · rw [hfs] at hname
    exact mergeEntries_mentions hvendor h hname

/-- **The branches** that are folded in are covered too. -/
theorem mergeBranches_covers {contributes : Keyed Value → Prop}
    {branch : Value → Keyed Value → Prop} {bs : List Value} {into whole : Parts}
    (hinto : Covers contributes into.toMerged)
    (hbs : ∀ b ∈ bs, ∀ m, (mergeAs settings follow deprecated .schema b).result = .ok m →
      Covers (branch b) m)
    (h : (mergeBranches settings follow deprecated bs into).result = .ok whole) :
    Covers (fun fs => contributes fs ∨ ∃ b ∈ bs, branch b fs) whole.toMerged := by
  induction bs generalizing contributes into with
  | nil =>
    rw [mergeBranches_nil] at h
    obtain rfl := Except.ok.inj h
    refine hinto.mono ?_
    rintro fs (hfs | ⟨b, hb, -⟩)
    · exact hfs
    · cases hb
  | cons b rest ih =>
    rw [mergeBranches_cons] at h
    obtain ⟨m, hm, h⟩ := Outcome.result_bind_ok.1 h
    have hb := hbs b List.mem_cons_self m hm
    have ih := fun {contributes into} hinto =>
      @ih contributes into hinto fun c hc => hbs c (List.mem_cons_of_mem _ hc)
    have hsplit : ∀ fs, (contributes fs ∨ ∃ c ∈ b :: rest, branch c fs) →
        (contributes fs ∨ branch b fs) ∨ ∃ c ∈ rest, branch c fs := by
      rintro fs (hfs | ⟨c, hc, hfs⟩)
      · exact Or.inl (Or.inl hfs)
      · rcases List.mem_cons.1 hc with rfl | hc
        · exact Or.inl (Or.inr hfs)
        · exact Or.inr ⟨c, hc, hfs⟩
    split at h
    · next es hes =>
      obtain ⟨entries, hfold, h⟩ := Outcome.result_bind_ok.1 h
      exact (ih (hinto.fold hb hes hfold) h).mono hsplit
    · next hother => exact (ih (hinto.append hb hother) h).mono hsplit

/-- **A mapping that is no reference** covers its own keywords and what its branches cover. -/
theorem mergeBeside_covers (hvendor : settings.isVendor "properties" = false)
    {branch : Value → Keyed Value → Prop} {es : Keyed Value} {p : Parts}
    (hes : MapsProperties (ownKeywords es))
    (hbs : ∀ b ∈ branchesOf es, ∀ m, (mergeAs settings follow deprecated .schema b).result = .ok m →
      Covers (branch b) m)
    (h : (mergeBeside settings follow deprecated es).result = .ok p) :
    Covers (fun fs => fs = ownKeywords es ∨ ∃ b ∈ branchesOf es, branch b fs) p.toMerged := by
  obtain ⟨own, rest, hown, hrest, hp⟩ := mergeBeside_ok h
  have hrest' := (mergeEntries_covers hvendor hes hown).finish hrest
  rcases hp with ⟨hcomposed, rfl⟩ | ⟨-, whole, hwhole, hp⟩
  · refine hrest'.mono ?_
    rintro fs (hfs | ⟨b, hb, -⟩)
    · exact hfs
    · rw [branchesOf_of_not_composed hcomposed] at hb
      cases hb
  · exact (mergeBranches_covers hrest'.withoutStrayRequired hbs hwhole).finish hp

end

/-- **What merging a node gives**: a mapping exactly if the node leads to one, and, as long as properties
are mappings, mention of all that contributing mappings declare. -/
structure Conveys (document v : Value) (m : Merged) : Prop where
  mapping : (∃ es, m.schema = .map es) ↔ LeadsToMapping document v
  covers : (∀ fs, ContributesMerged document v fs → MapsProperties fs) →
    Covers (ContributesMerged document v) m

/-- A node that is no mapping. -/
theorem Conveys.of_not_map {document v : Value} {m : Merged} (hv : ∀ es, v.opened ≠ .map es)
    (hm : ∀ es, m.schema ≠ .map es) : Conveys document v m := by
  have hentries := Merged.entries_of_not_map hm
  refine ⟨⟨fun h => ?_, fun h => ?_⟩, fun _ => ⟨?_, ?_⟩⟩
  · obtain ⟨es, hes⟩ := h
    exact absurd hes (hm es)
  · obtain ⟨gs, hgs⟩ := h.exists_map
    exact absurd hgs (hv gs)
  · intro w hw
    rw [hentries] at hw
    cases hw
  · intro fs name hfs
    exact absurd hfs (not_contributes_of_not_map hv)

section

variable {settings : Settings} {document : Value} {follow : String → Outcome Merged}

/-- **A reference**: the keywords beside it are folded into a target that is a mapping. -/
theorem overlay_conveys (hvendor : settings.isVendor "properties" = false) {es : Keyed Value}
    {ref : String} {node : Value} {target m : Merged}
    (hdeprecated : Settings.isDeprecated es = false) (href : reference? (.map es) = some ref)
    (hwalk : Pointer.walk document ref = .ok node) (htarget : Conveys document node target)
    (hbs : ∀ b ∈ branchesOf es, ∀ m, (mergeAs settings follow (leadsToDeprecated document) .schema
      b).result = .ok m → Conveys document b m)
    (h : (overlay settings es target fun _ =>
      mergeBeside settings follow (leadsToDeprecated document) es).result = .ok m) :
    Conveys document (.map es) m := by
  have hleads := leadsToMapping_reference hdeprecated href hwalk
  have hcontributes : ∀ fs, ContributesMerged document (.map es) fs ↔ _ :=
    fun fs => contributesMerged_reference hdeprecated href hwalk
  have hnode : (∀ fs, ContributesMerged document (.map es) fs → MapsProperties fs) →
      Covers (ContributesMerged document node) target :=
    fun hes => htarget.covers fun fs hfs => hes fs ((hcontributes fs).2 (Or.inl hfs))
  rcases overlay_ok h with ⟨base, own, whole, done, hbase, -, hown, hwhole, hdone, rfl⟩ |
    ⟨rfl, halone⟩
  · have hmap := htarget.mapping.1 ⟨base, hbase⟩
    refine ⟨⟨fun _ => hleads.2 hmap, fun _ => ⟨_, rfl⟩⟩, fun hes => ?_⟩
    have hbeside := mergeBeside_covers hvendor
      (hes _ ((hcontributes _).2 (Or.inr ⟨hmap, Or.inl rfl⟩)))
      (fun b hb m hm => (hbs b hb m hm).covers fun fs hfs =>
        hes fs ((hcontributes fs).2 (Or.inr ⟨hmap, Or.inr ⟨b, hb, hfs⟩⟩))) hown
    have htarget' : Covers (ContributesMerged document node)
        (Parts.toMerged ⟨base, target.dropped⟩) := by
      have hcovers := hnode hes
      rwa [show target = Parts.toMerged ⟨base, target.dropped⟩ by rw [Parts.toMerged, ← hbase]]
        at hcovers
    refine ((htarget'.fold hbeside rfl hwhole).finish hdone).mono fun fs hfs => ?_
    exact ((hcontributes fs).1 hfs).imp_right And.right
  · refine ⟨htarget.mapping.trans hleads.symm, fun hes => ?_⟩
    have hcovers := hnode hes
    refine ⟨hcovers.gathers, fun fs name hfs hname => ?_⟩
    rcases (hcontributes fs).1 hfs with hfs | ⟨hmap, hbeside⟩
    · exact hcovers.mentions fs name hfs hname
    · rcases halone with hother | halone
      · obtain ⟨base, hbase⟩ := htarget.mapping.2 hmap
        exact absurd hbase (hother base)
      · obtain ⟨hown, hbranches⟩ := nothing_beside_of_no_siblings href halone
        rw [hown, hbranches] at hbeside
        rcases hbeside with rfl | ⟨b, hb, -⟩
        · exact absurd hname not_declares_nil
        · cases hb

/-- **Merging a node conveys what contributes to it**, if following a reference conveys what contributes
to its target. -/
theorem mergeNode_conveys (hvendor : settings.isVendor "properties" = false)
    (hfollow : ∀ ref m, (follow ref).result = .ok m →
      ∃ target, Pointer.walk document ref = .ok target ∧ Conveys document target m)
    {v : Value} {m : Merged}
    (h : (mergeNode settings follow (leadsToDeprecated document) v).result = .ok m) :
    Conveys document v m := by
  unfold mergeNode at h
  induction v using node_induction generalizing m with
  | scalar s =>
    rw [mergeAs_scalar] at h
    obtain rfl := Except.ok.inj h
    exact .of_not_map (by simp [Value.opened]) (by simp)
  | pair a b _ _ =>
    rw [mergeAs_pair] at h
    obtain rfl := Except.ok.inj h
    exact .of_not_map (by simp [Value.opened]) (by simp)
  | set ms =>
    rw [mergeAs_set] at h
    obtain rfl := Except.ok.inj h
    exact .of_not_map (by simp [Value.opened]) (by simp)
  | list vs _ =>
    rw [mergeAs_list _ _ _ (by simp)] at h
    obtain ⟨ws, -, h⟩ := Outcome.result_bind_ok.1 h
    obtain rfl := Except.ok.inj h
    exact .of_not_map (by simp [Value.opened]) (by simp)
  | part n body ih =>
    rw [mergeAs_part _ _ _ (by simp)] at h
    have hbody := ih h
    refine ⟨hbody.mapping.trans ⟨.part, fun hleads => ?_⟩, fun hes => ?_⟩
    · cases hleads with
      | part hleads => exact hleads
    · refine (hbody.covers fun fs hfs => hes fs (.part hfs)).mono fun fs hfs => ?_
      cases hfs with
      | part hfs => exact hfs
  | map es _ ihbranches =>
    rcases mergeAs_schema_ok h with ⟨hdeprecated, rfl⟩ | ⟨hdeprecated, hcase⟩
    · refine ⟨⟨fun _ => .deprecated hdeprecated, fun _ => ⟨_, rfl⟩⟩, fun _ => ⟨?_, ?_⟩⟩
      · intro w hw
        cases hw
      · intro fs name hfs
        exact absurd hfs (not_contributesMerged_of_deprecated hdeprecated)
    · rcases hcase with ⟨ref, target, href, htarget, h⟩ | ⟨hnone, whole, hwhole, rfl⟩
      · obtain ⟨node, hwalk, hconveys⟩ := hfollow ref target htarget
        exact overlay_conveys hvendor hdeprecated href hwalk hconveys
          (fun b hb m hm => ihbranches b hb hm) h
      · have hcontributes : ∀ fs, ContributesMerged document (.map es) fs ↔ _ :=
          fun fs => contributesMerged_plain hdeprecated hnone
        refine ⟨⟨fun _ => .plain hnone, fun _ => ⟨_, rfl⟩⟩, fun hes => ?_⟩
        have hcovers := mergeBeside_covers hvendor (hes _ ((hcontributes _).2 (Or.inl rfl)))
          (fun b hb m hm => (ihbranches b hb hm).covers fun fs hfs =>
            hes fs ((hcontributes fs).2 (Or.inr ⟨b, hb, hfs⟩))) hwhole
        exact hcovers.mono fun fs => (hcontributes fs).1

end

/-! ## Required names -/

/-- **No required name outlives its property.**  Let what each contributing mapping has under
`properties` be a mapping, and let the settings take `properties` for a vendor extension only if they
take `required` for one.  Then a property that a contributing mapping declares, and that the merged
schema does not have, is not required. -/
theorem merge_requires_no_missing (settings : Settings) (document node : Value)
    (visited : List String) (r : Keyed Value)
    (hvendor : settings.isVendor "properties" = true → settings.isVendor "required" = true)
    (h : (merge settings document visited node).result = .ok (.map r))
    (hproperties : ∀ es, ContributesMerged document node es → MapsProperties es) (es : Keyed Value)
    (hes : ContributesMerged document node es) (name : Scalar) (hname : Declares es name)
    (hmissing : Keyed.has (propertiesOf r) name = false) (names : List Value)
    (hnames : Keyed.find? r requiredKey = some (.list names)) :
    (Value.scalar name).isAmong names = false := by
  have hvendor : settings.isVendor "properties" = false := by
    -- A merged schema with required names does not take them for a vendor extension.
    have hrequired := (merge_normal h).clean.noVendor "required"
      (Keyed.mem_keys_of_mem (Keyed.mem_of_find?_text hnames))
    cases hproperties : settings.isVendor "properties" with
    | false => rfl
    | true =>
      rw [hvendor hproperties] at hrequired
      cases hrequired
  obtain ⟨m, hm, hr⟩ := merge_ok h
  have hconveys : Conveys document node m :=
    mergeVisited_relates (fun follow hfollow v m hm => mergeNode_conveys hvendor hfollow hm) hm
  have hsettled : Settled m := by
    refine mergeVisited_finished (fun m hnil _ names k hnames => ?_) (fun _ _ => finish_settled) hm
    rw [hnil] at hnames
    cases hnames
  have hentries : m.entries = r := by rw [Merged.entries, ← hr]
  refine hsettled names name (by rw [hentries, hnames]) ?_
  rcases Merged.mentions_iff.1 ((hconveys.covers hproperties).mentions es name hes hname) with
    hhas | hleft
  · rw [hentries, hmissing] at hhas
    cases hhas
  · exact hleft

/-- A document with a schema of which one property is deprecated. -/
def accountDocument : Value :=
  .record [("Account", .record [
    ("properties", .record [("kept", .record []), ("old", .record [("deprecated", .bool true)])])])]

/-- A node that refers to the schema and requires both of its properties in another part. -/
def accountNode : Value :=
  .record [("allOf", .list [
    .record [("$ref", .text "#/Account"), ("title", .text "Account")],
    .record [("required", .list [.text "old", .text "kept"])]])]

/-- The property that is left out of the target of a reference is not required from outside. -/
theorem merge_requires_no_missing_account :
    ∃ r names, (merge {} accountDocument [] accountNode).result = .ok (.map r) ∧
      Keyed.find? r requiredKey = some (.list names) ∧ names ≠ [] ∧
      (Value.text "old").isAmong names = false := by
  let account : Keyed Value := [(propertiesKey,
    .record [("kept", .record []), ("old", .record [("deprecated", .bool true)])])]
  have hmaps : ∀ v ∈ [accountDocument, accountNode], ∀ es, Value.Within (.map es) v →
      MapsProperties es := by
    simp [accountDocument, accountNode, Value.record, Value.within_map, Value.within_list,
      Value.within_scalar, MapsProperties, Value.opened, or_imp, forall_and]
  refine ⟨_, [.text "kept"], by rfl, by rfl, by simp, ?_⟩
  refine merge_requires_no_missing {} accountDocument accountNode [] _ (fun h => ?_) (by rfl)
    (fun es hes => hes.mapsProperties (hmaps _ (by simp)) (hmaps _ (by simp))) account ?_
    (.text "old") ⟨_, _, by rfl, by rfl, by simp⟩ (by rfl) _ (by rfl)
  · revert h
    decide
  · refine .branch (by rfl) (by rfl) List.mem_cons_self ?_
    exact .target (by rfl) (by rfl) (by rfl) (.concrete (by rfl) (by rfl) (by rfl))

/-! ### Where names outlive their properties -/

/-- A name is required of a merged schema that does not have the property, although a contributing
mapping declares it, and what each contributing mapping has under `properties` is a mapping. -/
structure Outlives (settings : Settings) (document node : Value) (name : String) : Prop where
  maps : ∀ es, ContributesAnyhow document node es → MapsProperties es
  declares : ∃ es, ContributesAnyhow document node es ∧ Declares es (.text name)
  requires : ∃ r names, (merge settings document [] node).result = .ok (.map r) ∧
    Keyed.has (propertiesOf r) (.text name) = false ∧
    Keyed.find? r requiredKey = some names ∧ names.holds name = .ok true

/-- The properties of a schema, of which one is deprecated. -/
def oldProperties : Value := .record [("old", .record [("deprecated", .bool true)])]

/-- **Some mappings are passed over**: those beside a reference to a list, those inside a deprecated
mapping, and properties that are taken for vendor extensions; and a text is no list of names. -/
theorem outlives_passed_over :
    Outlives {} (.record [("list", .list [])])
      (.record [("allOf", .list [
        .record [("$ref", .text "#/list"), ("properties", oldProperties)],
        .record [("required", .list [.text "old"])]])]) "old" ∧
    Outlives {} (.record [])
      (.record [("allOf", .list [
        .record [("deprecated", .bool true),
          ("allOf", .list [.record [("properties", oldProperties)]])],
        .record [("required", .list [.text "old"])]])]) "old" ∧
    Outlives { vendorMark := "prop" } (.record [])
      (.record [("properties", oldProperties), ("required", .list [.text "old"])]) "old" ∧
    Outlives {} (.record [])
      (.record [("properties", oldProperties), ("required", .text "old")]) "old" := by
  have hdeclares : ∀ {es : Keyed Value},
      Keyed.find? es propertiesKey = some oldProperties → Declares es (.text "old") :=
    fun hes => ⟨_, _, hes, by rfl, by simp⟩
  refine ⟨⟨fun es hes => ?_, ⟨[(propertiesKey, oldProperties)], ?_, hdeclares (by rfl)⟩,
      _, _, by rfl, by rfl, by rfl, by rfl⟩,
    ⟨fun es hes => ?_, ⟨[(propertiesKey, oldProperties)], ?_, hdeclares (by rfl)⟩,
      _, _, by rfl, by rfl, by rfl, by rfl⟩,
    ⟨fun es hes => ?_, ⟨_, .concrete (by rfl) (by rfl) (by rfl), hdeclares (by rfl)⟩,
      _, _, by rfl, by rfl, by rfl, by rfl⟩,
    ⟨fun es hes => ?_, ⟨_, .concrete (by rfl) (by rfl) (by rfl), hdeclares (by rfl)⟩,
      _, _, by rfl, by rfl, by rfl, by rfl⟩⟩
  case refine_2 =>
    refine .branch trivial (by rfl) List.mem_cons_self ?_
    exact .siblings trivial (by rfl) (by rfl) trivial (.concrete (by rfl) (by rfl) (by rfl))
  case refine_4 =>
    refine .branch trivial (by rfl) List.mem_cons_self ?_
    exact .branch trivial (by rfl) List.mem_cons_self (.concrete (by rfl) (by rfl) (by rfl))
  all_goals
    refine hes.mapsProperties ?_ ?_ <;>
      simp [oldProperties, Value.record, Value.within_map, Value.within_list, Value.within_scalar,
        MapsProperties, Value.opened, or_imp, forall_and]

end ToolCatalog.Schema
