import ToolCatalog.Proofs.Schema.Composing
import ToolCatalog.Proofs.Schema.Uniting

/-!
# What a reference with keywords beside it comes to

The keywords beside a reference are merged by themselves and laid over the target.  `Overlaid` says what this
comes to.  A keyword beside the reference wins over the target.  Properties of both are united, where those
beside win and those of the target come first, and so are the required names, as far as they may be required
beside the properties of the whole.  What stands under `required` and is no list of names is a keyword like any
other.  This determines what the whole comes to, with the order of its keys.

Properties can be laid over a target that has none, or a mapping of them, or something that counts as
nothing.  Over anything else they cannot, and then there is no result; in all other cases there is one.

* `Overlaid.unique`: what keywords come to that are laid over a schema is determined.
* `merge_overlays`: merging a reference with keywords beside it lays these over the target.
-/

namespace ToolCatalog.Schema

/-! ## Finishing what is not known to be regular -/

section

variable {settings : Settings} {p q : Parts}

/-- Required names that are keys can be put in order. -/
theorem finish_of_listed (hkeys : NamesAreKeys p.entries) {names : List Value}
    (h : Keyed.find? p.entries requiredKey = some (.list names)) :
    finish settings p = .ok (finished settings p) :=
  finish_eq_finished settings (fun _ hv => ⟨names, Option.some.inj (hv.symm.trans h)⟩) hkeys.openRequired

/-- A schema without a list of required names is finished but for the account of names. -/
theorem finish_of_not_listed
    (h : ∀ names, Keyed.find? p.entries requiredKey ≠ some (.list names)) :
    finish settings p = .ok ⟨p.entries, stillMissing p⟩ := by
  unfold finish
  cases hv : Keyed.find? p.entries requiredKey with
  | none => rfl
  | some v =>
    cases v with
    | list names => exact absurd hv (h names)
    | _ => rfl

/-- **A schema whose required names are keys can be finished.** -/
theorem exists_finish (hkeys : NamesAreKeys p.entries) : ∃ q, finish settings p = .ok q := by
  by_cases h : ∃ names, Keyed.find? p.entries requiredKey = some (.list names)
  · obtain ⟨names, h⟩ := h
    exact ⟨_, finish_of_listed hkeys h⟩
  · exact ⟨_, finish_of_not_listed (not_exists.1 h)⟩

/-- Finishing leaves the other keywords. -/
theorem without_finish (h : finish settings p = .ok q) :
    Keyed.without q.entries requiredKey = Keyed.without p.entries requiredKey := by
  obtain ⟨-, ⟨-, hes⟩ | ⟨names, kept, -, -, hes⟩⟩ := finish_ok h
  · rw [hes]
  · rw [hes]
    exact without_setRequired p.entries kept

/-- What stands under the required names after finishing: the names that stay of a list, if there are any,
and else what stood there. -/
theorem find?_required_finish (hkeys : NamesAreKeys p.entries) (h : finish settings p = .ok q) :
    (∃ names, Keyed.find? p.entries requiredKey = some (.list names)) ∧
        Keyed.find? q.entries requiredKey =
          (if (stayingNames settings p).isEmpty then none else some (.list (stayingNames settings p))) ∨
      (∀ names, Keyed.find? p.entries requiredKey ≠ some (.list names)) ∧
        Keyed.find? q.entries requiredKey = Keyed.find? p.entries requiredKey := by
  by_cases hlist : ∃ names, Keyed.find? p.entries requiredKey = some (.list names)
  · refine Or.inl ⟨hlist, ?_⟩
    obtain ⟨names, hnames⟩ := hlist
    obtain rfl := Except.ok.inj ((finish_of_listed hkeys hnames).symm.trans h)
    exact find?_setRequired _ _
  · have hnot : ∀ names, Keyed.find? p.entries requiredKey ≠ some (.list names) :=
      not_exists.1 hlist
    obtain rfl := Except.ok.inj ((finish_of_not_listed hnot).symm.trans h)
    exact Or.inr ⟨hnot, rfl⟩

/-- Finishing leaves the keys, unless it takes the required names away. -/
theorem keys_finish (h : finish settings p = .ok q)
    (hhas : Keyed.has q.entries requiredKey = Keyed.has p.entries requiredKey) :
    Keyed.keys q.entries = Keyed.keys p.entries := by
  obtain ⟨-, ⟨-, hes⟩ | ⟨names, kept, hnames, -, hes⟩⟩ := finish_ok h
  · rw [hes]
  · have hlist : Keyed.has p.entries requiredKey = true := Option.isSome_iff_exists.2 ⟨_, hnames⟩
    have hset : q.entries = setRequired p.entries kept := hes
    have hfind : Keyed.find? q.entries requiredKey = if kept.isEmpty then none else some (.list kept) := by
      rw [hset, find?_setRequired]
    rw [hlist, Keyed.has, hfind] at hhas
    by_cases hempty : kept.isEmpty = true
    · rw [if_pos hempty] at hhas
      cases hhas
    · rw [hset, setRequired, if_neg hempty, Keyed.keys_put, if_pos hlist]

end

/-! ## Keywords laid over a schema -/

/-- What stands uppermost under a keyword when keywords are laid over a schema. -/
def uppermost (target beside : Merged) (k : Scalar) : Option Value :=
  (Keyed.find? beside.entries k).or (Keyed.find? target.entries k)

/-- A list of required names is left empty: none of them may be required beside the properties. -/
def IsLeftEmpty (settings : Settings) (target beside : Merged) (properties : Keyed Value) : Prop :=
  (∃ names, uppermost target beside requiredKey = some (.list names)) ∧
    requiredOf settings properties [target, beside] = []

/-- **What keywords come to that are laid over a schema**: they win over the schema, properties and required
names of both are united, and a list of required names that is left empty goes away. -/
structure Overlaid (settings : Settings) (target beside : Merged) (es : Keyed Value) : Prop where
  keys : ¬ IsLeftEmpty settings target beside (propertiesOf es) →
    Keyed.keys es = Keyed.joined (Keyed.keys target.entries) (Keyed.keys beside.entries)
  keys_left_empty : IsLeftEmpty settings target beside (propertiesOf es) →
    Keyed.keys es = Keyed.joined (Keyed.keys (Keyed.without target.entries requiredKey))
      (Keyed.keys (Keyed.without beside.entries requiredKey))
  others : ∀ k, propertiesKey.same k = false → requiredKey.same k = false →
    Keyed.find? es k = uppermost target beside k
  properties : ∀ qs, Keyed.find? beside.entries propertiesKey = some (.map qs) →
    ∃ us, Keyed.find? es propertiesKey = some (.map us) ∧
      Keyed.keys us = Keyed.joined (Keyed.keys (propertiesOf target.entries)) (Keyed.keys qs) ∧
      ∀ k, Keyed.find? us k = (Keyed.find? qs k).or (Keyed.find? (propertiesOf target.entries) k)
  /-- Without a mapping of properties beside, there is nothing to unite. -/
  properties_alone : (∀ qs, Keyed.find? beside.entries propertiesKey ≠ some (.map qs)) →
    Keyed.find? es propertiesKey = uppermost target beside propertiesKey
  required : (∃ names, uppermost target beside requiredKey = some (.list names)) →
    Keyed.find? es requiredKey =
      if (requiredOf settings (propertiesOf es) [target, beside]).isEmpty then none
      else some (.list (requiredOf settings (propertiesOf es) [target, beside]))
  /-- What is no list of names is a keyword like any other. -/
  required_stray : (∀ names, uppermost target beside requiredKey ≠ some (.list names)) →
    Keyed.find? es requiredKey = uppermost target beside requiredKey

/-! ### There is only one -/

section

variable {settings : Settings} {target beside : Merged} {es fs : Keyed Value}
  (htarget : (Value.map target.entries).WellFormed)
  (hbeside : (Value.map beside.entries).WellFormed)

include htarget hbeside

/-- No key comes twice in what keywords come to that are laid over a schema. -/
theorem Overlaid.distinct (h : Overlaid settings target beside es) : Keyed.Distinct es := by
  have hdistinct : Keyed.Distinct target.entries := (Value.keysEverywhere_map.1 htarget).1
  have hdistinct' : Keyed.Distinct beside.entries := (Value.keysEverywhere_map.1 hbeside).1
  by_cases hempty : IsLeftEmpty settings target beside (propertiesOf es)
  · rw [Keyed.Distinct, h.keys_left_empty hempty]
    exact Keyed.joined_distinct (hdistinct.sublist (List.filter_sublist.map _))
      (hdistinct'.sublist (List.filter_sublist.map _))
  · rw [Keyed.Distinct, h.keys hempty]
    exact Keyed.joined_distinct hdistinct hdistinct'

/-- The properties of what keywords come to that are laid over a schema are determined. -/
theorem Overlaid.find?_properties_unique (h : Overlaid settings target beside es)
    (h' : Overlaid settings target beside fs) :
    Keyed.find? es propertiesKey = Keyed.find? fs propertiesKey := by
  by_cases hmapping : ∃ qs, Keyed.find? beside.entries propertiesKey = some (.map qs)
  · obtain ⟨qs, hqs⟩ := hmapping
    obtain ⟨us, hus, hkeys, hfind⟩ := h.properties qs hqs
    obtain ⟨vs, hvs, hkeys', hfind'⟩ := h'.properties qs hqs
    have hdistinct : Keyed.Distinct us := by
      rw [Keyed.Distinct, hkeys]
      exact Keyed.joined_distinct (distinct_propertiesOf htarget) (distinct_of_find? hbeside hqs)
    have hsame : us = vs := Keyed.ext_of_find? (hkeys.trans hkeys'.symm) hdistinct fun k =>
      (hfind k).trans (hfind' k).symm
    rw [hus, hvs, hsame]
  · have hnone : ∀ qs, Keyed.find? beside.entries propertiesKey ≠ some (.map qs) :=
      not_exists.1 hmapping
    rw [h.properties_alone hnone, h'.properties_alone hnone]

/-- **What keywords come to that are laid over a schema is determined**, with the order of its keys. -/
theorem Overlaid.unique (h : Overlaid settings target beside es)
    (h' : Overlaid settings target beside fs) : es = fs := by
  have hproperties := h.find?_properties_unique htarget hbeside h'
  have hof : propertiesOf es = propertiesOf fs := propertiesOf_congr hproperties
  have hkeys : Keyed.keys es = Keyed.keys fs := by
    by_cases hempty : IsLeftEmpty settings target beside (propertiesOf es)
    · rw [h.keys_left_empty hempty, h'.keys_left_empty (hof ▸ hempty)]
    · rw [h.keys hempty, h'.keys (hof ▸ hempty)]
  have hrequired : Keyed.find? es requiredKey = Keyed.find? fs requiredKey := by
    by_cases hlist : ∃ names, uppermost target beside requiredKey = some (.list names)
    · rw [h.required hlist, h'.required hlist, hof]
    · have hstray : ∀ names, uppermost target beside requiredKey ≠ some (.list names) :=
        not_exists.1 hlist
      rw [h.required_stray hstray, h'.required_stray hstray]
  refine Keyed.ext_of_find? hkeys (h.distinct htarget hbeside) fun k => ?_
  cases hk : propertiesKey.same k with
  | true => rwa [(Scalar.same_text _ k).1 hk]
  | false =>
    cases hk' : requiredKey.same k with
    | true => rwa [(Scalar.same_text _ k).1 hk']
    | false => rw [h.others k hk hk', h'.others k hk hk']

end

/-! ### What is folded over a schema -/

section

variable {settings : Settings} {target beside : Merged} {whole : Keyed Value}

/-- Where a list of names stands uppermost, the keywords beside have a list of them or none. -/
theorem listed_of_uppermost {names : List Value}
    (h : uppermost target beside requiredKey = some (.list names)) : Listed beside.entries := by
  intro v hv
  rw [uppermost, hv] at h
  exact ⟨names, Option.some.inj h⟩

variable (hdistinct : Keyed.Distinct beside.entries)
  (hfold : fold true target.entries beside.entries = .ok whole)

include hdistinct hfold

/-- Required names are united, whatever the target has there. -/
theorem openRequired_fold (hlisted : Listed beside.entries) :
    openRequired whole = Value.union (openRequired target.entries) (openRequired beside.entries) := by
  cases hv : Keyed.find? beside.entries requiredKey with
  | none =>
    rw [openRequired_of_none hv, openRequired, fold_find?_required_of_none hv hfold]
    rfl
  | some v =>
    obtain ⟨names, rfl⟩ := hlisted v hv
    rw [openRequired_of_find? (fold_find?_required hdistinct hv hfold), openRequired_of_find? hv]

/-- What is not united with what the target has wins over it. -/
theorem find?_fold_uppermost {k : Scalar}
    (hproperties : ∀ ps, k = propertiesKey → Keyed.find? beside.entries k ≠ some (.map ps))
    (hrequired : ∀ names, k = requiredKey → Keyed.find? beside.entries k ≠ some (.list names)) :
    Keyed.find? whole k = uppermost target beside k := by
  rw [find?_fold hdistinct hfold, uppermost]
  cases hv : Keyed.find? beside.entries k with
  | none => rfl
  | some v =>
    have hunited : united true target.entries k v = v :=
      united_other (fun ps hk heq => hproperties ps hk (hv.trans (congrArg some heq)))
        fun names hk heq => hrequired names hk (hv.trans (congrArg some heq))
    exact congrArg some hunited

/-- A list of names stays one when it is united with others. -/
theorem find?_required_fold {names : List Value}
    (h : uppermost target beside requiredKey = some (.list names)) :
    ∃ all, Keyed.find? whole requiredKey = some (.list all) := by
  cases hv : Keyed.find? beside.entries requiredKey with
  | none =>
    rw [uppermost, hv] at h
    exact ⟨names, (fold_find?_required_of_none hv hfold).trans h⟩
  | some v =>
    obtain ⟨others, rfl⟩ := listed_of_uppermost h v hv
    exact ⟨_, fold_find?_required hdistinct hv hfold⟩

/-- What is no list of names stands where it stood uppermost. -/
theorem find?_required_fold_stray
    (h : ∀ names, uppermost target beside requiredKey ≠ some (.list names)) :
    Keyed.find? whole requiredKey = uppermost target beside requiredKey := by
  refine find?_fold_uppermost hdistinct hfold (fun ps hk => absurd hk (by decide)) fun names _ hnames => ?_
  refine h names ?_
  rw [uppermost, hnames]
  rfl

variable (hkeys : NamesAreKeys target.entries) (hkeys' : NamesAreKeys beside.entries)

include hkeys hkeys'

/-- The names that stay when schemas have been united are those of both that may be required. -/
theorem stayingNames_fold (hlisted : Listed beside.entries) :
    stayingNames settings ⟨whole, target.dropped ++ beside.dropped⟩ =
      requiredOf settings (propertiesOf whole) [target, beside] := by
  refine stayingNames_eq hkeys.openRequired (fun n hn => ?_) ?_ (by simp)
  · rw [List.mem_singleton.1 hn]
    exact hkeys'.openRequired
  · rw [openRequired_fold hdistinct hfold hlisted, List.flatMap_singleton]

/-- Required names are keys after they have been united, if they were before. -/
theorem namesAreKeys_fold : NamesAreKeys whole := by
  intro names hnames
  by_cases hlist : ∃ others, Keyed.find? beside.entries requiredKey = some (.list others)
  · obtain ⟨others, hothers⟩ := hlist
    rw [fold_find?_required hdistinct hothers hfold] at hnames
    rw [← Value.list.inj (Option.some.inj hnames)]
    intro w hw
    exact (Value.mem_union hw).elim (hkeys.openRequired w) (hkeys' others hothers w)
  · rw [find?_fold_uppermost hdistinct hfold (fun ps hk => absurd hk (by decide))
      fun others _ hothers => hlist ⟨others, hothers⟩, uppermost] at hnames
    rcases Option.or_eq_some_iff.1 hnames with hothers | ⟨-, hown⟩
    · exact absurd ⟨names, hothers⟩ hlist
    · exact hkeys names hown

variable {done : Parts}
  (hfinish : finish settings ⟨whole, target.dropped ++ beside.dropped⟩ = .ok done)

include hfinish

/-- **The required names in the end**, where a list of them stands uppermost, are those of both that may be
required. -/
theorem find?_required_overlaid
    (h : ∃ names, uppermost target beside requiredKey = some (.list names)) :
    Keyed.find? done.entries requiredKey =
      if (requiredOf settings (propertiesOf whole) [target, beside]).isEmpty then none
      else some (.list (requiredOf settings (propertiesOf whole) [target, beside])) := by
  obtain ⟨names, hnames⟩ := h
  have hstaying : stayingNames settings ⟨whole, target.dropped ++ beside.dropped⟩ =
      requiredOf settings (propertiesOf whole) [target, beside] :=
    stayingNames_fold hdistinct hfold hkeys hkeys' (listed_of_uppermost hnames)
  rcases find?_required_finish (namesAreKeys_fold hdistinct hfold hkeys hkeys') hfinish with
    ⟨-, hrequired⟩ | ⟨hnot, -⟩
  · rw [hrequired, hstaying]
  · obtain ⟨all, hall⟩ := find?_required_fold hdistinct hfold hnames
    exact absurd hall (hnot all)

/-- What stands under the required names in the end and is no list of them stood there uppermost. -/
theorem find?_required_overlaid_stray
    (h : ∀ names, uppermost target beside requiredKey ≠ some (.list names)) :
    Keyed.find? done.entries requiredKey = uppermost target beside requiredKey := by
  have hwhole : Keyed.find? whole requiredKey = uppermost target beside requiredKey :=
    find?_required_fold_stray hdistinct hfold h
  rcases find?_required_finish (namesAreKeys_fold hdistinct hfold hkeys hkeys') hfinish with
    ⟨⟨names, hnames⟩, -⟩ | ⟨-, hsame⟩
  · exact absurd (hwhole.symm.trans hnames) (h names)
  · exact hsame.trans hwhole

/-- **The keys in the end** are those of both, where no list of required names is left empty. -/
theorem keys_overlaid (h : ¬ IsLeftEmpty settings target beside (propertiesOf whole)) :
    Keyed.keys done.entries = Keyed.joined (Keyed.keys target.entries) (Keyed.keys beside.entries) := by
  have hhas : Keyed.has done.entries requiredKey = Keyed.has whole requiredKey := by
    by_cases hlist : ∃ names, uppermost target beside requiredKey = some (.list names)
    · have hleft : ¬ (requiredOf settings (propertiesOf whole) [target, beside]).isEmpty = true :=
        fun hempty => h ⟨hlist, List.isEmpty_iff.1 hempty⟩
      have hdone := find?_required_overlaid hdistinct hfold hkeys hkeys' hfinish hlist
      obtain ⟨names, hnames⟩ := hlist
      obtain ⟨all, hall⟩ := find?_required_fold hdistinct hfold hnames
      rw [Keyed.has, Keyed.has, hall, hdone, if_neg hleft]
      rfl
    · have hstray : ∀ names, uppermost target beside requiredKey ≠ some (.list names) :=
        not_exists.1 hlist
      rw [Keyed.has, Keyed.has, find?_required_fold_stray hdistinct hfold hstray,
        find?_required_overlaid_stray hdistinct hfold hkeys hkeys' hfinish hstray]
  rw [keys_finish hfinish hhas]
  exact keys_fold hdistinct hfold

/-- The keys in the end are those of both without the required names, where a list of these is left empty. -/
theorem keys_overlaid_left_empty (h : IsLeftEmpty settings target beside (propertiesOf whole)) :
    Keyed.keys done.entries = Keyed.joined (Keyed.keys (Keyed.without target.entries requiredKey))
      (Keyed.keys (Keyed.without beside.entries requiredKey)) := by
  have hnone : Keyed.find? done.entries requiredKey = none := by
    rw [find?_required_overlaid hdistinct hfold hkeys hkeys' hfinish h.1, h.2]
    rfl
  have hbare := fold_without true target.entries beside.entries
  rw [hfold] at hbare
  rw [← Keyed.without_eq_self hnone, without_finish hfinish]
  exact keys_fold (hdistinct.sublist (List.filter_sublist.map _)) hbare

/-- **What is folded over a schema and finished is laid over it.** -/
theorem overlaid_of_fold
    (hproperties : ∀ qs, Keyed.find? beside.entries propertiesKey = some (.map qs) → Keyed.Distinct qs) :
    Overlaid settings target beside done.entries := by
  -- All but the required names is as it was before finishing, the properties among it.
  have hwithout : Keyed.without done.entries requiredKey = Keyed.without whole requiredKey :=
    without_finish hfinish
  have hother : ∀ k, requiredKey.same k = false →
      Keyed.find? done.entries k = Keyed.find? whole k := by
    intro k hk
    rw [← find?_without_required hk, hwithout, find?_without_required hk]
  have hsame : propertiesOf done.entries = propertiesOf whole :=
    propertiesOf_congr (hother propertiesKey (by decide))
  constructor
  case keys =>
    rw [hsame]
    exact keys_overlaid hdistinct hfold hkeys hkeys' hfinish
  case keys_left_empty =>
    rw [hsame]
    exact keys_overlaid_left_empty hdistinct hfold hkeys hkeys' hfinish
  case others =>
    intro k hproperty hrequired
    rw [hother k hrequired]
    refine find?_fold_uppermost hdistinct hfold ?_ ?_
    · rintro ps rfl
      rw [Scalar.same_refl] at hproperty
      cases hproperty
    · rintro names rfl
      rw [Scalar.same_refl] at hrequired
      cases hrequired
  case properties =>
    intro qs hqs
    refine ⟨Keyed.putAll (propertiesOf target.entries) qs, ?_, Keyed.keys_putAll (hproperties qs hqs),
      Keyed.find?_putAll (hproperties qs hqs)⟩
    rw [hother _ (by decide), find?_fold hdistinct hfold, hqs]
    rfl
  case properties_alone =>
    intro hnot
    rw [hother _ (by decide)]
    exact find?_fold_uppermost hdistinct hfold (fun qs _ => hnot qs) fun _ hk => absurd hk (by decide)
  case required =>
    rw [hsame]
    exact find?_required_overlaid hdistinct hfold hkeys hkeys' hfinish
  case required_stray =>
    exact find?_required_overlaid_stray hdistinct hfold hkeys hkeys' hfinish

end

/-! ## Merging a reference with keywords beside it -/

section

variable {settings : Settings} {document : Value} {visited : List String} {es : Keyed Value}
  {ref : String} {target beside : Merged}

/-- A target that is a mapping is overlaid with what stands beside the reference. -/
theorem result_overlay {beside : Unit → Outcome Parts} {base : Keyed Value} {own : Parts}
    (hbase : target.schema = .map base) (hsiblings : hasSiblings es = true)
    (hown : (beside ()).result = .ok own) :
    (overlay settings es target beside).result = (do
      let whole ← fold true base own.entries
      let done ← finish settings ⟨whole, target.dropped ++ own.dropped⟩
      return done.toMerged) := by
  unfold overlay
  rw [hbase]
  simp only [hsiblings, if_true, Outcome.result_bind, hown]
  rfl

/-- **A reference with keywords beside it merges piece by piece**: the target resolves and what stands beside
merges by itself, is folded over the target, and the whole is finished. -/
theorem result_mergeVisited_reference (href : reference? (.map es) = some ref)
    (hdeprecated : Settings.isDeprecated es = false) (hsiblings : hasSiblings es = true)
    (htarget : (resolveFrom settings document (chainBound document) visited ref).result = .ok target)
    (hmapping : target.isMapping = true)
    (hbeside : (mergeVisited settings document visited
      (.map (Keyed.without es (.text "$ref")))).result = .ok beside) :
    (mergeVisited settings document visited (.map es)).result = (do
      let whole ← fold true target.entries beside.entries
      let done ← finish settings ⟨whole, target.dropped ++ beside.dropped⟩
      return done.toMerged) := by
  obtain ⟨base, hbase⟩ := Merged.isMapping_iff.1 hmapping
  have hentries : target.entries = base := by rw [Merged.entries, hbase]
  have hbound : (references document).length + 1 ≤ (Bound.ofCount fun _ =>
      (references document).length + (references (.map es)).length).length :=
    Nat.le_trans (Nat.add_le_add_left (List.length_pos_of_mem (mem_references_of_reference? href)) _)
      (Bound.le_length_ofCount fun _ => (references document).length + (references (.map es)).length)
  rw [resolveFrom_chainBound hbound] at htarget
  rw [mergeVisited_of_references_le (references_without_sublist es _).length_le,
    mergeNode_of_plain reference?_without_ref (isDeprecated_without_ref.trans hdeprecated),
    mergeBeside_without_ref href] at hbeside
  obtain ⟨own, hown, hbeside⟩ := Outcome.result_bind_ok.1 hbeside
  obtain rfl := Except.ok.inj hbeside
  rw [mergeVisited, mergeNode, mergeAs_schema, if_neg (by simp [hdeprecated]), href]
  rw [Outcome.result_bind, htarget, hentries]
  exact result_overlay hbase hsiblings hown

/-- The required names of what a reference resolves to are keys. -/
theorem namesAreKeys_of_resolveFrom {bound : Bound}
    (h : (resolveFrom settings document bound visited ref).result = .ok target) :
    NamesAreKeys target.entries :=
  resolveFrom_induction_finished (p := fun m => NamesAreKeys m.entries)
    (fun m hnil _ => by rw [hnil]; exact namesAreKeys_nil) (fun _ _ => finish_namesAreKeys) h

/-- No key comes twice anywhere in what a reference resolves to, if none does in the document. -/
theorem wellFormed_of_resolveFrom {bound : Bound} (hdocument : document.WellFormed)
    (h : (resolveFrom settings document bound visited ref).result = .ok target) :
    (Value.map target.entries).WellFormed :=
  wellFormed_entries (hereditary_distinct.resolveFrom hdocument h)

end

/-- **Keywords beside a reference are laid over its target.**  Let a mapping that is not deprecated be a
reference with keywords beside it, whose target comes to a mapping.  If the keywords beside merge by
themselves, then the mapping merges, unless they bring properties and the target has something under that
keyword to which none can be added; and what it merges to are the keywords laid over the target, and nothing
else is. -/
theorem merge_overlays (settings : Settings) (document : Value) (visited : List String)
    (es : Keyed Value) (ref : String) (target beside : Merged) (hdocument : document.WellFormed)
    (hes : (Value.map es).WellFormed) (href : reference? (.map es) = some ref)
    (hdeprecated : Settings.isDeprecated es = false) (hsiblings : hasSiblings es = true)
    (htarget : (resolveFrom settings document (chainBound document) visited ref).result = .ok target)
    (hmapping : target.isMapping = true)
    (hbeside : (mergeVisited settings document visited
      (.map (Keyed.without es (.text "$ref")))).result = .ok beside) :
    ((∃ r, (merge settings document visited (.map es)).result = .ok r) ↔
      ∀ qs, Keyed.find? beside.entries propertiesKey = some (.map qs) → Extensible target.entries) ∧
    ∀ r, (merge settings document visited (.map es)).result = .ok r →
      ∃ entries, r = .map entries ∧ Overlaid settings target beside entries ∧
        ∀ others, Overlaid settings target beside others → others = entries := by
  have hwell : (Value.map beside.entries).WellFormed :=
    wellFormed_of_mergeVisited hdocument (hereditary_distinct.map_without hes _) hbeside
  have hwell' : (Value.map target.entries).WellFormed := wellFormed_of_resolveFrom hdocument htarget
  have hdistinct : Keyed.Distinct beside.entries := (Value.keysEverywhere_map.1 hwell).1
  have hkeys : NamesAreKeys target.entries := namesAreKeys_of_resolveFrom htarget
  have hkeys' : NamesAreKeys beside.entries := namesAreKeys_of_mergeVisited hbeside
  have hmerge :=
    result_mergeVisited_reference href hdeprecated hsiblings htarget hmapping hbeside
  have hfolds : (∃ whole, fold true target.entries beside.entries = .ok whole) ↔
      ∀ qs, Keyed.find? beside.entries propertiesKey = some (.map qs) → Extensible target.entries :=
    fold_ok_iff hdistinct
  constructor
  · rw [← hfolds]
    constructor
    · rintro ⟨r, hr⟩
      obtain ⟨m, hm, -⟩ := merge_ok hr
      obtain ⟨whole, hwhole, -⟩ := bind_eq_ok.1 (hmerge.symm.trans hm)
      exact ⟨whole, hwhole⟩
    · rintro ⟨whole, hwhole⟩
      have hnames : NamesAreKeys whole := namesAreKeys_fold hdistinct hwhole hkeys hkeys'
      obtain ⟨done, hdone⟩ : ∃ done, finish settings ⟨whole, target.dropped ++ beside.dropped⟩ = .ok done :=
        exists_finish hnames
      refine ⟨done.toMerged.schema, Outcome.result_bind_ok.2 ⟨done.toMerged, ?_, rfl⟩⟩
      rw [hmerge]
      exact bind_eq_ok.2 ⟨whole, hwhole, bind_eq_ok.2 ⟨done, hdone, rfl⟩⟩
  · intro r hr
    obtain ⟨m, hm, rfl⟩ := merge_ok hr
    obtain ⟨whole, hwhole, hm⟩ := bind_eq_ok.1 (hmerge.symm.trans hm)
    obtain ⟨done, hdone, hm⟩ := bind_eq_ok.1 hm
    obtain rfl := Except.ok.inj hm
    have hoverlaid : Overlaid settings target beside done.entries :=
      overlaid_of_fold hdistinct hwhole hkeys hkeys' hdone fun _ hqs => distinct_of_find? hwell hqs
    exact ⟨done.entries, rfl, hoverlaid, fun _ hothers => hothers.unique hwell' hwell hoverlaid⟩

-- What is no list of names stays under `required`, as it stands in the target.
example : (merge {} (.record [("Bare", .record [("required", .text "abc"), ("type", .text "object")])]) []
    (.record [("$ref", .text "#/Bare"), ("title", .text "Bare")])).result =
      .ok (.record [("required", .text "abc"), ("type", .text "object"), ("title", .text "Bare")]) := by
  rfl

/-- A document with a user, whose secret is deprecated. -/
def userDocument : Value :=
  .record [("User", .record [("description", .text "A user."),
    ("properties", .record [("name", .record [("type", .text "string")]),
      ("secret", .record [("deprecated", .bool true)])]),
    ("required", .list [.text "name", .text "secret"])])]

/-- A reference to the user, with keywords beside it. -/
def ownerReference : Keyed Value :=
  [(.text "$ref", .text "#/User"), (.text "description", .text "The owner."),
    (.text "properties", .record [("age", .record [("type", .text "integer")])]),
    (.text "required", .list [.text "age", .text "secret"])]

/-- What the user comes to. -/
def mergedUser : Merged :=
  ⟨.record [("description", .text "A user."),
    ("properties", .record [("name", .record [("type", .text "string")])]),
    ("required", .list [.text "name"])], [.text "secret"]⟩

/-- What stands beside the reference. -/
def besideUser : Merged :=
  ⟨.record [("description", .text "The owner."),
    ("properties", .record [("age", .record [("type", .text "integer")])]),
    ("required", .list [.text "age", .text "secret"])], []⟩

/-- What the reference comes to: the secret, which the user leaves out, is not required beside it. -/
def mergedOwner : Value :=
  .record [("description", .text "The owner."),
    ("properties", .record [("name", .record [("type", .text "string")]),
      ("age", .record [("type", .text "integer")])]),
    ("required", .list [.text "name", .text "age"])]

/-- The reference to the user comes to the owner, laid over the user. -/
theorem merge_overlays_owner :
    (merge {} userDocument [] (.map ownerReference)).result = .ok mergedOwner ∧
      ∃ entries, mergedOwner = .map entries ∧ Overlaid {} mergedUser besideUser entries ∧
        ∀ others, Overlaid {} mergedUser besideUser others → others = entries := by
  have hdocument : userDocument.WellFormed := by
    simp [userDocument, Value.WellFormed, Value.keysEverywhere_record, Value.keysEverywhere_list,
      Value.keysEverywhere_scalar, Scalar.same]
  have hes : (Value.map ownerReference).WellFormed := by
    show (Value.record [("$ref", .text "#/User"), ("description", .text "The owner."),
      ("properties", .record [("age", .record [("type", .text "integer")])]),
      ("required", .list [.text "age", .text "secret"])]).WellFormed
    simp [Value.WellFormed, Value.keysEverywhere_record, Value.keysEverywhere_list,
      Value.keysEverywhere_scalar, Scalar.same]
  have hmerge : (merge {} userDocument [] (.map ownerReference)).result = .ok mergedOwner := by rfl
  exact ⟨hmerge, (merge_overlays {} userDocument [] ownerReference "#/User" mergedUser besideUser hdocument
    hes rfl rfl (by decide) (by rfl) rfl (by rfl)).2 mergedOwner hmerge⟩

end ToolCatalog.Schema
