import ToolCatalog.Proofs.Schema.Required

/-!
# What a schema gives under a keyword

Most keywords of a schema are merged by themselves: what stands under them is merged, and neither the parts of
the schema nor the target of its reference have a say in it.  The parts come second, and the target is written
over.

* `Gives.find?_mergeAs`: what a schema gives under such a keyword is found, merged, in what the schema comes to.
-/

namespace ToolCatalog.Schema

/-! ## Entries under a keyword -/

theorem requiredKey_not_same {keyword : String} (h : keyword ≠ "required") :
    requiredKey.same (.text keyword) = false := by
  rw [Bool.eq_false_iff, Ne, Scalar.same_text]
  simpa using h

/-- Under a keyword there is one value and no other. -/
structure Gives (es : Keyed Value) (keyword : String) (v : Value) : Prop where
  there : (.text keyword, v) ∈ es
  only : ∀ w, (.text keyword, w) ∈ es → w = v

/-- What stands in a schema that has no keyword twice is given by it. -/
theorem gives_of_mem {es : Keyed Value} {keyword : String} {v : Value} (hes : Keyed.Distinct es)
    (hv : (.text keyword, v) ∈ es) : Gives es keyword v :=
  ⟨hv, fun _ hw => Option.some.inj ((Keyed.find?_of_mem hw hes).symm.trans (Keyed.find?_of_mem hv hes))⟩

namespace Gives

variable {es : Keyed Value} {keyword : String} {v : Value} (h : Gives es keyword v)

include h

theorem find? : Keyed.find? es (.text keyword) = some v := by
  have hhas : Keyed.has es (.text keyword) = true :=
    Keyed.has_iff.2 ⟨_, Keyed.mem_keys_of_mem h.there, Scalar.same_refl _⟩
  obtain ⟨w, hw⟩ := Option.isSome_iff_exists.1 hhas
  rw [hw, h.only w (Keyed.mem_of_find?_text hw)]

theorem without {k : Scalar} (hk : k.same (.text keyword) = false) :
    Gives (Keyed.without es k) keyword v :=
  ⟨Keyed.mem_without.2 ⟨h.there, hk⟩, fun w hw => h.only w (Keyed.mem_without.1 hw).1⟩

theorem put {k : Scalar} (hk : k.same (.text keyword) = false) (w : Value) :
    Gives (Keyed.put es k w) keyword v := by
  constructor
  · exact Keyed.mem_put_of_mem h.there hk
  · intro w' hw'
    rcases Keyed.mem_put hw' with hw' | ⟨-, hsame, -⟩
    · exact h.only w' hw'
    · rw [hk] at hsame
      cases hsame

theorem withoutStrayRequired (hkeyword : keyword ≠ "required") :
    Gives (withoutStrayRequired es) keyword v := by
  have hk := requiredKey_not_same hkeyword
  unfold Schema.withoutStrayRequired
  split
  · exact h
  · exact h
  · exact h.without hk

end Gives

theorem Gives.finish {settings : Settings} {p q : Parts} {keyword : String} {v : Value}
    (h : Gives p.entries keyword v) (hkeyword : keyword ≠ "required")
    (hq : finish settings p = .ok q) : Gives q.entries keyword v := by
  have hk := requiredKey_not_same hkeyword
  obtain ⟨-, ⟨-, hes⟩ | ⟨names, kept, -, -, hes⟩⟩ := finish_ok hq
  · rwa [hes]
  · rw [hes]
    split
    · exact h.without hk
    · exact h.put hk _

theorem find?_finish {settings : Settings} {p q : Parts} {keyword : String}
    (hkeyword : keyword ≠ "required") (hq : finish settings p = .ok q) :
    Keyed.find? q.entries (.text keyword) = Keyed.find? p.entries (.text keyword) := by
  have hk := requiredKey_not_same hkeyword
  obtain ⟨-, ⟨-, hes⟩ | ⟨names, kept, -, -, hes⟩⟩ := finish_ok hq
  · rw [hes]
  · rw [hes]
    split
    · rw [Keyed.find?_without, if_neg (by simp [hk])]
    · rw [Keyed.find?_put, Scalar.same_comm, hk, if_neg Bool.false_ne_true]

/-- A keyword that is not united is written, or stays if the newcomer does not override. -/
theorem foldEntry_keyword {overrides : Bool} {into : Keyed Value} {keyword : String} {v : Value}
    (hproperties : keyword ≠ "properties") (hrequired : keyword ≠ "required") :
    foldEntry overrides into (.text keyword) v =
      .ok (if overrides || !Keyed.has into (.text keyword) then Keyed.put into (.text keyword) v
        else into) := by
  unfold foldEntry
  split
  · next heq => exact absurd (Scalar.text.inj heq) hproperties
  · next heq => exact absurd (Scalar.text.inj heq) hrequired
  · rfl

/-- Folding a schema in leaves what is given already. -/
theorem Gives.fold {into es r : Keyed Value} {keyword : String} {v : Value}
    (h : Gives into keyword v) (hproperties : keyword ≠ "properties") (hrequired : keyword ≠ "required")
    (hr : fold false into es = .ok r) : Gives r keyword v := by
  refine fold_induction (p := fun r => Gives r keyword v) (fun into k w r _ hinto hr => ?_) h hr
  by_cases hk : k = .text keyword
  · subst hk
    have hhas : Keyed.has into (.text keyword) = true :=
      Keyed.has_iff.2 ⟨_, Keyed.mem_keys_of_mem hinto.there, Scalar.same_refl _⟩
    rw [foldEntry_keyword hproperties hrequired, hhas, if_neg (by simp)] at hr
    rwa [← Except.ok.inj hr]
  · have hsame : k.same (.text keyword) = false := by
      rwa [Bool.eq_false_iff, Ne, Scalar.same_comm, Scalar.same_text]
    rcases foldEntry_ok hr with ⟨ps, existing, -, -, -, rfl⟩ | ⟨names, -, -, rfl⟩ | rfl | rfl
    · exact hinto.put hsame _
    · exact hinto.put hsame _
    · exact hinto.put hsame w
    · exact hinto

/-- Folding an entry in leaves what is under other keys. -/
theorem find?_foldEntry_other {overrides : Bool} {into next : Keyed Value} {k : Scalar} {w : Value}
    {keyword : String} (hk : k ≠ .text keyword) (h : foldEntry overrides into k w = .ok next) :
    Keyed.find? next (.text keyword) = Keyed.find? into (.text keyword) := by
  have hsame : ¬ (Scalar.text keyword).same k = true := by rwa [Scalar.same_text]
  have hput : ∀ w, Keyed.find? (Keyed.put into k w) (.text keyword) =
      Keyed.find? into (.text keyword) := by
    intro w
    rw [Keyed.find?_put, if_neg hsame]
  rcases foldEntry_ok h with ⟨ps, existing, -, -, -, rfl⟩ | ⟨names, -, -, rfl⟩ | rfl | rfl
  · exact hput _
  · exact hput _
  · exact hput w
  · rfl

/-- What a schema gives that is folded in over another is found in the whole. -/
theorem Gives.find?_fold {into es r : Keyed Value} {keyword : String} {v : Value}
    (h : Gives es keyword v) (hproperties : keyword ≠ "properties") (hrequired : keyword ≠ "required")
    (hr : Schema.fold true into es = .ok r) : Keyed.find? r (.text keyword) = some v := by
  have hfold : ∀ (es into : Keyed Value), (∀ w, (.text keyword, w) ∈ es → w = v) →
      Keyed.find? into (.text keyword) = some v ∨ (.text keyword, v) ∈ es →
      Schema.fold true into es = .ok r → Keyed.find? r (.text keyword) = some v := by
    intro es
    induction es with
    | nil =>
      intro into _ hinto hr
      obtain rfl := Except.ok.inj hr
      exact hinto.resolve_right (by simp)
    | cons e rest ih =>
      obtain ⟨k, w⟩ := e
      intro into honly hinto hr
      rw [Schema.fold] at hr
      obtain ⟨next, hnext, hr⟩ := bind_eq_ok.1 hr
      have honly' : ∀ w, (.text keyword, w) ∈ rest → w = v :=
        fun w hw => honly w (List.mem_cons_of_mem _ hw)
      refine ih next honly' ?_ hr
      by_cases hk : k = .text keyword
      · subst hk
        obtain rfl := honly w List.mem_cons_self
        rw [foldEntry_keyword hproperties hrequired, Bool.true_or, if_pos rfl] at hnext
        rw [← Except.ok.inj hnext]
        exact Or.inl (by rw [Keyed.find?_put, if_pos (Scalar.same_refl _)])
      · rw [find?_foldEntry_other hk hnext]
        refine hinto.imp_right fun hmem => (List.mem_cons.1 hmem).resolve_left fun heq => hk ?_
        exact (Prod.mk.inj heq).1.symm
  exact hfold es into h.only (Or.inr h.there) hr

section

variable {settings : Settings} {follow : String → Outcome Merged}
  {deprecated : Value → Except Fault Bool}

/-- A scalar or a list of scalars: nothing in it is merged. -/
def IsPlain (v : Value) : Prop :=
  (∃ s, v = .scalar s) ∨ ∃ ss : List Scalar, v = .list (ss.map .scalar)

theorem mergeAs_plain {role : Role} {v : Value} (h : IsPlain v) :
    mergeAs settings follow deprecated role v = pure ⟨v, []⟩ := by
  by_cases hrole : role = .literal
  · rw [hrole, mergeAs_literal]
  · rcases h with ⟨s, rfl⟩ | ⟨ss, rfl⟩
    · exact mergeAs_scalar ..
    · have hitems : mergeItems settings follow deprecated (ss.map .scalar) =
          pure (ss.map Value.scalar) := by
        induction ss with
        | nil => rfl
        | cons s rest ih =>
          rw [List.map_cons, mergeItems_cons, mergeAs_scalar, ih]
          simp
      rw [mergeAs_list _ _ _ hrole, hitems]
      simp

/-- What stands under a keyword that is merged as such is there after it. -/
theorem mem_mergeEntries {skips : Scalar → Bool} {es : Keyed Value} {p : Parts} {keyword : String}
    {v : Value} (hv : (.text keyword, v) ∈ es) (hskips : skips (.text keyword) = false)
    (hvendor : settings.isVendor keyword = false)
    (hp : (mergeEntries settings follow deprecated skips es).result = .ok p) :
    ∃ m, (mergeAs settings follow deprecated (roleOf keyword) v).result = .ok m ∧
      (.text keyword, m.schema) ∈ p.entries := by
  induction es generalizing p with
  | nil => cases hv
  | cons e rest ih =>
    obtain ⟨k, w⟩ := e
    obtain ⟨q, hq, hkept⟩ := mergeEntries_cons_ok hp
    rcases List.mem_cons.1 hv with heq | hv
    · obtain ⟨rfl, rfl⟩ := Prod.mk.inj heq
      rcases hkept with ⟨hskip, -⟩ | ⟨-, keyword', heq, ⟨hvendor', -⟩ | ⟨-, m, hm, rfl⟩⟩
      · rw [hskips] at hskip
        cases hskip
      · obtain rfl := Scalar.text.inj heq
        rw [hvendor] at hvendor'
        cases hvendor'
      · obtain rfl := Scalar.text.inj heq
        exact ⟨m, hm, List.mem_cons_self⟩
    · obtain ⟨m, hm, hmem⟩ := ih hv hq
      rcases hkept with ⟨-, rfl⟩ | ⟨-, -, -, ⟨-, rfl⟩ | ⟨-, m', -, rfl⟩⟩
      · exact ⟨m, hm, hmem⟩
      · exact ⟨m, hm, hmem⟩
      · exact ⟨m, hm, List.mem_cons_of_mem _ hmem⟩

/-- What is given under a keyword is given, merged, after the entries are merged. -/
theorem Gives.mergeEntries {skips : Scalar → Bool} {es : Keyed Value} {p : Parts} {keyword : String}
    {v : Value} (h : Gives es keyword v) (hskips : skips (.text keyword) = false)
    (hvendor : settings.isVendor keyword = false)
    (hp : (mergeEntries settings follow deprecated skips es).result = .ok p) :
    ∃ m, (mergeAs settings follow deprecated (roleOf keyword) v).result = .ok m ∧
      Gives p.entries keyword m.schema := by
  obtain ⟨m, hm, hmem⟩ := mem_mergeEntries h.there hskips hvendor hp
  refine ⟨m, hm, hmem, fun w hw => ?_⟩
  obtain ⟨-, hentries⟩ := mergeEntries_ok hp
  obtain ⟨keyword', v', m', heq, hv', -, -, hm', rfl⟩ := hentries _ w hw
  obtain rfl := Scalar.text.inj heq
  rw [h.only v' hv', hm] at hm'
  rw [Except.ok.inj hm']

/-- Branches leave what is given already. -/
theorem Gives.mergeBranches {bs : List Value} {into p : Parts} {keyword : String} {v : Value}
    (h : Gives into.entries keyword v) (hproperties : keyword ≠ "properties")
    (hrequired : keyword ≠ "required")
    (hp : (mergeBranches settings follow deprecated bs into).result = .ok p) :
    Gives p.entries keyword v :=
  mergeBranches_induction (p := fun p => Gives p.entries keyword v)
    (fun _ _ _ _ _ hinto =>
      ⟨fun _ _ _ hfold => hinto.fold hproperties hrequired hfold, fun _ => hinto⟩) h hp

/-- A keyword that is merged by itself: it stands for no reference and no parts, it is not united with the
keyword of another schema, and it is no vendor extension. -/
def StandsAlone (settings : Settings) (keyword : String) : Prop :=
  keyword ∉ ["$ref", "allOf", "properties", "required"] ∧ settings.isVendor keyword = false

/-- What a schema gives under a keyword of its own is given, merged, by what it comes to. -/
theorem Gives.mergeBeside {es : Keyed Value} {p : Parts} {keyword : String} {v : Value}
    (h : Gives es keyword v) (hkeyword : StandsAlone settings keyword)
    (hp : (mergeBeside settings follow deprecated es).result = .ok p) :
    ∃ m, (mergeAs settings follow deprecated (roleOf keyword) v).result = .ok m ∧
      Gives p.entries keyword m.schema := by
  obtain ⟨hnames, hvendor⟩ := hkeyword
  simp only [List.mem_cons, List.not_mem_nil, or_false, not_or] at hnames
  obtain ⟨href, hallOf, hproperties, hrequired⟩ := hnames
  have hskips : isStructural es (.text keyword) = false := by simp [isStructural, href, hallOf]
  obtain ⟨own, rest, hown, hrest, hbranches⟩ := mergeBeside_ok hp
  obtain ⟨m, hm, hgives⟩ := h.mergeEntries hskips hvendor hown
  have hfinished : Gives rest.entries keyword m.schema := hgives.finish hrequired hrest
  refine ⟨m, hm, ?_⟩
  rcases hbranches with ⟨-, rfl⟩ | ⟨-, whole, hwhole, hfinish⟩
  · exact hfinished
  · have hinto := hfinished.withoutStrayRequired hrequired
    exact Gives.finish (hinto.mergeBranches hproperties hrequired hwhole) hrequired hfinish

omit follow deprecated in
/-- A schema that gives something is no reference that stands alone. -/
theorem Gives.hasSiblings {es : Keyed Value} {keyword : String} {v : Value} (h : Gives es keyword v)
    (href : keyword ≠ "$ref") : hasSiblings es = true :=
  List.any_eq_true.2 ⟨_, h.there, by simpa using href⟩

/-- **What a schema gives under a keyword of its own wins**: it is found, merged, in what the schema comes to,
whatever the schema refers to and is composed of. -/
theorem Gives.find?_mergeAs {es : Keyed Value} {keyword : String} {v : Value} {m : Merged}
    (h : Gives es keyword v) (hkeyword : StandsAlone settings keyword)
    (hes : Settings.isDeprecated es = false)
    (hm : (mergeAs settings follow deprecated .schema (.map es)).result = .ok m)
    {xs : Keyed Value} (hxs : m.schema = .map xs) :
    ∃ n, (mergeAs settings follow deprecated (roleOf keyword) v).result = .ok n ∧
      Keyed.find? xs (.text keyword) = some n.schema := by
  have hnames := hkeyword.1
  simp only [List.mem_cons, List.not_mem_nil, or_false, not_or] at hnames
  obtain ⟨href, -, hproperties, hrequired⟩ := hnames
  rcases mergeAs_schema_ok hm with
    ⟨hdeprecated, -⟩ | ⟨-, ⟨ref, target, -, -, hoverlay⟩ | ⟨-, whole, hwhole, rfl⟩⟩
  · rw [hes] at hdeprecated
    cases hdeprecated
  · rcases overlay_ok hoverlay with
      ⟨base, own, whole, done, -, -, hown, hwhole, hdone, rfl⟩ | ⟨rfl, hmap | halone⟩
    · obtain ⟨n, hn, hgives⟩ := h.mergeBeside hkeyword hown
      obtain rfl := Value.map.inj hxs
      rw [find?_finish hrequired hdone]
      exact ⟨n, hn, hgives.find?_fold hproperties hrequired hwhole⟩
    · exact absurd hxs (hmap xs)
    · rw [h.hasSiblings href] at halone
      cases halone
  · obtain ⟨n, hn, hgives⟩ := h.mergeBeside hkeyword hwhole
    obtain rfl := Value.map.inj hxs
    exact ⟨n, hn, hgives.find?⟩

end

end ToolCatalog.Schema
