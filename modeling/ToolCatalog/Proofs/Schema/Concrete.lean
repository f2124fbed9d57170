import ToolCatalog.Proofs.Schema.Gathering
import ToolCatalog.Proofs.Schema.NormalForm
import ToolCatalog.Proofs.Schema.References

/-!
# Merged schemas are concrete

A merged schema says itself what it stands for: at no schema position is a reference, a composition or a
mark of deprecation left, so merging it again gives it back as it is.  `Concrete` is the grammar of such
values.  A mapping is `Resolved` if it has all that the grammar asks but for the required names, which
finishing brings about; folding keeps a mapping resolved.

There is one way to bring such a mark into a merged schema: to put it behind a reference.  What stands under
`deprecated` is merged like any other keyword, so a reference there may become `true`.  Schemas are `Direct`
if they hold no such thing.

* `merge_merge`: merged schemas are concrete, and merging them again changes nothing.
-/

namespace ToolCatalog.Schema

/-- The keywords that say what kind of schema a mapping is. -/
def kindKeywords : List String := ["$ref", "allOf", "deprecated"]

/-- A value as a document can be, in which no mapping has a reference under a keyword that says what kind
of schema it is. -/
structure Direct (v : Value) : Prop where
  wellFormed : v.WellFormed
  /-- Parts are collections. -/
  collections : ∀ n body, Value.Within (.part n body) v → ∀ s, (body ()).opened ≠ .scalar s
  direct : ∀ es, Value.Within (.map es) v → ∀ keyword ∈ kindKeywords,
    (Keyed.find? es (.text keyword)).bind reference? = none

/-- What can stand under a keyword without making the mapping a reference, a composition or a deprecated
schema. -/
structure Inert (k : Scalar) (v : Value) : Prop where
  reference : k = .text "$ref" → ∀ s, v ≠ .text s
  composition : k = .text "allOf" → ∀ vs, v.opened ≠ .list vs
  deprecation : k = .text "deprecated" → v ≠ .bool true

/-- A mapping that is a schema in its own right. -/
structure IsConcrete (es : Keyed Value) : Prop where
  texts : ∀ k ∈ Keyed.keys es, ∃ s, k = .text s
  inert : ∀ k v, (k, v) ∈ es → Inert k v
  required : NamesAreKeys es

/-- The values that merging leaves as they are, but for names and vendor extensions: every mapping at a
schema position is a schema in its own right, and no part is left outside data. -/
inductive Concrete : Role → Value → Prop
  | literal (v : Value) : Concrete .literal v
  | scalar {role : Role} (s : Scalar) : Concrete role (.scalar s)
  | pair {role : Role} (a b : Value) : Concrete role (.pair a b)
  | set {role : Role} (ms : List Scalar) : Concrete role (.set ms)
  | list {role : Role} {vs : List Value} :
    (∀ v ∈ vs, Concrete role.item v) → Concrete role (.list vs)
  | map {role : Role} {es : Keyed Value} :
    (role = .schema → IsConcrete es) → (∀ k v, (k, v) ∈ es → Concrete (role.under k) v) →
    Concrete role (.map es)

/-- A schema on its way to be concrete: all but the required names. -/
structure Resolved (es : Keyed Value) : Prop where
  texts : ∀ k ∈ Keyed.keys es, ∃ s, k = .text s
  inert : ∀ k v, (k, v) ∈ es → Inert k v
  entries : ∀ k v, (k, v) ∈ es → Concrete (Role.under .schema k) v

/-! ## Marks -/

/-- Under most keywords anything can stand. -/
theorem inert_of_not_mem {keyword : String} (h : keyword ∉ kindKeywords) (v : Value) :
    Inert (.text keyword) v := by
  have hne : ∀ mark ∈ kindKeywords, Scalar.text keyword ≠ .text mark := by
    rintro mark hmark heq
    exact h (Scalar.text.inj heq ▸ hmark)
  exact ⟨fun heq => absurd heq (hne _ (by decide)), fun heq => absurd heq (hne _ (by decide)),
    fun heq => absurd heq (hne _ (by decide))⟩

section

variable {es : Keyed Value} (h : ∀ k v, (k, v) ∈ es → Inert k v)

include h

theorem reference?_of_inert : reference? (.map es) = none := by
  unfold reference?
  simp only [Value.opened]
  split
  · next ref href => exact absurd rfl ((h _ _ (Keyed.mem_of_find?_text href)).reference rfl ref)
  · rfl

theorem isComposed_of_inert : isComposed es = false := by
  unfold isComposed
  split
  · next vs hvs =>
    obtain ⟨v, hv, hopened⟩ := Option.map_eq_some_iff.1 hvs
    exact absurd hopened ((h _ v (Keyed.mem_of_find?_text hv)).composition rfl vs)
  · rfl

theorem isDeprecated_of_inert : Settings.isDeprecated es = false := by
  unfold Settings.isDeprecated
  split
  · next hv => exact absurd rfl ((h _ _ (Keyed.mem_of_find?_text hv)).deprecation rfl)
  · rfl

end

/-- No mapping at a schema position of a concrete value is of another kind. -/
theorem Concrete.isConcrete {role : Role} {v : Value} {es : Keyed Value} (h : Concrete role v)
    (hes : Subschema role v es) : IsConcrete es := by
  induction hes with
  | here es =>
    cases h with
    | map hschema _ => exact hschema rfl
  | item hv hsub ih =>
    cases h with
    | literal => exact absurd hsub not_subschema_literal
    | list hvs => exact ih (hvs _ hv)
  | entry hv hsub ih =>
    cases h with
    | literal => exact absurd hsub not_subschema_literal
    | map _ hes => exact ih (hes _ _ hv)
  | part hsub =>
    cases h with
    | literal => exact absurd hsub not_subschema_literal

theorem Concrete.reference?_eq_none {v : Value} (h : Concrete .schema v) : reference? v = none := by
  cases h with
  | map hschema _ => exact reference?_of_inert (hschema rfl).inert
  | _ => rfl

/-! ## Folding and finishing -/

namespace Resolved

variable {es : Keyed Value}

theorem nil : Resolved [] := ⟨by simp, by simp, by simp⟩

/-- What is found in a resolved mapping is concrete. -/
theorem of_find? (h : Resolved es) {keyword : String} {v : Value}
    (hv : Keyed.find? es (.text keyword) = some v) : Concrete (roleOf keyword) v :=
  h.entries _ v (Keyed.mem_of_find?_text hv)

/-- A resolved mapping is concrete if its required names are keys. -/
theorem concrete (h : Resolved es) (hrequired : NamesAreKeys es) : Concrete .schema (.map es) :=
  .map (fun _ => ⟨h.texts, h.inert, hrequired⟩) h.entries

theorem put (h : Resolved es) {keyword : String} {v : Value} (hinert : Inert (.text keyword) v)
    (hv : Concrete (roleOf keyword) v) : Resolved (Keyed.put es (.text keyword) v) := by
  have hmem : ∀ {e : Scalar × Value}, e ∈ Keyed.put es (.text keyword) v →
      e ∈ es ∨ e = (.text keyword, v) := by
    rintro ⟨k, w⟩ he
    refine (Keyed.mem_put he).imp_right ?_
    rintro ⟨hw, hsame, -⟩
    exact Prod.ext ((Scalar.same_text keyword k).1 hsame) hw
  refine ⟨fun k hk => ?_, fun k w hw => ?_, fun k w hw => ?_⟩
  · obtain ⟨w, hw⟩ := Keyed.mem_keys.1 hk
    rcases hmem hw with hw | heq
    · exact h.texts k (Keyed.mem_keys_of_mem hw)
    · exact ⟨keyword, congrArg Prod.fst heq⟩
  · rcases hmem hw with hw | heq
    · exact h.inert k w hw
    · obtain ⟨rfl, rfl⟩ := Prod.mk.inj heq
      exact hinert
  · rcases hmem hw with hw | heq
    · exact h.entries k w hw
    · obtain ⟨rfl, rfl⟩ := Prod.mk.inj heq
      exact hv

theorem without (h : Resolved es) (q : Scalar) : Resolved (Keyed.without es q) := by
  refine ⟨fun k hk => ?_, fun k v hv => h.inert k v (Keyed.mem_without.1 hv).1,
    fun k v hv => h.entries k v (Keyed.mem_without.1 hv).1⟩
  obtain ⟨v, hv⟩ := Keyed.mem_keys.1 hk
  exact h.texts k (Keyed.mem_keys_of_mem (Keyed.mem_without.1 hv).1)

theorem withoutStrayRequired (h : Resolved es) : Resolved (Schema.withoutStrayRequired es) := by
  unfold Schema.withoutStrayRequired
  split
  · exact h
  · exact h
  · exact h.without _

theorem openProperties (h : Resolved es) {existing : Keyed Value}
    (hexisting : Schema.openProperties es = .ok existing) :
    Concrete .properties (.map existing) := by
  have hnil : Concrete .properties (.map []) := .map (by simp) (by simp)
  unfold Schema.openProperties at hexisting
  split at hexisting
  · next ps hps =>
    obtain rfl := Except.ok.inj hexisting
    simpa using h.of_find? hps
  · split at hexisting
    · cases hexisting
    · obtain rfl := Except.ok.inj hexisting
      exact hnil
  · obtain rfl := Except.ok.inj hexisting
    exact hnil

theorem openRequired (h : Resolved es) : ∀ v ∈ Schema.openRequired es, Concrete .schema v := by
  unfold Schema.openRequired
  split
  · next names hnames =>
    have hlist := h.of_find? hnames
    rw [roleOf_required] at hlist
    cases hlist with
    | list hvs => exact hvs
  · simp

theorem foldEntry {overrides : Bool} {into r : Keyed Value} {keyword : String} {v : Value}
    (h : Resolved into) (hinert : Inert (.text keyword) v) (hv : Concrete (roleOf keyword) v)
    (hr : Schema.foldEntry overrides into (.text keyword) v = .ok r) : Resolved r := by
  rcases foldEntry_ok hr with
    ⟨ps, existing, hk, rfl, hexisting, rfl⟩ | ⟨names, hk, rfl, rfl⟩ | rfl | rfl
  · obtain rfl := Scalar.text.inj hk
    refine h.put (inert_of_not_mem (by decide) _) ?_
    rw [roleOf_properties] at hv ⊢
    cases h.openProperties hexisting with
    | map _ hes =>
    cases hv with
    | map _ hps =>
    refine .map (by simp) fun k w hw => ?_
    rcases Keyed.mem_putAll hw with hw | ⟨q, hq, -⟩
    · exact hes k w hw
    · exact hps q w hq
  · obtain rfl := Scalar.text.inj hk
    refine h.put (inert_of_not_mem (by decide) _) ?_
    rw [roleOf_required] at hv ⊢
    cases hv with
    | list hnames =>
    exact .list fun w hw => (Value.mem_union hw).elim (h.openRequired w) (hnames w)
  · exact h.put hinert hv
  · exact h

theorem fold {overrides : Bool} {into r : Keyed Value} (h : Resolved into) (hes : Resolved es)
    (hr : Schema.fold overrides into es = .ok r) : Resolved r := by
  refine fold_induction (p := Resolved) (fun into k v r hkv hinto hr => ?_) h hr
  obtain ⟨keyword, rfl⟩ := hes.texts k (Keyed.mem_keys_of_mem hkv)
  exact hinto.foldEntry (hes.inert _ v hkv) (hes.entries _ v hkv) hr

/-- **Finishing a resolved mapping makes it concrete**: names that are no keys would be a fault. -/
theorem finish {settings : Settings} {p q : Parts} (h : Resolved p.entries)
    (hq : Schema.finish settings p = .ok q) : Concrete .schema (.map q.entries) := by
  refine Resolved.concrete ?_ (finish_namesAreKeys hq)
  obtain ⟨-, ⟨-, hes⟩ | ⟨names, kept, hnames, hkept, hes⟩⟩ := finish_ok hq
  · rwa [hes]
  · rw [hes]
    split
    · exact h.without _
    · refine h.put (inert_of_not_mem (by decide) _) ?_
      have hlist := h.of_find? hnames
      rw [roleOf_required] at hlist ⊢
      cases hlist with
      | list hvs => exact .list fun v hv => hvs v (mem_of_keepRequired hkept v hv)

end Resolved

theorem Concrete.resolved {es : Keyed Value} (h : Concrete .schema (.map es)) : Resolved es := by
  cases h with
  | map hschema hes => exact ⟨(hschema rfl).texts, (hschema rfl).inert, hes⟩

/-! ## Merging -/

variable {settings : Settings}

namespace Direct

variable {v : Value}

theorem within (h : Direct v) {w : Value} (hw : Value.Within w v) : Direct w :=
  ⟨h.wellFormed.within hw, fun n body hb => h.collections n body (hb.trans hw),
    fun es hes => h.direct es (hes.trans hw)⟩

/-- A value that is a scalar once it is opened is that scalar. -/
theorem eq_of_opened (h : Direct v) {s : Scalar} (hv : v.opened = .scalar s) : v = .scalar s := by
  cases v with
  | part n body => exact absurd hv (h.collections n body .self s)
  | _ => exact hv

end Direct

theorem direct_scalar (s : Scalar) : Direct (.scalar s) :=
  ⟨Value.keysEverywhere_scalar s, nofun, nofun⟩

theorem direct_list {vs : List Value} : Direct (.list vs) ↔ ∀ v ∈ vs, Direct v := by
  refine ⟨fun h v hv => h.within (.item hv .self), fun h => ⟨?_, fun n body hb => ?_, fun es hes => ?_⟩⟩
  · exact Value.keysEverywhere_list.2 fun v hv => (h v hv).wellFormed
  · cases hb with
    | item hv hb => exact (h _ hv).collections n body hb
  · cases hes with
    | item hv hes => exact (h _ hv).direct es hes

theorem direct_map {es : Keyed Value} :
    Direct (.map es) ↔ Keyed.Distinct es ∧ ∀ e ∈ es,
      (∀ keyword ∈ kindKeywords, e.1 = .text keyword → reference? e.2 = none) ∧ Direct e.2 := by
  constructor
  · intro h
    have hdistinct := (Value.keysEverywhere_map.1 h.wellFormed).1
    refine ⟨hdistinct, fun e he => ⟨fun keyword hkeyword hk => ?_, h.within (.entry he .self)⟩⟩
    have hnone := h.direct es .self keyword hkeyword
    rwa [← hk, Keyed.find?_of_mem he hdistinct, Option.bind_some] at hnone
  · rintro ⟨hdistinct, hes⟩
    have hwellFormed : (Value.map es).WellFormed :=
      Value.keysEverywhere_map.2 ⟨hdistinct, fun _ _ hv => (hes _ hv).2.wellFormed⟩
    refine ⟨hwellFormed, fun n body hb => ?_, fun fs hfs keyword hkeyword => ?_⟩
    · cases hb with
      | entry hv hb => exact (hes _ hv).2.collections n body hb
    · cases hfs with
      | entry hv hfs => exact (hes _ hv).2.direct fs hfs keyword hkeyword
      | self =>
        refine Option.bind_eq_none_iff.2 fun v hv => ?_
        exact (hes _ (Keyed.mem_of_find?_text hv)).1 keyword hkeyword rfl

section

variable {follow : String → Outcome Merged} {deprecated : Value → Except Fault Bool}

/-- Merging makes no scalars and no lists of what is neither a reference nor one of these. -/
theorem opened_of_mergeAs {v : Value} {m : Merged} (hnone : reference? v = none)
    (h : (mergeAs settings follow deprecated .schema v).result = .ok m) :
    (∀ s, m.schema = .scalar s → v.opened = .scalar s) ∧
      ∀ ws, m.schema.opened = .list ws → ∃ vs, v.opened = .list vs := by
  induction v using Value.induction with
  | part n body ih =>
    rw [mergeAs_part _ _ _ (by decide)] at h
    exact ih hnone h
  | list vs =>
    rw [mergeAs_list _ _ _ (by decide)] at h
    obtain ⟨ws, -, h⟩ := Outcome.result_bind_ok.1 h
    obtain rfl := Except.ok.inj h
    exact ⟨nofun, fun _ _ => ⟨vs, rfl⟩⟩
  | map es =>
    rcases mergeAs_schema_ok h with ⟨-, rfl⟩ | ⟨-, ⟨ref, -, href, -⟩ | ⟨-, whole, -, rfl⟩⟩
    · exact ⟨nofun, nofun⟩
    · rw [hnone] at href
      cases href
    · exact ⟨nofun, nofun⟩
  | scalar s =>
    obtain rfl := Except.ok.inj h
    exact ⟨fun _ hs => hs, nofun⟩
  | pair a b =>
    obtain rfl := Except.ok.inj h
    exact ⟨nofun, nofun⟩
  | set ms =>
    obtain rfl := Except.ok.inj h
    exact ⟨nofun, nofun⟩

/-- What is merged under a keyword of a schema that is not deprecated makes the schema no other kind. -/
theorem inert_of_mergeAs {es : Keyed Value} (hdirect : Direct (.map es))
    (hlive : Settings.isDeprecated es = false) {keyword : String} {v : Value} {m : Merged}
    (hv : (.text keyword, v) ∈ es) (hskip : isStructural es (.text keyword) = false)
    (hm : (mergeAs settings follow deprecated (roleOf keyword) v).result = .ok m) :
    Inert (.text keyword) m.schema := by
  rcases Decidable.em (keyword ∈ kindKeywords) with hkeyword | hkeyword
  case inr => exact inert_of_not_mem hkeyword _
  have hfind := Keyed.find?_of_mem hv (Value.keysEverywhere_map.1 hdirect.wellFormed).1
  have hscalar : ∀ s, v.opened = .scalar s → v = .scalar s :=
    fun s => (hdirect.within (.entry hv .self)).eq_of_opened
  have hrole : roleOf keyword = .schema := by
    simp only [kindKeywords, List.mem_cons, List.not_mem_nil, or_false] at hkeyword
    rcases hkeyword with rfl | rfl | rfl <;> decide
  rw [hrole] at hm
  have hnone := hdirect.direct es .self keyword hkeyword
  rw [hfind, Option.bind_some] at hnone
  obtain ⟨hscalars, hlists⟩ := opened_of_mergeAs hnone hm
  simp only [isStructural, Bool.or_eq_false_iff, Bool.and_eq_false_iff] at hskip
  obtain ⟨hreference, hcomposed⟩ := hskip
  refine ⟨fun hk s hs => ?_, fun hk ws hws => ?_, fun hk hs => ?_⟩
  · -- A text that merging leaves is a reference, which is not merged as a keyword.
    obtain rfl := Scalar.text.inj hk
    rw [hscalar _ (hscalars _ hs)] at hfind
    have href : reference? (.map es) = some s := by
      unfold reference?
      simp only [Value.opened]
      rw [hfind]
    simp [isReference, href] at hreference
  · obtain rfl := Scalar.text.inj hk
    obtain ⟨vs, hvs⟩ := hlists ws hws
    have hparts : isComposed es = true := by
      rw [isComposed, hfind, Option.map_some, hvs]
    simp [hparts] at hcomposed
  · obtain rfl := Scalar.text.inj hk
    rw [hscalar _ (hscalars _ hs)] at hfind
    rw [Settings.isDeprecated, hfind] at hlive
    cases hlive

/-- What a mapping that is not deprecated comes to by its own keywords is concrete. -/
theorem mergeBeside_concrete {es : Keyed Value} {p : Parts} (hdirect : Direct (.map es))
    (hlive : Settings.isDeprecated es = false)
    (hes : ∀ k v, (k, v) ∈ es → ∀ role m,
      (mergeAs settings follow deprecated role v).result = .ok m → Concrete role m.schema)
    (hbs : ∀ b ∈ branchesOf es, ∀ m,
      (mergeAs settings follow deprecated .schema b).result = .ok m → Concrete .schema m.schema)
    (h : (mergeBeside settings follow deprecated es).result = .ok p) :
    Concrete .schema (.map p.entries) := by
  obtain ⟨own, rest, hown, hrest, hp⟩ := mergeBeside_ok h
  have hresolved : Resolved own.entries := by
    obtain ⟨-, hmem⟩ := mergeEntries_ok hown
    refine ⟨fun k hk => ?_, fun k w hw => ?_, fun k w hw => ?_⟩
    · obtain ⟨w, hw⟩ := Keyed.mem_keys.1 hk
      obtain ⟨keyword, -, -, rfl, -⟩ := hmem k w hw
      exact ⟨keyword, rfl⟩
    · obtain ⟨keyword, v, m, rfl, hv, hskip, -, hm, rfl⟩ := hmem k w hw
      exact inert_of_mergeAs hdirect hlive hv hskip hm
    · obtain ⟨keyword, v, m, rfl, hv, -, -, hm, rfl⟩ := hmem k w hw
      exact hes _ v hv _ m hm
  have hconcrete := hresolved.finish hrest
  rcases hp with ⟨-, rfl⟩ | ⟨-, whole, hwhole, hp⟩
  · exact hconcrete
  · refine Resolved.finish ?_ hp
    refine mergeBranches_induction (p := fun q => Resolved q.entries) ?_
      hconcrete.resolved.withoutStrayRequired hwhole
    intro b hb m hm into hinto
    refine ⟨fun fs entries hfs hfold => ?_, fun _ => hinto⟩
    have hbranch := hbs b hb m hm
    rw [hfs] at hbranch
    exact hinto.fold hbranch.resolved hfold

/-- **Merging in a role gives a value that is concrete in that role**, if references do. -/
theorem mergeAs_concrete
    (hfollow : ∀ ref m, (follow ref).result = .ok m → Concrete .schema m.schema) {role : Role}
    {v : Value} {m : Merged} (hv : Direct v)
    (h : (mergeAs settings follow deprecated role v).result = .ok m) : Concrete role m.schema := by
  refine mergeAs_induction (motive := fun role v w => Direct v → Concrete role w)
    (fun v _ => .literal v) (fun _ s _ => .scalar s) (fun _ a b _ => .pair a b)
    (fun _ ms _ => .set ms) ?list ?part ?properties ?names ?dropped ?reference ?beside h hv
  case list =>
    intro role vs ws hr hws hvs
    refine .list fun w hw => ?_
    obtain ⟨v, hv, hw⟩ := hws w hw
    have hitem : role.item = .schema := by cases role <;> simp_all [Role.item]
    rw [hitem]
    exact hw (hvs.within (.item hv .self))
  case part => exact fun role n body w hw hbody => hw (hbody.within (.part .self))
  case properties =>
    intro es ps _ hps hes
    refine .map (by simp) fun k w hw => ?_
    obtain ⟨v, hv, -, hw⟩ := hps k w hw
    exact hw (hes.within (.entry hv .self))
  case names =>
    intro es ns _ hns hes
    refine .map (by simp) fun k w hw => ?_
    obtain ⟨v, hv, hw⟩ := hns k w hw
    exact hw (hes.within (.entry hv .self))
  case dropped => exact fun _ _ => Resolved.nil.concrete namesAreKeys_nil
  case reference =>
    intro es ref target m htarget hbeside h hes
    have htarget := hfollow ref target htarget
    rcases overlay_ok h with ⟨base, own, whole, done, hbase, -, hown, hwhole, hdone, rfl⟩ | ⟨rfl, -⟩
    · rw [hbase] at htarget
      have hresolved : Resolved whole := htarget.resolved.fold (hbeside own hown hes).resolved hwhole
      exact Resolved.finish (p := ⟨whole, _⟩) hresolved hdone
    · exact htarget
  case beside =>
    intro es q hlive hentry hbranch h hes
    refine mergeBeside_concrete hes hlive (fun k v hv role m hm => ?_) (fun b hb m hm => ?_) h
    · exact hentry k v hv role m hm (hes.within (.entry hv .self))
    · exact hbranch b hb m hm (hes.within (within_of_mem_branchesOf hb))

/-! ## Merging again -/

/-- Required names in order that are keys are kept as they are. -/
theorem finish_concrete {es : Keyed Value} (hnormal : IsNormal settings es)
    (hconcrete : IsConcrete es) : finish settings ⟨es, []⟩ = .ok ⟨es, []⟩ := by
  unfold finish
  simp only [List.filter_nil]
  split
  · next names hnames =>
    have horder := hnormal.required names hnames
    have hstays : ∀ v ∈ names, staysRequired settings (propertiesOf es) [] v = true := by
      intro v hv
      cases v with
      | scalar k =>
        have hnullable : (Keyed.find? (propertiesOf es) k).any isNullable = false := by
          cases hp : Keyed.find? (propertiesOf es) k with
          | none => rfl
          | some p => exact horder.notNullable k p hv hp
        simp [staysRequired, isWaived, horder.notRemoved k hv, hnullable]
      | _ => rfl
    have hkept : keepRequired settings (propertiesOf es) [] [] names = .ok names := by
      rw [keepRequired_eq_union (hconcrete.required names hnames), List.filter_eq_self.2 hstays,
        Value.union_of_new horder.distinct fun _ _ => rfl]
      rfl
    rw [hkept]
    have hnonempty : names.isEmpty = false := by
      simpa using horder.nonempty
    show Except.ok _ = _
    rw [hnonempty, if_neg Bool.false_ne_true, Keyed.put_of_find? hnames]
  · rfl

theorem mergeItems_fixed {vs : List Value}
    (h : ∀ v ∈ vs, (mergeAs settings follow deprecated .schema v).result = .ok ⟨v, []⟩) :
    (mergeItems settings follow deprecated vs).result = .ok vs := by
  induction vs with
  | nil => rfl
  | cons v rest ih =>
    rw [mergeItems_cons]
    exact Outcome.result_bind_ok.2 ⟨_, h v List.mem_cons_self, Outcome.result_bind_ok.2
      ⟨rest, ih fun w hw => h w (List.mem_cons_of_mem _ hw), rfl⟩⟩

theorem mergeNamed_fixed {es : Keyed Value}
    (h : ∀ k v, (k, v) ∈ es → (mergeAs settings follow deprecated .schema v).result = .ok ⟨v, []⟩) :
    (mergeNamed settings follow deprecated es).result = .ok es := by
  induction es with
  | nil => rfl
  | cons e rest ih =>
    obtain ⟨k, v⟩ := e
    rw [mergeNamed_cons]
    exact Outcome.result_bind_ok.2 ⟨_, h k v List.mem_cons_self, Outcome.result_bind_ok.2
      ⟨rest, ih fun q w hw => h q w (List.mem_cons_of_mem _ hw), rfl⟩⟩

theorem mergeProperties_fixed {es : Keyed Value}
    (hkept : ∀ k v, (k, v) ∈ es → settings.excludes k v = false ∧ deprecated v = .ok false)
    (h : ∀ k v, (k, v) ∈ es → (mergeAs settings follow deprecated .schema v).result = .ok ⟨v, []⟩) :
    (mergeProperties settings follow deprecated es).result = .ok ⟨es, []⟩ := by
  induction es with
  | nil => rfl
  | cons e rest ih =>
    obtain ⟨k, v⟩ := e
    obtain ⟨hexcludes, hdeprecated⟩ := hkept k v List.mem_cons_self
    have hrest := ih (fun q w hw => hkept q w (List.mem_cons_of_mem _ hw))
      fun q w hw => h q w (List.mem_cons_of_mem _ hw)
    rw [mergeProperties_cons, hexcludes, hdeprecated, if_neg Bool.false_ne_true]
    exact Outcome.result_bind_ok.2 ⟨_, h k v List.mem_cons_self, Outcome.result_bind_ok.2
      ⟨false, rfl, Outcome.result_bind_ok.2 ⟨_, hrest, rfl⟩⟩⟩

theorem mergeEntries_fixed {skips : Scalar → Bool} {es : Keyed Value}
    (hskips : ∀ k, skips k = false) (htexts : ∀ k ∈ Keyed.keys es, ∃ s, k = .text s)
    (hvendor : ∀ name, .text name ∈ Keyed.keys es → settings.isVendor name = false)
    (h : ∀ k v, (k, v) ∈ es →
      (mergeAs settings follow deprecated (Role.under .schema k) v).result = .ok ⟨v, []⟩) :
    (mergeEntries settings follow deprecated skips es).result = .ok ⟨es, []⟩ := by
  induction es with
  | nil => rfl
  | cons e rest ih =>
    obtain ⟨k, v⟩ := e
    obtain ⟨keyword, rfl⟩ := htexts k List.mem_cons_self
    have hrest := ih (fun q hq => htexts q (List.mem_cons_of_mem _ hq))
      (fun name hname => hvendor name (List.mem_cons_of_mem _ hname))
      fun q w hw => h q w (List.mem_cons_of_mem _ hw)
    rw [mergeEntries_cons, hskips, if_neg Bool.false_ne_true]
    simp only [hvendor keyword List.mem_cons_self, if_neg Bool.false_ne_true]
    refine Outcome.result_bind_ok.2 ⟨_, h _ v List.mem_cons_self,
      Outcome.result_bind_ok.2 ⟨_, hrest, ?_⟩⟩
    simp only [ite_self]
    rfl

/-- **What is normal and concrete is merged to itself**, however references are resolved. -/
theorem mergeAs_fixed (hdeprecated : ∀ v, reference? v = none → deprecated v = .ok false)
    {role : Role} {v : Value} (hnormal : Normal settings role v) (hconcrete : Concrete role v) :
    (mergeAs settings follow deprecated role v).result = .ok ⟨v, []⟩ := by
  induction v using Value.induction generalizing role with
  | scalar s => rfl
  | pair a b => rfl
  | set ms => rfl
  | part n body =>
    cases hconcrete with
    | literal => rfl
  | list vs ih =>
    by_cases hr : role = .literal
    · rw [hr, mergeAs_literal]
      rfl
    · cases hnormal with
      | literal => exact absurd rfl hr
      | list hvs =>
      cases hconcrete with
      | literal => exact absurd rfl hr
      | list hvs' =>
      have hitem : role.item = .schema := by cases role <;> simp_all [Role.item]
      rw [hitem] at hvs hvs'
      rw [mergeAs_list _ _ _ hr]
      exact Outcome.result_bind_ok.2
        ⟨vs, mergeItems_fixed fun v hv => ih v hv (hvs v hv) (hvs' v hv), rfl⟩
  | map es ih =>
    cases role with
    | literal => rfl
    | properties =>
      cases hnormal with
      | map _ hremoved hes =>
      cases hconcrete with
      | map _ hes' =>
      rw [mergeAs_properties]
      refine Outcome.result_bind_ok.2 ⟨⟨es, []⟩, mergeProperties_fixed (fun k v hv => ⟨?_, ?_⟩)
        (fun k v hv => ih k v hv (hes k v hv) (hes' k v hv)), rfl⟩
      · have hdropped : isDeprecatedNode v = false := by
          cases hes' k v hv with
          | map hschema _ => exact isDeprecated_of_inert (hschema rfl).inert
          | _ => rfl
        rw [Settings.excludes, hremoved rfl k (Keyed.mem_keys_of_mem hv)]
        exact hdropped
      · exact hdeprecated v (hes' k v hv).reference?_eq_none
    | names =>
      cases hnormal with
      | map _ _ hes =>
      cases hconcrete with
      | map _ hes' =>
      rw [mergeAs_names]
      exact Outcome.result_bind_ok.2
        ⟨es, mergeNamed_fixed fun k v hv => ih k v hv (hes k v hv) (hes' k v hv), rfl⟩
    | schema =>
      cases hnormal with
      | map hschema _ hes =>
      cases hconcrete with
      | map hschema' hes' =>
      have hinert := (hschema' rfl).inert
      have hskips : ∀ k, isStructural es k = false := by
        intro k
        rw [isStructural, isReference, reference?_of_inert hinert, isComposed_of_inert hinert]
        rfl
      have hown := mergeEntries_fixed hskips (hschema' rfl).texts (hschema rfl).noVendor
        fun k v hv => ih k v hv (hes k v hv) (hes' k v hv)
      rw [mergeAs_schema, isDeprecated_of_inert hinert, if_neg Bool.false_ne_true,
        reference?_of_inert hinert]
      refine Outcome.result_bind_ok.2 ⟨⟨es, []⟩, Outcome.result_bind_ok.2 ⟨_, hown, ?_⟩, rfl⟩
      rw [compose, finish_concrete (hschema rfl) (hschema' rfl), isComposed_of_inert hinert]
      rfl

end

/-- **Merged schemas are concrete, and merging is idempotent.**  If no mapping of the document or the node
has a reference under `$ref`, `allOf` or `deprecated`, then no mapping at a schema position of a merged
schema is a reference, composed of parts or deprecated, and merging the schema again, whatever references are
open, gives exactly the same. -/
theorem merge_merge (settings : Settings) (document node r : Value) (visited : List String)
    (hdocument : Direct document) (hnode : Direct node)
    (h : (merge settings document visited node).result = .ok r) :
    (∀ es, Subschema .schema r es → reference? (.map es) = none ∧ isComposed es = false ∧
      Settings.isDeprecated es = false) ∧
    ∀ visited', (merge settings document visited' r).result = .ok r := by
  have hconcrete : Concrete .schema r := by
    obtain ⟨m, hm, rfl⟩ := merge_ok h
    exact mergeVisited_induction (p := fun m => Concrete .schema m.schema)
      (fun _ _ hwalk => hdocument.within (Pointer.within_of_walk hwalk))
      (fun _ hfollow _ _ hv hm => mergeAs_concrete hfollow hv hm) hnode hm
  refine ⟨fun es hes => ?_, fun visited' => ?_⟩
  · have hinert := (hconcrete.isConcrete hes).inert
    exact ⟨reference?_of_inert hinert, isComposed_of_inert hinert, isDeprecated_of_inert hinert⟩
  · have hdeprecated : ∀ v, reference? v = none → leadsToDeprecated document v = .ok false := by
      intro v hv
      rw [leadsToDeprecated, leadsToDeprecatedFrom_eq, hv]
    rw [merge]
    exact Outcome.result_bind_ok.2
      ⟨⟨r, []⟩, mergeAs_fixed hdeprecated (merge_normal h) hconcrete, rfl⟩

/-- A composition of a reference: merged again, its schema has nothing left to resolve or to drop. -/
theorem merge_merge_allOf :
    (merge {} (.record [("Pet", .record [
        ("properties", .record [("id", .record []), ("old", .record [("deprecated", .bool true)])]),
        ("required", .list [.text "id", .text "old"])])]) ["#/Pet"]
      (.record [("title", .text "Pet"), ("properties", .record [("id", .record [])]),
        ("required", .list [.text "id"])])).result =
    .ok (.record [("title", .text "Pet"), ("properties", .record [("id", .record [])]),
      ("required", .list [.text "id"])]) := by
  refine (merge_merge {} _ (.record [("allOf", .list [.record [("$ref", .text "#/Pet")]]),
    ("title", .text "Pet")]) _ [] ?_ ?_ (by rfl)).2 ["#/Pet"]
  all_goals
    simp [Value.record, direct_map, direct_list, direct_scalar, Keyed.Distinct, Keyed.keys, Scalar.same,
      kindKeywords, reference?, Value.opened]

end ToolCatalog.Schema
