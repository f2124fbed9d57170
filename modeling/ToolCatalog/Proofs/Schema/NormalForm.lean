import ToolCatalog.Proofs.Schema.Merging

/-!
# The normal form of merged schemas

Every mapping at a schema position of a merged schema is in normal form: it has no vendor extension
and no removed property, and its required names are in order.  `Normal` is the grammar of merged
values, and a mapping that is `Clean` has what the grammar asks but for the order of its required
names, which finishing brings about.  Folding keeps a mapping clean, so each way of putting schemas
together ends with a clean mapping that is then finished.

* `merge_isNormal`: the mappings at schema positions of a merged schema are in normal form.
-/

namespace ToolCatalog.Schema

/-- Required names in order, beside the properties of their schema: there is one at least, none is
the same as an earlier one, none is removed, and none names a property that may be null. -/
structure InOrder (settings : Settings) (properties : Keyed Value) (names : List Value) : Prop where
  nonempty : names ≠ []
  distinct : names.Pairwise fun earlier later => later.same earlier = false
  notRemoved : ∀ name, .scalar name ∈ names → settings.isRemoved name = false
  notNullable : ∀ name schema, .scalar name ∈ names →
    Keyed.find? properties name = some schema → isNullable schema = false

/-- **The normal form of a schema.** -/
structure IsNormal (settings : Settings) (es : Keyed Value) : Prop where
  noVendor : ∀ name, .text name ∈ Keyed.keys es → settings.isVendor name = false
  properties : ∀ ps, Keyed.find? es (.text "properties") = some (.map ps) →
    ∀ name ∈ Keyed.keys ps, settings.isRemoved name = false
  required : ∀ names, Keyed.find? es (.text "required") = some (.list names) →
    InOrder settings (propertiesOf es) names

/-- The values that merging gives in a role: no part is left outside data, no property is removed, and
each schema is in normal form. -/
inductive Normal (settings : Settings) : Role → Value → Prop
  | literal (v : Value) : Normal settings .literal v
  | scalar {role : Role} (s : Scalar) : Normal settings role (.scalar s)
  | pair {role : Role} (a b : Value) : Normal settings role (.pair a b)
  | set {role : Role} (ms : List Scalar) : Normal settings role (.set ms)
  | list {role : Role} {vs : List Value} :
    (∀ v ∈ vs, Normal settings role.item v) → Normal settings role (.list vs)
  | map {role : Role} {es : Keyed Value} :
    (role = .schema → IsNormal settings es) →
    (role = .properties → ∀ name ∈ Keyed.keys es, settings.isRemoved name = false) →
    (∀ k v, (k, v) ∈ es → Normal settings (role.under k) v) → Normal settings role (.map es)

/-- A schema on its way to normal form: all but the order of the required names. -/
structure Clean (settings : Settings) (es : Keyed Value) : Prop where
  noVendor : ∀ name, .text name ∈ Keyed.keys es → settings.isVendor name = false
  entries : ∀ k v, (k, v) ∈ es → Normal settings (Role.under .schema k) v

variable {settings : Settings}

/-- What stands at schema positions of a normal value is normal. -/
theorem Normal.subschema {role : Role} {v : Value} {es : Keyed Value} (h : Normal settings role v)
    (hes : Subschema role v es) : Normal settings .schema (.map es) := by
  induction hes with
  | here es => exact h
  | item hv hsub ih =>
    cases h with
    | literal => exact absurd hsub not_subschema_literal
    | list hvs => exact ih (hvs _ hv)
  | @entry role _ k _ _ hv hsub ih =>
    cases h with
    | literal => exact absurd hsub not_subschema_literal
    | map _ _ hes => exact ih (hes _ _ hv)
  | part hsub =>
    cases h with
    | literal => exact absurd hsub not_subschema_literal

/-- The mappings at schema positions of a normal value are in normal form. -/
theorem Normal.isNormal {role : Role} {v : Value} {es : Keyed Value} (h : Normal settings role v)
    (hes : Subschema role v es) : IsNormal settings es := by
  cases h.subschema hes with
  | map hschema _ _ => exact hschema rfl

theorem Normal.clean {es : Keyed Value} (h : Normal settings .schema (.map es)) :
    Clean settings es := by
  cases h with
  | map hschema _ hes => exact ⟨(hschema rfl).noVendor, hes⟩

namespace Clean

variable {es : Keyed Value}

theorem nil : Clean settings [] := ⟨by simp, by simp⟩

/-- What is found in a clean mapping is normal. -/
theorem of_find? (h : Clean settings es) {keyword : String} {v : Value}
    (hv : Keyed.find? es (.text keyword) = some v) : Normal settings (roleOf keyword) v :=
  h.entries _ v (Keyed.mem_of_find?_text hv)

/-- A clean mapping has no removed property. -/
theorem properties (h : Clean settings es) {ps : Keyed Value}
    (hps : Keyed.find? es (.text "properties") = some (.map ps)) :
    ∀ name ∈ Keyed.keys ps, settings.isRemoved name = false := by
  have hn := h.of_find? hps
  rw [roleOf_properties] at hn
  cases hn with
  | map _ hproperties _ => exact hproperties rfl

/-- A clean mapping whose required names are in order is normal. -/
theorem normal (h : Clean settings es)
    (hreq : ∀ names, Keyed.find? es (.text "required") = some (.list names) →
      InOrder settings (propertiesOf es) names) : Normal settings .schema (.map es) := by
  refine .map (fun _ => ⟨h.noVendor, fun ps hps => h.properties hps, hreq⟩) ?_ h.entries
  intro hr
  cases hr

/-- Writing a normal value keeps a mapping clean. -/
theorem put (h : Clean settings es) {k : Scalar} {v : Value}
    (hk : ∀ name, k = .text name → settings.isVendor name = false)
    (hv : Normal settings (Role.under .schema k) v) : Clean settings (Keyed.put es k v) := by
  constructor
  · intro name hname
    obtain ⟨w, hw⟩ := Keyed.mem_keys.1 hname
    rcases Keyed.mem_put hw with hw | ⟨-, -, hw | hw⟩
    · exact h.noVendor name (Keyed.mem_keys_of_mem hw)
    · exact hk name hw.symm
    · exact h.noVendor name hw
  · intro k' w hw
    rcases Keyed.mem_put hw with hw | ⟨rfl, hs, -⟩
    · exact h.entries k' w hw
    · rw [← Role.under_congr hs]
      exact hv

theorem without (h : Clean settings es) (k : Scalar) : Clean settings (Keyed.without es k) := by
  constructor
  · intro name hname
    obtain ⟨w, hw⟩ := Keyed.mem_keys.1 hname
    exact h.noVendor name (Keyed.mem_keys_of_mem (Keyed.mem_without.1 hw).1)
  · intro k' w hw
    exact h.entries k' w (Keyed.mem_without.1 hw).1

theorem withoutStrayRequired (h : Clean settings es) :
    Clean settings (Schema.withoutStrayRequired es) := by
  unfold Schema.withoutStrayRequired
  split
  · exact h
  · exact h
  · exact h.without _

end Clean

/-! ## Folding keeps a mapping clean -/

/-- The properties that others are added to are normal. -/
theorem Clean.openProperties {es existing : Keyed Value} (h : Clean settings es)
    (he : Schema.openProperties es = .ok existing) :
    Normal settings .properties (.map existing) := by
  unfold Schema.openProperties at he
  have hnil : Normal settings .properties (.map []) := .map (by simp) (by simp) (by simp)
  split at he
  · next ps hps =>
    obtain rfl := Except.ok.inj he
    simpa using h.of_find? hps
  · split at he
    · cases he
    · obtain rfl := Except.ok.inj he
      exact hnil
  · obtain rfl := Except.ok.inj he
    exact hnil

/-- The union of two mappings of properties is normal. -/
theorem Normal.putAll {existing ps : Keyed Value}
    (he : Normal settings .properties (.map existing))
    (hp : Normal settings .properties (.map ps)) :
    Normal settings .properties (.map (Keyed.putAll existing ps)) := by
  cases he with
  | map _ hek hev =>
  cases hp with
  | map _ hpk hpv =>
  refine .map (by simp) (fun _ name hname => ?_) (fun k v hkv => ?_)
  · obtain ⟨v, hv⟩ := Keyed.mem_keys.1 hname
    rcases Keyed.mem_putAll hv with hv | ⟨k, hk, hs⟩
    · exact hek rfl name (Keyed.mem_keys_of_mem hv)
    · rw [← isRemoved_congr hs]
      exact hpk rfl k (Keyed.mem_keys_of_mem hk)
  · rcases Keyed.mem_putAll hkv with hv | ⟨k', hk', -⟩
    · exact hev k v hv
    · exact hpv k' v hk'

/-- The required names that others are added to are normal. -/
theorem Clean.openRequired {es : Keyed Value} (h : Clean settings es) :
    ∀ v ∈ Schema.openRequired es, Normal settings .schema v := by
  unfold Schema.openRequired
  split
  · next names hn =>
    have hl := h.of_find? hn
    rw [roleOf_required] at hl
    cases hl with
    | list hvs => exact hvs
  · simp

theorem Clean.foldEntry {overrides : Bool} {into r : Keyed Value} {k : Scalar} {v : Value}
    (h : Clean settings into) (hk : ∀ name, k = .text name → settings.isVendor name = false)
    (hv : Normal settings (Role.under .schema k) v)
    (hr : Schema.foldEntry overrides into k v = .ok r) : Clean settings r := by
  rcases foldEntry_ok hr with
    ⟨ps, existing, rfl, rfl, he, rfl⟩ | ⟨names, rfl, rfl, rfl⟩ | rfl | rfl
  · refine h.put hk ?_
    rw [under_schema, roleOf_properties] at hv ⊢
    exact (h.openProperties he).putAll hv
  · refine h.put hk ?_
    rw [under_schema, roleOf_required] at hv ⊢
    cases hv with
    | list hvs =>
      refine .list fun w hw => ?_
      rcases Value.mem_union hw with hw | hw
      · exact h.openRequired w hw
      · exact hvs w hw
  · exact h.put hk hv
  · exact h

theorem Clean.fold {overrides : Bool} {into es r : Keyed Value} (h : Clean settings into)
    (hes : Clean settings es) (hr : Schema.fold overrides into es = .ok r) : Clean settings r := by
  refine fold_induction (p := Clean settings) (fun into k v r hkv hinto hr => ?_) h hr
  refine hinto.foldEntry (fun name hk => ?_) (hes.entries k v hkv) hr
  subst hk
  exact hes.noVendor name (Keyed.mem_keys_of_mem hkv)

/-! ## Finishing puts the required names in order -/

/-- A name that stays is neither removed nor that of a property that may be null. -/
theorem staysRequired_scalar {properties : Keyed Value} {dropped : List Scalar} {name : Scalar}
    (h : staysRequired settings properties dropped (.scalar name) = true) :
    settings.isRemoved name = false ∧
      ∀ schema, Keyed.find? properties name = some schema → isNullable schema = false := by
  simp only [staysRequired, isWaived, Bool.not_or, Bool.and_eq_true, Bool.not_eq_true'] at h
  obtain ⟨⟨-, hr⟩, hn⟩ := h
  refine ⟨hr, fun schema hs => ?_⟩
  rw [hs] at hn
  simpa using hn

theorem keepRequired_inOrder {properties : Keyed Value} {dropped : List Scalar}
    {names kept : List Value}
    (h : keepRequired settings properties dropped [] names = .ok kept) (hne : kept ≠ []) :
    InOrder settings properties kept := by
  let ordered : List Value → Prop := fun vs =>
    (vs.Pairwise fun earlier later => later.same earlier = false) ∧
      ∀ name, .scalar name ∈ vs → staysRequired settings properties dropped (.scalar name) = true
  have hordered : ordered kept := by
    refine keepRequired_induction (p := ordered) ?_ ⟨List.Pairwise.nil, by simp⟩ h
    rintro vs v - ⟨hdistinct, hstays⟩ hamong hv -
    refine ⟨List.pairwise_append.2 ⟨hdistinct, List.pairwise_singleton _ _, ?_⟩, ?_⟩
    · intro w hw v' hv'
      obtain rfl := List.mem_singleton.1 hv'
      simpa using List.any_eq_false.1 hamong w hw
    · intro name hname
      rcases List.mem_append.1 hname with hname | hname
      · exact hstays name hname
      · rw [List.mem_singleton.1 hname]
        exact hv
  exact ⟨hne, hordered.1, fun name hname => (staysRequired_scalar (hordered.2 name hname)).1,
    fun name schema hname => (staysRequired_scalar (hordered.2 name hname)).2 schema⟩

/-- **Finishing brings a clean mapping into normal form.** -/
theorem Clean.finish {p q : Parts} (h : Clean settings p.entries)
    (hq : Schema.finish settings p = .ok q) : Normal settings .schema (.map q.entries) := by
  obtain ⟨-, ⟨hnone, hes⟩ | ⟨names, kept, hnames, hkept, hes⟩⟩ := finish_ok hq
  · rw [hes]
    exact h.normal fun names hn => absurd hn (hnone names)
  · rw [hes]
    by_cases hempty : kept = []
    · subst hempty
      refine (h.without _).normal fun names hn => ?_
      rw [Keyed.find?_without, if_pos (Scalar.same_refl _)] at hn
      cases hn
    · rw [if_neg (by simpa using hempty)]
      -- The names that stay were merged like all others.
      have hl := h.of_find? hnames
      rw [roleOf_required] at hl
      have hclean : Clean settings (Keyed.put p.entries (.text "required") (.list kept)) := by
        refine h.put (fun name hname => ?_) ?_
        · cases hname
          exact h.noVendor _ (Keyed.mem_keys_of_mem (Keyed.mem_of_find?_text hnames))
        · rw [under_schema, roleOf_required]
          cases hl with
          | list hvs => exact .list fun v hv => hvs v (mem_of_keepRequired hkept v hv)
      refine hclean.normal fun names' hn => ?_
      rw [Keyed.find?_put, if_pos (Scalar.same_refl _)] at hn
      cases hn
      rw [propertiesOf_put_required]
      exact keepRequired_inOrder hkept hempty

/-! ## Merging -/

section

variable {follow : String → Outcome Merged} {deprecated : Value → Except Fault Bool}

/-- The own keywords of a mapping are clean, if what stands under each merges to something normal. -/
theorem mergeEntries_clean {skips : Scalar → Bool} {es : Keyed Value} {p : Parts}
    (hes : ∀ k v, (k, v) ∈ es → ∀ role m,
      (mergeAs settings follow deprecated role v).result = .ok m → Normal settings role m.schema)
    (h : (mergeEntries settings follow deprecated skips es).result = .ok p) :
    Clean settings p.entries := by
  obtain ⟨-, hmem⟩ := mergeEntries_ok h
  constructor
  · intro name hname
    obtain ⟨w, hw⟩ := Keyed.mem_keys.1 hname
    obtain ⟨keyword, v, m, hk, -, -, hvendor, -⟩ := hmem _ w hw
    cases hk
    exact hvendor
  · intro k w hw
    obtain ⟨keyword, v, m, rfl, hv, -, -, hm, rfl⟩ := hmem k w hw
    exact hes _ v hv _ m hm

/-- Folding parts into a clean mapping keeps it clean, if each part merges to something normal. -/
theorem mergeBranches_clean {bs : List Value} {into whole : Parts}
    (hbs : ∀ b ∈ bs, ∀ m, (mergeAs settings follow deprecated .schema b).result = .ok m →
      Normal settings .schema m.schema)
    (hinto : Clean settings into.entries)
    (h : (mergeBranches settings follow deprecated bs into).result = .ok whole) :
    Clean settings whole.entries := by
  refine mergeBranches_induction (p := fun q => Clean settings q.entries) ?_ hinto h
  intro b hb m hm into hinto
  have hn := hbs b hb m hm
  refine ⟨fun es entries hes hfold => ?_, fun _ => hinto⟩
  rw [hes] at hn
  exact hinto.fold hn.clean hfold

/-- What a mapping comes to by its own keywords is normal. -/
theorem mergeBeside_normal {es : Keyed Value} {p : Parts}
    (hes : ∀ k v, (k, v) ∈ es → ∀ role m,
      (mergeAs settings follow deprecated role v).result = .ok m → Normal settings role m.schema)
    (hbs : ∀ b ∈ branchesOf es, ∀ m,
      (mergeAs settings follow deprecated .schema b).result = .ok m →
      Normal settings .schema m.schema)
    (h : (mergeBeside settings follow deprecated es).result = .ok p) :
    Normal settings .schema (.map p.entries) := by
  obtain ⟨own, rest, hown, hrest, hp⟩ := mergeBeside_ok h
  have hn := (mergeEntries_clean hes hown).finish hrest
  rcases hp with ⟨-, rfl⟩ | ⟨-, whole, hwhole, hp⟩
  · exact hn
  · exact (mergeBranches_clean hbs hn.clean.withoutStrayRequired hwhole).finish hp

/-- What a reference with keywords beside it comes to is normal. -/
theorem overlay_normal {es : Keyed Value} {target m : Merged} {beside : Unit → Outcome Parts}
    (htarget : Normal settings .schema target.schema)
    (hbeside : ∀ p, (beside ()).result = .ok p → Normal settings .schema (.map p.entries))
    (h : (overlay settings es target beside).result = .ok m) :
    Normal settings .schema m.schema := by
  rcases overlay_ok h with ⟨base, own, whole, done, hbase, -, hown, hwhole, hdone, rfl⟩ | ⟨rfl, -⟩
  · rw [hbase] at htarget
    have hclean : Clean settings whole := htarget.clean.fold (hbeside own hown).clean hwhole
    exact Clean.finish (p := ⟨whole, _⟩) hclean hdone
  · exact htarget

/-- **Merging in a role gives a value that is normal in that role**, if references do. -/
theorem mergeAs_normal
    (hfollow : ∀ ref m, (follow ref).result = .ok m → Normal settings .schema m.schema)
    {role : Role} {v : Value} {m : Merged}
    (h : (mergeAs settings follow deprecated role v).result = .ok m) :
    Normal settings role m.schema := by
  refine mergeAs_induction (motive := fun role _ w => Normal settings role w) .literal
    (fun _ => .scalar) (fun _ => .pair) (fun _ => .set) ?list (fun _ _ _ _ hw => hw) ?properties
    ?names ?dropped ?reference ?beside h
  case list =>
    intro role vs ws hr hws
    refine .list fun w hw => ?_
    obtain ⟨v, -, hw⟩ := hws w hw
    have hitem : role.item = .schema := by cases role <;> simp_all [Role.item]
    rwa [hitem]
  case properties =>
    intro es ps _ hps
    refine .map (by simp) (fun _ name hname => ?_) (fun k w hw => ?_)
    · obtain ⟨w, hw⟩ := Keyed.mem_keys.1 hname
      obtain ⟨v, -, hkept, -⟩ := hps name w hw
      exact (Bool.or_eq_false_iff.1 hkept).1
    · obtain ⟨v, -, -, hw⟩ := hps k w hw
      exact hw
  case names =>
    intro es ns _ hns
    refine .map (by simp) (by simp) (fun k w hw => ?_)
    obtain ⟨v, -, hw⟩ := hns k w hw
    exact hw
  case dropped => exact fun _ => Clean.nil.normal fun names hn => by cases hn
  case reference =>
    exact fun es ref target m htarget hbeside h => overlay_normal (hfollow ref target htarget) hbeside h
  case beside => exact fun es q _ hes hbs h => mergeBeside_normal hes hbs h

end

/-- What merging gives is normal. -/
theorem merge_normal {document node r : Value} {visited : List String}
    (h : (merge settings document visited node).result = .ok r) : Normal settings .schema r := by
  obtain ⟨m, hm, rfl⟩ := merge_ok h
  exact mergeVisited_induction (q := fun _ => True)
    (p := fun m => Normal settings .schema m.schema) (fun _ _ _ => trivial)
    (fun follow hfollow v m _ hv => mergeAs_normal hfollow hv) trivial hm

/-- **Merged schemas are in normal form**, at every schema position. -/
theorem merge_isNormal (settings : Settings) (document node r : Value) (visited : List String)
    (h : (merge settings document visited node).result = .ok r) (es : Keyed Value)
    (hes : Subschema .schema r es) : IsNormal settings es :=
  (merge_normal h).isNormal hes

/-- A reference and a part beside it: the part makes the name that the reference requires nullable,
and the name that the node requires twice is required once. -/
theorem merge_isNormal_allOf : IsNormal { removed := ["secret"] }
    [(.text "required", .list [.text "id"]),
      (.text "properties", .record [("id", .record [("type", .text "integer")]),
        ("name", .record [("nullable", .bool true)])])] :=
  merge_isNormal { removed := ["secret"] }
    (.record [("components", .record [("Base", .record [
      ("required", .list [.text "id", .text "name", .text "secret"]),
      ("properties", .record [("id", .record [("type", .text "integer")]), ("secret", .record [])]),
      ("x-internal", .int 1)])])])
    (.record [
      ("allOf", .list [.record [("$ref", .text "#/components/Base")],
        .record [("properties", .record [("name", .record [("nullable", .bool true)])])]]),
      ("required", .list [.text "name", .text "id"])])
    (.map [(.text "required", .list [.text "id"]),
      (.text "properties", .record [("id", .record [("type", .text "integer")]),
        ("name", .record [("nullable", .bool true)])])])
    [] (by rfl) _ (.here _)

end ToolCatalog.Schema
