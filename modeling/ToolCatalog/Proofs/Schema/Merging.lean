import ToolCatalog.Schema.Merge
import ToolCatalog.Proofs.Outcome
import ToolCatalog.Proofs.Schema.Position
import ToolCatalog.Proofs.Value.Union

/-!
# What merging gives, step by step

Each function of the recursion is taken apart once: where its entries come from, which keys are left,
what the parts under `allOf` are.  Proofs about merged schemas use these facts and do not open the
functions again.  `mergeAs_induction` packages the induction on what is merged, `resolveFrom_relates`
the one on open references.
-/

namespace ToolCatalog.Schema

/-! ## Merged schemas -/

namespace Merged

/-- The keywords of a merged schema; one that is no mapping has none. -/
def entries (m : Merged) : Keyed Value :=
  match m.schema with
  | .map es => es
  | _ => []

def properties (m : Merged) : Keyed Value := propertiesOf m.entries

/-- Whether a merged schema says something about a property: it defines it, or has left it out. -/
def mentions (m : Merged) (k : Scalar) : Bool :=
  Keyed.has m.properties k || m.dropped.any k.same

theorem mentions_iff {m : Merged} {k : Scalar} : m.mentions k = true ↔
    Keyed.has (propertiesOf m.entries) k = true ∨ m.dropped.any k.same = true := by
  rw [mentions, properties, Bool.or_eq_true]

theorem entries_of_not_map {m : Merged} (h : ∀ es, m.schema ≠ .map es) : m.entries = [] := by
  unfold entries
  split
  · next es hes => exact absurd hes (h es)
  · rfl

end Merged

@[simp] theorem Parts.entries_toMerged (p : Parts) : p.toMerged.entries = p.entries := rfl

@[simp] theorem Parts.dropped_toMerged (p : Parts) : p.toMerged.dropped = p.dropped := rfl

/-! ## Finishing -/

/-- Whether a required name stays in the list, for a name that may be a key. -/
def staysRequired (settings : Settings) (properties : Keyed Value) (dropped : List Scalar) :
    Value → Bool
  | .scalar k => !isWaived settings properties dropped k
  | _ => true

/-- What every name that stays keeps, the list of kept names keeps. -/
theorem keepRequired_induction {settings : Settings} {properties : Keyed Value}
    {dropped : List Scalar} {p : List Value → Prop} {names : List Value}
    (keep : ∀ kept name, name ∈ names → p kept → name.isAmong kept = false →
      staysRequired settings properties dropped name = true → name.isKey = true →
      p (kept ++ [name]))
    {kept result : List Value} (hp : p kept)
    (h : keepRequired settings properties dropped kept names = .ok result) : p result := by
  induction names generalizing kept with
  | nil =>
    rw [keepRequired] at h
    obtain rfl := Except.ok.inj h
    exact hp
  | cons name rest ih =>
    unfold keepRequired at h
    have hhead := fun kept => keep kept name List.mem_cons_self
    have ih := fun {kept} => @ih (fun kept' v hv => keep kept' v (List.mem_cons_of_mem _ hv)) kept
    split at h
    · exact ih hp h
    · next hamong =>
      have hamong : name.isAmong kept = false := by simpa using hamong
      split at h
      · next k =>
        split at h
        · exact ih hp h
        · next hw => exact ih (hhead _ hp hamong (by simpa [staysRequired] using hw) rfl) h
      · next hns =>
        split at h
        · next hkey =>
          refine ih (hhead _ hp hamong ?_ hkey) h
          cases name with
          | scalar k => exact absurd rfl (hns k)
          | _ => rfl
        · cases h

/-- Names that stay were among the names. -/
theorem mem_of_keepRequired {settings : Settings} {properties : Keyed Value} {dropped : List Scalar}
    {names kept : List Value}
    (h : keepRequired settings properties dropped [] names = .ok kept) :
    ∀ v ∈ kept, v ∈ names := by
  refine keepRequired_induction (p := fun vs => ∀ v ∈ vs, v ∈ names) ?_ (by simp) h
  intro vs name hname hvs _ _ _ v hv
  rcases List.mem_append.1 hv with hv | hv
  · exact hvs v hv
  · rwa [List.mem_singleton.1 hv]

/-- **What finishing does**: the required names, if they are a list, are put in order, and an empty
list goes away. -/
theorem finish_ok {settings : Settings} {p q : Parts} (h : finish settings p = .ok q) :
    q.dropped = p.dropped.filter (fun name => !Keyed.has (propertiesOf p.entries) name) ∧
    ((∀ names, Keyed.find? p.entries (.text "required") ≠ some (.list names)) ∧
        q.entries = p.entries ∨
      ∃ names kept, Keyed.find? p.entries (.text "required") = some (.list names) ∧
        keepRequired settings (propertiesOf p.entries) q.dropped [] names = .ok kept ∧
        q.entries = if kept.isEmpty then Keyed.without p.entries (.text "required")
          else Keyed.put p.entries (.text "required") (.list kept)) := by
  unfold finish at h
  simp only at h
  split at h
  · next names hn =>
    obtain ⟨kept, hk, h⟩ := bind_eq_ok.1 h
    obtain rfl := Except.ok.inj h
    exact ⟨rfl, Or.inr ⟨names, kept, hn, hk, rfl⟩⟩
  · next hn =>
    obtain rfl := Except.ok.inj h
    exact ⟨rfl, Or.inl ⟨hn, rfl⟩⟩

/-- The required names of a finished schema are those that stay. -/
theorem keepRequired_of_finish {settings : Settings} {p q : Parts} (h : finish settings p = .ok q)
    {names : List Value} (hnames : Keyed.find? q.entries (.text "required") = some (.list names)) :
    ∃ before, keepRequired settings (propertiesOf p.entries) q.dropped [] before = .ok names := by
  obtain ⟨-, ⟨hnone, hes⟩ | ⟨before, kept, -, hkept, hes⟩⟩ := finish_ok h
  · rw [hes] at hnames
    exact absurd hnames (hnone names)
  · rw [hes] at hnames
    split at hnames
    · rw [Keyed.find?_without, if_pos (Scalar.same_refl _)] at hnames
      cases hnames
    · rw [Keyed.find?_put, if_pos (Scalar.same_refl _)] at hnames
      obtain rfl := Value.list.inj (Option.some.inj hnames)
      exact ⟨before, hkept⟩

/-- Properties are found as before after the required names were written or taken out. -/
theorem propertiesOf_put_required (es : Keyed Value) (v : Value) :
    propertiesOf (Keyed.put es (.text "required") v) = propertiesOf es := by
  unfold propertiesOf
  rw [Keyed.find?_put, if_neg (by decide)]

/-! ## Folding -/

/-- What every entry that is folded in keeps, folding keeps. -/
theorem fold_induction {overrides : Bool} {p : Keyed Value → Prop} {es : Keyed Value}
    (step : ∀ into k v r, (k, v) ∈ es → p into → foldEntry overrides into k v = .ok r → p r)
    {into result : Keyed Value} (hp : p into) (h : fold overrides into es = .ok result) :
    p result := by
  induction es generalizing into with
  | nil =>
    rw [fold] at h
    obtain rfl := Except.ok.inj h
    exact hp
  | cons e rest ih =>
    obtain ⟨k, v⟩ := e
    rw [fold] at h
    obtain ⟨next, hnext, h⟩ := bind_eq_ok.1 h
    exact ih (fun into' k' v' r hm => step into' k' v' r (List.mem_cons_of_mem _ hm))
      (step into k v next List.mem_cons_self hp hnext) h

/-- **What folding in one entry does**: properties and required names are united, another entry is
written or left. -/
theorem foldEntry_ok {overrides : Bool} {into r : Keyed Value} {k : Scalar} {v : Value}
    (h : foldEntry overrides into k v = .ok r) :
    (∃ ps existing, k = .text "properties" ∧ v = .map ps ∧ openProperties into = .ok existing ∧
      r = Keyed.put into k (.map (Keyed.putAll existing ps))) ∨
    (∃ names, k = .text "required" ∧ v = .list names ∧
      r = Keyed.put into k (.list (Value.union (openRequired into) names))) ∨
    r = Keyed.put into k v ∨ r = into := by
  unfold foldEntry at h
  split at h
  · next ps =>
    obtain ⟨existing, hexisting, h⟩ := bind_eq_ok.1 h
    obtain rfl := Except.ok.inj h
    exact Or.inl ⟨ps, existing, rfl, rfl, hexisting, rfl⟩
  · next names =>
    obtain rfl := Except.ok.inj h
    exact Or.inr (Or.inl ⟨names, rfl, rfl, rfl⟩)
  · obtain rfl := Except.ok.inj h
    right
    right
    split
    · exact Or.inl rfl
    · exact Or.inr rfl

/-! ## The recursion on the node -/

section

variable (settings : Settings) (follow : String → Outcome Merged)
  (deprecated : Value → Except Fault Bool)

/-- What a mapping comes to by its own keywords, its reference aside. -/
def mergeBeside (es : Keyed Value) : Outcome Parts := do
  let own ← mergeEntries settings follow deprecated (isStructural es) es
  compose settings es own (mergeBranchesIn settings follow deprecated es)

/-- The parts that stand under `allOf` in a mapping. -/
def branchesOf (es : Keyed Value) : List Value :=
  match (Keyed.find? es (.text "allOf")).map Value.opened with
  | some (.list vs) => vs
  | _ => []

/-- A branch stands in a list under `allOf`. -/
theorem mem_branchesOf {es : Keyed Value} {b : Value} (h : b ∈ branchesOf es) :
    ∃ v vs, (.text "allOf", v) ∈ es ∧ v.opened = .list vs ∧ b ∈ vs := by
  unfold branchesOf at h
  split at h
  · next vs hvs =>
    obtain ⟨v, hv, hopened⟩ := Option.map_eq_some_iff.1 hvs
    exact ⟨v, vs, Keyed.mem_of_find?_text hv, hopened, h⟩
  · simp at h

/-- A branch stands inside the mapping. -/
theorem within_of_mem_branchesOf {es : Keyed Value} {b : Value} (h : b ∈ branchesOf es) :
    Value.Within b (.map es) := by
  obtain ⟨v, vs, hv, hopened, hb⟩ := mem_branchesOf h
  refine .entry hv (.of_opened ?_)
  rw [hopened]
  exact .item hb .self

/-- **Induction on nodes.**  The case of a mapping may use the claim for what stands under its keys and
for its branches. -/
theorem node_induction {motive : Value → Prop}
    (scalar : ∀ s, motive (.scalar s))
    (list : ∀ vs, (∀ v ∈ vs, motive v) → motive (.list vs))
    (map : ∀ es, (∀ k v, (k, v) ∈ es → motive v) → (∀ b ∈ branchesOf es, motive b) →
      motive (.map es))
    (pair : ∀ a b, motive a → motive b → motive (.pair a b))
    (set : ∀ ms, motive (.set ms))
    (part : ∀ n body, motive (body ()) → motive (.part n body))
    (v : Value) : motive v := by
  refine Value.induction scalar list (fun es ih ihitems => map es ih fun b hb => ?_) pair set part v
  obtain ⟨v, vs, hv, hopened, hb⟩ := mem_branchesOf hb
  exact ihitems _ v vs hv hopened b hb

/-! ### What the merger does with each kind of value

The functions of the merger are mutually recursive.  Their equations are stated once, so that no other
proof opens them. -/

theorem mergeAs_literal (v : Value) :
    mergeAs settings follow deprecated .literal v = pure ⟨v, []⟩ := by
  cases v <;> rfl

theorem mergeAs_scalar (role : Role) (s : Scalar) :
    mergeAs settings follow deprecated role (.scalar s) = pure ⟨.scalar s, []⟩ := rfl

theorem mergeAs_pair (role : Role) (a b : Value) :
    mergeAs settings follow deprecated role (.pair a b) = pure ⟨.pair a b, []⟩ := rfl

theorem mergeAs_set (role : Role) (ms : List Scalar) :
    mergeAs settings follow deprecated role (.set ms) = pure ⟨.set ms, []⟩ := rfl

theorem mergeAs_list {role : Role} (h : role ≠ .literal) (vs : List Value) :
    mergeAs settings follow deprecated role (.list vs) = (do
      let ws ← mergeItems settings follow deprecated vs
      return ⟨.list ws, []⟩) := by
  cases role with
  | literal => exact absurd rfl h
  | _ => rfl

theorem mergeAs_part {role : Role} (h : role ≠ .literal) (n : Nat) (body : Unit → Value) :
    mergeAs settings follow deprecated role (.part n body) =
      mergeAs settings follow deprecated role (body ()) := by
  cases role with
  | literal => exact absurd rfl h
  | _ => rfl

/-- A value is merged as what it is once it is opened. -/
theorem mergeAs_opened {role : Role} (h : role ≠ .literal) (v : Value) :
    mergeAs settings follow deprecated role v = mergeAs settings follow deprecated role v.opened := by
  induction v using Value.induction with
  | part n body ih =>
    rw [mergeAs_part _ _ _ h]
    exact ih
  | _ => rfl

theorem mergeAs_properties (es : Keyed Value) :
    mergeAs settings follow deprecated .properties (.map es) = (do
      let ps ← mergeProperties settings follow deprecated es
      return ps.toMerged) := rfl

theorem mergeAs_names (es : Keyed Value) :
    mergeAs settings follow deprecated .names (.map es) = (do
      let ns ← mergeNamed settings follow deprecated es
      return ⟨.map ns, []⟩) := rfl

theorem mergeAs_schema (es : Keyed Value) :
    mergeAs settings follow deprecated .schema (.map es) =
      if Settings.isDeprecated es then pure ⟨.map [], []⟩
      else match reference? (.map es) with
        | some ref => do
          let target ← follow ref
          overlay settings es target fun _ => mergeBeside settings follow deprecated es
        | none => do
          let whole ← mergeBeside settings follow deprecated es
          return whole.toMerged := rfl

theorem mergeItems_nil : mergeItems settings follow deprecated [] = pure [] := rfl

theorem mergeItems_cons (v : Value) (rest : List Value) :
    mergeItems settings follow deprecated (v :: rest) = (do
      let merged ← mergeAs settings follow deprecated .schema v
      let ws ← mergeItems settings follow deprecated rest
      return merged.schema :: ws) := rfl

theorem mergeNamed_nil : mergeNamed settings follow deprecated [] = pure [] := rfl

theorem mergeNamed_cons (name : Scalar) (v : Value) (rest : Keyed Value) :
    mergeNamed settings follow deprecated ((name, v) :: rest) = (do
      let merged ← mergeAs settings follow deprecated .schema v
      let others ← mergeNamed settings follow deprecated rest
      return (name, merged.schema) :: others) := rfl

theorem mergeProperties_nil : mergeProperties settings follow deprecated [] = pure ⟨[], []⟩ := rfl

theorem mergeProperties_cons (name : Scalar) (v : Value) (rest : Keyed Value) :
    mergeProperties settings follow deprecated ((name, v) :: rest) =
      if settings.excludes name v then do
        .report (.propertyDropped name)
        let others ← mergeProperties settings follow deprecated rest
        return ⟨others.entries, name :: others.dropped⟩
      else do
        let merged ← mergeAs settings follow deprecated .schema v
        if ← deprecated v then
          .report (.deprecatedReferenceDropped name)
          let others ← mergeProperties settings follow deprecated rest
          return ⟨others.entries, name :: others.dropped⟩
        else
          let others ← mergeProperties settings follow deprecated rest
          return ⟨(name, merged.schema) :: others.entries, others.dropped⟩ := rfl

theorem mergeEntries_nil (skips : Scalar → Bool) :
    mergeEntries settings follow deprecated skips [] = pure ⟨[], []⟩ := rfl

theorem mergeEntries_cons (skips : Scalar → Bool) (k : Scalar) (v : Value) (rest : Keyed Value) :
    mergeEntries settings follow deprecated skips ((k, v) :: rest) =
      if skips k then mergeEntries settings follow deprecated skips rest
      else match k with
        | .text keyword =>
          if settings.isVendor keyword then mergeEntries settings follow deprecated skips rest
          else do
            let merged ← mergeAs settings follow deprecated (roleOf keyword) v
            let others ← mergeEntries settings follow deprecated skips rest
            let dropped := if roleOf keyword = .properties then merged.dropped else []
            return ⟨(k, merged.schema) :: others.entries, dropped ++ others.dropped⟩
        | .bytes _ => .fail .notText
        | _ => .fail .keyNotText := rfl

theorem mergeBranches_nil (into : Parts) :
    mergeBranches settings follow deprecated [] into = pure into := rfl

theorem mergeBranches_cons (b : Value) (rest : List Value) (into : Parts) :
    mergeBranches settings follow deprecated (b :: rest) into = (do
      let branch ← mergeAs settings follow deprecated .schema b
      match branch.schema with
      | .map es =>
        let entries ← fold false into.entries es
        mergeBranches settings follow deprecated rest ⟨entries, into.dropped ++ branch.dropped⟩
      | _ =>
        mergeBranches settings follow deprecated rest
          ⟨into.entries, into.dropped ++ branch.dropped⟩) := rfl

theorem mergeBranchesIn_cons (k : Scalar) (v : Value) (rest : Keyed Value) (into : Parts) :
    mergeBranchesIn settings follow deprecated ((k, v) :: rest) into =
      if k = .text "allOf" then mergeBranchesOf settings follow deprecated v into
      else mergeBranchesIn settings follow deprecated rest into := rfl

theorem mergeBranchesOf_eq (v : Value) (into : Parts) :
    mergeBranchesOf settings follow deprecated v into =
      match v.opened with
      | .list vs => mergeBranches settings follow deprecated vs into
      | _ => pure into := by
  induction v using Value.induction with
  | part n body ih => exact ih
  | _ => rfl

theorem mergeBranchesIn_eq (es : Keyed Value) (into : Parts) :
    mergeBranchesIn settings follow deprecated es into =
      mergeBranches settings follow deprecated (branchesOf es) into := by
  induction es with
  | nil => rfl
  | cons e rest ih =>
    obtain ⟨k, v⟩ := e
    rw [mergeBranchesIn_cons]
    split
    · next hk =>
      subst hk
      rw [mergeBranchesOf_eq]
      simp only [branchesOf, Keyed.find?_cons, Scalar.same_refl, if_true, Option.map_some]
      cases v.opened <;> rfl
    · next hk =>
      have hne : ¬ (Scalar.text "allOf").same k = true := fun h => hk ((Scalar.same_text _ k).1 h)
      rw [ih]
      simp only [branchesOf, Keyed.find?_cons, hne]
      rfl

/-! ### Where merged parts come from -/

variable {settings follow deprecated}

/-- Each merged item comes from an item. -/
theorem mergeItems_ok {vs ws : List Value}
    (h : (mergeItems settings follow deprecated vs).result = .ok ws) :
    ∀ w ∈ ws, ∃ v ∈ vs, ∃ m, (mergeAs settings follow deprecated .schema v).result = .ok m ∧
      w = m.schema := by
  induction vs generalizing ws with
  | nil =>
    rw [mergeItems_nil] at h
    obtain rfl := Except.ok.inj h
    simp
  | cons v rest ih =>
    rw [mergeItems_cons] at h
    obtain ⟨m, hm, h⟩ := Outcome.result_bind_ok.1 h
    obtain ⟨ws', hws, h⟩ := Outcome.result_bind_ok.1 h
    obtain rfl := Except.ok.inj h
    intro w hw
    rcases List.mem_cons.1 hw with rfl | hw
    · exact ⟨v, List.mem_cons_self, m, hm, rfl⟩
    · obtain ⟨v', hv', hm'⟩ := ih hws w hw
      exact ⟨v', List.mem_cons_of_mem _ hv', hm'⟩

/-- Merging what names stand for keeps the names, and each schema comes from the one that stood
there. -/
theorem mergeNamed_ok {es ns : Keyed Value}
    (h : (mergeNamed settings follow deprecated es).result = .ok ns) :
    Keyed.keys ns = Keyed.keys es ∧ ∀ k w, (k, w) ∈ ns → ∃ v m, (k, v) ∈ es ∧
      (mergeAs settings follow deprecated .schema v).result = .ok m ∧ w = m.schema := by
  induction es generalizing ns with
  | nil =>
    rw [mergeNamed_nil] at h
    obtain rfl := Except.ok.inj h
    simp
  | cons e rest ih =>
    obtain ⟨name, v⟩ := e
    rw [mergeNamed_cons] at h
    obtain ⟨m, hm, h⟩ := Outcome.result_bind_ok.1 h
    obtain ⟨ns', hns, h⟩ := Outcome.result_bind_ok.1 h
    obtain rfl := Except.ok.inj h
    obtain ⟨hkeys, hmem⟩ := ih hns
    refine ⟨by rw [Keyed.keys_cons, Keyed.keys_cons, hkeys], fun k w hw => ?_⟩
    rcases List.mem_cons.1 hw with heq | hw
    · obtain ⟨rfl, rfl⟩ := Prod.mk.inj heq
      exact ⟨v, m, List.mem_cons_self, hm, rfl⟩
    · obtain ⟨v', m', hv', hm'⟩ := hmem k w hw
      exact ⟨v', m', List.mem_cons_of_mem _ hv', hm'⟩

/-- **One property**: it is left out, or its schema is merged in front of the others. -/
theorem mergeProperties_cons_ok {name : Scalar} {v : Value} {rest : Keyed Value} {p : Parts}
    (h : (mergeProperties settings follow deprecated ((name, v) :: rest)).result = .ok p) :
    ∃ q, (mergeProperties settings follow deprecated rest).result = .ok q ∧
      (p = ⟨q.entries, name :: q.dropped⟩ ∨
        settings.excludes name v = false ∧
          ∃ m, (mergeAs settings follow deprecated .schema v).result = .ok m ∧
            p = ⟨(name, m.schema) :: q.entries, q.dropped⟩) := by
  rw [mergeProperties_cons] at h
  split at h
  · obtain ⟨-, -, h⟩ := Outcome.result_bind_ok.1 h
    obtain ⟨q, hq, h⟩ := Outcome.result_bind_ok.1 h
    exact ⟨q, hq, Or.inl (Except.ok.inj h).symm⟩
  · next hex =>
    obtain ⟨m, hm, h⟩ := Outcome.result_bind_ok.1 h
    obtain ⟨gone, -, h⟩ := Outcome.result_bind_ok.1 h
    split at h
    · obtain ⟨-, -, h⟩ := Outcome.result_bind_ok.1 h
      obtain ⟨q, hq, h⟩ := Outcome.result_bind_ok.1 h
      exact ⟨q, hq, Or.inl (Except.ok.inj h).symm⟩
    · obtain ⟨q, hq, h⟩ := Outcome.result_bind_ok.1 h
      exact ⟨q, hq, Or.inr ⟨by simpa using hex, m, hm, (Except.ok.inj h).symm⟩⟩

/-- The properties that are left were not excluded, and each comes from the one of its name. -/
theorem mergeProperties_ok {es : Keyed Value} {p : Parts}
    (h : (mergeProperties settings follow deprecated es).result = .ok p) :
    (Keyed.keys p.entries).Sublist (Keyed.keys es) ∧ ∀ k w, (k, w) ∈ p.entries →
      ∃ v m, (k, v) ∈ es ∧ settings.excludes k v = false ∧
        (mergeAs settings follow deprecated .schema v).result = .ok m ∧ w = m.schema := by
  induction es generalizing p with
  | nil =>
    rw [mergeProperties_nil] at h
    obtain rfl := Except.ok.inj h
    simp
  | cons e rest ih =>
    obtain ⟨name, v⟩ := e
    obtain ⟨q, hq, hp⟩ := mergeProperties_cons_ok h
    obtain ⟨hkeys, hmem⟩ := ih hq
    have hrest : ∀ k w, (k, w) ∈ q.entries → ∃ v' m, (k, v') ∈ (name, v) :: rest ∧
        settings.excludes k v' = false ∧
        (mergeAs settings follow deprecated .schema v').result = .ok m ∧ w = m.schema := by
      intro k w hw
      obtain ⟨v', m, hv', hm⟩ := hmem k w hw
      exact ⟨v', m, List.mem_cons_of_mem _ hv', hm⟩
    rcases hp with rfl | ⟨hex, m, hm, rfl⟩
    · exact ⟨hkeys.trans (List.sublist_cons_self _ _), hrest⟩
    · refine ⟨hkeys.cons_cons _, fun k w hw => ?_⟩
      rcases List.mem_cons.1 hw with heq | hw
      · obtain ⟨rfl, rfl⟩ := Prod.mk.inj heq
        exact ⟨v, m, List.mem_cons_self, hex, hm, rfl⟩
      · exact hrest k w hw

/-- **One keyword**: it is skipped, it is left out as a vendor extension, or what stands under it is
merged in front of the others. -/
theorem mergeEntries_cons_ok {skips : Scalar → Bool} {k : Scalar} {v : Value} {rest : Keyed Value}
    {p : Parts}
    (h : (mergeEntries settings follow deprecated skips ((k, v) :: rest)).result = .ok p) :
    ∃ q, (mergeEntries settings follow deprecated skips rest).result = .ok q ∧
      (skips k = true ∧ p = q ∨ skips k = false ∧ ∃ keyword, k = .text keyword ∧
        (settings.isVendor keyword = true ∧ p = q ∨ settings.isVendor keyword = false ∧
          ∃ m, (mergeAs settings follow deprecated (roleOf keyword) v).result = .ok m ∧
            p = ⟨(k, m.schema) :: q.entries,
              (if roleOf keyword = .properties then m.dropped else []) ++ q.dropped⟩)) := by
  rw [mergeEntries_cons] at h
  split at h
  · next hskip => exact ⟨p, h, Or.inl ⟨hskip, rfl⟩⟩
  · next hnot =>
    have hskip : skips k = false := by simpa using hnot
    split at h
    · next keyword =>
      split at h
      · next hvendor => exact ⟨p, h, Or.inr ⟨hskip, keyword, rfl, Or.inl ⟨hvendor, rfl⟩⟩⟩
      · next hvendor =>
        obtain ⟨m, hm, h⟩ := Outcome.result_bind_ok.1 h
        obtain ⟨q, hq, h⟩ := Outcome.result_bind_ok.1 h
        exact ⟨q, hq, Or.inr ⟨hskip, keyword, rfl,
          Or.inr ⟨by simpa using hvendor, m, hm, (Except.ok.inj h).symm⟩⟩⟩
    · cases h
    · cases h

/-- The keywords that are left are texts and no vendor extensions, and what stands under each was
merged in the role of the keyword. -/
theorem mergeEntries_ok {skips : Scalar → Bool} {es : Keyed Value} {p : Parts}
    (h : (mergeEntries settings follow deprecated skips es).result = .ok p) :
    (Keyed.keys p.entries).Sublist (Keyed.keys es) ∧ ∀ k w, (k, w) ∈ p.entries →
      ∃ keyword v m, k = .text keyword ∧ (k, v) ∈ es ∧ skips k = false ∧
        settings.isVendor keyword = false ∧
        (mergeAs settings follow deprecated (roleOf keyword) v).result = .ok m ∧
        w = m.schema := by
  induction es generalizing p with
  | nil =>
    rw [mergeEntries_nil] at h
    obtain rfl := Except.ok.inj h
    simp
  | cons e rest ih =>
    obtain ⟨k, v⟩ := e
    obtain ⟨q, hq, hp⟩ := mergeEntries_cons_ok h
    obtain ⟨hkeys, hmem⟩ := ih hq
    have hrest : ∀ k' w, (k', w) ∈ q.entries → ∃ keyword v' m, k' = .text keyword ∧
        (k', v') ∈ (k, v) :: rest ∧ skips k' = false ∧ settings.isVendor keyword = false ∧
        (mergeAs settings follow deprecated (roleOf keyword) v').result = .ok m ∧
        w = m.schema := by
      intro k' w hw
      obtain ⟨keyword, v', m, hk', hv', hm⟩ := hmem k' w hw
      exact ⟨keyword, v', m, hk', List.mem_cons_of_mem _ hv', hm⟩
    rcases hp with ⟨-, rfl⟩ | ⟨hskip, keyword, rfl, ⟨-, rfl⟩ | ⟨hvendor, m, hm, rfl⟩⟩
    · exact ⟨hkeys.trans (List.sublist_cons_self _ _), hrest⟩
    · exact ⟨hkeys.trans (List.sublist_cons_self _ _), hrest⟩
    · refine ⟨hkeys.cons_cons _, fun k' w hw => ?_⟩
      rcases List.mem_cons.1 hw with heq | hw
      · obtain ⟨rfl, rfl⟩ := Prod.mk.inj heq
        exact ⟨keyword, v, m, rfl, List.mem_cons_self, hskip, hvendor, hm, rfl⟩
      · exact hrest k' w hw

/-- What every branch keeps, folding in the branches keeps. -/
theorem mergeBranches_induction {p : Parts → Prop} {bs : List Value}
    (step : ∀ b ∈ bs, ∀ m, (mergeAs settings follow deprecated .schema b).result = .ok m →
      ∀ into, p into →
        (∀ es entries, m.schema = .map es → fold false into.entries es = .ok entries →
          p ⟨entries, into.dropped ++ m.dropped⟩) ∧
        ((∀ es, m.schema ≠ .map es) → p ⟨into.entries, into.dropped ++ m.dropped⟩))
    {into whole : Parts} (hp : p into)
    (h : (mergeBranches settings follow deprecated bs into).result = .ok whole) : p whole := by
  induction bs generalizing into with
  | nil =>
    rw [mergeBranches_nil] at h
    obtain rfl := Except.ok.inj h
    exact hp
  | cons b rest ih =>
    rw [mergeBranches_cons] at h
    obtain ⟨m, hm, h⟩ := Outcome.result_bind_ok.1 h
    have ih := fun {into} => @ih (fun b hb => step b (List.mem_cons_of_mem _ hb)) into
    obtain ⟨hmap, hother⟩ := step b List.mem_cons_self m hm into hp
    split at h
    · next es hes =>
      obtain ⟨entries, hfold, h⟩ := Outcome.result_bind_ok.1 h
      exact ih (hmap es entries hes hfold) h
    · next hne => exact ih (hother hne) h

/-- **What a mapping comes to by its own keywords**: they are merged and finished; if the mapping is
composed, its branches are folded in and the whole is finished again. -/
theorem mergeBeside_ok {es : Keyed Value} {p : Parts}
    (h : (mergeBeside settings follow deprecated es).result = .ok p) :
    ∃ own rest, (mergeEntries settings follow deprecated (isStructural es) es).result = .ok own ∧
      finish settings own = .ok rest ∧
      (isComposed es = false ∧ p = rest ∨
        isComposed es = true ∧ ∃ whole, (mergeBranches settings follow deprecated (branchesOf es)
          ⟨withoutStrayRequired rest.entries, rest.dropped⟩).result = .ok whole ∧
          finish settings whole = .ok p) := by
  rw [mergeBeside] at h
  obtain ⟨own, hown, h⟩ := Outcome.result_bind_ok.1 h
  rw [compose] at h
  obtain ⟨rest, hrest, h⟩ := Outcome.result_bind_ok.1 h
  refine ⟨own, rest, hown, hrest, ?_⟩
  split at h
  · next hcomposed =>
    obtain ⟨whole, hwhole, h⟩ := Outcome.result_bind_ok.1 h
    rw [mergeBranchesIn_eq] at hwhole
    exact Or.inr ⟨hcomposed, whole, hwhole, h⟩
  · next hcomposed =>
    exact Or.inl ⟨by simpa using hcomposed, (Except.ok.inj h).symm⟩

omit follow deprecated in
/-- **What a reference with keywords beside it comes to**: the keywords are folded into a target that
is a mapping; any other target, and one whose reference stands alone, is left as it is. -/
theorem overlay_ok {es : Keyed Value} {target m : Merged} {beside : Unit → Outcome Parts}
    (h : (overlay settings es target beside).result = .ok m) :
    (∃ base own whole done, target.schema = .map base ∧ hasSiblings es = true ∧
        (beside ()).result = .ok own ∧ fold true base own.entries = .ok whole ∧
        finish settings ⟨whole, target.dropped ++ own.dropped⟩ = .ok done ∧ m = done.toMerged) ∨
      m = target ∧ ((∀ base, target.schema ≠ .map base) ∨ hasSiblings es = false) := by
  unfold overlay at h
  split at h
  · next base hbase =>
    split at h
    · next hsiblings =>
      obtain ⟨own, hown, h⟩ := Outcome.result_bind_ok.1 h
      obtain ⟨whole, hwhole, h⟩ := Outcome.result_bind_ok.1 h
      obtain ⟨done, hdone, h⟩ := Outcome.result_bind_ok.1 h
      exact Or.inl ⟨base, own, whole, done, hbase, hsiblings, hown, hwhole, hdone,
        (Except.ok.inj h).symm⟩
    · next hsiblings =>
      exact Or.inr ⟨(Except.ok.inj h).symm, Or.inr (by simpa using hsiblings)⟩
  · next hother => exact Or.inr ⟨(Except.ok.inj h).symm, Or.inl hother⟩

/-- **What a mapping is merged to as a schema**: nothing if it is deprecated, its overlaid target if it
is a reference, and else what its own keywords come to. -/
theorem mergeAs_schema_ok {es : Keyed Value} {m : Merged}
    (h : (mergeAs settings follow deprecated .schema (.map es)).result = .ok m) :
    Settings.isDeprecated es = true ∧ m = ⟨.map [], []⟩ ∨
      Settings.isDeprecated es = false ∧
        ((∃ ref target, reference? (.map es) = some ref ∧ (follow ref).result = .ok target ∧
            (overlay settings es target fun _ =>
              mergeBeside settings follow deprecated es).result = .ok m) ∨
          reference? (.map es) = none ∧ ∃ whole,
            (mergeBeside settings follow deprecated es).result = .ok whole ∧
            m = whole.toMerged) := by
  rw [mergeAs_schema] at h
  split at h
  · next hdeprecated => exact Or.inl ⟨hdeprecated, (Except.ok.inj h).symm⟩
  · next hdeprecated =>
    refine Or.inr ⟨by simpa using hdeprecated, ?_⟩
    split at h
    · next ref href =>
      obtain ⟨target, htarget, h⟩ := Outcome.result_bind_ok.1 h
      exact Or.inl ⟨ref, target, href, htarget, h⟩
    · next hnone =>
      obtain ⟨whole, hwhole, h⟩ := Outcome.result_bind_ok.1 h
      exact Or.inr ⟨hnone, whole, hwhole, (Except.ok.inj h).symm⟩

/-- A mapping of properties, under the parts around it. -/
theorem mergeAs_properties_ok {v : Value} {ps : Keyed Value} {m : Merged} (hv : v.opened = .map ps)
    (h : (mergeAs settings follow deprecated .properties v).result = .ok m) :
    ∃ p, (mergeProperties settings follow deprecated ps).result = .ok p ∧ m = p.toMerged := by
  rw [mergeAs_opened _ _ _ (by simp), hv, mergeAs_properties] at h
  obtain ⟨p, hp, h⟩ := Outcome.result_bind_ok.1 h
  exact ⟨p, hp, (Except.ok.inj h).symm⟩

/-- A list, under the parts around it. -/
theorem mergeAs_list_ok {v : Value} {vs : List Value} {m : Merged} (hv : v.opened = .list vs)
    (h : (mergeAs settings follow deprecated .schema v).result = .ok m) :
    ∃ ws, (mergeItems settings follow deprecated vs).result = .ok ws ∧ m = ⟨.list ws, []⟩ := by
  rw [mergeAs_opened _ _ _ (by simp), hv, mergeAs_list _ _ _ (by simp)] at h
  obtain ⟨ws, hws, h⟩ := Outcome.result_bind_ok.1 h
  exact ⟨ws, hws, (Except.ok.inj h).symm⟩

/-- **Induction on what is merged.**  What holds of a role, a node and the schema it is merged to, if it
holds of what is left as it is, and of a list, a mapping and a schema as soon as it holds of all that
stands in them. -/
theorem mergeAs_induction {motive : Role → Value → Value → Prop}
    (literal : ∀ v, motive .literal v v)
    (scalar : ∀ role s, motive role (.scalar s) (.scalar s))
    (pair : ∀ role a b, motive role (.pair a b) (.pair a b))
    (set : ∀ role ms, motive role (.set ms) (.set ms))
    (list : ∀ role vs ws, role ≠ .literal → (∀ w ∈ ws, ∃ v ∈ vs, motive .schema v w) →
      motive role (.list vs) (.list ws))
    (part : ∀ role n body w, motive role (body ()) w → motive role (.part n body) w)
    (properties : ∀ es ps, (Keyed.keys ps).Sublist (Keyed.keys es) →
      (∀ k w, (k, w) ∈ ps → ∃ v, (k, v) ∈ es ∧ settings.excludes k v = false ∧ motive .schema v w) →
      motive .properties (.map es) (.map ps))
    (names : ∀ es ns, Keyed.keys ns = Keyed.keys es →
      (∀ k w, (k, w) ∈ ns → ∃ v, (k, v) ∈ es ∧ motive .schema v w) →
      motive .names (.map es) (.map ns))
    (dropped : ∀ es, motive .schema (.map es) (.map []))
    (reference : ∀ es ref target m, (follow ref).result = .ok target →
      (∀ q, (mergeBeside settings follow deprecated es).result = .ok q →
        motive .schema (.map es) (.map q.entries)) →
      (overlay settings es target fun _ => mergeBeside settings follow deprecated es).result = .ok m →
      motive .schema (.map es) m.schema)
    (beside : ∀ es q, Settings.isDeprecated es = false →
      (∀ k v, (k, v) ∈ es → ∀ role m,
        (mergeAs settings follow deprecated role v).result = .ok m → motive role v m.schema) →
      (∀ b ∈ branchesOf es, ∀ m,
        (mergeAs settings follow deprecated .schema b).result = .ok m → motive .schema b m.schema) →
      (mergeBeside settings follow deprecated es).result = .ok q →
      motive .schema (.map es) (.map q.entries))
    {role : Role} {v : Value} {m : Merged}
    (h : (mergeAs settings follow deprecated role v).result = .ok m) : motive role v m.schema := by
  induction v using node_induction generalizing role m with
  | scalar s =>
    rw [mergeAs_scalar] at h
    obtain rfl := Except.ok.inj h
    exact scalar role s
  | pair a b _ _ =>
    rw [mergeAs_pair] at h
    obtain rfl := Except.ok.inj h
    exact pair role a b
  | set ms =>
    rw [mergeAs_set] at h
    obtain rfl := Except.ok.inj h
    exact set role ms
  | list vs ih =>
    by_cases hr : role = .literal
    · subst hr
      rw [mergeAs_literal] at h
      obtain rfl := Except.ok.inj h
      exact literal _
    · rw [mergeAs_list _ _ _ hr] at h
      obtain ⟨ws, hws, h⟩ := Outcome.result_bind_ok.1 h
      obtain rfl := Except.ok.inj h
      refine list role vs ws hr fun w hw => ?_
      obtain ⟨v, hv, m, hm, rfl⟩ := mergeItems_ok hws w hw
      exact ⟨v, hv, ih v hv hm⟩
  | part n body ih =>
    by_cases hr : role = .literal
    · subst hr
      rw [mergeAs_literal] at h
      obtain rfl := Except.ok.inj h
      exact literal _
    · rw [mergeAs_part _ _ _ hr] at h
      exact part role n body _ (ih h)
  | map es ih ihbranches =>
    cases role with
    | literal =>
      rw [mergeAs_literal] at h
      obtain rfl := Except.ok.inj h
      exact literal _
    | properties =>
      rw [mergeAs_properties] at h
      obtain ⟨ps, hps, h⟩ := Outcome.result_bind_ok.1 h
      obtain rfl := Except.ok.inj h
      obtain ⟨hsub, hmem⟩ := mergeProperties_ok hps
      refine properties es _ hsub fun k w hw => ?_
      obtain ⟨v, m, hv, hkept, hm, rfl⟩ := hmem k w hw
      exact ⟨v, hv, hkept, ih k v hv hm⟩
    | names =>
      rw [mergeAs_names] at h
      obtain ⟨ns, hns, h⟩ := Outcome.result_bind_ok.1 h
      obtain rfl := Except.ok.inj h
      obtain ⟨heq, hmem⟩ := mergeNamed_ok hns
      refine names es ns heq fun k w hw => ?_
      obtain ⟨v, m, hv, hm, rfl⟩ := hmem k w hw
      exact ⟨v, hv, ih k v hv hm⟩
    | schema =>
      have hbeside : Settings.isDeprecated es = false → ∀ q,
          (mergeBeside settings follow deprecated es).result = .ok q →
          motive .schema (.map es) (.map q.entries) :=
        fun hlive q => beside es q hlive (fun k v hv _ _ hm => ih k v hv hm)
          fun b hb _ hm => ihbranches b hb hm
      rcases mergeAs_schema_ok h with
        ⟨-, rfl⟩ | ⟨hlive, ⟨ref, target, -, htarget, h⟩ | ⟨-, whole, hwhole, rfl⟩⟩
      · exact dropped es
      · exact reference es ref target m htarget (hbeside hlive) h
      · exact hbeside hlive whole hwhole

section

variable {p : Merged → Prop} (hnil : ∀ m, m.entries = [] → m.dropped = [] → p m)
  (hfinish : ∀ q r, finish settings q = .ok r → p r.toMerged)

include hnil hfinish

/-- **Merged schemas are finished**: what finishing establishes, and what holds where there are no keywords
and no names were left out, holds of every node that is merged, if it holds of references. -/
theorem mergeNode_finished (hfollow : ∀ ref m, (follow ref).result = .ok m → p m) {v : Value}
    {m : Merged} (h : (mergeNode settings follow deprecated v).result = .ok m) : p m := by
  rw [mergeNode] at h
  have hbeside : ∀ {es : Keyed Value} {q : Parts},
      (mergeBeside settings follow deprecated es).result = .ok q → p q.toMerged := by
    intro es q hq
    obtain ⟨own, rest, -, hrest, ⟨-, rfl⟩ | ⟨-, whole, -, hq⟩⟩ := mergeBeside_ok hq
    · exact hfinish own q hrest
    · exact hfinish whole q hq
  induction v using Value.induction with
  | scalar s =>
    rw [mergeAs_scalar] at h
    obtain rfl := Except.ok.inj h
    exact hnil _ rfl rfl
  | pair a b _ _ =>
    rw [mergeAs_pair] at h
    obtain rfl := Except.ok.inj h
    exact hnil _ rfl rfl
  | set ms =>
    rw [mergeAs_set] at h
    obtain rfl := Except.ok.inj h
    exact hnil _ rfl rfl
  | list vs _ =>
    rw [mergeAs_list _ _ _ (by decide)] at h
    obtain ⟨ws, -, h⟩ := Outcome.result_bind_ok.1 h
    obtain rfl := Except.ok.inj h
    exact hnil _ rfl rfl
  | part n body ih =>
    rw [mergeAs_part _ _ _ (by decide)] at h
    exact ih h
  | map es _ _ =>
    rcases mergeAs_schema_ok h with
      ⟨-, rfl⟩ | ⟨-, ⟨ref, target, -, htarget, h⟩ | ⟨-, whole, hwhole, rfl⟩⟩
    · exact hnil _ rfl rfl
    · rcases overlay_ok h with ⟨base, own, whole, done, -, -, -, -, hdone, rfl⟩ | ⟨rfl, -⟩
      · exact hfinish _ done hdone
      · exact hfollow ref m htarget
    · exact hbeside hwhole

end

end

/-! ## Open references -/

section

variable {settings : Settings} {document : Value} {q : Value → Prop} {p : Merged → Prop}
  {r : Value → Merged → Prop}

theorem resolveFrom_eq (settings : Settings) (document : Value) (bound : Bound)
    (visited : List String) (ref : String) :
    resolveFrom settings document bound visited ref =
      if !Pointer.isLocal ref then .fail (.unsupportedReference ref)
      else if visited.contains ref then .fail (.circularReference ref)
      else match bound with
        | .reached => .fail (.circularReference ref)
        | .further rest => (do
          let target ← Pointer.walk document ref
          mergeNode settings (resolveFrom settings document (rest ()) (ref :: visited))
            (leadsToDeprecated document) target) :=
  resolveFrom.eq_def settings document bound visited ref

/-- **When a reference resolves**: it is local and not open, the bound leaves room for it, and its target
merges while it is open. -/
theorem result_resolveFrom_eq_ok {bound : Bound} {visited : List String} {ref : String} {m : Merged} :
    (resolveFrom settings document bound visited ref).result = .ok m ↔
      Pointer.isLocal ref = true ∧ ref ∉ visited ∧ ∃ rest target, bound = .further rest ∧
        Pointer.walk document ref = .ok target ∧
        (mergeNode settings (resolveFrom settings document (rest ()) (ref :: visited))
          (leadsToDeprecated document) target).result = .ok m := by
  rw [resolveFrom_eq]
  constructor
  · intro h
    split at h
    · cases h
    · next hlocal =>
      split at h
      · cases h
      · next hnew =>
        refine ⟨by simpa using hlocal, by simpa using hnew, ?_⟩
        cases bound with
        | reached => cases h
        | further rest =>
          obtain ⟨target, hwalk, h⟩ := Outcome.result_bind_ok.1 h
          exact ⟨rest, target, rfl, hwalk, h⟩
  · rintro ⟨hlocal, hnew, rest, target, rfl, hwalk, h⟩
    rw [if_neg (by simp [hlocal]), if_neg (by simpa using hnew)]
    exact Outcome.result_bind_ok.2 ⟨target, hwalk, h⟩

/-- **Induction on open references**, for a relation between nodes and what they are merged to.  If
merging relates a node as long as its references relate their targets, then every reference relates
its target. -/
theorem resolveFrom_relates
    (step : ∀ follow : String → Outcome Merged,
      (∀ ref m, (follow ref).result = .ok m →
        ∃ target, Pointer.walk document ref = .ok target ∧ r target m) → ∀ v m,
      (mergeNode settings follow (leadsToDeprecated document) v).result = .ok m → r v m)
    (bound : Bound) (visited : List String) (ref : String) (m : Merged)
    (h : (resolveFrom settings document bound visited ref).result = .ok m) :
    ∃ target, Pointer.walk document ref = .ok target ∧ r target m := by
  induction bound generalizing visited ref m with
  | reached =>
    obtain ⟨-, -, rest, -, hrest, -⟩ := result_resolveFrom_eq_ok.1 h
    cases hrest
  | further rest ih =>
    obtain ⟨-, -, rest', target, hrest, hwalk, h⟩ := result_resolveFrom_eq_ok.1 h
    cases hrest
    exact ⟨target, hwalk, step _ (fun ref' m' => ih () (ref :: visited) ref' m') target m h⟩

/-- The same for a node. -/
theorem mergeVisited_relates
    (step : ∀ follow : String → Outcome Merged,
      (∀ ref m, (follow ref).result = .ok m →
        ∃ target, Pointer.walk document ref = .ok target ∧ r target m) → ∀ v m,
      (mergeNode settings follow (leadsToDeprecated document) v).result = .ok m → r v m)
    {visited : List String} {node : Value} {m : Merged}
    (h : (mergeVisited settings document visited node).result = .ok m) : r node m :=
  step _ (resolveFrom_relates step _ visited) node m h

/-- If `q` holds of every target of a reference, and merging a node with `q` gives `p` as long as its
references do, then every reference gives `p`. -/
theorem resolveFrom_induction
    (hwalk : ∀ ref target, Pointer.walk document ref = .ok target → q target)
    (step : ∀ follow : String → Outcome Merged,
      (∀ ref m, (follow ref).result = .ok m → p m) → ∀ v m, q v →
      (mergeNode settings follow (leadsToDeprecated document) v).result = .ok m → p m)
    (bound : Bound) (visited : List String) (ref : String) (m : Merged)
    (h : (resolveFrom settings document bound visited ref).result = .ok m) : p m := by
  obtain ⟨target, htarget, hp⟩ := resolveFrom_relates (r := fun v m => q v → p m)
    (fun follow hfollow v m h hv => step follow (fun ref m hm => by
      obtain ⟨target, htarget, hp⟩ := hfollow ref m hm
      exact hp (hwalk ref target htarget)) v m hv h) bound visited ref m h
  exact hp (hwalk ref target htarget)

/-- The same for a node with `q`. -/
theorem mergeVisited_induction
    (hwalk : ∀ ref target, Pointer.walk document ref = .ok target → q target)
    (step : ∀ follow : String → Outcome Merged,
      (∀ ref m, (follow ref).result = .ok m → p m) → ∀ v m, q v →
      (mergeNode settings follow (leadsToDeprecated document) v).result = .ok m → p m)
    {visited : List String} {node : Value} {m : Merged} (hnode : q node)
    (h : (mergeVisited settings document visited node).result = .ok m) : p m :=
  step _ (resolveFrom_induction hwalk step _ visited) node m hnode h

/-- **What finishing establishes holds of every target of a reference.** -/
theorem resolveFrom_induction_finished (hnil : ∀ m : Merged, m.entries = [] → m.dropped = [] → p m)
    (hfinish : ∀ q r, finish settings q = .ok r → p r.toMerged) {bound : Bound}
    {visited : List String} {ref : String} {m : Merged}
    (h : (resolveFrom settings document bound visited ref).result = .ok m) : p m :=
  resolveFrom_induction (q := fun _ => True) (fun _ _ _ => trivial)
    (fun _ hfollow _ _ _ hm => mergeNode_finished hnil hfinish hfollow hm) bound visited ref m h

/-- The same for a node. -/
theorem mergeVisited_finished (hnil : ∀ m : Merged, m.entries = [] → m.dropped = [] → p m)
    (hfinish : ∀ q r, finish settings q = .ok r → p r.toMerged) {visited : List String}
    {node : Value} {m : Merged} (h : (mergeVisited settings document visited node).result = .ok m) :
    p m :=
  mergeNode_finished hnil hfinish (fun _ _ => resolveFrom_induction_finished hnil hfinish) h

/-- What merging gives is the schema of what merging with an account of the dropped names gives. -/
theorem merge_ok {visited : List String} {node r : Value}
    (h : (merge settings document visited node).result = .ok r) :
    ∃ m, (mergeVisited settings document visited node).result = .ok m ∧ r = m.schema := by
  rw [merge] at h
  obtain ⟨m, hm, h⟩ := Outcome.result_bind_ok.1 h
  exact ⟨m, hm, (Except.ok.inj h).symm⟩

end

end ToolCatalog.Schema
