import ToolCatalog.Proofs.Schema.Concrete
import ToolCatalog.Proofs.Schema.Placing

/-!
# Names of the author's choice

Some mappings in a schema are keyed by names, and a name may look like a keyword or a vendor extension.  Under
the keywords of `nameMapKeywords` names stand for schemas, and merging keeps every name.  In two more places they
stand for data: `dependentRequired` says what a property requires, and `mapping` in a `discriminator` says what a
value stands for.  These mappings are merged as schemas are.  A name with the vendor prefix goes, a list under
the name `required` is put in order, and all else stays.

* `merge_keeps_names`: what becomes of every name, wherever its schema stands in a node.
-/

namespace ToolCatalog.Schema

/-- The keywords on the way to names. -/
def namingKeywords : List String := nameMapKeywords ++ ["dependentRequired", "discriminator", "mapping"]

/-- **Names for data.**  `NamesData es keyword path names`: at the place `path` of what a schema has under the
keyword stands a mapping from names to data, either right under `dependentRequired` or under `mapping` in the
discriminator. -/
inductive NamesData (es : Keyed Value) : String → List Value.Step → Keyed Value → Prop
  | dependentRequired {names : Keyed Value} {v : Value} :
    (.text "dependentRequired", v) ∈ es → v.opened = .map names →
    NamesData es "dependentRequired" [] names
  | mapping {ds names : Keyed Value} {d v : Value} :
    (.text "discriminator", d) ∈ es → d.opened = .map ds → IsSimple ds →
    (.text "mapping", v) ∈ ds → v.opened = .map names →
    NamesData es "discriminator" [.entry (.text "mapping")] names

section

variable {settings : Settings} {document : Value} {visited : List String} {es : Keyed Value}

/-- Names for data stand in their schema as a schema would. -/
theorem NamesData.stands {keyword : String} {path : List Value.Step} {names : Keyed Value}
    (h : NamesData es keyword path names) (hes : IsSimple es)
    (hvendor : ∀ keyword ∈ namingKeywords, settings.isVendor keyword = false) :
    StandsAt settings document visited (.map es) (.entry (.text keyword) :: path) (.map names) := by
  cases h with
  | dependentRequired hv hnames =>
    refine .keyword hes hv (hvendor _ (by decide)) (.inl (by decide)) (fun h => absurd h (by decide)) ?_
    exact .opened (hnames ▸ .here _)
  | mapping hd hds hsimple hv hnames =>
    refine .keyword hes hd (hvendor _ (by decide)) (.inl (by decide)) (fun h => absurd h (by decide)) ?_
    refine .opened (hds ▸ ?_)
    refine .keyword hsimple hv (hvendor _ (by decide)) (.inl (by decide)) (fun h => absurd h (by decide)) ?_
    exact .opened (hnames ▸ .here _)

/-- A simple mapping has no mark of another kind of schema. -/
theorem IsSimple.inert (h : IsSimple es) (hes : Keyed.Distinct es) {k : Scalar} {v : Value}
    (hv : (k, v) ∈ es) : Inert k v := by
  refine ⟨?_, ?_, ?_⟩
  · rintro rfl s rfl
    have hnone := h.alone
    simp [reference?, Value.opened, Keyed.find?_of_mem hv hes] at hnone
  · rintro rfl vs hvs
    have hnone := h.uncomposed
    simp [isComposed, Keyed.find?_of_mem hv hes, hvs] at hnone
  · rintro rfl rfl
    have hnone := h.current
    simp [Settings.isDeprecated, Keyed.find?_of_mem hv hes] at hnone

end

section

variable {settings : Settings} {follow : String → Outcome Merged}
  {deprecated : Value → Except Fault Bool} {es : Keyed Value}

/-- A mapping whose entries are merged as such has texts as keys. -/
theorem texts_of_mergeEntries {skips : Scalar → Bool} {p : Parts} (hskips : ∀ k, skips k = false)
    (h : (mergeEntries settings follow deprecated skips es).result = .ok p) :
    ∀ k ∈ Keyed.keys es, ∃ s, k = .text s := by
  induction es generalizing p with
  | nil => simp
  | cons e rest ih =>
    obtain ⟨k, v⟩ := e
    obtain ⟨q, hq, hkept⟩ := mergeEntries_cons_ok h
    intro k' hk'
    rw [Keyed.keys_cons] at hk'
    rcases List.mem_cons.1 hk' with rfl | hk'
    · rcases hkept with ⟨hskip, -⟩ | ⟨-, keyword, rfl, -⟩
      · rw [hskips] at hskip
        cases hskip
      · exact ⟨keyword, rfl⟩
    · exact ih hq k' hk'

variable {m : Merged} (h : IsSimple es) (hes : Keyed.Distinct es)
  (hm : (mergeAs settings follow deprecated .schema (.map es)).result = .ok m)

include h hes hm

/-- **What stands in a simple mapping stays there**, unless its key has the vendor prefix, and if it is plain, it
stays as it is. -/
theorem IsSimple.find?_entry {key : String} {v : Value} (hv : (.text key, v) ∈ es)
    (hrequired : key = "required" → ∃ s, v = .scalar s) :
    ∃ w, Keyed.find? m.entries (.text key) = (if settings.isVendor key then none else some w) ∧
      (IsPlain v → w = v) := by
  cases hvendor : settings.isVendor key with
  | false =>
    have hself : ∀ n, (mergeAs settings follow deprecated (roleOf key) v).result = .ok n →
        IsPlain v → n.schema = v := by
      intro n hn hplain
      rw [mergeAs_plain hplain] at hn
      rw [← Except.ok.inj hn]
    obtain ⟨gs, n, hgs, hn, hfound⟩ := h.find?_mergeAs hes hv hvendor (fun heq n names hn => by
      obtain ⟨s, rfl⟩ := hrequired heq
      rw [hself n hn (.inl ⟨s, rfl⟩)]
      simp) hm
    exact ⟨n.schema, by rw [Merged.entries, hgs, hfound]; rfl, hself n hn⟩
  | true =>
    obtain ⟨own, done, hown, hdone, rfl⟩ := h.mergeAs_ok hm
    have hnone : Keyed.find? own.entries (.text key) = none := by
      rw [Option.eq_none_iff_forall_ne_some]
      intro w hw
      obtain ⟨keyword, -, -, heq, -, -, hkept, -⟩ := (mergeEntries_ok hown).2 _ w (Keyed.mem_of_find?_text hw)
      rw [← Scalar.text.inj heq, hvendor] at hkept
      cases hkept
    refine ⟨v, ?_, fun _ => rfl⟩
    rw [Parts.entries_toMerged, find?_finish_of_not_listed (fun _ names => by simp [hnone]) hdone, hnone]
    rfl

/-- **A simple mapping of what is plain comes to itself if it is in normal form.** -/
theorem IsSimple.schema_of_isNormal (hplain : ∀ k v, (k, v) ∈ es → IsPlain v)
    (hnormal : IsNormal settings es) : m.schema = .map es := by
  obtain ⟨own, done, hown, hdone, rfl⟩ := h.mergeAs_ok hm
  have htexts := texts_of_mergeEntries h.not_structural hown
  have hfixed : (mergeEntries settings follow deprecated (isStructural es) es).result = .ok ⟨es, []⟩ :=
    mergeEntries_fixed h.not_structural htexts hnormal.noVendor fun k v hv => by
      rw [mergeAs_plain (hplain k v hv)]
      rfl
  obtain rfl := Except.ok.inj (hfixed.symm.trans hown)
  have hkeys : NamesAreKeys es := by
    intro names hnames v hv
    rcases hplain _ _ (Keyed.mem_of_find?_text hnames) with ⟨s, hs⟩ | ⟨ss, hss⟩
    · cases hs
    · rw [Value.list.inj hss] at hv
      obtain ⟨s, -, rfl⟩ := List.mem_map.1 hv
      rfl
  have hfinish := finish_concrete hnormal ⟨htexts, fun k v hv => h.inert hes hv, hkeys⟩
  rw [← Except.ok.inj (hfinish.symm.trans hdone)]
  rfl

end

/-- **Names are kept where they stand for schemas.**  Let a node merge, and let a simple mapping in it give it what
it has under a keyword at a place.  If the keyword gives names to schemas, every name is found under it there in
what the node comes to, and under the name what its schema comes to by itself.

Where names stand for data, what is found is what they would come to as a schema.  If they are a simple mapping,
then something is found under each name, and what is plain is found unchanged, unless the name has the vendor
prefix: then nothing is.  What is no scalar under the name `required` is an exception.  And a mapping of what is
plain is found unchanged as a whole if and only if it is in normal form: no name has the vendor prefix, and a
list under `required` has an item, none twice and none that is removed. -/
theorem merge_keeps_names (settings : Settings) (document : Value) (visited : List String) (node r : Value)
    (place : List Value.Step) (keyword : String) (es : Keyed Value) (hdocument : document.WellFormed)
    (hnode : node.WellFormed)
    (hvendor : ∀ keyword ∈ namingKeywords, settings.isVendor keyword = false)
    (hshows : ShowsAt settings document visited keyword node place es) (hes : IsSimple es)
    (hmerge : (merge settings document visited node).result = .ok r) :
    (keyword ∈ nameMapKeywords → ∀ v names, (.text keyword, v) ∈ es → v.opened = .map names →
      ∀ name u, (name, u) ∈ names → ∃ w, (merge settings document visited u).result = .ok w ∧
        r.at? (place ++ [.entry (.text keyword), .entry name]) = some w) ∧
    ∀ path names, NamesData es keyword path names →
      (∃ w, (merge settings document visited (.map names)).result = .ok w ∧
        r.at? (place ++ .entry (.text keyword) :: path) = some w) ∧
      (IsSimple names →
        (∀ name v, (.text name, v) ∈ names → (name = "required" → ∃ s, v = .scalar s) →
          ∃ w, r.at? (place ++ .entry (.text keyword) :: path ++ [.entry (.text name)]) =
              (if settings.isVendor name then none else some w) ∧
            (IsPlain v → w = v)) ∧
        ((∀ k v, (k, v) ∈ names → IsPlain v) →
          (r.at? (place ++ .entry (.text keyword) :: path) = some (.map names) ↔
            IsNormal settings names))) := by
  obtain ⟨m, hm, rfl⟩ := merge_ok hmerge
  refine ⟨fun hkeyword v names hv hnames name u hu => ?_, fun path names hdata => ?_⟩
  · have hstands : StandsAt settings document visited (.map es)
        [.entry (.text keyword), .entry name] u :=
      .name hes hv (hvendor keyword (List.mem_append_left _ hkeyword)) hkeyword hnames hu (.here u)
    obtain ⟨-, n, hn, hfound⟩ := (hshows.stands hstands).merges hdocument hnode hm
    exact ⟨n.schema, Outcome.result_bind_ok.2 ⟨n, hn, rfl⟩, hfound⟩
  · obtain ⟨hwell, n, hn, hfound⟩ := (hshows.stands (hdata.stands hes hvendor)).merges hdocument hnode hm
    have hmerged : (merge settings document visited (.map names)).result = .ok n.schema :=
      Outcome.result_bind_ok.2 ⟨n, hn, rfl⟩
    have hdistinct : Keyed.Distinct names := (Value.keysEverywhere_map.1 hwell).1
    refine ⟨⟨n.schema, hmerged, hfound⟩, fun hsimple => ⟨fun name v hv hrequired => ?_,
      fun hplain => ?_⟩⟩
    · obtain ⟨w, hw, hself⟩ := hsimple.find?_entry hdistinct hn hv hrequired
      refine ⟨w, ?_, hself⟩
      rw [Value.at?_append, hfound, Option.bind_some, Merged.at?_entry, hw]
      cases settings.isVendor name <;> rfl
    · rw [hfound, Option.some.injEq]
      constructor
      · intro hself
        have hnormal := merge_normal hmerged
        rw [hself] at hnormal
        exact hnormal.isNormal (.here names)
      · exact hsimple.schema_of_isNormal hdistinct hn hplain

/-- What the values of a discriminator stand for. -/
def petNames : Keyed Value := [(.text "cat", .text "#/Cat"), (.text "x-cat", .text "#/Cat")]

/-- A choice between pets, where a schema, a card and a cat have names with the vendor prefix. -/
def pets : Keyed Value :=
  [(.text "$defs", .record [("x-pet", .record [("type", .text "string"), ("x-order", .int 1)])]),
    (.text "dependentRequired", .record [("card", .list [.text "address"]), ("x-card", .list [.text "address"])]),
    (.text "discriminator", .map [(.text "propertyName", .text "kind"), (.text "mapping", .map petNames)])]

/-- What the choice comes to. -/
def mergedPets : Value :=
  .record [("$defs", .record [("x-pet", .record [("type", .text "string")])]),
    ("dependentRequired", .record [("card", .list [.text "address"])]),
    ("discriminator", .record [("propertyName", .text "kind"), ("mapping", .record [("cat", .text "#/Cat")])])]

/-- A list with a schema that the choice is part of. -/
def petList : Value := .record [("anyOf", .list [.record [("allOf", .list [.map pets])]])]

/-- What the list comes to. -/
def mergedPetList : Value := .record [("anyOf", .list [mergedPets])]

theorem namesData_pets : NamesData pets "discriminator" [.entry (.text "mapping")] petNames :=
  .mapping (.tail _ (.tail _ (.head _))) rfl ⟨rfl, rfl, rfl⟩ (.tail _ (.head _)) rfl

theorem wellFormed_pets : (Value.map pets).WellFormed := by
  show (Value.record [
    ("$defs", .record [("x-pet", .record [("type", .text "string"), ("x-order", .int 1)])]),
    ("dependentRequired", .record [("card", .list [.text "address"]), ("x-card", .list [.text "address"])]),
    ("discriminator", .record [("propertyName", .text "kind"),
      ("mapping", .record [("cat", .text "#/Cat"), ("x-cat", .text "#/Cat")])])]).WellFormed
  simp [Value.WellFormed, Value.keysEverywhere_record, Value.keysEverywhere_list,
    Value.keysEverywhere_scalar, Scalar.same]

/-- The choice gives the list every keyword but properties and required names: nothing stands beside it. -/
theorem showsAt_pets {keyword : String} (h : keyword ∉ ["properties", "required"]) :
    ShowsAt {} .null [] keyword petList [.entry (.text "anyOf"), .item 0] pets := by
  refine @ShowsAt.part {} .null [] keyword _ _ [(.text "allOf", .list [.map pets])] pets [.map []] [] (.map pets)
    (.here ?_) rfl rfl rfl rfl h ?_ rfl
  · exact .keyword ⟨rfl, rfl, rfl⟩ (.head _) (by decide) (.inl (by decide)) (fun h => absurd h (by decide))
      (.item rfl (.here _))
  · rintro c hc m hm
    obtain rfl := List.mem_singleton.1 hc
    obtain rfl := Except.ok.inj hm
    rfl

/-- Of the names in the list, the schema `x-pet` is kept and the value `x-cat` is not. -/
theorem merge_keeps_names_pets : (merge {} .null [] petList).result = .ok mergedPetList ∧
    (∃ w, (merge {} .null [] (.record [("type", .text "string"), ("x-order", .int 1)])).result = .ok w ∧
      mergedPetList.at? ([.entry (.text "anyOf"), .item 0] ++
        [.entry (.text "$defs"), .entry (.text "x-pet")]) = some w) ∧
    mergedPetList.at? ([.entry (.text "anyOf"), .item 0] ++
      [.entry (.text "discriminator"), .entry (.text "mapping")] ++ [.entry (.text "x-cat")]) = none := by
  have hnode : petList.WellFormed := by
    simpa [petList, Value.WellFormed, Value.keysEverywhere_record, Value.keysEverywhere_list]
      using wellFormed_pets
  have hmerge : (merge {} .null [] petList).result = .ok mergedPetList := by rfl
  have hnull : Value.null.WellFormed := Value.keysEverywhere_scalar _
  refine ⟨hmerge, ?_, ?_⟩
  · exact (merge_keeps_names {} .null [] petList mergedPetList _ "$defs" pets hnull hnode (by decide)
      (showsAt_pets (by decide)) ⟨rfl, rfl, rfl⟩ hmerge).1 (by decide) _ _ (.head _) rfl _ _ (.head _)
  · obtain ⟨-, hentries⟩ := (merge_keeps_names {} .null [] petList mergedPetList _ "discriminator" pets hnull
      hnode (by decide) (showsAt_pets (by decide)) ⟨rfl, rfl, rfl⟩ hmerge).2 _ _ namesData_pets
    obtain ⟨w, hw, -⟩ := (hentries ⟨rfl, rfl, rfl⟩).1 "x-cat" (.text "#/Cat") (.tail _ (.head _))
      fun h => absurd h (by decide)
    rw [hw]
    exact if_pos (by decide)

/-- **Not every name for data is kept**: the discriminator of the choice says what `x-cat` stands for, and in
what the choice comes to nothing stands under this name. -/
theorem not_merge_keeps_names : ¬ ∀ (es : Keyed Value) (r : Value), (Value.map es).WellFormed →
    IsSimple es → (merge {} .null [] (.map es)).result = .ok r →
    ∀ keyword path names, NamesData es keyword path names → ∀ name v, (name, v) ∈ names → IsPlain v →
      r.at? (.entry (.text keyword) :: path ++ [.entry name]) = some v := by
  intro h
  have hmerge : (merge {} .null [] (.map pets)).result = .ok mergedPets := by rfl
  have hkept := h pets mergedPets wellFormed_pets ⟨rfl, rfl, rfl⟩ hmerge _ _ petNames namesData_pets
    (.text "x-cat") (.text "#/Cat") (.tail _ (.head _)) (.inl ⟨_, rfl⟩)
  cases hkept

end ToolCatalog.Schema
