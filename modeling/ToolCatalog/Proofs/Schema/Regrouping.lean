import ToolCatalog.Proofs.Schema.CycleGuard
import ToolCatalog.Proofs.Schema.Gathering
import ToolCatalog.Proofs.Schema.Hereditary

/-!
# Parts may be grouped

A schema that is composed of parts comes to what its merged parts come to together.  A part merges in
its place to what it merges to by itself, and what it merges to can be put together with others: its
required names have been in a finished list, so they are keys.

* `merge_allOf_assoc`: `allOf` is associative.
-/

namespace ToolCatalog.Schema

/-- The schema that is composed of parts. -/
def allOf (branches : List Value) : Value := .map [(.text "allOf", .list branches)]

/-! ## A part in its place -/

section

variable {settings : Settings} {document : Value} {visited : List String}

theorem references_allOf (bs : List Value) : references (allOf bs) = referencesOfItems bs := by
  simp [allOf, references, referencesOfEntries]

/-- **A node merges in its place to what it merges to by itself**, if the bound in its place is no
shorter than its own. -/
theorem mergeAs_of_mergeVisited {node : Value} {m : Merged} {count : Unit → Nat}
    (hcount : (references document).length + (references node).length ≤ count ())
    (h : (mergeVisited settings document visited node).result = .ok m) :
    (mergeAs settings (resolveFrom settings document (Bound.ofCount count) visited)
      (leadsToDeprecated document) .schema node).result = .ok m := by
  have hlength : (Bound.ofCount fun _ =>
      (references document).length + (references node).length).length ≤
        (Bound.ofCount count).length := by
    simpa [Bound.ofCount] using hcount
  have hbelow : (mergeVisited settings document visited node).Below IsStuck
      (mergeAs settings (resolveFrom settings document (Bound.ofCount count) visited)
        (leadsToDeprecated document) .schema node) :=
    mergeAs_below (fun ref _ => resolveFrom_below_longer hlength visited ref) fun _ _ => rfl
  rw [← hbelow.eq_of_finished fun e he => by rw [h] at he; cases he]
  exact h

/-- What a part merges to by itself. -/
def mergedPart (settings : Settings) (document : Value) (visited : List String) (node : Value) :
    Merged :=
  match (mergeVisited settings document visited node).result with
  | .ok m => m
  | .error _ => default

theorem mergedPart_of_ok {node : Value} {m : Merged}
    (h : (mergeVisited settings document visited node).result = .ok m) :
    mergedPart settings document visited node = m := by
  rw [mergedPart, h]

variable {follow : String → Outcome Merged} {deprecated : Value → Except Fault Bool}

/-- Parts that merge are folded in as what they merge to. -/
theorem result_mergeBranches {merged : Value → Merged} {bs : List Value} {into : Parts}
    (h : ∀ b ∈ bs, (mergeAs settings follow deprecated .schema b).result = .ok (merged b)) :
    (mergeBranches settings follow deprecated bs into).result = foldMerged (bs.map merged) into := by
  induction bs generalizing into with
  | nil =>
    rw [mergeBranches_nil]
    rfl
  | cons b rest ih =>
    have ih := fun {into} => @ih into fun b' hb' => h b' (List.mem_cons_of_mem _ hb')
    rw [mergeBranches_cons, List.map_cons, foldMerged, Outcome.result_bind, h b List.mem_cons_self]
    simp only [Except.bind]
    cases hschema : (merged b).schema with
    | map es =>
      have hentries : (merged b).entries = es := by rw [Merged.entries, hschema]
      simp only [hentries, Outcome.result_bind, ih]
      rfl
    | _ =>
      have hentries : (merged b).entries = [] := Merged.entries_of_not_map (by simp [hschema])
      simp only [hentries, ih]
      rfl

/-- **A composed schema** comes to what its merged parts come to together. -/
theorem result_mergeAs_allOf {merged : Value → Merged} {bs : List Value}
    (h : ∀ b ∈ bs, (mergeAs settings follow deprecated .schema b).result = .ok (merged b)) :
    (mergeAs settings follow deprecated .schema (allOf bs)).result =
      (together settings (bs.map merged)).map Parts.toMerged := by
  have hown : mergeEntries settings follow deprecated
      (isStructural [(.text "allOf", .list bs)]) [(.text "allOf", .list bs)] = pure ⟨[], []⟩ := by
    rw [mergeEntries_cons, if_pos (by rfl), mergeEntries_nil]
  have hwhole : (mergeBeside settings follow deprecated [(.text "allOf", .list bs)]).result =
      together settings (bs.map merged) := by
    rw [mergeBeside, hown, pure_bind, compose, together, ← result_mergeBranches h,
      show mergeBranchesIn settings follow deprecated [(.text "allOf", .list bs)] =
        mergeBranches settings follow deprecated bs from
          funext fun into => mergeBranchesIn_eq _ _ _ _ into, Outcome.result_bind]
    show Outcome.result (do
      let whole ← mergeBranches settings follow deprecated bs ⟨[], []⟩
      liftM (finish settings whole)) = _
    rw [Outcome.result_bind]
    rfl
  rw [allOf, mergeAs_schema, if_neg (by simp [Settings.isDeprecated, Keyed.find?])]
  show Outcome.result (do
    let whole ← mergeBeside settings follow deprecated [(.text "allOf", .list bs)]
    return whole.toMerged) = _
  rw [Outcome.result_bind, hwhole]
  cases together settings (bs.map merged) <;> rfl

end

/-! ## Grouping -/

section

variable {settings : Settings} {document : Value} {visited : List String}

/-- **A schema that is composed of parts which merge** comes to what they merge to together. -/
theorem result_mergeVisited_allOf {bs : List Value}
    (h : ∀ b ∈ bs, ∃ m, (mergeVisited settings document visited b).result = .ok m) :
    (mergeVisited settings document visited (allOf bs)).result =
      (together settings (bs.map (mergedPart settings document visited))).map Parts.toMerged := by
  refine result_mergeAs_allOf fun b hb => ?_
  obtain ⟨m, hm⟩ := h b hb
  rw [mergedPart_of_ok hm]
  refine mergeAs_of_mergeVisited ?_ hm
  rw [references_allOf]
  exact Nat.add_le_add_left (references_within_sublist (.item hb .self)).length_le _

theorem result_merge_of_together {bs : List Value} {p : Parts}
    (h : ∀ b ∈ bs, ∃ m, (mergeVisited settings document visited b).result = .ok m)
    (hp : together settings (bs.map (mergedPart settings document visited)) = .ok p) :
    (merge settings document visited (allOf bs)).result = .ok (.map p.entries) := by
  rw [merge, Outcome.result_bind, result_mergeVisited_allOf h, hp]
  rfl

/-- The properties of a merged schema are a mapping and its required names are a list, as far as it
has them. -/
structure Merged.IsRegular (m : Merged) : Prop where
  properties : ∀ v, Keyed.find? m.entries propertiesKey = some v → ∃ ps, v = .map ps
  required : Listed m.entries

/-- The required names of what a node merges to are keys. -/
theorem namesAreKeys_of_mergeVisited {node : Value} {m : Merged}
    (h : (mergeVisited settings document visited node).result = .ok m) : NamesAreKeys m.entries :=
  mergeVisited_finished (p := fun m => NamesAreKeys m.entries)
    (fun m hnil _ => by rw [hnil]; exact namesAreKeys_nil) (fun _ _ => finish_namesAreKeys) h

/-- No key comes twice anywhere in the entries of a schema in which none does. -/
theorem wellFormed_entries {m : Merged} (h : m.schema.WellFormed) : (Value.map m.entries).WellFormed := by
  unfold Merged.entries
  split
  · next es hes => rwa [hes] at h
  · exact hereditary_distinct.map_nil

/-- No key comes twice anywhere in what a node merges to, if none does in the document and the node. -/
theorem wellFormed_of_mergeVisited {node : Value} {m : Merged} (hdocument : document.WellFormed)
    (hnode : node.WellFormed) (h : (mergeVisited settings document visited node).result = .ok m) :
    (Value.map m.entries).WellFormed := by
  have hmerge : (merge settings document visited node).result = .ok m.schema :=
    Outcome.result_bind_ok.2 ⟨m, h, rfl⟩
  exact wellFormed_entries (hereditary_distinct.merge hdocument hnode hmerge)

/-- What a node merges to can be put together with others, if it is regular. -/
theorem foldable_of_mergeVisited {node : Value} {m : Merged} (hdocument : document.WellFormed)
    (hnode : node.WellFormed) (h : (mergeVisited settings document visited node).result = .ok m)
    (hregular : m.IsRegular) : Foldable m := by
  have hwell := wellFormed_of_mergeVisited hdocument hnode h
  have hdistinct : Keyed.Distinct m.entries := (Value.keysEverywhere_map.1 hwell).1
  refine ⟨hdistinct, ⟨hdistinct.sublist (List.filter_sublist.map _), fun v hv => ?_, ?_⟩,
    hregular.required, (namesAreKeys_of_mergeVisited h).openRequired⟩
  · rw [Merged.bare, find?_properties_without] at hv
    obtain ⟨ps, rfl⟩ := hregular.properties v hv
    exact ⟨ps, rfl, distinct_of_find? hwell hv⟩
  · rw [Merged.bare, Keyed.find?_without, if_pos (Scalar.same_refl _)]

end

/-- **`allOf` is associative.**  If the parts of a schema merge, to regular schemas no two of which say
something about one property, then it merges with some of the parts in a group and without the group,
and comes to the same but for the order of keys. -/
theorem merge_allOf_assoc (settings : Settings) (document : Value) (visited : List String)
    (xs ys zs : List Value) (hdocument : document.WellFormed)
    (hwell : ∀ b ∈ xs ++ ys ++ zs, b.WellFormed)
    (hmerges : ∀ b ∈ xs ++ ys ++ zs, ∃ m,
      (mergeVisited settings document visited b).result = .ok m ∧ m.IsRegular)
    (hdisjoint : ∀ b ∈ xs ++ ys ++ zs, ∀ c ∈ xs ++ ys ++ zs, b ≠ c → ∀ m n,
      (mergeVisited settings document visited b).result = .ok m →
      (mergeVisited settings document visited c).result = .ok n →
      ∀ k, m.mentions k = true → n.mentions k = false) :
    ∃ nested flat,
      (merge settings document visited (allOf (xs ++ [allOf ys] ++ zs))).result = .ok nested ∧
      (merge settings document visited (allOf (xs ++ ys ++ zs))).result = .ok flat ∧
      nested.Alike flat := by
  have hok : ∀ b ∈ xs ++ ys ++ zs, ∃ m, (mergeVisited settings document visited b).result = .ok m :=
    fun b hb => (hmerges b hb).imp fun m hm => hm.1
  have hpart : ∀ b ∈ xs ++ ys ++ zs, (mergeVisited settings document visited b).result =
      .ok (mergedPart settings document visited b) := by
    intro b hb
    obtain ⟨m, hm⟩ := hok b hb
    rw [mergedPart_of_ok hm, hm]
  have hfoldable : ∀ m ∈ (xs ++ ys ++ zs).map (mergedPart settings document visited),
      Foldable m := by
    intro m hm
    obtain ⟨b, hb, rfl⟩ := List.mem_map.1 hm
    obtain ⟨m, hm, hregular⟩ := hmerges b hb
    rw [mergedPart_of_ok hm]
    exact foldable_of_mergeVisited hdocument (hwell b hb) hm hregular
  rw [List.map_append, List.map_append] at hfoldable
  obtain ⟨inner, nested, flat, hinner, hnested, hflat, halike⟩ := regroup settings hfoldable
    (fun m hm n hn hne => by
      rw [← List.map_append, ← List.map_append] at hm hn
      obtain ⟨b, hb, rfl⟩ := List.mem_map.1 hm
      obtain ⟨c, hc, rfl⟩ := List.mem_map.1 hn
      exact hdisjoint b hb c hc (fun heq => hne (by rw [heq])) _ _ (hpart b hb) (hpart c hc))
  have hgroup : (mergeVisited settings document visited (allOf ys)).result = .ok inner.toMerged := by
    rw [result_mergeVisited_allOf fun b hb => hok b
      (List.mem_append_left _ (List.mem_append_right _ hb)), hinner]
    rfl
  refine ⟨.map nested.entries, .map flat.entries, result_merge_of_together ?_ ?_,
    result_merge_of_together hok ?_, halike⟩
  · intro b hb
    simp only [List.mem_append, List.mem_singleton] at hb
    rcases hb with (hb | rfl) | hb
    · exact hok b (by simp [hb])
    · exact ⟨_, hgroup⟩
    · exact hok b (by simp [hb])
  · rw [List.map_append, List.map_append, List.map_cons, List.map_nil, mergedPart_of_ok hgroup,
      List.append_assoc]
    exact hnested
  · rw [List.map_append, List.map_append]
    exact hflat

/-- A part that defines `name` and requires it, and the `secret` of another part. -/
def namePart : Value :=
  .record [("properties", .record [("name", .record [("type", .text "string")])]),
    ("required", .list [.text "name", .text "secret"])]

/-- A part that defines `secret`, which is deprecated, and requires the `name` of another part. -/
def secretPart : Value :=
  .record [("properties", .record [("secret", .record [("deprecated", .bool true)])]),
    ("required", .list [.text "secret", .text "name"])]

/-- Grouping the second part makes no difference: `secret` goes inside the group, and outside it in the
end. -/
theorem merge_allOf_assoc_secret :
    ∃ nested flat, (merge {} .null [] (allOf [namePart, allOf [secretPart]])).result = .ok nested ∧
      (merge {} .null [] (allOf [namePart, secretPart])).result = .ok flat ∧ nested.Alike flat := by
  let name : Merged := ⟨.record [("properties", .record [("name", .record [("type", .text "string")])]),
    ("required", .list [.text "name", .text "secret"])], []⟩
  let secret : Merged := ⟨.record [("properties", .record []), ("required", .list [.text "name"])],
    [.text "secret"]⟩
  have hname : (mergeVisited {} .null [] namePart).result = .ok name := by rfl
  have hsecret : (mergeVisited {} .null [] secretPart).result = .ok secret := by rfl
  have hname' : ∀ k, name.mentions k = k.same (.text "name") := by
    intro k
    cases h : k.same (.text "name") <;>
      simp [name, Merged.mentions, Merged.properties, Merged.entries, Value.record, propertiesOf,
        Keyed.has, Scalar.same_refl, h]
  have hsecret' : ∀ k, secret.mentions k = k.same (.text "secret") := by
    intro k
    simp [secret, Merged.mentions, Merged.properties, Merged.entries, Value.record, propertiesOf,
      Keyed.has, Scalar.same_refl]
  have hnot : ∀ k : Scalar, k.same (.text "name") = true → k.same (.text "secret") = false := by
    intro k h
    rw [Scalar.same_congr h]
    decide
  refine merge_allOf_assoc {} .null [] [namePart] [secretPart] [] ?_ ?_ ?_ ?_
  · exact Value.keysEverywhere_scalar _
  · simp [namePart, secretPart, Value.WellFormed, Value.keysEverywhere_record,
      Value.keysEverywhere_list, Value.keysEverywhere_scalar, Scalar.same]
  · intro b hb
    rcases List.mem_cons.1 hb with rfl | hb
    · refine ⟨name, hname, ⟨fun v hv => ?_, fun v hv => ?_⟩⟩
      · exact ⟨_, (Option.some.inj hv).symm⟩
      · exact ⟨_, (Option.some.inj hv).symm⟩
    · obtain rfl := List.mem_singleton.1 hb
      refine ⟨secret, hsecret, ⟨fun v hv => ?_, fun v hv => ?_⟩⟩
      · exact ⟨_, (Option.some.inj hv).symm⟩
      · exact ⟨_, (Option.some.inj hv).symm⟩
  · intro b hb c hc hne m n hm hn k hk
    rcases List.mem_cons.1 hb with rfl | hb <;> rcases List.mem_cons.1 hc with rfl | hc
    · exact absurd rfl hne
    · obtain rfl := List.mem_singleton.1 hc
      obtain rfl := Except.ok.inj (hname.symm.trans hm)
      obtain rfl := Except.ok.inj (hsecret.symm.trans hn)
      rw [hname'] at hk
      rw [hsecret']
      exact hnot k hk
    · obtain rfl := List.mem_singleton.1 hb
      obtain rfl := Except.ok.inj (hsecret.symm.trans hm)
      obtain rfl := Except.ok.inj (hname.symm.trans hn)
      rw [hsecret'] at hk
      rw [hname']
      cases h : k.same (.text "name") with
      | false => rfl
      | true =>
        rw [hnot k h] at hk
        cases hk
    · obtain rfl := List.mem_singleton.1 hb
      obtain rfl := List.mem_singleton.1 hc
      exact absurd rfl hne

end ToolCatalog.Schema
