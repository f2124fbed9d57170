import ToolCatalog.Proofs.Value.Induction
import ToolCatalog.Proofs.Value.Keyed
import ToolCatalog.Value.Access

/-!
# JSON values

What a JSON text spells: scalars but for the calendar and binary data that YAML adds, lists, and mappings
with texts as keys.  There are no pairs and no sets, and no part leads back to where it stands.
-/

namespace ToolCatalog.Value

/-- Whether a value is of a kind that JSON has. -/
def isPlain : Value → Bool
  | .scalar (.date _) | .scalar (.timestamp _) | .scalar (.bytes _) => false
  | .pair _ _ | .set _ | .part _ _ => false
  | .scalar _ | .list _ | .map _ => true

/-- **A JSON value**: its mappings have texts as keys, and all that stands in it is of a kind that JSON
has. -/
structure IsJson (v : Value) : Prop where
  keys : v.HasTextKeys
  plain : ∀ w, Within w v → w.isPlain = true

theorem IsJson.within {v w : Value} (h : v.IsJson) (hw : Within w v) : w.IsJson :=
  ⟨KeysEverywhere.within h.keys hw, fun u hu => h.plain u (hu.trans hw)⟩

theorem isJson_scalar {s : Scalar} : (scalar s).IsJson ↔ (scalar s).isPlain = true := by
  constructor
  · exact fun h => h.plain _ .self
  · refine fun h => ⟨keysEverywhere_scalar s, fun w hw => ?_⟩
    rwa [within_scalar.1 hw]

theorem isJson_list {vs : List Value} : (list vs).IsJson ↔ ∀ v ∈ vs, v.IsJson := by
  constructor
  · exact fun h v hv => h.within (.item hv .self)
  · refine fun h => ⟨keysEverywhere_list.2 fun v hv => (h v hv).keys, fun w hw => ?_⟩
    rcases within_list.1 hw with rfl | ⟨v, hv, hw⟩
    · rfl
    · exact (h v hv).plain w hw

theorem isJson_map {es : List (Scalar × Value)} :
    (map es).IsJson ↔ (∀ k ∈ Keyed.keys es, ∃ s, k = .text s) ∧ ∀ k v, (k, v) ∈ es → v.IsJson := by
  constructor
  · exact fun h => ⟨h.keys es .self, fun k v hv => h.within (.entry hv .self)⟩
  · refine fun ⟨hkeys, hvs⟩ =>
      ⟨keysEverywhere_map.2 ⟨hkeys, fun k v hv => (hvs k v hv).keys⟩, fun w hw => ?_⟩
    rcases within_map.1 hw with rfl | ⟨k, v, hv, hw⟩
    · rfl
    · exact (hvs k v hv).plain w hw

theorem isJson_record {fields : List (String × Value)} :
    (record fields).IsJson ↔ ∀ f ∈ fields, f.2.IsJson := by
  rw [record, isJson_map]
  constructor
  · exact fun h f hf => h.2 (.text f.1) f.2 (List.mem_map.2 ⟨f, hf, rfl⟩)
  · refine fun h => ⟨fun k hk => ?_, fun k v hv => ?_⟩
    · obtain ⟨v, hv⟩ := Keyed.mem_keys.1 hk
      obtain ⟨f, -, heq⟩ := List.mem_map.1 hv
      exact ⟨f.1, (Prod.mk.inj heq).1.symm⟩
    · obtain ⟨f, hf, heq⟩ := List.mem_map.1 hv
      rw [← (Prod.mk.inj heq).2]
      exact h f hf

/-- A JSON value is a scalar, a list or a mapping, with nothing around it. -/
theorem IsJson.opened {v : Value} (h : v.IsJson) : v.opened = v := by
  have hplain := h.plain v .self
  cases v with
  | part n body => cases hplain
  | _ => rfl

/-- A JSON value that is the same as a text is that text. -/
theorem IsJson.eq_text_of_same {v : Value} {t : String} (h : v.IsJson)
    (hsame : v.same (.text t) = true) : v = .text t := by
  have hplain := h.plain v .self
  cases v with
  | scalar s =>
    have htext : s.same (.text t) = true := hsame
    rw [Scalar.same_comm, Scalar.same_text] at htext
    rw [htext]
  | list | map => cases hsame
  | pair | set | part => cases hplain

theorem IsJson.orElse {v default : Value} (hv : v.IsJson) (hdefault : default.IsJson) :
    (v.orElse default).IsJson := by
  unfold Value.orElse
  split
  · exact hv
  · exact hdefault

/-- The fields of a JSON mapping are JSON values. -/
theorem IsJson.field {es : Keyed Value} (h : (map es).IsJson) (name : String) :
    (Value.field es name).IsJson := by
  unfold Value.field
  cases hv : Keyed.find? es (.text name) with
  | none => exact isJson_scalar.2 rfl
  | some v =>
    obtain ⟨k, hk, -⟩ := Keyed.mem_of_find? hv
    exact (isJson_map.1 h).2 k v hk

/-- The items of a JSON value are JSON values. -/
theorem IsJson.items {v : Value} {vs : List Value} (h : v.IsJson) (hvs : v.items = .ok vs) :
    ∀ w ∈ vs, w.IsJson := by
  have hplain := h.plain v .self
  unfold Value.items at hvs
  split at hvs
  · obtain rfl := Except.ok.inj hvs
    exact isJson_list.1 h
  · obtain rfl := Except.ok.inj hvs
    intro w hw
    obtain ⟨e, he, rfl⟩ := List.mem_map.1 hw
    obtain ⟨t, ht⟩ := (isJson_map.1 h).1 e.1 (Keyed.mem_keys_of_mem he)
    exact isJson_scalar.2 (by rw [ht]; rfl)
  · obtain rfl := Except.ok.inj hvs
    intro w hw
    obtain ⟨c, -, rfl⟩ := List.mem_map.1 hw
    exact isJson_scalar.2 rfl
  all_goals first | cases hplain | cases hvs

end ToolCatalog.Value
