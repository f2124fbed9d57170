import ToolCatalog.Proofs.Value.Field
import ToolCatalog.Proofs.Value.Json
import ToolCatalog.Tool.Wire

/-!
# The wire form of tools decodes back

In writing, the schemas of the arguments become plain JSON.  Plain JSON is written as it is, and whatever
is written is plain JSON, so writing changes nothing from the second time on.  All other fields of a tool
are texts, and an optional one that is left out is read as not set.  So a tool is read back with its
schemas as they were written, and is written in the same way again.

* `encode_decodes`: the wire form of a tool is read as a tool with the same wire form, which is the tool
  itself if its schemas are plain JSON.
-/

namespace ToolCatalog

namespace Value

/-- **Plain JSON**: a JSON value in which no mapping has a key twice and all numbers are finite. -/
structure IsPlainJson (v : Value) : Prop where
  json : v.IsJson
  wellFormed : v.WellFormed
  finite : ∀ x, Within (.scalar (.float x)) v → x.isFinite = true

theorem isPlainJson_scalar {s : Scalar} : (scalar s).IsPlainJson ↔
    (scalar s).isPlain = true ∧ ∀ x, s = .float x → x.isFinite = true := by
  constructor
  · intro h
    refine ⟨isJson_scalar.1 h.json, ?_⟩
    rintro x rfl
    exact h.finite x .self
  · intro h
    refine ⟨isJson_scalar.2 h.1, keysEverywhere_scalar s, fun x hx => ?_⟩
    exact h.2 x (scalar.inj (within_scalar.1 hx)).symm

theorem isPlainJson_list {vs : List Value} :
    (list vs).IsPlainJson ↔ ∀ v ∈ vs, v.IsPlainJson := by
  constructor
  · intro h v hv
    exact ⟨h.json.within (.item hv .self), KeysEverywhere.within h.wellFormed (.item hv .self),
      fun x hx => h.finite x (.item hv hx)⟩
  · intro h
    refine ⟨isJson_list.2 fun v hv => (h v hv).json,
      keysEverywhere_list.2 fun v hv => (h v hv).wellFormed, fun x hx => ?_⟩
    cases hx with
    | item hv hx => exact (h _ hv).finite x hx

theorem isPlainJson_map {es : Keyed Value} : (map es).IsPlainJson ↔
    (∀ k ∈ Keyed.keys es, ∃ s, k = .text s) ∧ Keyed.Distinct es ∧
      ∀ k v, (k, v) ∈ es → v.IsPlainJson := by
  constructor
  · intro h
    refine ⟨(isJson_map.1 h.json).1, (keysEverywhere_map.1 h.wellFormed).1, fun k v hv => ?_⟩
    exact ⟨h.json.within (.entry hv .self), KeysEverywhere.within h.wellFormed (.entry hv .self),
      fun x hx => h.finite x (.entry hv hx)⟩
  · intro ⟨hkeys, hdistinct, hvs⟩
    refine ⟨isJson_map.2 ⟨hkeys, fun k v hv => (hvs k v hv).json⟩,
      keysEverywhere_map.2 ⟨hdistinct, fun k v hv => (hvs k v hv).wellFormed⟩, fun x hx => ?_⟩
    cases hx with
    | entry hv hx => exact (hvs _ _ hv).finite x hx

/-! ## Schemas in plain JSON -/

theorem plainItems_eq_map (vs : List Value) : plainItems vs = vs.map plain := by
  induction vs with
  | nil => rfl
  | cons v rest ih => rw [plainItems, ih, List.map_cons]

theorem plainEntries_eq_map (es : Keyed Value) :
    plainEntries es = es.map fun e => (.text e.1.plainKey, e.2.plain) := by
  induction es with
  | nil => rfl
  | cons e rest ih => rw [plainEntries, ih, List.map_cons]

/-- The entries of a mapping that is written have texts as keys and hold what the entries of the mapping
are written as. -/
theorem mem_plainEntries {es : Keyed Value} {k : Scalar} {w : Value}
    (h : (k, w) ∈ Keyed.ofList (plainEntries es)) :
    (∃ s, k = .text s) ∧ ∃ q v, (q, v) ∈ es ∧ w = v.plain := by
  rw [plainEntries_eq_map] at h
  constructor
  · rcases Keyed.mem_keys_putAll (Keyed.mem_keys_of_mem h) with hk | hk
    · cases hk
    · obtain ⟨w', hw'⟩ := Keyed.mem_keys.1 hk
      obtain ⟨e, -, heq⟩ := List.mem_map.1 hw'
      exact ⟨e.1.plainKey, (Prod.mk.inj heq).1.symm⟩
  · rcases Keyed.mem_putAll h with h | ⟨k', hk', -⟩
    · cases h
    · obtain ⟨e, he, heq⟩ := List.mem_map.1 hk'
      exact ⟨e.1, e.2, he, (Prod.mk.inj heq).2.symm⟩

/-- **Plain JSON is written as it is.** -/
theorem plain_eq_self {v : Value} (h : v.IsPlainJson) : v.plain = v := by
  induction v using Value.induction with
  | scalar s =>
    obtain ⟨hplain, hfinite⟩ := isPlainJson_scalar.1 h
    rw [plain]
    cases s with
    | float x => rw [Scalar.plain, if_pos (hfinite x rfl)]
    | date | timestamp | bytes => cases hplain
    | _ => rfl
  | list vs ih =>
    have hitems : plainItems vs = vs := by
      rw [plainItems_eq_map]
      exact (List.map_congr_left fun v hv => ih v hv (isPlainJson_list.1 h v hv)).trans (List.map_id vs)
    rw [plain, hitems]
  | map es ih _ =>
    obtain ⟨hkeys, hdistinct, hvs⟩ := isPlainJson_map.1 h
    have hentries : plainEntries es = es := by
      rw [plainEntries_eq_map]
      refine (List.map_congr_left fun e he => ?_).trans (List.map_id es)
      obtain ⟨s, hs⟩ := hkeys e.1 (Keyed.mem_keys_of_mem he)
      refine Prod.ext ?_ (ih e.1 e.2 he (hvs e.1 e.2 he))
      show Scalar.text e.1.plainKey = e.1
      rw [hs, Scalar.plainKey]
    rw [plain, hentries, Keyed.ofList, Keyed.putAll_nil hdistinct]
  | pair | set | part => cases h.json.plain _ .self

/-- A scalar is written as one that JSON has, and as a number with a fraction only if it is finite. -/
theorem isPlainJson_plain_scalar (s : Scalar) : (scalar s.plain).IsPlainJson := by
  refine isPlainJson_scalar.2 ?_
  cases s with
  | float x =>
    rw [Scalar.plain]
    split
    · next hfinite =>
      refine ⟨rfl, fun y hy => ?_⟩
      obtain rfl := Scalar.float.inj hy
      exact hfinite
    · exact ⟨rfl, fun y hy => nomatch hy⟩
  | _ => exact ⟨rfl, fun y hy => nomatch hy⟩

/-- **What is written is plain JSON**, whatever it was. -/
theorem isPlainJson_plain (v : Value) : v.plain.IsPlainJson := by
  induction v using Value.induction with
  | scalar s => exact isPlainJson_plain_scalar s
  | list vs ih =>
    rw [plain, plainItems_eq_map, isPlainJson_list]
    intro w hw
    obtain ⟨v, hv, rfl⟩ := List.mem_map.1 hw
    exact ih v hv
  | map es ih _ =>
    rw [plain, isPlainJson_map]
    refine ⟨fun k hk => ?_, Keyed.distinct_putAll List.Pairwise.nil _, fun k w hw => ?_⟩
    · obtain ⟨w, hw⟩ := Keyed.mem_keys.1 hk
      exact (mem_plainEntries hw).1
    · obtain ⟨-, q, v, hv, rfl⟩ := mem_plainEntries hw
      exact ih q v hv
  | pair a b iha ihb =>
    rw [plain, isPlainJson_list]
    simpa using ⟨iha, ihb⟩
  | set ms =>
    rw [plain, isPlainJson_list]
    intro w hw
    obtain ⟨m, -, rfl⟩ := List.mem_map.1 hw
    exact isPlainJson_plain_scalar m
  | part n body ih => exact ih

/-- What is written is written as it is from the second time on. -/
theorem plain_plain (v : Value) : v.plain.plain = v.plain := plain_eq_self (isPlainJson_plain v)

/-! ## Schemas that can be written -/

theorem orElse_eq_none {first second : Option Fault} :
    (first <|> second) = none ↔ first = none ∧ second = none := by
  rw [Option.orElse_eq_orElse, Option.orElse_eq_or, Option.or_eq_none_iff]

theorem refusalInItems?_eq_none {levels : Nat} {vs : List Value} :
    refusalInItems? levels vs = none ↔ ∀ v ∈ vs, refusal? levels v = none := by
  induction vs with
  | nil => simp [refusalInItems?]
  | cons v rest ih => rw [refusalInItems?, orElse_eq_none, ih, List.forall_mem_cons]

theorem refusalInEntries?_eq_none {levels : Nat} {es : Keyed Value} :
    refusalInEntries? levels es = none ↔
      ∀ e ∈ es, e.1.refusalAsKey? = none ∧ refusal? levels e.2 = none := by
  induction es with
  | nil => simp [refusalInEntries?]
  | cons e rest ih =>
    rw [refusalInEntries?, orElse_eq_none, orElse_eq_none, ih, List.forall_mem_cons, and_assoc]

/-- What a scalar is written as can be written. -/
theorem refusal?_plain_scalar (s : Scalar) (levels : Nat) :
    refusal? (levels + 1) (.scalar s.plain) = none := by
  rw [refusal?]
  cases s with
  | float x =>
    rw [Scalar.plain]
    split <;> rfl
  | _ => rfl

/-- **What can be written can be written again** from what it was written as. -/
theorem refusal?_plain {v : Value} {levels : Nat} (h : refusal? levels v = none) :
    refusal? levels v.plain = none := by
  induction v using Value.induction generalizing levels with
  | scalar s =>
    cases levels with
    | zero => cases h
    | succ levels => exact refusal?_plain_scalar s levels
  | list vs ih =>
    cases levels with
    | zero => cases h
    | succ levels =>
      rw [refusal?, refusalInItems?_eq_none] at h
      rw [plain, refusal?, plainItems_eq_map, refusalInItems?_eq_none]
      intro w hw
      obtain ⟨v, hv, rfl⟩ := List.mem_map.1 hw
      exact ih v hv (h v hv)
  | map es ih _ =>
    cases levels with
    | zero => cases h
    | succ levels =>
      rw [refusal?, refusalInEntries?_eq_none] at h
      rw [plain, refusal?, refusalInEntries?_eq_none]
      rintro ⟨k, w⟩ hw
      obtain ⟨⟨s, rfl⟩, q, v, hv, rfl⟩ := mem_plainEntries hw
      exact ⟨rfl, ih q v hv (h (q, v) hv).2⟩
  | pair a b iha ihb =>
    cases levels with
    | zero => cases h
    | succ levels =>
      rw [refusal?, orElse_eq_none] at h
      rw [plain, refusal?, refusalInItems?_eq_none]
      simpa using ⟨iha h.1, ihb h.2⟩
  | set ms =>
    cases levels with
    | zero => cases h
    | succ levels =>
      rw [plain, refusal?, refusalInItems?_eq_none]
      intro w hw
      obtain ⟨m, hm, rfl⟩ := List.mem_map.1 hw
      cases levels with
      | zero =>
        have hsome : refusal? 1 (.set ms) = some .excessiveDepth := by
          simp [refusal?, List.ne_nil_of_mem hm]
        rw [h] at hsome
        cases hsome
      | succ levels => exact refusal?_plain_scalar m levels
  | part n body ih =>
    cases levels with
    | zero => cases h
    | succ levels => exact ih h

end Value

/-! ## Reading what was written -/

/-- A list of which each member is read back is read back. -/
theorem mapM_map_eq_ok {α : Type} {encode : α → Value} {decode : Value → Except Fault α}
    (h : ∀ a, decode (encode a) = .ok a) (as : List α) : (as.map encode).mapM decode = .ok as := by
  induction as with
  | nil => rfl
  | cons a rest ih =>
    rw [List.map_cons, List.mapM_cons, h]
    exact bind_eq_ok.2 ⟨a, rfl, bind_eq_ok.2 ⟨rest, ih, rfl⟩⟩

theorem WireParameter.decode_encode (p : WireParameter) : decode p.encode = .ok p := by
  obtain ⟨name, location, type, derivedFrom⟩ := p
  cases location <;> cases derivedFrom <;> rfl

theorem Recipe.decode_encode (r : Recipe) : decode r.encode = .ok r := by
  show ((r.parameters.map WireParameter.encode).mapM WireParameter.decode >>= fun ps =>
    (.ok { r with parameters := ps } : Except Fault Recipe)) = .ok r
  rw [mapM_map_eq_ok WireParameter.decode_encode]
  rfl

/-- The schema of the arguments is read back with its schemas as they were written. -/
theorem Arguments.decode_encode (a : Arguments) (hnames : (a.properties.map (·.1)).Nodup) :
    decode a.encode = .ok { a with properties := a.properties.map fun p => (p.1, p.2.plain) } := by
  obtain ⟨type, properties, required⟩ := a
  have hnamed : Field.named ((properties.map fun p => (p.1, p.2.plain)).map fun f =>
      (.text f.1, f.2)) = .ok (properties.map fun p => (p.1, p.2.plain)) := by
    refine Field.named_texts ?_
    rw [List.map_map]
    exact hnames
  cases required with
  | none =>
    show (Field.named _ >>= fun ps =>
      (.ok ⟨type, ps, none⟩ : Except Fault Arguments)) = _
    rw [hnamed]
    rfl
  | some names =>
    have htexts : (names.map Value.text).mapM Field.text = .ok names := mapM_map_eq_ok Field.key_text _
    show (Field.named _ >>= fun ps => some <$> (names.map Value.text).mapM Field.text >>= fun required =>
      (.ok ⟨type, ps, required⟩ : Except Fault Arguments)) = _
    rw [hnamed, htexts]
    rfl

namespace Tool

/-- A tool with the schemas of its arguments as they are written. -/
def asWritten (t : Tool) : Tool :=
  { t with arguments := { t.arguments with
      properties := t.arguments.properties.map fun p => (p.1, p.2.plain) } }

/-- A tool is read back with its schemas as they were written. -/
theorem decode_encode (t : Tool) (hnames : (t.arguments.properties.map (·.1)).Nodup) :
    decode t.encode = .ok t.asWritten := by
  show (Arguments.decode t.arguments.encode >>= fun arguments => Recipe.decode t.recipe.encode >>=
    fun recipe => (.ok ⟨t.name, t.description, arguments, recipe⟩ : Except Fault Tool)) = _
  rw [Arguments.decode_encode _ hnames, Recipe.decode_encode]
  rfl

/-- Schemas that are written are written once. -/
theorem encode_asWritten (t : Tool) : t.asWritten.encode = t.encode := by
  have hproperties : t.asWritten.arguments.properties.map (fun p => (p.1, p.2.plain)) =
      t.arguments.properties.map fun p => (p.1, p.2.plain) := by
    rw [asWritten, List.map_map]
    refine List.map_congr_left fun p _ => ?_
    show (p.1, p.2.plain.plain) = (p.1, p.2.plain)
    rw [Value.plain_plain]
  have harguments : t.asWritten.arguments.encode = t.arguments.encode := by
    rw [Arguments.encode, hproperties]
    rfl
  rw [encode, harguments]
  rfl

/-- A tool is published in its wire form, if all its schemas can be written. -/
theorem publish_eq_ok {t : Tool} {wire : Value} : t.publish = .ok wire ↔
    (∀ p ∈ t.arguments.properties, p.2.refusal? Value.maxDepth = none) ∧ wire = t.encode := by
  rw [publish]
  split
  · next f hf =>
    obtain ⟨p, hp, hrefused⟩ := List.exists_of_findSome?_eq_some hf
    simp only [reduceCtorEq, false_iff, not_and]
    intro hnone
    rw [hnone p hp] at hrefused
    cases hrefused
  · next hnone =>
    rw [List.findSome?_eq_none_iff] at hnone
    rw [Except.ok.injEq, eq_comm (b := wire)]
    exact (and_iff_right hnone).symm

/-- **The wire form of a tool decodes back.**  It is read as a tool, with the same wire form; if the tool
can be published, so can what is read, as the same; and it is the tool itself if its schemas are plain
JSON.  The properties of a tool are a mapping, so their names differ. -/
theorem encode_decodes (t : Tool) (hnames : (t.arguments.properties.map (·.1)).Nodup) :
    ∃ u, decode t.encode = .ok u ∧ u.encode = t.encode ∧
      (∀ wire, t.publish = .ok wire → wire = t.encode ∧ u.publish = .ok wire) ∧
      ((∀ p ∈ t.arguments.properties, p.2.IsPlainJson) → u = t) := by
  refine ⟨t.asWritten, decode_encode t hnames, encode_asWritten t, ?_, ?_⟩
  · intro wire hwire
    obtain ⟨hwritable, rfl⟩ := publish_eq_ok.1 hwire
    refine ⟨rfl, publish_eq_ok.2 ⟨fun q hq => ?_, (encode_asWritten t).symm⟩⟩
    obtain ⟨p, hp, rfl⟩ := List.mem_map.1 hq
    exact Value.refusal?_plain (hwritable p hp)
  · intro hplain
    have hproperties : t.arguments.properties.map (fun p => (p.1, p.2.plain)) =
        t.arguments.properties.map id :=
      List.map_congr_left fun p hp => Prod.ext rfl (Value.plain_eq_self (hplain p hp))
    rw [asWritten, hproperties, List.map_id]

/-- A tool for an upload, whose list of required names is empty and whose schema allows null. -/
def uploadTool : Tool where
  name := "upload"
  arguments := {
    properties := [("file_path", .record [("enum", .list [.null, .text "-"]), ("minLength", .int 1)])]
    required := some [] }
  recipe := {
    method := "POST"
    url := "/files"
    bodyType := "form-data"
    parameters := [{ name := "content", location := .file, derivedFrom := some "file_path" },
      { name := "note", location := .body }] }

/-- The tool for the upload is read back as it is. -/
theorem encode_decodes_upload : decode uploadTool.encode = .ok uploadTool := by
  obtain ⟨u, hu, -, -, hself⟩ := encode_decodes uploadTool (by decide)
  have hplain : ∀ p ∈ uploadTool.arguments.properties, p.2.IsPlainJson := by
    simp [uploadTool, Value.record, Value.isPlainJson_map, Value.isPlainJson_list,
      Value.isPlainJson_scalar, Value.isPlain, Keyed.Distinct, Keyed.keys, Scalar.same, or_imp,
      forall_and]
  rw [hu, hself hplain]

end Tool

end ToolCatalog
