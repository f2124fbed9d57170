import ToolCatalog.Document.Server
import ToolCatalog.Proofs.Outcome
import ToolCatalog.Proofs.Value.Json

/-!
# When the server of a document has an address

The address of the server is read before any operation is compiled, so what goes wrong there costs the
whole document.  `IsReadable` says of a JSON document, field by field, when nothing does.

* `baseUrl_ok_iff`: the address of a JSON document is had exactly if its servers are readable.
-/

namespace ToolCatalog.Server

/-- The variables of a server can be filled in: they are a mapping if the address has any, and the
defaults that are used have a text. -/
def IsFillable (defaults : Value) (url : String) : Prop :=
  ∀ name, .variable name ∈ pieces url.toList → ∃ es, defaults = .map es ∧
    ∀ default, (Keyed.find? es (.text (String.ofList name))).bind (·.get? "default") = some default →
      ∃ t, default.show? = .ok t

/-- A server has an address: it is no mapping, it has no address, or the address is a text that can be
filled in. -/
def HasAddress (server : Value) : Prop :=
  ∀ es, server = .map es → (Value.field es "url").truthy = false ∨
    ∃ url, Value.field es "url" = .text url ∧
      IsFillable ((Value.field es "variables").orElse (.map [])) url

/-- **The servers of a document are readable**: the settings name a server, or the document has none, or
they are a text, or a list whose first member has an address. -/
def IsReadable (settings : Settings) (document : Keyed Value) : Prop :=
  (∃ url, settings.baseUrl = some url ∧ url ≠ "") ∨
    (Value.field document "servers").truthy = false ∨
    (∃ t, Value.field document "servers" = .text t) ∨
    ∃ server rest, Value.field document "servers" = .list (server :: rest) ∧ HasAddress server

/-! ## Filling in an address -/

theorem filled_ok_iff {defaults : Value} (h : defaults.IsJson) (p : Piece) :
    (∃ cs, p.filled defaults = .ok cs) ↔ ∀ name, p = .variable name → ∃ es, defaults = .map es ∧
      ∀ default, (Keyed.find? es (.text (String.ofList name))).bind (·.get? "default") =
        some default → ∃ t, default.show? = .ok t := by
  rcases p with c | name
  · exact ⟨by simp, fun _ => ⟨[c], rfl⟩⟩
  · simp only [Piece.variable.injEq, forall_eq']
    unfold Piece.filled
    constructor
    · rintro ⟨cs, hcs⟩
      obtain ⟨es, hes, hcs⟩ := bind_eq_ok.1 hcs
      have hdefaults : defaults = .map es := by
        rw [Value.fields, h.opened] at hes
        split at hes
        · next es' =>
          rw [Except.ok.inj hes]
        · cases hes
      refine ⟨es, hdefaults, fun default hdefault => ?_⟩
      simp only [hdefault] at hcs
      obtain ⟨t, ht, -⟩ := bind_eq_ok.1 hcs
      exact ⟨t, ht⟩
    · rintro ⟨es, rfl, hes⟩
      cases hdefault : (Keyed.find? es (.text (String.ofList name))).bind (·.get? "default") with
      | none => exact ⟨_, bind_eq_ok.2 ⟨es, rfl, by simp only [hdefault]; rfl⟩⟩
      | some default =>
        obtain ⟨t, ht⟩ := hes default hdefault
        exact ⟨t.toList, bind_eq_ok.2 ⟨es, rfl, by simp only [hdefault, ht]; rfl⟩⟩

/-- **An address can be filled in** exactly if each of its variables can. -/
theorem fill_ok_iff {defaults : Value} (h : defaults.IsJson) (url : String) :
    (∃ s, fill defaults url = .ok s) ↔ IsFillable defaults url := by
  have hpieces : (∃ s, fill defaults url = .ok s) ↔
      ∀ p ∈ pieces url.toList, ∃ cs, p.filled defaults = .ok cs := by
    constructor
    · rintro ⟨s, hs⟩ p hp
      obtain ⟨css, hcss, -⟩ := bind_eq_ok.1 hs
      obtain ⟨cs, -, hcs⟩ := (mapM_eq_ok hcss).2 p hp
      exact ⟨cs, hcs⟩
    · intro hall
      obtain ⟨css, hcss⟩ := mapM_of_forall_ok hall
      exact ⟨_, bind_eq_ok.2 ⟨css, hcss, rfl⟩⟩
  rw [hpieces]
  simp only [filled_ok_iff h]
  exact ⟨fun hall name hname => hall _ hname name rfl,
    fun hall p hp name hname => hall name (hname ▸ hp)⟩

/-! ## The address of a document -/

/-- The variables of a JSON server are a JSON value. -/
theorem isJson_variables {es : Keyed Value} (h : (Value.map es).IsJson) :
    ((Value.field es "variables").orElse (.map [])).IsJson :=
  (h.field _).orElse (Value.isJson_map.2 ⟨by simp, by simp⟩)

/-- The address of a server. -/
def addressOf (settings : Settings) (server : Value) : Except Fault String :=
  match server.opened with
  | .map es =>
    if !(Value.field es "url").truthy then .ok settings.defaultBaseUrl
    else match Value.field es "url" with
      | .text s => fill ((Value.field es "variables").orElse (.map [])) s
      | _ => .error .notText
  | _ => .ok settings.defaultBaseUrl

theorem addressOf_ok_iff (settings : Settings) {server : Value} (h : server.IsJson) :
    (∃ url, addressOf settings server = .ok url) ↔ HasAddress server := by
  unfold addressOf
  rw [h.opened]
  cases server with
  | map es =>
    simp only [HasAddress, Value.map.injEq, forall_eq']
    cases hurl : (Value.field es "url").truthy with
    | false => simp
    | true =>
      simp only [Bool.not_true, Bool.false_eq_true, if_false, reduceCtorEq, false_or]
      split
      · next s hs =>
        rw [fill_ok_iff (isJson_variables h)]
        simp [hs]
      · next hother =>
        constructor
        · rintro ⟨url, hurl⟩
          cases hurl
        · rintro ⟨url, hs, -⟩
          exact absurd hs (hother url)
  | _ => simp [HasAddress]

/-- **The address of a document** is that of its first server, if it has servers. -/
theorem address_eq (settings : Settings) (document : Keyed Value) :
    address settings (.map document) =
      if !(Value.field document "servers").truthy then .ok settings.defaultBaseUrl
      else (first (Value.field document "servers")).bind (addressOf settings) := rfl

/-- **What a first server is**: the first member of a list, or the first character of a text; any other
JSON value that counts as true has none. -/
theorem first_of_isJson {servers : Value} (h : servers.IsJson) (htruthy : servers.truthy = true) :
    (∃ server rest, servers = .list (server :: rest) ∧ first servers = .ok server) ∨
      (∃ t c, servers = .text t ∧ first servers = .ok (.text c)) ∨
      (∃ e, first servers = .error e) ∧ (∀ t, servers ≠ .text t) ∧
        ∀ server rest, servers ≠ .list (server :: rest) := by
  have hplain := h.plain _ .self
  cases servers with
  | scalar s =>
    cases s with
    | text t =>
      have hne : t.toList ≠ [] := by
        intro hnil
        rw [String.toList_eq_nil_iff] at hnil
        subst hnil
        cases htruthy
      obtain ⟨c, cs, hcs⟩ := List.exists_cons_of_ne_nil hne
      refine Or.inr (Or.inl ⟨t, String.ofList [c], rfl, ?_⟩)
      unfold first
      simp only [Value.opened, Value.items, hcs, List.map_cons]
      rfl
    | date | timestamp | bytes => cases hplain
    | _ => exact Or.inr (Or.inr ⟨⟨_, rfl⟩, by simp, by simp⟩)
  | list vs =>
    cases vs with
    | nil => cases htruthy
    | cons server rest => exact Or.inl ⟨server, rest, rfl, rfl⟩
  | map es =>
    -- Entry zero is asked for, and the keys are texts.
    have hnone : Keyed.find? es (.int 0) = none := by
      refine Keyed.find?_eq_none fun k hk => ?_
      obtain ⟨t, rfl⟩ := (Value.isJson_map.1 h).1 k hk
      rfl
    refine Or.inr (Or.inr ⟨⟨.missingEntry, ?_⟩, by simp, by simp⟩)
    unfold first
    simp only [Value.opened, hnone]
  | pair | set | part => cases hplain

theorem address_ok_iff (settings : Settings) {document : Keyed Value}
    (h : (Value.map document).IsJson) :
    (∃ url, address settings (.map document) = .ok url) ↔
      (Value.field document "servers").truthy = false ∨
      (∃ t, Value.field document "servers" = .text t) ∨
      ∃ server rest, Value.field document "servers" = .list (server :: rest) ∧
        HasAddress server := by
  have hjson := h.field "servers"
  rw [address_eq]
  cases htruthy : (Value.field document "servers").truthy with
  | false => simp
  | true =>
    simp only [Bool.not_true, Bool.false_eq_true, if_false, reduceCtorEq, false_or]
    rcases first_of_isJson hjson htruthy with
      ⟨server, rest, hservers, hfirst⟩ | ⟨t, c, hservers, hfirst⟩ | ⟨⟨e, hfirst⟩, htext, hlist⟩
    · have hserver : server.IsJson := by
        rw [hservers] at hjson
        exact Value.isJson_list.1 hjson server List.mem_cons_self
      rw [hfirst]
      simp [hservers, Except.bind, addressOf_ok_iff settings hserver]
    · rw [hfirst]
      exact ⟨fun _ => Or.inl ⟨t, hservers⟩, fun _ => ⟨_, rfl⟩⟩
    · rw [hfirst]
      simp [Except.bind, htext, hlist]

/-- **The address of a JSON document is had** exactly if its servers are readable. -/
theorem baseUrl_ok_iff (settings : Settings) {document : Keyed Value}
    (h : (Value.map document).IsJson) :
    (∃ url, baseUrl settings (.map document) = .ok url) ↔ IsReadable settings document := by
  have haddress : (∃ url, (do return Text.trimEndOf '/' (← address settings (.map document)) :
      Except Fault String) = .ok url) ↔ ∃ url, address settings (.map document) = .ok url := by
    constructor
    · rintro ⟨url, hurl⟩
      obtain ⟨s, hs, -⟩ := bind_eq_ok.1 hurl
      exact ⟨s, hs⟩
    · rintro ⟨s, hs⟩
      exact ⟨_, bind_eq_ok.2 ⟨s, hs, rfl⟩⟩
  unfold baseUrl IsReadable
  rw [← address_ok_iff settings h, ← haddress]
  cases hbase : settings.baseUrl with
  | none => simp
  | some s =>
    by_cases hs : s = ""
    · simp [hs]
    · simp only [hs, if_false]
      exact ⟨fun _ => Or.inl ⟨s, rfl, hs⟩, fun _ => ⟨_, rfl⟩⟩

end ToolCatalog.Server
