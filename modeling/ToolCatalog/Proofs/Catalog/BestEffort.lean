import ToolCatalog.Proofs.Catalog.Accounting
import ToolCatalog.Proofs.Document.Server

/-!
# What a malformed part of a document costs

Once the address of the server is known, a document that is a mapping has a catalog, whatever stands in
it: what is wrong with an operation costs that operation.  What is wrong with the servers costs the whole
document.

* `compile_best_effort`: a JSON document that is made ready has a catalog, and it is made ready exactly if
  its servers are readable.
-/

namespace ToolCatalog.Catalog

/-- **A document that is a mapping has a catalog.** -/
theorem compile_total {c : Compiler} {fields : Keyed Value} (h : c.document = .map fields) :
    ∃ catalog, (compile c).result = .ok catalog := by
  obtain ⟨paths, hpaths, -⟩ := pathsOf_ok fields
  obtain ⟨catalog, hcatalog, -⟩ := (accounts_nil : Accounts c [] [] []).addSites (sites paths)
  have hfields : (liftM c.document.fields : Outcome (Keyed Value)).result = .ok fields := by
    rw [Outcome.result_liftM, h]
    rfl
  exact ⟨catalog, Outcome.result_bind_ok.2 ⟨fields, hfields, Outcome.result_bind_ok.2
    ⟨paths, hpaths, Outcome.result_bind_ok.2 ⟨catalog, hcatalog, rfl⟩⟩⟩⟩

/-- A document is made ready exactly if its server has an address, and it stays as it is. -/
theorem create_ok_iff {document : Value} {settings : Settings} {c : Compiler} :
    Compiler.create document settings = .ok c ↔
      ∃ url, Server.baseUrl settings document = .ok url ∧ c = ⟨document, settings, url⟩ := by
  unfold Compiler.create
  constructor
  · intro h
    obtain ⟨url, hurl, h⟩ := bind_eq_ok.1 h
    exact ⟨url, hurl, (Except.ok.inj h).symm⟩
  · rintro ⟨url, hurl, rfl⟩
    exact bind_eq_ok.2 ⟨url, hurl, rfl⟩

/-- **Compiling a JSON document is best effort** once its server has an address: there is a catalog,
whatever is wrong with the operations.  The address is had exactly if the servers are readable. -/
theorem compile_best_effort (settings : Settings) (fields : Keyed Value)
    (h : (Value.map fields).IsJson) :
    (∀ c, Compiler.create (.map fields) settings = .ok c →
      ∃ catalog, (compile c).result = .ok catalog) ∧
    ((∃ c, Compiler.create (.map fields) settings = .ok c) ↔
      Server.IsReadable settings fields) := by
  constructor
  · intro c hc
    obtain ⟨url, -, rfl⟩ := create_ok_iff.1 hc
    exact compile_total rfl
  · rw [← Server.baseUrl_ok_iff settings h]
    constructor
    · rintro ⟨c, hc⟩
      obtain ⟨url, hurl, -⟩ := create_ok_iff.1 hc
      exact ⟨url, hurl⟩
    · rintro ⟨url, hurl⟩
      exact ⟨_, create_ok_iff.2 ⟨url, hurl, rfl⟩⟩

/-- A document with given servers, whose paths are no mapping. -/
def pathlessDocument (servers : Value) : Keyed Value :=
  [(.text "servers", servers), (.text "paths", .int 5)]

theorem isJson_pathlessDocument {servers : Value} (h : servers.IsJson) :
    (Value.map (pathlessDocument servers)).IsJson := by
  show (Value.record [("servers", servers), ("paths", .int 5)]).IsJson
  simp [Value.isJson_record, Value.isJson_scalar, Value.isPlain, h]

/-- A server whose address has a variable with a default. -/
def defaultedServer : Value :=
  .record [("url", .text "/\x7bv\x7d"),
    ("variables", .record [("v", .record [("default", .text "v1")])])]

theorem hasAddress_defaultedServer : Server.HasAddress defaultedServer := by
  intro es hes
  obtain rfl := Value.map.inj hes
  refine Or.inr ⟨"/\x7bv\x7d", rfl, fun name hname => ⟨_, rfl, fun default hdefault => ?_⟩⟩
  have hpieces : Server.pieces "/\x7bv\x7d".toList = [.char '/', .variable ['v']] := by
    simp [Server.pieces, Server.cutAtBrace]
  rw [hpieces] at hname
  obtain rfl : name = ['v'] := by simpa using hname
  obtain rfl : .text "v1" = default := Option.some.inj hdefault
  exact ⟨"v1", by rfl⟩

/-- Where the servers are readable, paths that are no mapping cost no more than the operations. -/
theorem compile_best_effort_pathless :
    ∃ c catalog, Compiler.create (.map (pathlessDocument (.list [defaultedServer]))) {} = .ok c ∧
      (compile c).result = .ok catalog := by
  obtain ⟨htotal, hready⟩ := compile_best_effort {} (pathlessDocument (.list [defaultedServer]))
    (isJson_pathlessDocument
      (by simp [defaultedServer, Value.isJson_list, Value.isJson_record, Value.isJson_scalar,
        Value.isPlain]))
  obtain ⟨c, hc⟩ := hready.2 (Or.inr (Or.inr (Or.inr ⟨_, [], rfl, hasAddress_defaultedServer⟩)))
  obtain ⟨catalog, hcatalog⟩ := htotal c hc
  exact ⟨c, catalog, hc, hcatalog⟩

/-- So servers that are a mapping cost the whole document. -/
theorem not_compile_best_effort :
    ¬ ∀ (settings : Settings) (fields : Keyed Value), (Value.map fields).IsJson →
      ∃ c catalog, Compiler.create (.map fields) settings = .ok c ∧
        (compile c).result = .ok catalog := by
  intro h
  obtain ⟨c, catalog, hc, -⟩ := h {} (pathlessDocument (.record [("url", .text "/v1")]))
    (isJson_pathlessDocument (by simp [Value.isJson_record, Value.isJson_scalar, Value.isPlain]))
  cases hc

end ToolCatalog.Catalog
