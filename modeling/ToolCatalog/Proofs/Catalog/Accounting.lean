import ToolCatalog.Proofs.Catalog.Exclusion
import ToolCatalog.Proofs.Operation.Containment

/-!
# No operation is lost silently

Each operation of a document ends in one of three ways: its tool is an entry of the catalog, it is
reported as skipped, or its tool takes the place of an earlier one and that is reported.  `Accounts`
says what a catalog and the events reported so far have to do with the operations that have been
worked on.  Adding one more operation keeps it, so it holds of a whole document.

* `compile_accounts`: the catalog of a document, entry by entry, and the balance of its operations.
-/

namespace ToolCatalog

namespace Event

/-- Whether an event says that an operation was left out. -/
def isSkip : Event → Bool
  | operationSkipped _ _ _ => true
  | _ => false

/-- Whether an event says that a tool took the place of an earlier one. -/
def isReplacement : Event → Bool
  | operationReplaced _ _ _ => true
  | _ => false

/-- What is not about the catalog is neither. -/
theorem not_isSkip {e : Event} (h : e.isOfCatalog = false) :
    e.isSkip = false ∧ e.isReplacement = false := by
  cases e <;> simp_all [isOfCatalog, isSkip, isReplacement]

end Event

namespace Outcome

variable {α β : Type}

/-- The events of a sequence whose first step gives a value. -/
theorem events_bind_of_ok {x : Outcome α} {a : α} (h : x.result = .ok a) (f : α → Outcome β) :
    (x >>= f).events = x.events ++ (f a).events := by
  show (andThen x f).events = _
  simp only [andThen, h]

end Outcome

namespace Operation

theorem get?_of_identifier? {operation : Value} {fields : Keyed Value} {name : String}
    (hfields : operation.fields = .ok fields) (h : identifier? fields = some name) :
    operation.get? "operationId" = some (.text name) := by
  have hfield : Value.field fields "operationId" = .text name := by
    unfold identifier? at h
    split at h
    · next name' hname =>
      split at h
      · cases h
      · obtain rfl := Option.some.inj h
        exact hname
    · cases h
  have hget : operation.get? "operationId" = Keyed.find? fields (.text "operationId") := by
    unfold Value.fields at hfields
    unfold Value.get?
    cases hopened : operation.opened with
    | map es =>
      rw [hopened] at hfields
      obtain rfl := Except.ok.inj hfields
      rfl
    | _ =>
      rw [hopened] at hfields
      cases hfields
  rw [hget]
  unfold Value.field at hfield
  cases hfind : Keyed.find? fields (.text "operationId") with
  | none =>
    rw [hfind] at hfield
    cases hfield
  | some v =>
    rw [hfind] at hfield
    exact congrArg some hfield

/-- **A tool is named after its operation.** -/
theorem compile_name {c : Compiler} {path : Scalar} {method : String}
    {operation pathParameters : Value} {tool : Tool}
    (h : (compile c path method operation pathParameters).result = .ok tool) :
    operation.get? "operationId" = some (.text tool.name) := by
  obtain ⟨fields, name, body, s, hfields, hname, -, -, hassemble⟩ := compile_inv h
  obtain ⟨-, -, -, -, -, -, htext, -⟩ := assemble_inv hassemble
  rw [← Except.ok.inj htext]
  exact get?_of_identifier? hfields hname

end Operation

namespace Catalog

/-! ## Entries -/

/-- The names of the tools of a catalog, in order. -/
def names (catalog : Catalog) : List String := catalog.map (·.1)

theorem find?_cons (name : String) (tool : Tool) (rest : Catalog) (query : String) :
    find? ((name, tool) :: rest) query = if name = query then some tool else find? rest query := by
  unfold find?
  by_cases h : name = query
  · rw [List.find?_cons_of_pos (by simpa using h), if_pos h]
    rfl
  · rw [List.find?_cons_of_neg (by simpa using h), if_neg h]

/-- **After adding a tool** its name finds it, and any other name what it found before. -/
theorem find?_put (catalog : Catalog) (tool : Tool) (query : String) :
    find? (put catalog tool) query = if tool.name = query then some tool else find? catalog query := by
  induction catalog with
  | nil => rw [put, find?_cons]
  | cons e rest ih =>
    obtain ⟨name, old⟩ := e
    unfold put
    by_cases h : name = tool.name
    · rw [if_pos h, find?_cons, find?_cons, h]
      split <;> rfl
    · rw [if_neg h, find?_cons, find?_cons, ih]
      by_cases hq : name = query
      · have hne : ¬ tool.name = query := fun e => h (hq.trans e.symm)
        rw [if_pos hq, if_pos hq, if_neg hne]
      · rw [if_neg hq, if_neg hq]

theorem isSome_find? (catalog : Catalog) (query : String) :
    (find? catalog query).isSome = true ↔ query ∈ names catalog := by
  induction catalog with
  | nil => simp [find?, names]
  | cons e rest ih =>
    obtain ⟨name, tool⟩ := e
    rw [find?_cons]
    by_cases h : name = query
    · simp [h, names]
    · rw [if_neg h, ih]
      simp [names, Ne.symm h]

/-- **Adding a tool adds its name** at the end, if it was not there. -/
theorem names_put (catalog : Catalog) (tool : Tool) :
    names (put catalog tool) =
      if tool.name ∈ names catalog then names catalog else names catalog ++ [tool.name] := by
  induction catalog with
  | nil => rfl
  | cons e rest ih =>
    obtain ⟨name, old⟩ := e
    unfold put
    by_cases h : name = tool.name
    · rw [if_pos h]
      simp [names, h]
    · have hcons : ∀ c : Catalog, names ((name, old) :: c) = name :: names c := fun c => rfl
      rw [if_neg h, hcons, hcons, ih]
      by_cases hmem : tool.name ∈ names rest
      · simp [hmem]
      · simp [hmem, Ne.symm h]

theorem length_names (catalog : Catalog) : (names catalog).length = catalog.length := by
  simp [names]

theorem mem_names_put {catalog : Catalog} {tool : Tool} {name : String} :
    name ∈ names (put catalog tool) ↔ name ∈ names catalog ∨ name = tool.name := by
  rw [names_put]
  split
  · next hmem =>
    constructor
    · exact Or.inl
    · rintro (hname | rfl)
      · exact hname
      · exact hmem
  · simp

theorem length_put (catalog : Catalog) (tool : Tool) : (put catalog tool).length =
    if tool.name ∈ names catalog then catalog.length else catalog.length + 1 := by
  rw [← length_names, names_put]
  split <;> simp [length_names]

/-! ## What a site gives -/

/-- The operation at a site has an identifier, and it compiles to a tool. -/
structure Site.Gives (c : Compiler) (site : Site) (name : String) (tool : Tool) : Prop where
  identifier : site.operation.get? "operationId" = some (.text name)
  compiled : (compileSite c site).result = .ok tool

/-- Of the sites with an identifier, the last one that gives a tool gives this one. -/
def GivesLast (c : Compiler) (sites : List Site) (name : String) (tool : Tool) : Prop :=
  ∃ before site after, sites = before ++ site :: after ∧ site.Gives c name tool ∧
    ∀ later ∈ after, ∀ t, ¬ later.Gives c name t

/-- The first site that gives a tool of the one name comes before all that give one of the other. -/
def FirstBefore (c : Compiler) (sites : List Site) (name other : String) : Prop :=
  ∃ before site after, sites = before ++ site :: after ∧ (∃ t, site.Gives c name t) ∧
    ∀ earlier ∈ before ++ [site], ∀ t, ¬ earlier.Gives c other t

variable {c : Compiler} {site : Site}

/-- A site that fails gives no tool. -/
theorem not_gives_of_error {f : Fault} (h : (compileSite c site).result = .error f) (name : String)
    (tool : Tool) : ¬ site.Gives c name tool := by
  intro hgives
  rw [hgives.compiled] at h
  cases h

/-- A site that compiles gives its tool under the name of that tool and nothing else. -/
theorem gives_iff {tool : Tool} (h : (compileSite c site).result = .ok tool) {name : String}
    {t : Tool} : site.Gives c name t ↔ name = tool.name ∧ t = tool := by
  have hid : site.operation.get? "operationId" = some (.text tool.name) := Operation.compile_name h
  constructor
  · rintro ⟨hname, ht⟩
    rw [hid] at hname
    rw [h] at ht
    exact ⟨(Scalar.text.inj (Value.scalar.inj (Option.some.inj hname))).symm,
      (Except.ok.inj ht).symm⟩
  · rintro ⟨rfl, rfl⟩
    exact ⟨hid, h⟩

theorem GivesLast.append {sites : List Site} {name : String} {tool : Tool}
    (h : GivesLast c sites name tool) (hsite : ∀ t, ¬ site.Gives c name t) :
    GivesLast c (sites ++ [site]) name tool := by
  obtain ⟨before, s, after, rfl, hs, hafter⟩ := h
  refine ⟨before, s, after ++ [site], by simp, hs, fun later hlater => ?_⟩
  rcases List.mem_append.1 hlater with hlater | hlater
  · exact hafter later hlater
  · rw [List.mem_singleton.1 hlater]
    exact hsite

theorem FirstBefore.append {sites : List Site} {name other : String}
    (h : FirstBefore c sites name other) : FirstBefore c (sites ++ [site]) name other := by
  obtain ⟨before, s, after, rfl, hs, hearlier⟩ := h
  exact ⟨before, s, after ++ [site], by simp, hs, hearlier⟩

/-! ## One operation after another -/

/-- **What a catalog and the events so far say about the sites that were worked on.** -/
structure Accounts (c : Compiler) (sites : List Site) (catalog : Catalog) (events : List Event) :
    Prop where
  /-- The names are those of the sites that give a tool. -/
  names : ∀ name, name ∈ names catalog ↔ ∃ site ∈ sites, ∃ tool, site.Gives c name tool
  /-- The tool of a name is the one that was given last. -/
  last : ∀ name tool, catalog.find? name = some tool → GivesLast c sites name tool
  /-- The names come in the order in which a tool was first given. -/
  order : (Catalog.names catalog).Pairwise (FirstBefore c sites)
  /-- Each site is an entry, was skipped or was replaced. -/
  balance : sites.length = catalog.length + events.countP Event.isSkip
    + events.countP Event.isReplacement

theorem accounts_nil : Accounts c [] [] [] := by
  refine ⟨by simp [Catalog.names], ?_, List.Pairwise.nil, rfl⟩
  intro name tool h
  cases h

/-- What a compilation reports itself plays no role in the balance. -/
theorem countP_compileSite (c : Compiler) (site : Site) :
    (compileSite c site).events.countP Event.isSkip = 0 ∧
      (compileSite c site).events.countP Event.isReplacement = 0 := by
  have hcontained := (Operation.compile_isContained c site.path site.method site.operation
    site.pathParameters).events
  constructor
  · refine List.countP_eq_zero.2 fun e he => ?_
    simp [(Event.not_isSkip (hcontained e he)).1]
  · refine List.countP_eq_zero.2 fun e he => ?_
    simp [(Event.not_isSkip (hcontained e he)).2]

/-- A site that fails is skipped: the catalog stays, and one event says so. -/
theorem addSite_of_error {f : Fault} (h : (compileSite c site).result = .error f)
    (catalog : Catalog) :
    (addSite c catalog site).result = .ok catalog ∧
      (addSite c catalog site).events.countP Event.isSkip = 1 ∧
      (addSite c catalog site).events.countP Event.isReplacement = 0 := by
  have hskips : f.skipsOperation = true :=
    (Operation.compile_isContained c site.path site.method site.operation site.pathParameters).result
      f h
  obtain ⟨hskip, hreplacement⟩ := countP_compileSite c site
  unfold addSite Outcome.inspect
  simp only [h, hskips, if_true, List.countP_append, hskip, hreplacement]
  exact ⟨rfl, rfl, rfl⟩

/-- A site that compiles adds its tool; an event says so if it takes the place of another. -/
theorem addSite_of_ok {tool : Tool} (h : (compileSite c site).result = .ok tool)
    (catalog : Catalog) :
    (addSite c catalog site).result = .ok (catalog.put tool) ∧
      (addSite c catalog site).events.countP Event.isSkip = 0 ∧
      (addSite c catalog site).events.countP Event.isReplacement =
        if tool.name ∈ names catalog then 1 else 0 := by
  obtain ⟨hskip, hreplacement⟩ := countP_compileSite c site
  unfold addSite Outcome.inspect
  simp only [h, List.countP_append, hskip, hreplacement, isSome_find?]
  split
  · exact ⟨rfl, rfl, rfl⟩
  · exact ⟨rfl, rfl, rfl⟩

/-- A site that fails keeps the account. -/
theorem Accounts.skip {sites : List Site} {catalog : Catalog} {events more : List Event} {f : Fault}
    (h : Accounts c sites catalog events) (hsite : (compileSite c site).result = .error f)
    (hskip : more.countP Event.isSkip = 1) (hreplacement : more.countP Event.isReplacement = 0) :
    Accounts c (sites ++ [site]) catalog (events ++ more) := by
  have hnone := not_gives_of_error hsite
  refine ⟨fun name => ?_, fun name tool hfind => ?_, ?_, ?_⟩
  · simp [h.names, hnone]
  · exact (h.last name tool hfind).append (hnone name)
  · exact h.order.imp fun hbefore => hbefore.append
  · have hbalance := h.balance
    simp only [List.length_append, List.length_singleton, List.countP_append]
    omega

/-- A tool with a new name comes behind every tool there is. -/
theorem Accounts.firstBefore_new {sites : List Site} {catalog : Catalog} {events : List Event}
    {tool : Tool} (h : Accounts c sites catalog events)
    (hnew : tool.name ∉ Catalog.names catalog) {name : String} (hname : name ∈ Catalog.names catalog) :
    FirstBefore c (sites ++ [site]) name tool.name := by
  obtain ⟨s, hs, t, ht⟩ := (h.names name).1 hname
  obtain ⟨before, after, rfl⟩ := List.append_of_mem hs
  -- The site stands among the sites so far, none of which gives the new name.
  refine ⟨before, s, after ++ [site], by simp, ⟨t, ht⟩, fun earlier hearlier t' ht' => ?_⟩
  refine hnew ((h.names tool.name).2 ⟨earlier, ?_, t', ht'⟩)
  rcases List.mem_append.1 hearlier with hearlier | hearlier
  · exact List.mem_append_left _ hearlier
  · rw [List.mem_singleton.1 hearlier]
    simp

/-- A site that compiles keeps the account. -/
theorem Accounts.put {sites : List Site} {catalog : Catalog} {events more : List Event} {tool : Tool}
    (h : Accounts c sites catalog events) (hsite : (compileSite c site).result = .ok tool)
    (hskip : more.countP Event.isSkip = 0)
    (hreplacement : more.countP Event.isReplacement =
      if tool.name ∈ Catalog.names catalog then 1 else 0) :
    Accounts c (sites ++ [site]) (catalog.put tool) (events ++ more) := by
  have hgives : ∀ name t, site.Gives c name t ↔ name = tool.name ∧ t = tool :=
    fun _ _ => gives_iff hsite
  refine ⟨fun name => ?_, fun name t hfind => ?_, ?_, ?_⟩
  · rw [mem_names_put, h.names]
    simp [hgives, or_and_right, exists_or]
  · rw [find?_put] at hfind
    split at hfind
    · next hname =>
      obtain rfl := Option.some.inj hfind
      exact ⟨sites, site, [], rfl, (hgives _ _).2 ⟨hname.symm, rfl⟩, by simp⟩
    · next hname =>
      refine (h.last name t hfind).append fun t' ht' => ?_
      exact hname ((hgives _ _).1 ht').1.symm
  · have hkept : (Catalog.names catalog).Pairwise (FirstBefore c (sites ++ [site])) :=
      h.order.imp fun hbefore => hbefore.append
    rw [names_put]
    split
    · exact hkept
    · next hnew =>
      refine List.pairwise_append.2 ⟨hkept, List.pairwise_singleton _ _, fun name hname b hb => ?_⟩
      rw [List.mem_singleton.1 hb]
      exact h.firstBefore_new hnew hname
  · have hbalance := h.balance
    rw [length_put]
    simp only [List.length_append, List.length_singleton, List.countP_append, hskip, hreplacement]
    split <;> omega

/-- **Adding a site** gives a catalog and keeps the account. -/
theorem Accounts.addSite {sites : List Site} {catalog : Catalog} {events : List Event}
    (h : Accounts c sites catalog events) (site : Site) :
    ∃ catalog', (addSite c catalog site).result = .ok catalog' ∧
      Accounts c (sites ++ [site]) catalog' (events ++ (addSite c catalog site).events) := by
  cases hsite : (compileSite c site).result with
  | error f =>
    obtain ⟨hresult, hskip, hreplacement⟩ := addSite_of_error hsite catalog
    exact ⟨catalog, hresult, h.skip hsite hskip hreplacement⟩
  | ok tool =>
    obtain ⟨hresult, hskip, hreplacement⟩ := addSite_of_ok hsite catalog
    exact ⟨catalog.put tool, hresult, h.put hsite hskip hreplacement⟩

/-- **Adding sites one after another** gives a catalog and keeps the account. -/
theorem Accounts.addSites {done : List Site} {catalog : Catalog} {events : List Event}
    (h : Accounts c done catalog events) (sites : List Site) :
    ∃ catalog', (sites.foldlM (Catalog.addSite c) catalog).result = .ok catalog' ∧
      Accounts c (done ++ sites) catalog'
        (events ++ (sites.foldlM (Catalog.addSite c) catalog).events) := by
  induction sites generalizing done catalog events with
  | nil =>
    refine ⟨catalog, rfl, ?_⟩
    simpa using h
  | cons site rest ih =>
    obtain ⟨next, hnext, haccounts⟩ := h.addSite site
    obtain ⟨catalog', hcatalog, haccounts⟩ := ih haccounts
    rw [List.foldlM_cons]
    refine ⟨catalog', Outcome.result_bind_ok.2 ⟨next, hnext, hcatalog⟩, ?_⟩
    rw [Outcome.events_bind_of_ok hnext]
    simpa using haccounts

/-! ## A whole document -/

/-- The paths of a document are always had, and nothing is reported that plays a role in the
balance. -/
theorem pathsOf_ok (fields : Keyed Value) :
    ∃ paths, (pathsOf fields).result = .ok paths ∧
      (pathsOf fields).events.countP Event.isSkip = 0 ∧
      (pathsOf fields).events.countP Event.isReplacement = 0 := by
  unfold pathsOf
  split
  · exact ⟨_, rfl, rfl, rfl⟩
  · exact ⟨[], rfl, rfl, rfl⟩

/-- **No operation is lost silently.**  Compiling a document that is a mapping gives a catalog.  Its
names are the identifiers of the operations that compile, in the order in which they first do; the
tool of a name is the one of the last such operation; and each operation is an entry of the catalog,
was reported as skipped, or was reported to replace an earlier one. -/
theorem compile_accounts (c : Compiler) (fields : Keyed Value)
    (hdocument : c.document.fields = .ok fields) :
    ∃ catalog, (compile c).result = .ok catalog ∧
      (∀ name, name ∈ names catalog ↔
        ∃ site ∈ sitesOfDocument c.document, ∃ tool, site.Gives c name tool) ∧
      (∀ name tool, catalog.find? name = some tool →
        GivesLast c (sitesOfDocument c.document) name tool) ∧
      (names catalog).Pairwise (FirstBefore c (sitesOfDocument c.document)) ∧
      (sitesOfDocument c.document).length = catalog.length
        + (compile c).events.countP Event.isSkip
        + (compile c).events.countP Event.isReplacement := by
  obtain ⟨paths, hpaths, hskip, hreplacement⟩ := pathsOf_ok fields
  obtain ⟨catalog, hcatalog, haccounts⟩ := (accounts_nil : Accounts c [] [] []).addSites (sites paths)
  have hsites : sitesOfDocument c.document = sites paths := by
    simp only [sitesOfDocument, hdocument, hpaths]
  have hfields : (liftM c.document.fields : Outcome (Keyed Value)).result = .ok fields := hdocument
  have hcompile : (compile c).result = .ok catalog :=
    Outcome.result_bind_ok.2 ⟨fields, hfields, Outcome.result_bind_ok.2
      ⟨paths, hpaths, Outcome.result_bind_ok.2 ⟨catalog, hcatalog, rfl⟩⟩⟩
  have hevents : (compile c).events = (pathsOf fields).events ++
      ((sites paths).foldlM (addSite c) []).events ++
      [.catalogCompiled catalog.length paths.length] := by
    unfold compile
    rw [Outcome.events_bind_of_ok hfields, Outcome.events_bind_of_ok hpaths,
      Outcome.events_bind_of_ok hcatalog, List.append_assoc]
    rfl
  rw [hsites, hevents]
  refine ⟨catalog, hcompile, haccounts.names, haccounts.last, haccounts.order, ?_⟩
  have hbalance := haccounts.balance
  simp only [List.nil_append] at hbalance
  simp only [List.countP_append, hskip, hreplacement]
  simpa [Event.isSkip, Event.isReplacement] using hbalance

/-- A document whose first path has an operation and one without an identifier, and whose second path
has another operation with the identifier of the first. -/
def twiceDocument : Value :=
  .record [("paths", .record [
    ("/a", .record [("post", .record []), ("get", .record [("operationId", .text "op")])]),
    ("/b", .record [("get", .record [("operationId", .text "op")])])])]

/-- Its catalog has the one name, and its three operations are one entry, one skipped operation and one
that replaces an earlier. -/
theorem compile_accounts_twice :
    ∃ catalog, (compile ⟨twiceDocument, {}, ""⟩).result = .ok catalog ∧ "op" ∈ names catalog ∧
      (∀ tool, catalog.find? "op" = some tool →
        GivesLast ⟨twiceDocument, {}, ""⟩ (sitesOfDocument twiceDocument) "op" tool) ∧
      3 = catalog.length
        + (compile ⟨twiceDocument, {}, ""⟩).events.countP Event.isSkip
        + (compile ⟨twiceDocument, {}, ""⟩).events.countP Event.isReplacement := by
  obtain ⟨catalog, hcatalog, hnames, hlast, -, hbalance⟩ :=
    compile_accounts ⟨twiceDocument, {}, ""⟩ _ (by rfl)
  refine ⟨catalog, hcatalog, (hnames "op").2 ?_, hlast "op", hbalance⟩
  exact ⟨⟨.text "/b", "get", .record [("operationId", .text "op")], .list []⟩,
    List.mem_of_getElem? (show (sitesOfDocument twiceDocument)[2]? = some _ from rfl),
    { name := "op", arguments := {}, recipe := { method := "GET", url := "/b" } }, by rfl, by rfl⟩

end Catalog

end ToolCatalog
