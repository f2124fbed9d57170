import Mathlib.Data.List.TakeWhile
import ToolCatalog.Proofs.Document.Server
import ToolCatalog.Proofs.Value.Induction

/-!
# How an address is cut and filled

An address is a sequence of literal chunks and of groups in braces.  `Dissects` says where the groups are
without saying how they are looked for: a group is an opening brace, at least one character that is no closing
brace, and a closing brace; the first group is the leftmost, and the others are those of the text behind it.
There is one dissection of every text, and the pieces an address is cut into are it.

Filling in an address puts the default of each group in its place.  The chunks and the groups without a default
stay, and what a default brings is not dissected.

* `baseUrl_substitutes`: the address of a document is its dissected address with the defaults put in, without
  the slashes at its end.
-/

namespace ToolCatalog.Server

/-! ## Dissecting an address -/

/-- A text begins with a group of a name, and goes on behind it. -/
structure BeginsGroup (name rest cs : List Char) : Prop where
  spelled : cs = '{' :: (name ++ '}' :: rest)
  nonempty : name ≠ []
  unclosed : '}' ∉ name

/-- A literal chunk, and groups, each with the literal chunk behind it. -/
structure Dissection where
  chunk : List Char
  groups : List (List Char × List Char)

/-- **The dissection of a text**: no group begins in it, or the leftmost group begins behind a chunk, and the
text behind that group is dissected in turn. -/
inductive Dissects : List Char → Dissection → Prop
  | plain {cs : List Char} :
    (∀ before after name rest, cs = before ++ after → ¬ BeginsGroup name rest after) →
    Dissects cs ⟨cs, []⟩
  | group {chunk after name rest : List Char} {d : Dissection} :
    (∀ before between name' rest', chunk = before ++ between → between ≠ [] →
      ¬ BeginsGroup name' rest' (between ++ after)) →
    BeginsGroup name rest after → Dissects rest d →
    Dissects (chunk ++ after) ⟨chunk, (name, d.chunk) :: d.groups⟩

namespace Dissection

/-- The text with something in the place of each group. -/
def filled (fill : List Char → List Char) (d : Dissection) : List Char :=
  d.chunk ++ d.groups.flatMap fun g => fill g.1 ++ g.2

/-- The dissection that pieces amount to. -/
def ofPieces : List Piece → Dissection
  | [] => ⟨[], []⟩
  | .char c :: ps => ⟨c :: (ofPieces ps).chunk, (ofPieces ps).groups⟩
  | .variable name :: ps => ⟨[], (name, (ofPieces ps).chunk) :: (ofPieces ps).groups⟩

theorem ofPieces_chars_append (cs : List Char) (ps : List Piece) :
    ofPieces (cs.map .char ++ ps) = ⟨cs ++ (ofPieces ps).chunk, (ofPieces ps).groups⟩ := by
  induction cs with
  | nil => rfl
  | cons c rest ih => rw [List.map_cons, List.cons_append, ofPieces, ih, List.cons_append]

/-- Pieces that are replaced one by one fill the dissection that they amount to. -/
theorem filled_ofPieces (fill : List Char → List Char) (ps : List Piece) :
    (ofPieces ps).filled fill = ps.flatMap fun
      | .char c => [c]
      | .variable name => fill name := by
  induction ps with
  | nil => rfl
  | cons p rest ih =>
    rw [List.flatMap_cons, ← ih]
    rcases p with c | name
    · rfl
    · simp [ofPieces, filled]

end Dissection

/-- A group as it stands in an address. -/
def inBraces (name : List Char) : List Char := '{' :: name ++ ['}']

theorem Dissects.filled_inBraces {cs : List Char} {d : Dissection} (h : Dissects cs d) :
    d.filled inBraces = cs := by
  induction h with
  | plain _ => simp [Dissection.filled]
  | @group chunk after name rest d _ hgroup _ ih =>
    calc (Dissection.mk chunk ((name, d.chunk) :: d.groups)).filled inBraces
        = chunk ++ (inBraces name ++ d.filled inBraces) := by simp [Dissection.filled]
      _ = chunk ++ after := by rw [ih, hgroup.spelled]; simp [inBraces]

/-! ## The pieces of an address -/

theorem cutAtBrace_eq_some_iff {cs name rest : List Char} :
    cutAtBrace cs = some (name, rest) ↔ cs = name ++ '}' :: rest ∧ '}' ∉ name := by
  induction cs generalizing name with
  | nil => simp [cutAtBrace]
  | cons c cs ih =>
    rw [cutAtBrace]
    by_cases hc : c = '}'
    · subst hc
      rw [if_pos rfl]
      cases name with
      | nil => simp [eq_comm]
      | cons d name => simp +contextual [eq_comm]
    · rw [if_neg hc]
      cases name with
      | nil => simp [hc]
      | cons d name =>
        have hstep := @ih name
        simp only [Option.map_eq_some_iff, Prod.exists, Prod.mk.injEq, List.cons.injEq]
        constructor
        · rintro ⟨name', rest', hcut, ⟨rfl, rfl⟩, rfl⟩
          obtain ⟨rfl, hname⟩ := hstep.1 hcut
          exact ⟨by simp, by simp [hname, Ne.symm hc]⟩
        · rintro ⟨heq, hname⟩
          obtain ⟨rfl, rfl⟩ := List.cons.inj heq
          exact ⟨name, rest, hstep.2 ⟨rfl, fun h => hname (List.mem_cons_of_mem _ h)⟩, ⟨rfl, rfl⟩, rfl⟩

theorem pieces_of_beginsGroup {name rest cs : List Char} (h : BeginsGroup name rest cs) :
    pieces cs = .variable name :: pieces rest := by
  obtain ⟨rfl, hne, hname⟩ := h
  obtain ⟨c, name, rfl⟩ := List.exists_cons_of_ne_nil hne
  have hcut : cutAtBrace (c :: name ++ '}' :: rest) = some (c :: name, rest) :=
    cutAtBrace_eq_some_iff.2 ⟨rfl, hname⟩
  rw [pieces]
  split
  · next c' name' rest' h =>
    obtain ⟨heq, rfl⟩ := Prod.mk.inj (Option.some.inj (hcut.symm.trans h))
    rw [heq]
  · next hother => exact absurd hcut (hother c name rest)

theorem pieces_of_not_beginsGroup {c : Char} {cs : List Char}
    (h : ∀ name rest, ¬ BeginsGroup name rest (c :: cs)) :
    pieces (c :: cs) = .char c :: pieces cs := by
  by_cases hc : c = '{'
  · subst hc
    rw [pieces]
    split
    · next c' name' rest' hcut =>
      obtain ⟨rfl, hname⟩ := cutAtBrace_eq_some_iff.1 hcut
      exact absurd ⟨rfl, by simp, hname⟩ (h (c' :: name') rest')
    · rfl
  · rw [pieces]
    exact fun heq => hc heq

/-- A chunk in which no group begins is cut into its characters. -/
theorem pieces_chunk_append (chunk after : List Char)
    (hleft : ∀ before between name rest, chunk = before ++ between → between ≠ [] →
      ¬ BeginsGroup name rest (between ++ after)) :
    pieces (chunk ++ after) = chunk.map .char ++ pieces after := by
  induction chunk with
  | nil => rfl
  | cons c chunk ih =>
    have hhead : ∀ name rest, ¬ BeginsGroup name rest (c :: (chunk ++ after)) :=
      fun name rest => hleft [] (c :: chunk) name rest rfl (by simp)
    have htail := ih fun before between name rest heq =>
      hleft (c :: before) between name rest (by rw [heq, List.cons_append])
    rw [List.cons_append, pieces_of_not_beginsGroup hhead, htail, List.map_cons, List.cons_append]

/-- **A dissection is what the pieces of the text amount to.** -/
theorem Dissects.eq_ofPieces {cs : List Char} {d : Dissection} (h : Dissects cs d) :
    d = .ofPieces (pieces cs) := by
  induction h with
  | @plain cs hnone =>
    have hpieces := pieces_chunk_append cs [] fun before between name rest heq _ => by
      rw [List.append_nil]
      exact hnone before between name rest heq
    rw [List.append_nil] at hpieces
    rw [hpieces, Dissection.ofPieces_chars_append]
    simp [pieces, Dissection.ofPieces]
  | @group chunk after name rest d hleft hgroup _ ih =>
    rw [pieces_chunk_append chunk after hleft, Dissection.ofPieces_chars_append, pieces_of_beginsGroup hgroup,
      Dissection.ofPieces, ← ih, List.append_nil]

/-- A character at which no group begins belongs to the chunk. -/
theorem Dissects.cons {c : Char} {cs : List Char} {d : Dissection} (h : Dissects cs d)
    (hnone : ∀ name rest, ¬ BeginsGroup name rest (c :: cs)) :
    Dissects (c :: cs) ⟨c :: d.chunk, d.groups⟩ := by
  cases h with
  | plain hplain =>
    refine .plain fun before after name rest heq => ?_
    cases before with
    | nil =>
      rw [List.nil_append] at heq
      exact heq ▸ hnone name rest
    | cons b before => exact hplain before after name rest (List.cons.inj heq).2
  | @group chunk after name rest d hleft hgroup hrest =>
    refine @Dissects.group (c :: chunk) after _ _ _ (fun before between name rest heq hne => ?_) hgroup hrest
    cases before with
    | nil =>
      rw [List.nil_append] at heq
      exact heq ▸ hnone name rest
    | cons b before => exact hleft before between name rest (List.cons.inj heq).2 hne

/-- **Every text has a dissection.** -/
theorem exists_dissects (cs : List Char) : ∃ d, Dissects cs d := by
  induction h : cs.length using Nat.strongRecOn generalizing cs with
  | ind n ih =>
    subst h
    by_cases hgroup : ∃ name rest, BeginsGroup name rest cs
    · obtain ⟨name, rest, hgroup⟩ := hgroup
      have hshorter : rest.length < cs.length := by
        rw [hgroup.spelled]
        simp only [List.length_cons, List.length_append]
        omega
      obtain ⟨d, hd⟩ := ih _ hshorter rest rfl
      refine ⟨_, @Dissects.group [] cs _ _ _ (fun before between _ _ heq hne => ?_) hgroup hd⟩
      exact absurd (List.append_eq_nil_iff.1 heq.symm).2 hne
    · have hnone : ∀ name rest, ¬ BeginsGroup name rest cs :=
        fun name rest h => hgroup ⟨name, rest, h⟩
      cases cs with
      | nil =>
        refine ⟨_, .plain fun before after name rest heq => ?_⟩
        rw [(List.append_eq_nil_iff.1 heq.symm).2]
        exact hnone name rest
      | cons c cs =>
        obtain ⟨d, hd⟩ := ih _ (Nat.lt_succ_self _) cs rfl
        exact ⟨_, hd.cons hnone⟩

/-! ## Filling in the defaults -/

/-- What is put in the place of a group: the default of the variable, if it is a mapping that has one, else the
group. -/
def substitute (vars : Keyed Value) (name : List Char) : List Char :=
  match (Keyed.find? vars (.text (String.ofList name))).bind (·.get? "default") with
  | some (.text default) => default.toList
  | _ => inBraces name

/-- A default that a variable has is a text. -/
def HasTextDefaults (vars : Keyed Value) : Prop :=
  ∀ name default, (Keyed.find? vars (.text name)).bind (·.get? "default") = some default →
    ∃ t, default = .text t

theorem filled_variable {defaults : Value} {vars : Keyed Value}
    (hdefaults : defaults.fields = .ok vars) (htexts : HasTextDefaults vars)
    (name : List Char) :
    (Piece.variable name).filled defaults = .ok (substitute vars name) := by
  unfold Piece.filled substitute
  refine bind_eq_ok.2 ⟨vars, hdefaults, ?_⟩
  cases hdefault : (Keyed.find? vars (.text (String.ofList name))).bind (·.get? "default") with
  | none => rfl
  | some default =>
    obtain ⟨t, rfl⟩ := htexts _ _ hdefault
    rfl

/-- **An address is filled in** by its dissection. -/
theorem fill_eq {defaults : Value} {vars : Keyed Value} {url : String} {d : Dissection}
    (hdefaults : defaults.fields = .ok vars) (htexts : HasTextDefaults vars)
    (hd : Dissects url.toList d) :
    fill defaults url = .ok (String.ofList (d.filled (substitute vars))) := by
  have hpiece : ∀ p : Piece, p.filled defaults = .ok (match p with
      | .char c => [c]
      | .variable name => substitute vars name) := by
    rintro (c | name)
    · rfl
    · exact filled_variable hdefaults htexts name
  have hall : ∀ p ∈ pieces url.toList, ∃ cs, p.filled defaults = .ok cs := fun p _ => ⟨_, hpiece p⟩
  obtain ⟨css, hcss⟩ := mapM_of_forall_ok hall
  have hmap := eq_map_of_mapM hcss fun p _ cs hcs => Except.ok.inj (hcs.symm.trans (hpiece p))
  rw [hd.eq_ofPieces, Dissection.filled_ofPieces]
  refine bind_eq_ok.2 ⟨css, hcss, ?_⟩
  rw [hmap, ← List.flatMap_def]
  rfl

/-- Where no group has a default, nothing is put in. -/
theorem filled_substitute_of_none {vars : Keyed Value} {cs : List Char} {d : Dissection}
    (hd : Dissects cs d)
    (hnone : ∀ g ∈ d.groups,
      (Keyed.find? vars (.text (String.ofList g.1))).bind (·.get? "default") = none) :
    d.filled (substitute vars) = cs := by
  have hgroups : d.groups.map (fun g => substitute vars g.1 ++ g.2) =
      d.groups.map fun g => inBraces g.1 ++ g.2 :=
    List.map_congr_left fun g hg => by rw [substitute, hnone g hg]
  rw [← hd.filled_inBraces, Dissection.filled, Dissection.filled, List.flatMap_def, hgroups,
    ← List.flatMap_def]

/-! ## The end of an address -/

/-- A text without the characters at its end that equal `c`. -/
structure Trims (c : Char) (cs trimmed : List Char) : Prop where
  cut : ∃ n, cs = trimmed ++ List.replicate n c
  ended : trimmed.getLast? ≠ some c

theorem trims_trimEndOf (c : Char) (s : String) :
    Trims c s.toList (Text.trimEndOf c s).toList := by
  have hlist : (Text.trimEndOf c s).toList =
      (s.toList.reverse.dropWhile (· == c)).reverse := String.toList_ofList
  rw [hlist]
  constructor
  · refine ⟨(s.toList.reverse.takeWhile (· == c)).length, ?_⟩
    have htake : s.toList.reverse.takeWhile (· == c) =
        List.replicate (s.toList.reverse.takeWhile (· == c)).length c :=
      List.eq_replicate_of_mem fun b hb => by simpa using List.mem_takeWhile_imp hb
    rw [← List.reverse_replicate, ← htake, ← List.reverse_append, List.takeWhile_append_dropWhile,
      List.reverse_reverse]
  · rw [List.getLast?_reverse]
    intro hhead
    have hnot := List.head?_dropWhile_not (· == c) s.toList.reverse
    rw [hhead] at hnot
    simp at hnot

/-! ## The address of a document -/

/-- The variables of a server, if they are a mapping or there are none. -/
theorem fields_variables {v : Value} {vars : Keyed Value}
    (h : v.opened = .map vars ∨ v = .null ∧ vars = []) :
    (v.orElse (.map [])).fields = .ok vars := by
  rcases h with h | ⟨rfl, rfl⟩
  · have htruthy : v.truthy = !vars.isEmpty := by rw [← v.truthy_opened, h, Value.truthy]
    rw [Value.orElse, htruthy]
    cases vars with
    | nil => rfl
    | cons e rest =>
      rw [if_pos (by simp), Value.fields, h]
  · rfl

/-- Servers of which there is a first one count as true. -/
theorem truthy_of_first {servers server : Value} (h : first servers = .ok server) :
    servers.truthy = true := by
  induction servers using Value.induction with
  | scalar s =>
    obtain ⟨vs, hvs, h⟩ := bind_eq_ok.1 h
    cases s with
    | text t =>
      refine bne_iff_ne.2 fun hempty => ?_
      subst hempty
      cases hvs
      cases h
    | bytes bs =>
      cases bs with
      | nil =>
        cases hvs
        cases h
      | cons b bs => rfl
    | _ => cases hvs
  | list vs =>
    cases vs with
    | nil =>
      obtain ⟨_, hvs, h⟩ := bind_eq_ok.1 h
      cases hvs
      cases h
    | cons v vs => rfl
  | map es =>
    cases es with
    | nil => cases h
    | cons e es => rfl
  | pair a b => rfl
  | set ms => cases h
  | part n body ih => exact ih h

/-- **The address of a document**: let its first server have an address that is a text, and variables that are
a mapping with texts as defaults, or none.  There is one dissection of the address.  With the defaults put in
the place of its groups, and the slashes at the end cut off, it is the address that paths are appended to; where
no group has a default, nothing but the end is changed. -/
theorem baseUrl_substitutes (settings : Settings) (document first : Value) (fields server : Keyed Value)
    (url : String) (vars : Keyed Value)
    (hsettings : settings.baseUrl = none ∨ settings.baseUrl = some "")
    (hdocument : document.opened = .map fields)
    (hfirst : Server.first (Value.field fields "servers") = .ok first)
    (hserver : first.opened = .map server)
    (hurl : Value.field server "url" = .text url) (hnonempty : url ≠ "")
    (hvariables : (Value.field server "variables").opened = .map vars ∨
      Value.field server "variables" = .null ∧ vars = [])
    (htexts : HasTextDefaults vars) :
    ∃ d base, Dissects url.toList d ∧ (∀ d', Dissects url.toList d' → d' = d) ∧
      d.filled inBraces = url.toList ∧ baseUrl settings document = .ok base ∧
      Trims '/' (d.filled (substitute vars)) base.toList ∧
      ((∀ g ∈ d.groups,
          (Keyed.find? vars (.text (String.ofList g.1))).bind (·.get? "default") = none) →
        Trims '/' url.toList base.toList) := by
  obtain ⟨d, hd⟩ := exists_dissects url.toList
  have hunique : ∀ d', Dissects url.toList d' → d' = d :=
    fun d' hd' => hd'.eq_ofPieces.trans hd.eq_ofPieces.symm
  have hurlTruthy : (Value.text url).truthy = true := bne_iff_ne.2 hnonempty
  have haddress : address settings document =
      .ok (String.ofList (d.filled (substitute vars))) := by
    have hfields : document.fields = .ok fields := by rw [Value.fields, hdocument]
    refine bind_eq_ok.2 ⟨fields, hfields, ?_⟩
    simp only [truthy_of_first hfirst, hfirst, Bool.not_true, Bool.false_eq_true, if_false]
    refine bind_eq_ok.2 ⟨first, rfl, ?_⟩
    simp only [hserver, hurl, hurlTruthy, Bool.not_true, Bool.false_eq_true, if_false]
    exact fill_eq (fields_variables hvariables) htexts hd
  have hbase : baseUrl settings document =
      .ok (Text.trimEndOf '/' (String.ofList (d.filled (substitute vars)))) := by
    rcases hsettings with hnone | hempty
    · rw [baseUrl, hnone, haddress]
      rfl
    · rw [baseUrl, hempty, haddress]
      rfl
  have htrims := trims_trimEndOf '/' (String.ofList (d.filled (substitute vars)))
  rw [String.toList_ofList] at htrims
  have hunchanged : (∀ g ∈ d.groups,
      (Keyed.find? vars (.text (String.ofList g.1))).bind (·.get? "default") = none) →
      Trims '/' url.toList (Text.trimEndOf '/' (String.ofList (d.filled (substitute vars)))).toList := by
    intro hnone
    rw [filled_substitute_of_none hd hnone] at htrims ⊢
    exact htrims
  exact ⟨d, _, hd, hunique, hd.filled_inBraces, hbase, htrims, hunchanged⟩

/-- An address with a brace in the name of a variable, braces around nothing, a variable without a default, and
a brace that is never closed. -/
def nestedUrl : String := "https://\x7ba\x7bb\x7d/\x7b\x7d\x7bc\x7d\x7b/"

/-- The default of the first variable looks like the second variable. -/
def nestedVariables : Keyed Value :=
  [(.text "a\x7bb", .map [(.text "default", .text "\x7bc\x7d/")]), (.text "c", .map [])]

def nestedServer : Keyed Value :=
  [(.text "url", .text nestedUrl), (.text "variables", .map nestedVariables)]

theorem baseUrl_substitutes_nested :
    ∃ d base, Dissects nestedUrl.toList d ∧ (∀ d', Dissects nestedUrl.toList d' → d' = d) ∧
      d.filled inBraces = nestedUrl.toList ∧
      baseUrl {} (.map [(.text "servers", .list [.map nestedServer])]) = .ok base ∧
      Trims '/' (d.filled (substitute nestedVariables)) base.toList ∧
      ((∀ g ∈ d.groups, (Keyed.find? nestedVariables (.text (String.ofList g.1))).bind
          (·.get? "default") = none) →
        Trims '/' nestedUrl.toList base.toList) :=
  baseUrl_substitutes {} _ (.map nestedServer) [(.text "servers", .list [.map nestedServer])] nestedServer
    nestedUrl nestedVariables (.inl rfl) rfl rfl rfl rfl (by decide) (.inl rfl)
    (by
      intro name default h
      simp only [nestedVariables, Keyed.find?_cons, Keyed.find?_nil] at h
      split at h
      · exact ⟨_, (Option.some.inj h).symm⟩
      · split at h <;> cases h)

end ToolCatalog.Server
