import Mathlib.Data.List.Forall2
import ToolCatalog.Pointer
import ToolCatalog.Proofs.Number.Numeral
import ToolCatalog.Proofs.Value.Induction
import ToolCatalog.Proofs.Value.Keyed

/-!
# References address nodes

A path names a node of a document by the keys and indices that lead to it.  Spelled as a reference, with
the tildes and then the slashes of its keys escaped, it is cut into its segments again, and following them
leads to the node.  In the other direction every local reference leads to a node at a path that it spells,
or stops at the first segment that leads nowhere.

* `walk_addresses`: references address the nodes of a document and nothing else.
-/

namespace ToolCatalog.Pointer

/-! ## Segments -/

/-- A text with one character written as two. -/
def escapeOne (c digit : Char) (cs : List Char) : List Char :=
  cs.flatMap fun a => if a = c then ['~', digit] else [a]

/-- A name as a segment: tildes first, then slashes. -/
def escape (cs : List Char) : List Char := escapeOne '/' '1' (escapeOne '~' '0' cs)

theorem unescapeOne_tilde (digit c : Char) (rest : List Char) :
    unescapeOne digit c ('~' :: digit :: rest) = c :: unescapeOne digit c rest := by
  rw [unescapeOne, if_pos ⟨rfl, rfl⟩]

theorem unescapeOne_other {digit c a : Char} (h : a ≠ '~') (rest : List Char) :
    unescapeOne digit c (a :: rest) = a :: unescapeOne digit c rest := by
  cases rest with
  | nil => rfl
  | cons b rest => rw [unescapeOne, if_neg fun hab => h hab.1]

/-- Reading the slashes leaves a text with escaped tildes. -/
theorem unescapeOne_escape (cs : List Char) :
    unescapeOne '1' '/' (escape cs) = escapeOne '~' '0' cs := by
  induction cs with
  | nil => rfl
  | cons a rest ih =>
    by_cases htilde : a = '~'
    · -- An escaped tilde is followed by a zero, which no slash is.
      subst htilde
      have hescape : escape ('~' :: rest) = '~' :: '0' :: escape rest := rfl
      have hescapeOne : escapeOne '~' '0' ('~' :: rest) = '~' :: '0' :: escapeOne '~' '0' rest := rfl
      rw [hescape, hescapeOne, unescapeOne, if_neg (by decide), unescapeOne_other (by decide), ih]
    · have hescapeOne : escapeOne '~' '0' (a :: rest) = a :: escapeOne '~' '0' rest := by
        rw [escapeOne, List.flatMap_cons, if_neg htilde]
        rfl
      by_cases hslash : a = '/'
      · subst hslash
        have hescape : escape ('/' :: rest) = '~' :: '1' :: escape rest := rfl
        rw [hescape, hescapeOne, unescapeOne_tilde, ih]
      · have hescape : escape (a :: rest) = a :: escape rest := by
          rw [escape, hescapeOne, escapeOne, List.flatMap_cons, if_neg hslash]
          rfl
        rw [hescape, hescapeOne, unescapeOne_other htilde, ih]

theorem unescapeOne_escapeOne (cs : List Char) :
    unescapeOne '0' '~' (escapeOne '~' '0' cs) = cs := by
  induction cs with
  | nil => rfl
  | cons a rest ih =>
    by_cases htilde : a = '~'
    · subst htilde
      have hescapeOne : escapeOne '~' '0' ('~' :: rest) = '~' :: '0' :: escapeOne '~' '0' rest := rfl
      rw [hescapeOne, unescapeOne_tilde, ih]
    · have hescapeOne : escapeOne '~' '0' (a :: rest) = a :: escapeOne '~' '0' rest := by
        rw [escapeOne, List.flatMap_cons, if_neg htilde]
        rfl
      rw [hescapeOne, unescapeOne_other htilde, ih]

/-- **A segment spells the name it was written for.** -/
theorem unescape_escape (cs : List Char) : unescape (escape cs) = cs := by
  rw [unescape, unescapeOne_escape, unescapeOne_escapeOne]

/-- A text without tildes spells itself. -/
theorem unescape_of_not_mem {cs : List Char} (h : '~' ∉ cs) : unescape cs = cs := by
  have hone : ∀ digit c : Char, ∀ ds : List Char, '~' ∉ ds → unescapeOne digit c ds = ds := by
    intro digit c ds hds
    induction ds with
    | nil => rfl
    | cons a rest ih =>
      rw [List.mem_cons, not_or] at hds
      rw [unescapeOne_other (Ne.symm hds.1), ih hds.2]
  rw [unescape, hone _ _ cs h, hone _ _ cs h]

/-- A segment has no slash in it. -/
theorem slash_not_mem_escape (cs : List Char) : '/' ∉ escape cs := by
  intro h
  rw [escape, escapeOne, List.mem_flatMap] at h
  obtain ⟨a, -, ha⟩ := h
  split at ha
  · simp at ha
  · next hne =>
    rw [List.mem_singleton] at ha
    exact hne ha.symm

/-- Cutting at slashes is the library's cut at a separator. -/
theorem cutAtSlash_eq_splitOn (cs : List Char) : cutAtSlash cs = cs.splitOn '/' := by
  induction cs with
  | nil => rfl
  | cons a rest ih =>
    rw [List.splitOn_eq_splitOnP, List.splitOnP_cons_eq_if_modifyHead, ← List.splitOn_eq_splitOnP, ← ih]
    by_cases hslash : a = '/'
    · subst hslash
      rfl
    · rw [if_neg (by simpa using hslash), cutAtSlash]
      · cases hcut : cutAtSlash rest with
        | nil => exact absurd (ih.symm.trans hcut) (List.splitOnP_ne_nil _ _)
        | cons first others => rfl
      · exact hslash

/-! ## Paths -/

/-- A step from a collection to what stands in it: to what is under a key, or to the item at an index,
which counts from the end if it is negative. -/
inductive Step where
  | key (name : String)
  | index (position : Int)

namespace Step

/-- The text that a step is, as a segment. -/
def segment : Step → String
  | key name => name
  | index position => toString position

/-- A step as it is spelled in a reference. -/
def spelled : Step → String
  | key name => String.ofList (escape name.toList)
  | index position => toString position

/-- `s.IsReadFrom segment`: the segment stands for the step, as a key or read as an integer. -/
inductive IsReadFrom : Step → String → Prop
  | key (name : String) : IsReadFrom (key name) name
  | index {segment : String} {position : Int} :
    Numeral.integer? 10 segment.toList = some position → IsReadFrom (index position) segment

/-- `s.Leads v w`: the step leads from `v` to `w`. -/
inductive Leads : Step → Value → Value → Prop
  | key {name : String} {v w : Value} {es : Keyed Value} :
    v.opened = .map es → (.text name, w) ∈ es → Leads (key name) v w
  | item {position : Nat} {v w : Value} {vs : List Value} :
    v.opened = .list vs → vs[position]? = some w → Leads (index position) v w
  | itemFromEnd {position : Nat} {v w : Value} {vs : List Value} :
    v.opened = .list vs → vs[position]? = some w → Leads (index (position - vs.length)) v w

end Step

/-- `LiesAt path v w`: the steps of the path lead from `v` to `w`, one after another. -/
inductive LiesAt : List Step → Value → Value → Prop
  | here (v : Value) : LiesAt [] v v
  | step {s : Step} {path : List Step} {u v w : Value} :
    s.Leads u v → LiesAt path v w → LiesAt (s :: path) u w

/-- A path as a reference. -/
def spell (path : List Step) : String :=
  "#/" ++ "/".intercalate (path.map Step.spelled)

/-! ## One step -/

/-- An item is found by its index exactly if the index leads to it. -/
theorem item?_eq_some_iff {vs : List Value} {index : Int} {w : Value} :
    item? vs index = some w ↔
      (∃ position : Nat, index = position ∧ vs[position]? = some w) ∨
        ∃ position : Nat, index = position - vs.length ∧ vs[position]? = some w := by
  unfold item?
  constructor
  · intro h
    simp only [Option.ite_none_left_eq_some] at h
    obtain ⟨hposition, hw⟩ := h
    by_cases hnegative : index < 0
    · rw [if_pos hnegative] at hposition hw
      exact Or.inr ⟨(index + vs.length).toNat, by omega, hw⟩
    · rw [if_neg hnegative] at hposition hw
      exact Or.inl ⟨index.toNat, by omega, hw⟩
  · rintro (⟨position, rfl, hw⟩ | ⟨position, rfl, hw⟩)
    · rw [if_neg (by omega), if_neg (by omega), Int.toNat_natCast]
      exact hw
    · have hlt : position < vs.length := (List.getElem?_eq_some_iff.1 hw).1
      have hnegative : (position : Int) - vs.length < 0 := by omega
      have hposition : (position : Int) - vs.length + vs.length = position := by omega
      rw [if_pos hnegative, hposition, if_neg (by omega), Int.toNat_natCast]
      exact hw

/-- What a segment leads to, a step leads to that it stands for. -/
theorem exists_leads_of_step? {v w : Value} {segment : String} (h : step? v segment = some w) :
    ∃ s : Step, s.IsReadFrom segment ∧ s.Leads v w := by
  unfold step? at h
  split at h
  · next es hes => exact ⟨.key segment, .key segment, .key hes (Keyed.mem_of_find?_text h)⟩
  · next vs hvs =>
    obtain ⟨index, hindex, hitem⟩ := Option.bind_eq_some_iff.1 h
    rcases item?_eq_some_iff.1 hitem with ⟨position, rfl, hw⟩ | ⟨position, rfl, hw⟩
    · exact ⟨_, .index hindex, .item hvs hw⟩
    · exact ⟨_, .index hindex, .itemFromEnd hvs hw⟩
  · cases h

theorem Step.Leads.within {s : Step} {v w : Value} (h : s.Leads v w) : Value.Within w v := by
  apply Value.Within.of_opened
  cases h with
  | key hes hw =>
    rw [hes]
    exact .entry hw .self
  | item hvs hw | itemFromEnd hvs hw =>
    rw [hvs]
    exact .item (List.mem_of_getElem? hw) .self

/-- A step that leads somewhere is followed by any segment that stands for it. -/
theorem step?_of_leads {s : Step} {v w : Value} {segment : String} (hv : v.WellFormed)
    (hsegment : s.IsReadFrom segment) (h : s.Leads v w) : step? v segment = some w := by
  unfold step?
  cases h with
  | @key name v w es hes hw =>
    cases hsegment
    have hwithin : Value.Within (.map es) v := by
      apply Value.Within.of_opened
      rw [hes]
      exact .self
    simp only [hes]
    exact Keyed.find?_of_mem hw (hv es hwithin)
  | item hvs hw =>
    cases hsegment with
    | index hindex =>
      simp only [hvs, hindex, Option.bind_some]
      exact item?_eq_some_iff.2 (Or.inl ⟨_, rfl, hw⟩)
  | itemFromEnd hvs hw =>
    cases hsegment with
    | index hindex =>
      simp only [hvs, hindex, Option.bind_some]
      exact item?_eq_some_iff.2 (Or.inr ⟨_, rfl, hw⟩)

/-! ## Following segments -/

/-- Segments that stand for a path lead to where the path leads. -/
theorem follow_of_liesAt {ref : String} {path : List Step} {segments : List String} {v w : Value}
    (hv : v.WellFormed) (hpath : LiesAt path v w)
    (hsegments : List.Forall₂ Step.IsReadFrom path segments) : follow ref segments v = .ok w := by
  induction hpath generalizing segments with
  | here v =>
    cases hsegments
    rfl
  | step hstep _ ih =>
    cases hsegments with
    | cons hsegment hrest =>
      rw [follow, step?_of_leads hv hsegment hstep]
      exact ih (hv.within hstep.within) hrest

/-- Segments that lead to a node stand for a path to it. -/
theorem exists_path_of_follow {ref : String} {segments : List String} {v w : Value}
    (h : follow ref segments v = .ok w) :
    ∃ path, List.Forall₂ Step.IsReadFrom path segments ∧ LiesAt path v w := by
  induction segments generalizing v with
  | nil =>
    obtain rfl := Except.ok.inj h
    exact ⟨[], .nil, .here v⟩
  | cons segment rest ih =>
    rw [follow] at h
    split at h
    · next next hnext =>
      obtain ⟨s, hsegment, hstep⟩ := exists_leads_of_step? hnext
      obtain ⟨path, hrest, hpath⟩ := ih h
      exact ⟨s :: path, .cons hsegment hrest, .step hstep hpath⟩
    · cases h

/-- Segments that lead nowhere stop at the first that cannot be followed, which the fault names. -/
theorem exists_stop_of_follow {ref : String} {segments : List String} {v : Value} {e : Fault}
    (hv : v.WellFormed) (h : follow ref segments v = .error e) :
    ∃ before segment after path w, segments = before ++ segment :: after ∧
      e = .invalidReferencePath ref segment ∧ List.Forall₂ Step.IsReadFrom path before ∧
      LiesAt path v w ∧ ∀ (s : Step) u, s.IsReadFrom segment → ¬ s.Leads w u := by
  induction segments generalizing v with
  | nil => cases h
  | cons segment rest ih =>
    rw [follow] at h
    split at h
    · next next hnext =>
      obtain ⟨s, hsegment, hstep⟩ := exists_leads_of_step? hnext
      obtain ⟨before, stop, after, path, w, rfl, he, hbefore, hpath, hstop⟩ :=
        ih (hv.within hstep.within) h
      exact ⟨segment :: before, stop, after, s :: path, w, rfl, he, .cons hsegment hbefore,
        .step hstep hpath, hstop⟩
    · next hnone =>
      refine ⟨[], segment, rest, [], v, rfl, (Except.error.inj h).symm, .nil, .here v, ?_⟩
      intro s u hsegment hstep
      rw [step?_of_leads hv hsegment hstep] at hnone
      cases hnone

/-! ## Paths as references -/

theorem slash_not_mem_spelled (s : Step) : '/' ∉ s.spelled.toList := by
  cases s with
  | key name =>
    rw [Step.spelled, String.toList_ofList]
    exact slash_not_mem_escape _
  | index position => exact Numeral.not_mem_toString (by decide) (by decide) position

theorem unescape_spelled (s : Step) : unescape s.spelled.toList = s.segment.toList := by
  cases s with
  | key name =>
    rw [Step.spelled, String.toList_ofList]
    exact unescape_escape _
  | index position =>
    exact unescape_of_not_mem (Numeral.not_mem_toString (by decide) (by decide) position)

/-- **A reference is cut into the segments it was spelled from.** -/
theorem split_spell {path : List Step} (h : path ≠ []) :
    split (spell path) = .ok (path.map Step.segment) := by
  have htoList : (spell path).toList =
      '#' :: '/' :: ['/'].intercalate (path.map fun s => s.spelled.toList) := by
    rw [spell, String.toList_append, String.toList_intercalate, List.map_map]
    rfl
  have hcut : cutAtSlash (['/'].intercalate (path.map fun s => s.spelled.toList)) =
      path.map fun s => s.spelled.toList := by
    rw [cutAtSlash_eq_splitOn]
    refine List.splitOn_intercalate '/' (fun cs hcs => ?_) (by simpa using h)
    obtain ⟨s, -, rfl⟩ := List.mem_map.1 hcs
    exact slash_not_mem_spelled s
  have hlocal : localPart? (spell path) =
      some (['/'].intercalate (path.map fun s => s.spelled.toList)) := by
    rw [localPart?, htoList]
    rfl
  rw [split, hlocal]
  simp only [hcut, List.map_map]
  refine congrArg Except.ok (List.map_congr_left fun s _ => ?_)
  rw [Function.comp, unescape_spelled, String.ofList_toList]

/-- A step is read from its own segment, unless it is an index with too many digits. -/
theorem isReadFrom_segment {s : Step}
    (h : ∀ i, s = .index i → Numeral.isModerate i.natAbs = true) : s.IsReadFrom s.segment := by
  cases s with
  | key name => exact .key name
  | index position =>
    refine .index ?_
    rw [Step.segment, Numeral.integer?_toString, if_pos (h position rfl)]

/-- An index that is followed has not too many digits. -/
theorem isModerate_of_follow {ref : String} {path : List Step} {v w u : Value}
    (hv : v.WellFormed) (hpath : LiesAt path v w)
    (h : follow ref (path.map Step.segment) v = .ok u) :
    ∀ i, Step.index i ∈ path → Numeral.isModerate i.natAbs = true := by
  induction hpath with
  | here v => simp
  | @step s path v next w hstep _ ih =>
    have hmoderate : ∀ i, s = .index i → Numeral.isModerate i.natAbs = true := by
      rintro i rfl
      by_contra himmoderate
      have hvs : ∃ vs, v.opened = .list vs := by
        cases hstep with
        | item hvs _ => exact ⟨_, hvs⟩
        | itemFromEnd hvs _ => exact ⟨_, hvs⟩
      obtain ⟨vs, hvs⟩ := hvs
      have hnone : step? v (Step.index i).segment = none := by
        rw [step?, hvs]
        simp only [Step.segment, Numeral.integer?_toString, if_neg himmoderate, Option.bind_none]
      rw [List.map_cons, follow, hnone] at h
      cases h
    rw [List.map_cons, follow, step?_of_leads hv (isReadFrom_segment hmoderate) hstep] at h
    intro i hi
    rcases List.mem_cons.1 hi with rfl | hi
    · exact hmoderate i rfl
    · exact ih (hv.within hstep.within) h i hi

/-- No index into a list has more digits than the length of the list. -/
theorem isModerate_of_liesAt {path : List Step} {v w : Value} (hpath : LiesAt path v w)
    (hlists : ∀ vs, Value.Within (.list vs) v → Numeral.isModerate vs.length = true) :
    ∀ i, Step.index i ∈ path → Numeral.isModerate i.natAbs = true := by
  induction hpath with
  | here v => simp
  | @step s path v next w hstep _ ih =>
    intro i hi
    rcases List.mem_cons.1 hi with rfl | hi
    · have hbound : ∃ vs, v.opened = .list vs ∧ i.natAbs ≤ vs.length := by
        cases hstep with
        | item hvs hnext =>
          have hlt := (List.getElem?_eq_some_iff.1 hnext).1
          exact ⟨_, hvs, by omega⟩
        | itemFromEnd hvs hnext =>
          have hlt := (List.getElem?_eq_some_iff.1 hnext).1
          exact ⟨_, hvs, by omega⟩
      obtain ⟨vs, hvs, hle⟩ := hbound
      have hwithin : Value.Within (.list vs) v := .of_opened (hvs ▸ .self)
      exact Numeral.isModerate_of_le hle (hlists vs hwithin)
    · exact ih (fun vs hvs => hlists vs (hvs.trans hstep.within)) i hi

/-- **References address the nodes of a document and nothing else.**  A path to a node, spelled as a
reference, is cut into the path's segments and leads to the node, unless an index on it has more digits
than a numeral may have, which only a list of as many items has.  A local reference leads to a node at a
path that its segments stand for, or fails at the first segment that leads nowhere. -/
theorem walk_addresses (document : Value) (hdocument : document.WellFormed) :
    (∀ path node, path ≠ [] → LiesAt path document node →
      split (spell path) = .ok (path.map Step.segment) ∧
        (walk document (spell path) = .ok node ↔
          ∀ i, Step.index i ∈ path → Numeral.isModerate i.natAbs = true) ∧
        ((∀ vs, Value.Within (.list vs) document → Numeral.isModerate vs.length = true) →
          walk document (spell path) = .ok node)) ∧
      ∀ rest : String, ∃ segments, split ("#/" ++ rest) = .ok segments ∧
        ((∃ path node, walk document ("#/" ++ rest) = .ok node ∧
            List.Forall₂ Step.IsReadFrom path segments ∧ LiesAt path document node) ∨
          ∃ before segment after path node, segments = before ++ segment :: after ∧
            walk document ("#/" ++ rest) = .error (.invalidReferencePath ("#/" ++ rest) segment) ∧
            List.Forall₂ Step.IsReadFrom path before ∧ LiesAt path document node ∧
            ∀ (s : Step) other, s.IsReadFrom segment → ¬ s.Leads node other) := by
  constructor
  · intro path node hne hpath
    have hsplit := split_spell hne
    have hwalk : walk document (spell path) =
        follow (spell path) (path.map Step.segment) document := by
      rw [walk, hsplit]
      rfl
    have hfollow : follow (spell path) (path.map Step.segment) document = .ok node ↔
        ∀ i, Step.index i ∈ path → Numeral.isModerate i.natAbs = true := by
      constructor
      · exact isModerate_of_follow hdocument hpath
      · intro hmoderate
        refine follow_of_liesAt hdocument hpath (List.forall₂_map_right_iff.2 ?_)
        refine List.forall₂_same.2 fun s hs => isReadFrom_segment ?_
        rintro i rfl
        exact hmoderate i hs
    rw [hwalk]
    exact ⟨hsplit, hfollow, fun hlists => hfollow.2 (isModerate_of_liesAt hpath hlists)⟩
  · intro rest
    have hlocal : localPart? ("#/" ++ rest) = some rest.toList := by
      rw [localPart?, String.toList_append]
      rfl
    obtain ⟨segments, hsplit⟩ : ∃ segments, split ("#/" ++ rest) = .ok segments := by
      rw [split, hlocal]
      exact ⟨_, rfl⟩
    have hwalk : walk document ("#/" ++ rest) = follow ("#/" ++ rest) segments document := by
      rw [walk, hsplit]
      rfl
    refine ⟨segments, hsplit, ?_⟩
    rw [hwalk]
    cases hfollow : follow ("#/" ++ rest) segments document with
    | ok node =>
      obtain ⟨path, hsegments, hpath⟩ := exists_path_of_follow hfollow
      exact Or.inl ⟨path, node, rfl, hsegments, hpath⟩
    | error e =>
      obtain ⟨before, segment, after, path, node, hsegments, rfl, hbefore, hpath, hstop⟩ :=
        exists_stop_of_follow hdocument hfollow
      exact Or.inr ⟨before, segment, after, path, node, hsegments, rfl, hbefore, hpath, hstop⟩

/-- A document with a list under a key that has a slash and a tilde in it. -/
def escapedDocument : Value := .record [("a/b~1", .list [.null, .text "x"])]

theorem walk_addresses_escaped : escapedDocument.WellFormed ∧
    split "#/a~1b~01/1" = .ok ["a/b~1", "1"] ∧ walk escapedDocument "#/a~1b~01/1" = .ok (.text "x") := by
  have hdocument : escapedDocument.WellFormed := by
    refine Value.keysEverywhere_record.2 ⟨by simp, fun f hf => ?_⟩
    obtain rfl := List.mem_singleton.1 hf
    refine Value.keysEverywhere_list.2 fun v hv => ?_
    obtain rfl | rfl : v = .null ∨ v = .text "x" := by simpa using hv
    · exact Value.keysEverywhere_scalar _
    · exact Value.keysEverywhere_scalar _
  have hpath : LiesAt [.key "a/b~1", .index 1] escapedDocument (.text "x") :=
    .step (.key rfl List.mem_cons_self) (.step (@Step.Leads.item 1 _ _ _ rfl rfl) (.here _))
  have hspell : spell [.key "a/b~1", .index 1] = "#/a~1b~01/1" := by decide
  obtain ⟨hsplit, hwalk, -⟩ := (walk_addresses escapedDocument hdocument).1 _ _ (by simp) hpath
  rw [hspell] at hsplit hwalk
  refine ⟨hdocument, hsplit, hwalk.2 fun i hi => ?_⟩
  obtain rfl : i = 1 := by simpa using hi
  exact (Numeral.isModerate_iff 1).2 (by decide)

end ToolCatalog.Pointer
