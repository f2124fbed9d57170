import ToolCatalog.Operation.Compile
import ToolCatalog.Proofs.Schema.Failure

/-!
# A broken operation breaks nothing else

Compiling an operation fails only with faults for which the operation is left out, and reports only
what happens inside the operation: that an operation is skipped or replaced is never among its own
events.  Both facts go through a compilation step by step, so they are carried together: `Contained` is
the predicate, with one rule for each way of putting steps together and one lemma for each step.
-/

namespace ToolCatalog

/-- Whether an event is about the catalog and not about a single operation. -/
def Event.isOfCatalog : Event → Bool
  | pathsIgnored _ | operationSkipped _ _ _ | operationReplaced _ _ _ | catalogCompiled _ _ => true
  | _ => false

/-! ## Steps without events -/

/-- If a step fails, then with a fault for which an operation is left out. -/
def Contained {α : Type} (x : Except Fault α) : Prop :=
  ∀ f, x = .error f → f.skipsOperation = true

section

variable {α β : Type}

@[simp] theorem contained_ok (a : α) : Contained (.ok a) := by
  intro f h
  cases h

@[simp] theorem contained_pure (a : α) : Contained (pure a) := contained_ok a

@[simp] theorem contained_error {f : Fault} :
    Contained (.error f : Except Fault α) ↔ f.skipsOperation = true := by
  constructor
  · intro h
    exact h f rfl
  · intro h g hg
    obtain rfl := Except.error.inj hg
    exact h

theorem Contained.bind {x : Except Fault α} {f : α → Except Fault β} (hx : Contained x)
    (hf : ∀ a, Contained (f a)) : Contained (x >>= f) := by
  intro e he
  rcases bind_eq_error.1 he with he | ⟨a, -, he⟩
  · exact hx e he
  · exact hf a e he

theorem contained_mapM {f : α → Except Fault β} (hf : ∀ a, Contained (f a)) (as : List α) :
    Contained (as.mapM f) := by
  induction as with
  | nil => simp
  | cons a rest ih =>
    rw [List.mapM_cons]
    exact (hf a).bind fun b => ih.bind fun bs => contained_pure _

theorem contained_foldlM {f : β → α → Except Fault β} (hf : ∀ b a, Contained (f b a)) (as : List α)
    (b : β) : Contained (as.foldlM f b) := by
  induction as generalizing b with
  | nil => simp
  | cons a rest ih =>
    rw [List.foldlM_cons]
    exact (hf b a).bind fun next => ih next

end

/-! ## Looking into values -/

namespace Value

theorem contained_fields (v : Value) : Contained v.fields := by
  unfold fields
  split <;> simp [Fault.skipsOperation]

theorem contained_items (v : Value) : Contained v.items := by
  induction v using Value.induction with
  | scalar s => cases s <;> simp [items, Fault.skipsOperation]
  | part n body ih => exact ih
  | _ => simp [items]

theorem contained_holds (name : String) (v : Value) : Contained (v.holds name) := by
  induction v using Value.induction with
  | scalar s => cases s <;> simp [holds, Fault.skipsOperation]
  | part n body ih => exact ih
  | _ => simp [holds]

theorem contained_under (name : String) (v : Value) : Contained (v.under name) := by
  unfold under
  split
  · split <;> simp [Fault.skipsOperation]
  · simp [Fault.skipsOperation]

theorem contained_asEntry (v : Value) : Contained v.asEntry := by
  unfold asEntry
  split
  · next e he => exact contained_error.2 (contained_items v e he)
  · split
    · simp
    · split <;> simp [Fault.skipsOperation]
  · simp [Fault.skipsOperation]

theorem contained_toEntries (v : Value) : Contained v.toEntries := by
  unfold toEntries
  split
  · simp
  · refine (contained_items _).bind fun vs => ?_
    exact (contained_mapM contained_asEntry vs).bind fun es => contained_pure _

theorem contained_show? (v : Value) : Contained v.show? := by
  unfold show?
  split <;> simp [Fault.skipsOperation]

/-! ## Values in order -/

theorem contained_lessScalar (s t : Scalar) : Contained (lessScalar s t) := by
  unfold lessScalar
  split
  case h_4 => split <;> simp [Fault.skipsOperation]
  case h_6 => split <;> simp [Fault.skipsOperation]
  case h_7 => split <;> simp [Fault.skipsOperation]
  case h_8 => split <;> simp [Fault.skipsOperation]
  all_goals simp

theorem contained_lessItems {vs : List Value} (h : ∀ v ∈ vs, ∀ w, Contained (v.less w))
    (ws : List Value) : Contained (lessItems vs ws) := by
  induction vs generalizing ws with
  | nil => cases ws <;> simp [lessItems]
  | cons v rest ih =>
    cases ws with
    | nil => simp [lessItems]
    | cons w ws =>
      rw [lessItems]
      split
      · exact ih (fun u hu => h u (List.mem_cons_of_mem _ hu)) ws
      · exact h v List.mem_cons_self w

theorem contained_less (v w : Value) : Contained (v.less w) := by
  induction v using Value.induction generalizing w with
  | scalar s =>
    rw [less]
    split
    · exact contained_lessScalar _ _
    · simp [Fault.skipsOperation]
  | list vs ih =>
    rw [less]
    split
    · exact contained_lessItems ih _
    · simp [Fault.skipsOperation]
  | map es _ _ => simp [less, Fault.skipsOperation]
  | pair a b ha hb =>
    rw [less]
    split
    · split
      · exact hb _
      · exact ha _
    · simp [Fault.skipsOperation]
  | set ms =>
    rw [less]
    split <;> simp [Fault.skipsOperation]
  | part n body ih =>
    rw [less]
    exact ih w

theorem contained_placeIn (sorted : Array Value) (v : Value) (low high : Nat) :
    Contained (placeIn sorted v low high) := by
  induction low, high using placeIn.induct with
  | case1 low high h middle ihleft ihright =>
    rw [placeIn, dif_pos h]
    refine (contained_less _ _).bind fun isLess => ?_
    split
    · exact ihleft
    · exact ihright
  | case2 low high h =>
    rw [placeIn, dif_neg h]
    simp

theorem contained_insertSorted (sorted : List Value) (v : Value) :
    Contained (insertSorted sorted v) :=
  (contained_placeIn _ _ _ _).bind fun _ => contained_pure _

theorem contained_cutRun (falls : Bool) (last : Value) (vs : List Value) :
    Contained (cutRun falls last vs) := by
  induction vs generalizing last with
  | nil => simp [cutRun]
  | cons v rest ih =>
    rw [cutRun]
    refine (contained_less _ _).bind fun isLess => ?_
    split
    · exact (ih v).bind fun run => contained_pure _
    · exact contained_pure _

theorem contained_sorted (vs : List Value) : Contained (sorted vs) := by
  unfold sorted
  split
  · simp
  · simp
  · refine (contained_less _ _).bind fun falls => (contained_cutRun _ _ _).bind fun run => ?_
    exact contained_foldlM contained_insertSorted _ _

end Value

namespace Location

theorem contained_isFileFormat (format : Value) : Contained (isFileFormat format) := by
  unfold isFileFormat
  split
  · simp
  · simp
  · split <;> simp [Fault.skipsOperation]

theorem contained_isFileString (es : Keyed Value) : Contained (isFileString es) := by
  unfold isFileString
  split
  · exact contained_isFileFormat _
  · simp

theorem contained_isFileSchema (schema : Value) : Contained (isFileSchema schema) := by
  unfold isFileSchema
  split
  · split
    · exact contained_isFileString _
    · exact contained_isFileString _
  · simp

theorem contained_classify (node : Value) : Contained (classify node) := by
  unfold classify
  refine (Value.contained_holds _ _).bind fun found => ?_
  split
  · refine (Value.contained_under _ _).bind fun place => ?_
    split
    · simp
    · split
      · simp
      · exact contained_error.2 rfl
  · exact (contained_isFileSchema _).bind fun isFile => by split <;> simp

end Location

namespace Field

theorem contained_text (v : Value) : Contained (text v) := by
  unfold text
  split <;> simp [Fault.skipsOperation]

theorem contained_named (es : Keyed Value) : Contained (named es) :=
  contained_foldlM (fun _ _ => (contained_text _).bind fun _ => contained_pure _) _ _

end Field

/-! ## Steps with events -/

/-- A step whose events are not about the catalog and whose fault, if it fails, is one for which an
operation is left out. -/
structure Outcome.IsContained {α : Type} (x : Outcome α) : Prop where
  events : ∀ e ∈ x.events, e.isOfCatalog = false
  result : Contained x.result

namespace Outcome

variable {α β : Type}

theorem isContained_pure (a : α) : (pure a : Outcome α).IsContained := ⟨by simp, by simp⟩

theorem isContained_fail {f : Fault} (h : f.skipsOperation = true) :
    (fail f : Outcome α).IsContained :=
  ⟨by simp, contained_error.2 h⟩

theorem isContained_report {e : Event} (h : e.isOfCatalog = false) : (report e).IsContained :=
  ⟨by simpa using h, contained_ok ()⟩

/-- A step without events is contained if its fault is. -/
theorem isContained_liftM {x : Except Fault α} (h : Contained x) :
    (liftM x : Outcome α).IsContained := by
  refine ⟨fun e he => ?_, h⟩
  cases he

theorem IsContained.bind {x : Outcome α} {f : α → Outcome β} (hx : x.IsContained)
    (hf : ∀ a, (f a).IsContained) : (x >>= f).IsContained := by
  refine ⟨fun e he => ?_, ?_⟩
  · change e ∈ (andThen x f).events at he
    unfold andThen at he
    split at he
    · exact hx.events e he
    · next a _ =>
      rcases List.mem_append.1 he with he | he
      · exact hx.events e he
      · exact (hf a).events e he
  · rw [result_bind]
    exact hx.result.bind fun a => (hf a).result

theorem IsContained.inspect {x : Outcome α} {f : Except Fault α → Outcome β} (hx : x.IsContained)
    (hf : ∀ r, Contained r → (f r).IsContained) : (x.inspect f).IsContained := by
  refine ⟨fun e he => ?_, (hf _ hx.result).result⟩
  rcases List.mem_append.1 he with he | he
  · exact hx.events e he
  · exact (hf _ hx.result).events e he

end Outcome

/-! ## Merging -/

namespace Schema

open Outcome

theorem contained_of_plainFault {e : Fault} (h : IsPlainFault e) : e.skipsOperation = true := by
  rcases h with (rfl | rfl | rfl | rfl) | ⟨ref, rfl⟩ | ⟨ref, segment, rfl⟩ <;> rfl

theorem contained_walk (document : Value) (ref : String) : Contained (Pointer.walk document ref) :=
  fun _ he => contained_of_plainFault (walk_error he)

theorem contained_leadsToDeprecated (document v : Value) :
    Contained (leadsToDeprecated document v) :=
  fun _ he => contained_of_plainFault (leadsToDeprecatedFrom_error he)

theorem contained_finish (settings : Settings) (p : Parts) : Contained (finish settings p) := by
  intro e he
  rw [finish_error he]
  rfl

theorem contained_fold (overrides : Bool) (into es : Keyed Value) :
    Contained (fold overrides into es) := by
  intro e he
  rw [fold_error he]
  rfl

section

variable {settings : Settings} {follow : String → Outcome Merged}
  {deprecated : Value → Except Fault Bool}

theorem mergeItems_isContained {vs : List Value}
    (h : ∀ v ∈ vs, (mergeAs settings follow deprecated .schema v).IsContained) :
    (mergeItems settings follow deprecated vs).IsContained := by
  induction vs with
  | nil =>
    rw [mergeItems_nil]
    exact isContained_pure _
  | cons v rest ih =>
    rw [mergeItems_cons]
    have ih := ih fun w hw => h w (List.mem_cons_of_mem _ hw)
    exact (h v List.mem_cons_self).bind fun m => ih.bind fun ws => isContained_pure _

theorem mergeNamed_isContained {es : Keyed Value}
    (h : ∀ k v, (k, v) ∈ es → (mergeAs settings follow deprecated .schema v).IsContained) :
    (mergeNamed settings follow deprecated es).IsContained := by
  induction es with
  | nil =>
    rw [mergeNamed_nil]
    exact isContained_pure _
  | cons e rest ih =>
    obtain ⟨name, v⟩ := e
    rw [mergeNamed_cons]
    have ih := ih fun k w hw => h k w (List.mem_cons_of_mem _ hw)
    exact (h name v List.mem_cons_self).bind fun m => ih.bind fun ns => isContained_pure _

theorem mergeProperties_isContained (hdeprecated : ∀ v, Contained (deprecated v)) {es : Keyed Value}
    (h : ∀ k v, (k, v) ∈ es → (mergeAs settings follow deprecated .schema v).IsContained) :
    (mergeProperties settings follow deprecated es).IsContained := by
  induction es with
  | nil =>
    rw [mergeProperties_nil]
    exact isContained_pure _
  | cons e rest ih =>
    obtain ⟨name, v⟩ := e
    rw [mergeProperties_cons]
    have ih := ih fun k w hw => h k w (List.mem_cons_of_mem _ hw)
    split
    · refine (isContained_report rfl).bind fun _ => ?_
      exact ih.bind fun q => isContained_pure _
    · refine (h name v List.mem_cons_self).bind fun m => ?_
      refine (isContained_liftM (hdeprecated v)).bind fun gone => ?_
      split
      · refine (isContained_report rfl).bind fun _ => ?_
        exact ih.bind fun q => isContained_pure _
      · exact ih.bind fun q => isContained_pure _

theorem mergeEntries_isContained {skips : Scalar → Bool} {es : Keyed Value}
    (h : ∀ k v, (k, v) ∈ es → ∀ role, (mergeAs settings follow deprecated role v).IsContained) :
    (mergeEntries settings follow deprecated skips es).IsContained := by
  induction es with
  | nil =>
    rw [mergeEntries_nil]
    exact isContained_pure _
  | cons e rest ih =>
    obtain ⟨k, v⟩ := e
    rw [mergeEntries_cons]
    have ih := ih fun k w hw => h k w (List.mem_cons_of_mem _ hw)
    split
    · exact ih
    · split
      · split
        · exact ih
        · exact (h _ v List.mem_cons_self _).bind fun m => ih.bind fun q => isContained_pure _
      · exact isContained_fail rfl
      · exact isContained_fail rfl

theorem mergeBranches_isContained {bs : List Value} {into : Parts}
    (h : ∀ b ∈ bs, (mergeAs settings follow deprecated .schema b).IsContained) :
    (mergeBranches settings follow deprecated bs into).IsContained := by
  induction bs generalizing into with
  | nil =>
    rw [mergeBranches_nil]
    exact isContained_pure _
  | cons b rest ih =>
    rw [mergeBranches_cons]
    have ih := fun {q} => @ih q fun c hc => h c (List.mem_cons_of_mem _ hc)
    refine (h b List.mem_cons_self).bind fun m => ?_
    split
    · exact (isContained_liftM (contained_fold _ _ _)).bind fun entries => ih
    · exact ih

theorem mergeBeside_isContained {es : Keyed Value}
    (hes : ∀ k v, (k, v) ∈ es → ∀ role, (mergeAs settings follow deprecated role v).IsContained)
    (hbs : ∀ b ∈ branchesOf es, (mergeAs settings follow deprecated .schema b).IsContained) :
    (mergeBeside settings follow deprecated es).IsContained := by
  rw [mergeBeside]
  refine (mergeEntries_isContained hes).bind fun own => ?_
  rw [compose]
  refine (isContained_liftM (contained_finish _ _)).bind fun rest => ?_
  split
  · rw [mergeBranchesIn_eq]
    exact (mergeBranches_isContained hbs).bind fun whole => isContained_liftM (contained_finish _ _)
  · exact isContained_pure _

theorem overlay_isContained {es : Keyed Value} {target : Merged} {beside : Unit → Outcome Parts}
    (h : (beside ()).IsContained) : (overlay settings es target beside).IsContained := by
  unfold overlay
  split
  · split
    · refine h.bind fun own => ?_
      refine (isContained_liftM (contained_fold _ _ _)).bind fun whole => ?_
      exact (isContained_liftM (contained_finish _ _)).bind fun done => isContained_pure _
    · exact isContained_pure _
  · exact isContained_pure _

/-- **Merging is contained**, if its resolver is. -/
theorem mergeAs_isContained (hfollow : ∀ ref, (follow ref).IsContained)
    (hdeprecated : ∀ v, Contained (deprecated v)) (role : Role) (v : Value) :
    (mergeAs settings follow deprecated role v).IsContained := by
  induction v using node_induction generalizing role with
  | scalar s =>
    rw [mergeAs_scalar]
    exact isContained_pure _
  | pair a b _ _ =>
    rw [mergeAs_pair]
    exact isContained_pure _
  | set ms =>
    rw [mergeAs_set]
    exact isContained_pure _
  | list vs ih =>
    by_cases hr : role = .literal
    · subst hr
      rw [mergeAs_literal]
      exact isContained_pure _
    · rw [mergeAs_list _ _ _ hr]
      exact (mergeItems_isContained fun v hv => ih v hv _).bind fun ws => isContained_pure _
  | part n body ih =>
    by_cases hr : role = .literal
    · subst hr
      rw [mergeAs_literal]
      exact isContained_pure _
    · rw [mergeAs_part _ _ _ hr]
      exact ih role
  | map es ih ihbranches =>
    cases role with
    | literal =>
      rw [mergeAs_literal]
      exact isContained_pure _
    | properties =>
      rw [mergeAs_properties]
      exact (mergeProperties_isContained hdeprecated fun k v hv => ih k v hv _).bind fun ps =>
        isContained_pure _
    | names =>
      rw [mergeAs_names]
      exact (mergeNamed_isContained fun k v hv => ih k v hv _).bind fun ns => isContained_pure _
    | schema =>
      have hbeside := mergeBeside_isContained ih fun b hb => ihbranches b hb .schema
      rw [mergeAs_schema]
      split
      · exact isContained_pure _
      · split
        · exact (hfollow _).bind fun target => overlay_isContained hbeside
        · exact hbeside.bind fun whole => isContained_pure _

end

theorem resolveFrom_isContained (settings : Settings) (document : Value) (bound : Bound)
    (visited : List String) (ref : String) :
    (resolveFrom settings document bound visited ref).IsContained := by
  induction bound generalizing visited ref with
  | reached =>
    rw [resolveFrom_eq]
    split
    · exact isContained_fail rfl
    · split <;> exact isContained_fail rfl
  | further rest ih =>
    rw [resolveFrom_eq]
    split
    · exact isContained_fail rfl
    · split
      · exact isContained_fail rfl
      · refine (isContained_liftM (contained_walk _ _)).bind fun target => ?_
        exact mergeAs_isContained (fun ref' => ih () (ref :: visited) ref')
          (contained_leadsToDeprecated document) .schema target

theorem merge_isContained (settings : Settings) (document : Value) (visited : List String)
    (node : Value) : (merge settings document visited node).IsContained := by
  have h : (mergeVisited settings document visited node).IsContained :=
    mergeAs_isContained (resolveFrom_isContained settings document _ visited)
      (contained_leadsToDeprecated document) .schema node
  exact h.bind fun m => isContained_pure _

theorem contained_trace (document node : Value) : Contained (trace document node) := by
  have h : ∀ (bound : Bound) (seen : List String) (node : Value),
      Contained (traceFrom document bound seen node) := by
    intro bound
    induction bound with
    | reached =>
      intro seen node
      rw [traceFrom_eq]
      split
      · simp
      · split
        · exact contained_error.2 rfl
        · split <;> exact contained_error.2 rfl
    | further rest ih =>
      intro seen node
      rw [traceFrom_eq]
      split
      · simp
      · split
        · exact contained_error.2 rfl
        · split
          · exact contained_error.2 rfl
          · simp only
            split
            · next e he => exact contained_error.2 (contained_walk document _ e he)
            · exact ih () _ _
  exact h _ _ _

end Schema

/-! ## Compiling an operation -/

namespace Operation

open Outcome

theorem contained_pickMedia (content : Value) (types : List (String × String)) :
    Contained (pickMedia content types) := by
  induction types with
  | nil => simp [pickMedia]
  | cons e rest ih =>
    obtain ⟨media, encoding⟩ := e
    rw [pickMedia]
    refine (Value.contained_holds _ _).bind fun found => ?_
    split
    · exact (Value.contained_under _ _).bind fun declaration => contained_pure _
    · exact ih

theorem requestBody_isContained (settings : Settings) (document : Value) (operation : Keyed Value) :
    (requestBody settings document operation).IsContained := by
  unfold requestBody
  simp only
  split
  · exact isContained_pure _
  · refine (isContained_liftM (Schema.contained_trace _ _)).bind fun body => ?_
    refine (isContained_liftM (Value.contained_fields _)).bind fun fields => ?_
    refine (isContained_liftM (contained_pickMedia _ _)).bind fun picked => ?_
    split
    · refine (isContained_liftM (Value.contained_fields _)).bind fun entries => ?_
      exact (Schema.merge_isContained _ _ _ _).bind fun schema => isContained_pure _
    · refine (isContained_liftM (Value.contained_items _)).bind fun items => ?_
      refine (isContained_liftM (Value.contained_sorted _)).bind fun types => ?_
      exact (isContained_report rfl).bind fun _ => isContained_pure _

theorem declare_isContained (settings : Settings) (document : Value) (operation : String)
    (entry : Value) : (declare settings document operation entry).IsContained := by
  unfold declare
  split
  · next f hf =>
    split
    · exact (isContained_report rfl).bind fun _ => isContained_pure _
    · refine isContained_fail ?_
      cases ht : Schema.trace document entry with
      | error e =>
        rw [ht] at hf
        obtain rfl := Except.error.inj hf
        exact Schema.contained_trace document entry e ht
      | ok v =>
        rw [ht] at hf
        cases hf
  · split
    · split
      · exact (isContained_report rfl).bind fun _ => isContained_pure _
      · exact (isContained_liftM (Value.contained_show? _)).bind fun place => isContained_pure _
    · exact (isContained_report rfl).bind fun _ => isContained_pure _
  · exact (isContained_report rfl).bind fun _ => isContained_pure _

theorem collect_isContained (settings : Settings) (document : Value) (operation : String)
    (pathParameters operationParameters : Value) :
    (collect settings document operation pathParameters operationParameters).IsContained := by
  have hfrom : ∀ (entries : List Value) (done : List Declaration),
      (collectFrom settings document operation done entries).IsContained := by
    intro entries
    induction entries with
    | nil => exact fun done => isContained_pure _
    | cons entry rest ih =>
      intro done
      rw [collectFrom]
      refine (declare_isContained _ _ _ _).bind fun d => ?_
      split
      · exact ih _
      · exact ih _
  refine (isContained_liftM (Value.contained_items _)).bind fun ofPath => ?_
  exact (isContained_liftM (Value.contained_items _)).bind fun ofOperation => hfrom _ _

theorem mergedParameter_isContained (c : Compiler) (d : Declaration) :
    (mergedParameter c d).IsContained := by
  have hschema : Contained (parameterSchema d) := by
    refine (Value.contained_toEntries _).bind fun schema => ?_
    split <;> exact contained_pure _
  exact (isContained_liftM hschema).bind fun schema => Schema.merge_isContained _ _ _ _

theorem addDeclared_isContained (c : Compiler) (operation : String) (s : Signature)
    (ds : List Declaration) : (addDeclared c operation s ds).IsContained := by
  induction ds generalizing s with
  | nil => exact isContained_pure _
  | cons d rest ih =>
    rw [addDeclared]
    refine (mergedParameter_isContained c d).inspect fun r hr => ?_
    split
    · next f =>
      split
      · exact (isContained_report rfl).bind fun _ => ih s
      · exact isContained_fail (contained_error.1 hr)
    · exact (isContained_liftM (Location.contained_classify _)).bind fun location => ih _

theorem contained_addProperties (s : Signature) (ps : Keyed Value) :
    Contained (addProperties s ps) := by
  induction ps generalizing s with
  | nil => simp [addProperties]
  | cons e rest ih =>
    obtain ⟨name, schema⟩ := e
    rw [addProperties]
    exact (Location.contained_classify _).bind fun location => ih _

theorem addBody_isContained (operation : String) (s : Signature) (body : Value) :
    (addBody operation s body).IsContained := by
  unfold addBody
  split
  · refine (isContained_liftM (Value.contained_fields _)).bind fun ps => ?_
    refine (isContained_liftM (contained_addProperties _ _)).bind fun s' => ?_
    exact (isContained_liftM (Value.contained_items _)).bind fun names => isContained_pure _
  · exact isContained_pure _
  · exact (isContained_report rfl).bind fun _ => isContained_pure _

theorem signature_isContained (c : Compiler) (operation : String) (fields : Keyed Value)
    (pathParameters body : Value) :
    (signature c operation fields pathParameters body).IsContained :=
  (collect_isContained _ _ _ _ _).bind fun _ =>
    (addDeclared_isContained _ _ _ _).bind fun _ => addBody_isContained _ _ _

theorem contained_withoutRemoved (settings : Settings) (names : List Value) :
    Contained (withoutRemoved settings names) := by
  induction names with
  | nil => simp [withoutRemoved]
  | cons name rest ih =>
    unfold withoutRemoved
    split
    · exact ih.bind fun kept => contained_pure _
    · split
      · exact ih.bind fun kept => contained_pure _
      · exact contained_error.2 rfl

theorem contained_assemble (c : Compiler) (name description : Value) (method : String)
    (path : Scalar) (body : Option Body) (s : Signature) :
    Contained (assemble c name description method path body s) := by
  have hwire : ∀ declared derived k location,
      Contained (wireParameter declared derived k location) :=
    fun _ _ _ _ => (Field.contained_text _).bind fun _ => contained_pure _
  unfold assemble
  refine (contained_withoutRemoved _ _).bind fun required => ?_
  refine (contained_mapM (fun _ => hwire _ _ _ _) _).bind fun parameters => ?_
  refine (Field.contained_named _).bind fun properties => ?_
  refine (contained_mapM Field.contained_text _).bind fun texts => ?_
  refine (Value.contained_show? _).bind fun place => ?_
  refine (Field.contained_text _).bind fun name' => ?_
  exact (Field.contained_text _).bind fun description' => contained_pure _

/-- **A broken operation breaks nothing else**: compiling an operation reports nothing about the
catalog, and fails only with faults for which the operation is left out. -/
theorem compile_isContained (c : Compiler) (path : Scalar) (method : String)
    (operation pathParameters : Value) :
    (compile c path method operation pathParameters).IsContained := by
  unfold compile
  refine (isContained_liftM (Value.contained_fields _)).bind fun fields => ?_
  simp only
  split
  · exact (isContained_liftM (Value.contained_show? _)).bind fun place => isContained_fail rfl
  · refine (isContained_report rfl).bind fun _ => ?_
    refine (requestBody_isContained _ _ _).bind fun body => ?_
    refine (signature_isContained _ _ _ _ _).bind fun s => ?_
    exact isContained_liftM (contained_assemble _ _ _ _ _ _ _)

end Operation

end ToolCatalog
