/-
  What the variables of an iteration say about where it is.

  The ids of a scope follow from its frames (`scopeIdOf`), as its prefix, its workflow id and its
  indices do. An iteration has the values of its frames in every run in which nothing sets
  `_scope_id`, `_cache_key_prefix` or `_workflow_id` and none of them is long enough to be interned
  (`iteration_variables`). Authored variables are put over those of the parent before the parent's
  scope id is read, and the prefix and the workflow id are not set again, so a `variables` mapping
  can set all three (`iteration_forged`).
-/
import Runtara.Durable.Equiv.Distinct

namespace Runtara

open Json Text List

/-! ### Scope ids -/

/-- The scope id that a frame makes of the one around it. -/
def Frame.scopeId? (parent : Option String) : Frame → Option String
  | .split stepId index | .whileLoop stepId index =>
    some (parent.getD "sc" ++ "_" ++ stepId ++ "_" ++ toString index.toNat)
  | .onWait _ => parent
  | .embed stepId | .embedTool stepId _ => some (parent.getD "sc" ++ "_" ++ stepId)
  | .composed _ | .composedTool _ _ _ => none

/-- The scope id of the frames. Outside of them, and in a composed child, there is none. -/
def scopeIdOf : List Frame → Option String
  | [] => none
  | f :: frames => f.scopeId? (scopeIdOf frames)

section Iterations

variable {ν : Type} [NumberOps ν] {P : Program} {r : DurableRun ν} {frames : List Frame} {f : Frame}
  {p : Place}

/-- The variables of an iteration have the values of its frames. -/
structure TrueScope (P : Program) (r : DurableRun ν) (p : Place) (f : Frame) (frames : List Frame) :
    Prop where
  marks : Marks (prefixString P.root.workflowId (sitesOf (f :: frames))) p.artifact.workflowId
    (indicesOf (f :: frames)) (r.scope (f :: frames)).2
  scopeId : lookupEntry "_scope_id" (r.scope (f :: frames)).2
    = (scopeIdOf (f :: frames)).map .string
  parentScopeId : lookupEntry "_parent_scope_id" (r.scope (f :: frames)).2
    = some (((scopeIdOf frames).map .string).getD .null)
  item : ∀ stepId index, f = .split stepId index →
    lookupEntry "_item" (r.scope (f :: frames)).2 = some (r.data (f :: frames))
  loop : ∀ stepId index, f = .whileLoop stepId index →
    lookupEntry "_loop" (r.scope (f :: frames)).2
      = some (.obj [("index", indexValue index), ("outputs", r.outputs (f :: frames))])

/-- Nothing that the run brings sets a scope id, and the scope ids are not interned. -/
structure DurableRun.PlainScopes (P : Program) (r : DurableRun ν) : Prop where
  extra : ∀ frames authored, r.extra frames = some (.object authored) →
    lookupEntry "_scope_id" authored = none
  declared : ∀ frames, lookupEntry "_scope_id" (r.declared frames) = none
  size : ∀ frames p, Located P frames p →
    ∀ id ∈ scopeIdOf frames, id.utf8ByteSize + 2 < wfrefThresholdBytes

/-! ### The scope ids of a run -/

omit [NumberOps ν] in
theorem lookupEntry_insertScopeIds_ids {es : Entries ν} {parent : Option String}
    (h : lookupEntry "_scope_id" es = parent.map .string) (stepId : StepId) (index : UInt32) :
    lookupEntry "_scope_id" (insertScopeIds stepId index es)
        = (Frame.scopeId? parent (.split stepId index)).map .string
      ∧ lookupEntry "_parent_scope_id" (insertScopeIds stepId index es)
        = some ((parent.map .string).getD .null) := by
  unfold insertScopeIds
  rw [lookupEntry_insertEntry_self, lookupEntry_insertEntry_ne (by decide),
    lookupEntry_insertEntry_self, h]
  cases parent <;> exact ⟨rfl, rfl⟩

section Steps

variable {source : Value ν} {parent : Option String} {extra : Option (Value ν)}
  (h : lookupEntry "_scope_id" (sourceVariables source) = parent.map .string) (stepId : StepId)
include h

theorem lookupEntry_embedChildVariables_scopeId (childVariables : Value ν) :
    lookupEntry "_scope_id" (embedChildVariables stepId childVariables source)
      = (Frame.scopeId? parent (.embed stepId)).map .string := by
  rw [embedChildVariables, lookupEntry_childDefaults (by decide),
    lookupEntry_insertEntry_ne (by decide), lookupEntry_passOn (by decide),
    lookupEntry_passOn (by decide), lookupEntry_passOn (by decide), lookupEntry_insertEntry_self, h]
  cases parent <;> rfl

-- The parent's id is read after the authored variables are in place.
variable (hextra : ∀ authored, extra = some (.object authored) →
  lookupEntry "_scope_id" authored = none) (index : UInt32)
include hextra

theorem lookupEntry_splitIterationVariables_ids (item : Value ν) :
    lookupEntry "_scope_id" (splitIterationVariables stepId extra source item index)
        = (Frame.scopeId? parent (.split stepId index)).map .string
      ∧ lookupEntry "_parent_scope_id" (splitIterationVariables stepId extra source item index)
        = some ((parent.map .string).getD .null) := by
  refine lookupEntry_insertScopeIds_ids ?_ stepId index
  rw [lookupEntry_insertEntry_ne (by decide), lookupEntry_insertEntry_ne (by decide),
    lookupEntry_insertEntry_ne (by decide), lookupEntry_restoreEntry (by decide),
    lookupEntry_authoredVariables _ hextra, h]

theorem lookupEntry_whileIterationVariables_ids (outputs : Value ν) :
    lookupEntry "_scope_id" (whileIterationVariables stepId extra source outputs index)
        = (Frame.scopeId? parent (.whileLoop stepId index)).map .string
      ∧ lookupEntry "_parent_scope_id" (whileIterationVariables stepId extra source outputs index)
        = some ((parent.map .string).getD .null) := by
  refine lookupEntry_insertScopeIds_ids ?_ stepId index
  rw [lookupEntry_insertEntry_ne (by decide), lookupEntry_previousOutputs (by decide),
    lookupEntry_insertEntry_ne (by decide), lookupEntry_insertEntry_ne (by decide),
    lookupEntry_restoreEntry (by decide), lookupEntry_authoredVariables _ hextra, h]

end Steps

theorem scope_split (stepId : StepId) (index : UInt32) :
    (r.scope (.split stepId index :: frames)).2 = splitIterationVariables stepId
      (r.extra (.split stepId index :: frames)) (r.source frames)
      (r.data (.split stepId index :: frames)) index := by
  rw [DurableRun.scope, DurableRun.source]

theorem scope_whileLoop (stepId : StepId) (index : UInt32) :
    (r.scope (.whileLoop stepId index :: frames)).2 = whileIterationVariables stepId
      (r.extra (.whileLoop stepId index :: frames)) (r.source frames)
      (r.outputs (.whileLoop stepId index :: frames)) index := by
  rw [DurableRun.scope, DurableRun.source]

/-- A scope id of the frames passes through `build_source`. -/
theorem lookupEntry_source_scopeId (hr : r.PlainScopes P) (h : Located P frames p)
    (hscope : lookupEntry "_scope_id" (r.scope frames).2 = (scopeIdOf frames).map .string) :
    lookupEntry "_scope_id" (sourceVariables (r.source frames))
      = (scopeIdOf frames).map .string := by
  rw [DurableRun.source, lookupEntry_build r frames _ (by decide) (by decide) ?_, hscope]
  intro v hv
  obtain ⟨id, hid, rfl⟩ := Option.map_eq_some_iff.mp (hscope.symm.trans hv)
  exact hr.size frames p h id hid

/-- **The scope id of a run** is that of its frames. -/
theorem lookupEntry_scope_scopeId (hr : r.PlainScopes P) (h : Located P frames p) :
    lookupEntry "_scope_id" (r.scope frames).2 = (scopeIdOf frames).map .string := by
  have hcore : ∀ wf frames,
      lookupEntry "_scope_id" (directCoreVariables wf (r.declared frames)) = none := by
    intro wf frames
    rw [directCoreVariables, lookupEntry_insertEntry_ne (by decide), hr.declared]
  induction h with
  | root => exact hcore _ _
  | @enter frames p f p' hlocated henter ih =>
    have hsource := lookupEntry_source_scopeId hr hlocated ih
    cases henter with
    | split index _ =>
      rw [scope_split]
      exact (lookupEntry_splitIterationVariables_ids hsource _ (hr.extra _) index _).1
    | whileLoop index _ =>
      rw [scope_whileLoop]
      exact (lookupEntry_whileIterationVariables_ids hsource _ (hr.extra _) index _).1
    | onWait _ =>
      rw [DurableRun.scope, waitOnWaitVariables, lookupEntry_insertEntry_ne (by decide),
        lookupEntry_insertEntry_ne (by decide)]
      exact hsource
    | @embed stepId _ _ _ =>
      exact lookupEntry_embedChildVariables_scopeId hsource stepId
        (.object (r.declared (.embed stepId :: frames)))
    | @embedTool _ _ stepId _ _ _ call =>
      exact lookupEntry_embedChildVariables_scopeId hsource stepId
        (.object (r.declared (.embedTool stepId call :: frames)))
    | composed _ _ | composedTool _ _ _ => exact hcore _ _

/-- **The variables of an iteration** have the values of its frames, if nothing sets them. -/
theorem iteration_variables [DecimalU64 ν] (hr : r.Honest P) (hscopes : r.PlainScopes P)
    (h : Located P (f :: frames) p) (hloop : f.index?.isSome) : TrueScope P r p f frames := by
  have hmarks := (scopeMarks hr h).variables'
  have hscope := lookupEntry_scope_scopeId hscopes h
  cases h with
  | @enter _ q _ _ hlocated henter =>
    have hsource := lookupEntry_source_scopeId hscopes hlocated
      (lookupEntry_scope_scopeId hscopes hlocated)
    cases henter with
    | split index =>
      refine ⟨hmarks rfl, hscope, ?_, fun _ _ _ => ?_, fun _ _ h => by cases h⟩ <;> rw [scope_split]
      · exact (lookupEntry_splitIterationVariables_ids hsource _ (hscopes.extra _) index _).2
      · rw [splitIterationVariables, lookupEntry_insertScopeIds (by decide) (by decide),
          lookupEntry_insertEntry_self]
    | whileLoop index =>
      refine ⟨hmarks rfl, hscope, ?_, (fun _ _ h => by cases h), fun _ _ h => ?_⟩ <;>
        rw [scope_whileLoop]
      · exact (lookupEntry_whileIterationVariables_ids hsource _ (hscopes.extra _) index _).2
      · cases h
        rw [whileIterationVariables, lookupEntry_insertScopeIds (by decide) (by decide),
          lookupEntry_insertEntry_self]
    | _ => cases hloop

end Iterations

/-- The run of the batches in which every variables mapping evaluates to the given entries. -/
def authoredRun (authored : List (String × Value ℕ)) : DurableRun ℕ :=
  { batchRun with extra := fun _ => some (.object authored) }

/-- An item of the orders, with a mapping that sets the item and the indices to other values. -/
theorem iteration_variables_batch :
    TrueScope (batchProgram "call" "post")
      (authoredRun [("_item", .bool true), ("_loop_indices", .null)])
      ((batchPlace "call" "post").nested (callGraph "call")) (.split "orders" 0) [] := by
  have hsize : ∀ stepId : StepId, stepId.utf8ByteSize ≤ 8 → ∀ index : UInt32,
      ("sc" ++ "_" ++ stepId ++ "_" ++ toString index.toNat).utf8ByteSize + 2
        < wfrefThresholdBytes := by
    intro stepId hstep index
    have hdigits : (toString index.toNat).utf8ByteSize ≤ 10 := by
      have hbytes := utf8Len_digits index
      rw [digits, ← Nat.toList_repr, ← String.utf8ByteSize_ofList, String.ofList_toList] at hbytes
      exact hbytes
    have hthreshold : 32 < wfrefThresholdBytes := by decide
    have hsc : "sc".utf8ByteSize = 2 ∧ "_".utf8ByteSize = 1 := by decide
    simp only [String.utf8ByteSize_append]
    omega
  refine iteration_variables { batchRun_honest "call" "post" with extra := ?_ }
    ⟨?_, fun _ => rfl, ?_⟩
    (.enter .root (.split 0 (mem_cons_self ..))) rfl
  · intro frames authored h
    cases h
    exact ⟨rfl, rfl⟩
  · intro frames authored h
    cases h
    rfl
  · intro frames p h id hid
    rcases located_batch h with ⟨rfl, -⟩ | ⟨index, rfl, -⟩ | ⟨index, rfl, -⟩ <;> cases hid
    · exact hsize "orders" (by decide) index
    · exact hsize "invoices" (by decide) index

/-- A variable of an item of the orders, with a mapping that sets the scope id, the prefix and the
workflow id. -/
def forgedText (k : String) : Option String :=
  (lookupEntry k ((authoredRun [("_scope_id", .string "forged"),
    ("_cache_key_prefix", .string "other::call"), ("_workflow_id", .string "other")]).scope
      [.split "orders" 0]).2).bind Value.asStr

/-- **A variables mapping forges the scope.** The scope id of the item is `sc_orders_0`, its parent
has none, the workflow is `billing` and there is no prefix. -/
theorem iteration_forged :
    scopeIdOf [.split "orders" 0] = some "sc_orders_0"
      ∧ forgedText "_scope_id" = some "forged_orders_0"
      ∧ forgedText "_parent_scope_id" = some "forged"
      ∧ forgedText "_cache_key_prefix" = some "other::call"
      ∧ forgedText "_workflow_id" = some "other" := by
  decide +kernel

end Runtara
