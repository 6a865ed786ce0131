/-
  Which chain nodes of a concurrent branch suspend (`node_body_suspends` in `direct_wasm/plan.rs`).

  A wavefront assembles the nodes that suspend last, and the scheduler takes no branch with such a
  node. `node_body_suspends` does not look into the error route of an `Agent`, although the last
  agent of a chain may have one, and the handler may wait; `suspension_exact_iff` says that this is
  the only node it is wrong about. `is_linear_chain_branch` lets such an agent stand at the end of a
  branch only, so that `chain_suspension_iff` has to ask for the last node alone.
-/
import Runtara.Parallel.Pools
import Runtara.Plan.Build
import Runtara.Support.Report
import Runtara.Support.Validation

namespace Runtara.DirectRunPlan

variable {branch node : DirectRunPlan}

theorem para_suspension (p : DirectRunPlan) : para suspensionAlgebra p = p.planContainsSuspension :=
  rfl

theorem withResult_suspension :
    withResult suspensionAlgebra = fun p => (p, p.planContainsSuspension) := rfl

theorem anyHandler_suspension (e : Option DirectErrorRoutePlan) :
    anyHandler (e.map (ErrorRouteOf.map fun p => (p, p.planContainsSuspension))) =
      errorRouteSuspends e := by
  rcases e with _ | ⟨arms, _ | d⟩ <;>
    simp [anyHandler, errorRouteSuspends, ErrorRouteOf.map, ErrorRouteOf.plans, Function.comp_def]

/-- The error route of an `Agent` is all that `node_body_suspends` misses of a node alone. -/
theorem alone_suspends_iff (h : ∀ bs m, node ≠ .parallelBranches bs m) :
    node.alone.planContainsSuspension ↔
      node.nodeBodySuspends ∨ ∃ c n e, node = .agent c n e ∧ errorRouteSuspends e := by
  have hjoin : join.planContainsSuspension = false := rfl
  cases node with
  | parallelBranches bs m => exact absurd rfl (h bs m)
  | finish _ _ | error _ _ | join | implicitFinish =>
    simp [alone, planContainsSuspension, para, suspensionAlgebra, nodeBodySuspends,
      nodeHasBreakpoint]
  | aiAgentLoop c ts n e =>
    have htools : (aiAgentLoop c ts join e).planContainsSuspension = (c.breakpoint ||
        join.planContainsSuspension || errorRouteSuspends e || ts.any aiToolSuspends) := by
      rw [planContainsSuspension, para, paraTools_eq, ← anyHandler_suspension,
        ← withResult_suspension, ← paraError_eq]
      refine congrArg (c.breakpoint || join.planContainsSuspension || anyHandler _ || ·) ?_
      rw [List.any_map]
      congr 1
      funext t
      cases t <;> rfl
    rw [alone, htools]
    simp [- List.any_eq_true, nodeBodySuspends, nodeHasBreakpoint, hjoin]
    grind
  | _ =>
    simp only [alone]
    rw [planContainsSuspension, para]
    simp only [para_suspension, paraRoutes_eq, paraEdges_eq, paraOption_eq, paraError_eq,
      withResult_suspension]
    simp [suspensionAlgebra, anyHandler_suspension, anyArm, nodeBodySuspends, nodeHasBreakpoint,
      hjoin] <;>
      grind

theorem not_schedulable_of_suspends {data : StaticData}
    (hn : node ∈ branch.branchChain) (h : node.nodeBodySuspends) :
    isSchedulableBranch data branch = false := by
  refine Bool.eq_false_iff.mpr fun hs => ?_
  have hnode := List.all_eq_true.mp hs node hn
  cases node <;> simp_all [nodeBodySuspends]

/-- What is said of a node is exact but for an `Agent` without a breakpoint whose error route
suspends. -/
theorem nodeBodySuspends_iff_alone (hp : ∀ bs m, node ≠ .parallelBranches bs m) :
    (node.nodeBodySuspends ↔ node.alone.planContainsSuspension) ↔
      ∀ c n e, node = .agent c n e → c.breakpoint = false → errorRouteSuspends e = false := by
  rw [alone_suspends_iff hp]
  constructor
  · rintro hiff c n e rfl hc
    by_contra hs
    have hbody := hiff.mpr (.inr ⟨c, n, e, rfl, by simpa using hs⟩)
    simp [nodeBodySuspends, nodeHasBreakpoint, hc] at hbody
  · intro hcond
    refine ⟨.inl, ?_⟩
    rintro (h | ⟨c, n, e, rfl, hs⟩)
    · exact h
    · cases hc : c.breakpoint with
      | true => simp [nodeBodySuspends, nodeHasBreakpoint, hc]
      | false =>
        rw [hcond c n e rfl hc] at hs
        cases hs

/-- **The classification is exact for every chain node but an `Agent` whose error route suspends**:
it says whether the node alone suspends, and then the branch is not scheduled. -/
theorem suspension_exact_iff (hn : node ∈ branch.branchChain)
    (hp : ∀ bs m, node ≠ .parallelBranches bs m) :
    ((node.nodeBodySuspends ↔ node.alone.planContainsSuspension) ∧
      (node.alone.planContainsSuspension → ∀ data, isSchedulableBranch data branch = false)) ↔
    ∀ c n e, node = .agent c n e → c.breakpoint = false → errorRouteSuspends e = false := by
  rw [← nodeBodySuspends_iff_alone hp]
  exact ⟨And.left, fun hexact =>
    ⟨hexact, fun hs data => not_schedulable_of_suspends hn (hexact.mpr hs)⟩⟩

/-- A branch of one agent, whose failure is handled by a delay: the delay is missed, and the branch
is scheduled. -/
theorem suspension_exact_iff_delayed :
    let handler : DirectErrorRoutePlan := ⟨[], some (.delay "pause" true false .join)⟩
    let branch : DirectRunPlan :=
      .agent ⟨"call", 0, "http", true, false, 0, 1000, 0⟩ .join (some handler)
    isSchedulableBranch ⟨true, fun _ => false⟩ branch ∧
      ¬ ((branch.nodeBodySuspends ↔ branch.alone.planContainsSuspension) ∧
        (branch.alone.planContainsSuspension → ∀ data, isSchedulableBranch data branch = false)) :=
  ⟨rfl, fun h => Bool.noConfusion <|
    (suspension_exact_iff (.head _) fun _ _ heq => by cases heq).mp h _ _ _ rfl rfl⟩

/-! ### Linear chains -/

/-- `with_next_join`, which leaves an `Agent` as it is. The emitter does not apply it to one. -/
def withNextJoin : DirectRunPlan → DirectRunPlan
  | agent c n e => agent c n e
  | p => p.alone

theorem linear_chainNext {p n : DirectRunPlan} (h : p.isLinearChainBranch)
    (hn : p.chainNext = some n) : n.isJoin ∨ n.isLinearChainBranch := by
  cases p <;>
    simp_all [chainNext, isLinearChainBranch, para, paraOption, linearChainAlgebra, endsOrContinues,
      mergeContinues]
  -- left is an agent, which is the last one or has no error route
  grind

/-- Every node of a linear chain begins one. -/
theorem linear_of_mem_chain (h : branch.isLinearChainBranch) (hn : node ∈ branch.branchChain) :
    node.isLinearChainBranch := by
  induction branch using subplan_induction with
  | h p ih =>
    rw [branchChain_eq, List.mem_cons] at hn
    obtain rfl | hn := hn
    · exact h
    · cases hnext : p.chainNext with
      | none => simp [hnext] at hn
      | some n =>
        rw [hnext, Option.elim_some, chainFrom] at hn
        split at hn
        · cases hn
        · next hjoin =>
          exact ih n (mem_subplans_of_chainNext hnext)
            ((linear_chainNext h hnext).resolve_left hjoin) hn

theorem linear_ne_parallelBranches (h : node.isLinearChainBranch) (bs : List DirectRunPlan)
    (m : DirectRunPlan) : node ≠ .parallelBranches bs m := by
  rintro rfl
  cases h

/-- Only the last agent of a linear chain has an error route. -/
theorem linear_agent {c : AgentSettings} {n : DirectRunPlan} {e : Option DirectErrorRoutePlan}
    (h : (agent c n e).isLinearChainBranch) : n = .join ∨ e = none := by
  have hends : n.isJoin = true ∨ (paraError linearChainAlgebra e).isNone = true :=
    ((Bool.or_eq_true _ _).mp h).imp id fun h => ((Bool.and_eq_true _ _).mp h).1
  obtain hjoin | hnone := hends
  · cases n with
    | join => exact .inl rfl
    | _ => cases hjoin
  · cases e with
    | none => exact .inr rfl
    | some e => cases hnone

theorem agent_suspends (c : AgentSettings) (n : DirectRunPlan) (e : Option DirectErrorRoutePlan) :
    (agent c n e).planContainsSuspension =
      (c.breakpoint || n.planContainsSuspension || errorRouteSuspends e) := by
  rw [← anyHandler_suspension, ← withResult_suspension, ← paraError_eq]
  rfl

/-- By the letter of `with_next_join`, an `Agent` without a breakpoint is classified right exactly
if neither its error route nor anything after it suspends. -/
theorem nodeBodySuspends_iff_withNextJoin (hp : ∀ bs m, node ≠ .parallelBranches bs m) :
    (node.nodeBodySuspends ↔ node.withNextJoin.planContainsSuspension) ↔
      ∀ c n e, node = .agent c n e → c.breakpoint = false →
        errorRouteSuspends e = false ∧ n.planContainsSuspension = false := by
  cases node with
  | agent c n e =>
    rw [withNextJoin, agent_suspends]
    cases hc : c.breakpoint
    all_goals simp [nodeBodySuspends, nodeHasBreakpoint, hc]
    grind
  | _ => simpa [withNextJoin] using nodeBodySuspends_iff_alone hp

/-- **The nodes of a linear chain are classified right, and keep their branch from the scheduler if
they suspend, exactly if the last one is no `Agent` whose error route suspends.** By the letter of
`with_next_join`, which keeps what follows an `Agent`, nothing after an `Agent` may suspend. -/
theorem chain_suspension_iff (h : branch.isLinearChainBranch) :
    ((∀ node ∈ branch.branchChain,
        (node.nodeBodySuspends ↔ node.alone.planContainsSuspension) ∧
        (node.alone.planContainsSuspension → ∀ data, isSchedulableBranch data branch = false)) ↔
      ∀ c e, .agent c .join e ∈ branch.branchChain → c.breakpoint = false →
        errorRouteSuspends e = false) ∧
    ((∀ node ∈ branch.branchChain,
        (node.nodeBodySuspends ↔ node.withNextJoin.planContainsSuspension)) ↔
      ∀ c n e, .agent c n e ∈ branch.branchChain → c.breakpoint = false →
        errorRouteSuspends e = false ∧ n.planContainsSuspension = false) := by
  have hp (node) (hn : node ∈ branch.branchChain) :=
    linear_ne_parallelBranches (linear_of_mem_chain h hn)
  refine ⟨⟨fun hexact c e hn => ?_, fun hlast node hn => ?_⟩, fun hexact c n e hn => ?_,
    fun hagents node hn => ?_⟩
  · exact (nodeBodySuspends_iff_alone (hp _ hn)).mp (hexact _ hn).1 c .join e rfl
  · have hiff := (nodeBodySuspends_iff_alone (hp node hn)).mpr ?_
    · exact ⟨hiff, fun hs data => not_schedulable_of_suspends hn (hiff.mpr hs)⟩
    · rintro c n e rfl
      obtain rfl | rfl := linear_agent (linear_of_mem_chain h hn)
      · exact hlast c e hn
      · exact fun _ => rfl
  · exact (nodeBodySuspends_iff_withNextJoin (hp _ hn)).mp (hexact _ hn) c n e rfl
  · refine (nodeBodySuspends_iff_withNextJoin (hp node hn)).mpr ?_
    rintro c n e rfl
    exact hagents c n e hn

/-- A wait before an agent whose failure is logged: both nodes are classified right, and the branch
is not scheduled. -/
theorem chain_suspension_iff_logged :
    let handler : DirectErrorRoutePlan := ⟨[], some (.log "note" false .join)⟩
    let branch : DirectRunPlan := .delay "pause" true false
      (.agent ⟨"call", 0, "http", true, false, 0, 1000, 0⟩ .join (some handler))
    branch.isLinearChainBranch ∧ ∀ node ∈ branch.branchChain,
      (node.nodeBodySuspends ↔ node.alone.planContainsSuspension) ∧
      (node.alone.planContainsSuspension → ∀ data, isSchedulableBranch data branch = false) := by
  refine ⟨rfl, (chain_suspension_iff rfl).1.mpr fun c e hn _ => ?_⟩
  obtain ⟨rfl, rfl⟩ : c = ⟨"call", 0, "http", true, false, 0, 1000, 0⟩ ∧
      e = some ⟨[], some (.log "note" false .join)⟩ := by
    simpa [branchChain, chainFrom, isJoin] using hn
  rfl

/-- Two agents run side by side; if the first fails, the instance waits before it finishes. -/
def pausedHandlerGraph : ExecutionGraph where
  entryPoint := "start"
  durable := some true
  rateLimitBudgetMs := 0
  steps := [⟨"start", false, .log⟩,
    ⟨"call", false, .agent ⟨"http", 0, some true, some 0, none, none, false⟩⟩,
    ⟨"other", false, .agent ⟨"http", 1, some true, some 0, none, none, false⟩⟩,
    ⟨"pause", false, .delay none⟩, ⟨"done", false, .finish⟩, ⟨"recovered", false, .finish⟩]
  executionPlan := [⟨"start", "call", none, false, none⟩, ⟨"start", "other", none, false, none⟩,
    ⟨"call", "done", none, false, none⟩, ⟨"other", "done", none, false, none⟩,
    ⟨"call", "pause", some "onError", false, none⟩, ⟨"pause", "recovered", none, false, none⟩]

def pausedHandlerBranch : DirectRunPlan :=
  .agent ⟨"call", 0, "http", true, false, 0, 1000, 0⟩ .join
    (some ⟨[], some (.delay "pause" true false (.finish "recovered" false))⟩)

/-- The branch of the first agent is scheduled although its handler suspends. -/
theorem pausedHandler_overlooked :
    pausedHandlerGraph.validateWorkflow = [] ∧
      directWasmSupported 3 pausedHandlerGraph [] = true ∧
      directRunPlan 12 pausedHandlerGraph [] = .ok (.log "start" false (.parallelBranches
        [pausedHandlerBranch, .agent ⟨"other", 1, "http", true, false, 0, 1000, 0⟩ .join none]
        (.finish "done" false))) ∧
      pausedHandlerBranch.isLinearChainBranch = true ∧
      pausedHandlerBranch.alone.planContainsSuspension = true ∧
      pausedHandlerBranch.nodeBodySuspends = false ∧
      isSchedulableBranch ⟨true, fun _ => false⟩ pausedHandlerBranch = true :=
  ⟨by decide, by decide, rfl, rfl, rfl, rfl, rfl⟩

end Runtara.DirectRunPlan
