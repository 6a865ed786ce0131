/-
  The tests the planner runs on an already planned branch (`direct_wasm/plan.rs`): which
  steps its chain holds, whether it may suspend, and whether it has the shape the
  concurrent window accepts. Each is one recursion over the plan tree.
-/
import Runtara.Graph.ExecutionGraph
import Mathlib.Data.List.Dedup

namespace Runtara

namespace DirectRunPlan

/-- Does the plan consist of the `Join` that ends a branch? -/
def isJoin : DirectRunPlan → Bool
  | join => true
  | _ => false

def nodeHasBreakpoint : DirectRunPlan → Bool
  | finish _ b | filter _ b _ | switchValue _ b _ | switchRoute _ b _ _ _ | groupBy _ b _
  | delay _ _ b _ | waitForSignal _ b _ _ _ | log _ b _ | error _ b | conditional _ b _ _ _ => b
  | split c _ _ _ => c.breakpoint
  | whileLoop c _ _ _ => c.breakpoint
  | embedWorkflow c _ _ _ => c.breakpoint
  | agent c _ _ => c.breakpoint
  | aiAgent c _ _ => c.breakpoint
  | aiAgentLoop c _ _ _ => c.breakpoint
  | edgeRoute _ _ _ | parallelBranches _ _ | join | implicitFinish => false

/-- Does some handler of the route satisfy its flag? -/
def anyHandler (e : Option (ErrorRouteOf (DirectRunPlan × Bool))) : Bool :=
  e.any fun r => r.plans.any Prod.snd

def anyArm {κ : Type} (arms : List (κ × DirectRunPlan × Bool)) : Bool :=
  arms.any fun a => a.2.2

/-- The clauses of `plan_contains_suspension`: a breakpoint, a wait or a delay suspends,
and every other node suspends when one of its sub-plans does. -/
def suspensionAlgebra : Algebra Bool where
  finish _ b := b
  filter _ b n := b || n.2
  switchValue _ b n := b || n.2
  groupBy _ b n := b || n.2
  log _ b n := b || n.2
  delay _ _ _ _ := true
  switchRoute _ b arms d m := b || anyArm arms || d.2 || m.any Prod.snd
  edgeRoute arms d m := anyArm arms || d.2 || m.any Prod.snd
  split c p n e := c.breakpoint || p.2 || n.2 || anyHandler e
  whileLoop c p n e := c.breakpoint || p.2 || n.2 || anyHandler e
  embedWorkflow c p n e := c.breakpoint || p.2 || n.2 || anyHandler e
  waitForSignal _ _ _ _ _ := true
  agent c n e := c.breakpoint || n.2 || anyHandler e
  aiAgent c n e := c.breakpoint || n.2 || anyHandler e
  aiAgentLoop c ts n e := c.breakpoint || n.2 || anyHandler e ||
    ts.any fun t => match t with
      | .wait _ _ => true
      | .embed _ p => p.2
      | .agent _ _ _ _ => false
  error _ b := b
  conditional _ b t f m := b || t.2 || f.2 || m.any Prod.snd
  parallelBranches bs m := bs.any Prod.snd || m.2
  join := false
  implicitFinish := false

def planContainsSuspension (plan : DirectRunPlan) : Bool := para suspensionAlgebra plan

def errorRouteSuspends (e : Option DirectErrorRoutePlan) : Bool :=
  e.any fun r => r.plans.any planContainsSuspension

def aiToolSuspends : DirectAiToolPlan → Bool
  | .wait _ _ => true
  | .embed _ p => p.planContainsSuspension
  | .agent _ _ _ _ => false

/-- Does the node suspend apart from its continuation? -/
def nodeBodySuspends (node : DirectRunPlan) : Bool :=
  node.nodeHasBreakpoint || match node with
    | waitForSignal _ _ _ _ _ | delay _ _ _ _ => true
    | conditional _ _ t f _ => t.planContainsSuspension || f.planContainsSuspension
    | switchRoute _ _ arms d _ =>
      arms.any (fun a => a.2.planContainsSuspension) || d.planContainsSuspension
    | edgeRoute arms d _ => arms.any (fun a => a.2.planContainsSuspension) ||
        d.planContainsSuspension
    | whileLoop _ p _ e | split _ p _ e | embedWorkflow _ p _ e =>
      p.planContainsSuspension || errorRouteSuspends e
    | aiAgent _ _ e => errorRouteSuspends e
    | aiAgentLoop _ ts _ e => ts.any aiToolSuspends || errorRouteSuspends e
    | _ => false

/-- The steps collected so far on an optional sub-plan. -/
def optionIds (m : Option (DirectRunPlan × List StepId)) : List StepId :=
  m.elim [] Prod.snd

/-- The clauses of `chain_step_ids`. A node that is not a chain node ends the collection. -/
def chainIdsAlgebra : Algebra (List StepId) where
  finish _ _ := []
  filter s _ n := s :: n.2
  switchValue s _ n := s :: n.2
  groupBy s _ n := s :: n.2
  log s _ n := s :: n.2
  delay s _ _ n := s :: n.2
  switchRoute s _ arms d m := s :: (arms.flatMap fun a => a.2.2) ++ d.2 ++ optionIds m
  edgeRoute arms d m := (arms.flatMap fun a => a.2.2) ++ d.2 ++ optionIds m
  split c p n _ := c.stepId :: p.2 ++ n.2
  whileLoop c p n _ := c.stepId :: p.2 ++ n.2
  embedWorkflow c p n _ := c.stepId :: p.2 ++ n.2
  waitForSignal s _ w n _ := s :: optionIds w ++ n.2
  agent c n _ := c.stepId :: n.2
  aiAgent c n _ := c.stepId :: n.2
  aiAgentLoop c _ n _ := c.stepId :: n.2
  error _ _ := []
  conditional s _ t f m := s :: t.2 ++ f.2 ++ optionIds m
  parallelBranches _ _ := []
  join := []
  implicitFinish := []

def chainStepIds (plan : DirectRunPlan) : List StepId := para chainIdsAlgebra plan

/-- The chain ends at this node's `Join`, or goes on through it. -/
def endsOrContinues (n : DirectRunPlan × Bool) : Bool := n.1.isJoin || n.2

/-- A routing composite ends the branch when it has no merge plan. -/
def mergeContinues (m : Option (DirectRunPlan × Bool)) : Bool := m.elim true Prod.snd

/-- The clauses of `is_linear_chain_branch`. -/
def linearChainAlgebra : Algebra Bool where
  finish _ _ := false
  filter _ _ n := endsOrContinues n
  switchValue _ _ n := endsOrContinues n
  groupBy _ _ n := endsOrContinues n
  log _ _ n := endsOrContinues n
  delay _ _ _ n := endsOrContinues n
  switchRoute _ _ _ _ m := mergeContinues m
  edgeRoute _ _ m := mergeContinues m
  split _ _ n _ := endsOrContinues n
  whileLoop _ _ n _ := endsOrContinues n
  embedWorkflow _ _ n _ := endsOrContinues n
  -- The wait's own routing must not suspend.
  waitForSignal _ _ w n e :=
    !(w.any fun p => p.1.planContainsSuspension) &&
      !errorRouteSuspends (e.map (ErrorRouteOf.map Prod.fst)) && endsOrContinues n
  -- Only the last agent of the chain may recover through `onError`.
  agent _ n e := n.1.isJoin || (e.isNone && n.2)
  aiAgent _ n _ := endsOrContinues n
  aiAgentLoop _ _ n _ := endsOrContinues n
  error _ _ := false
  conditional _ _ _ _ m := mergeContinues m
  parallelBranches _ _ := false
  join := false
  implicitFinish := false

def isLinearChainBranch (plan : DirectRunPlan) : Bool := para linearChainAlgebra plan

end DirectRunPlan

namespace DirectGraphManifest

/-- `branches_independent`: no step lies in two branches, and every step of a branch is
fed by the fan-out origin or by its own branch. -/
def branchesIndependent (graph : DirectGraphManifest) (fromStep : StepId)
    (branchIdSets : List (List StepId)) : Bool :=
  decide (branchIdSets.map List.dedup).flatten.Nodup &&
    branchIdSets.all fun set => set.all fun step => !graph.edges.any fun edge =>
      edge.toStep == step && isNormalLabel edge.label && edge.fromStep != fromStep
        && !set.contains edge.fromStep

end DirectGraphManifest

end Runtara
