/-
  Asynchronous invokes: what the emitter launches and what the module imports.

  A parallel `Split` window and a concurrent fan-out launch agent invokes asynchronously.
  Each launch names an agent component and a member of that component's pool of
  instances, and needs the import of that member; the window itself needs the waitable
  builtins. The imports are collected by a walk of the plan of their own
  (`parallel_agent_pools` in `compile/split_parallel.rs`). `demands` is the walk of the
  emitter, with every launch it makes; `parallelAgentPools` is the walk of the collector.
-/
import Runtara.Plan.Lowering

namespace Runtara

/-- What the two walks read of `DirectCoreStaticData`. -/
structure StaticData where
  parallelEnabled : Bool
  agentIsWorkflowAgent : ℕ → Bool

/-! ### Pools -/

def parallelPoolMax : ℕ := 4

def poolSizeForWindow (window : ℕ) : ℕ := min (max window 1) parallelPoolMax

/-- The pool sizes by component, as the collector's map holds them. -/
abbrev Pools := List (String × ℕ)

/-- `pools.get(component)`. -/
def Pools.get? (pools : Pools) (component : String) : Option ℕ :=
  (pools.find? fun e => e.1 == component).map Prod.snd

/-- `entry(component).or_insert(1)`, raised to `size`. -/
def Pools.record (pools : Pools) (e : String × ℕ) : Pools :=
  (e.1, max ((pools.get? e.1).getD 1) e.2) :: pools.filter fun e' => !(e'.1 == e.1)

namespace DirectRunPlan

/-- The component a chain node invokes, if it is an `Agent`. -/
def componentOf : DirectRunPlan → Option String
  | agent c _ _ => some c.agentComponentId
  | _ => none

def callsWorkflowAgent (data : StaticData) : DirectRunPlan → Bool
  | agent c _ _ => data.agentIsWorkflowAgent c.agentId
  | _ => false

end DirectRunPlan

open DirectRunPlan

section BranchPools

variable (chains : List (List DirectRunPlan))

/-- The component a chain invokes at a depth. -/
def componentAt (depth : ℕ) (chain : List DirectRunPlan) : Option String :=
  chain[depth]?.bind componentOf

/-- How many chains invoke the component at the depth: the counter of the loop of
`plan_branch_pools` over the branches. -/
def countAt (component : String) (depth : ℕ) : ℕ :=
  chains.countP fun chain => componentAt depth chain == some component

def depths : List ℕ := List.range ((chains.map List.length).foldr max 0)

/-- The components invoked by some chain. -/
def components : List String := (chains.flatten.filterMap componentOf).dedup

/-- The largest number of chains that invoke the component at one depth. -/
def poolMax (component : String) : ℕ := ((depths chains).map (countAt chains component)).foldr max 0

/-- The pool sizes of `plan_branch_pools`. -/
def branchPoolSizes : Pools :=
  (components chains).map fun component => (component, poolSizeForWindow (poolMax chains component))

/-- The pool member of `plan_branch_pools` for a node: the number of earlier branches that
invoke the same component at the same depth, modulo the size of the pool. -/
def poolMember (branch depth : ℕ) (component : String) : ℕ :=
  countAt (chains.take branch) component depth % ((branchPoolSizes chains).get? component).getD 1

end BranchPools

section Walks

variable (data : StaticData)

def concurrentBranchPools (branches : List DirectRunPlan) : Option Pools :=
  if !data.parallelEnabled then none
  else if (branches.map branchChain).flatten.any (callsWorkflowAgent data) then none
  else some (branchPoolSizes (branches.map branchChain))

def branchGroupRunsConcurrently (branches : List DirectRunPlan) : Bool :=
  (concurrentBranchPools data branches).any fun pools => !pools.isEmpty

/-- `is_schedulable_branch`. A chain is never empty. -/
def isSchedulableBranch (branch : DirectRunPlan) : Bool :=
  branch.branchChain.all fun node => !nodeHasBreakpoint node && match node with
    | .agent c _ _ => !data.agentIsWorkflowAgent c.agentId
    | .log _ _ _ | .filter _ _ _ | .switchValue _ _ _ | .groupBy _ _ _ => true
    | _ => false

def schedulableBranches (branches : List DirectRunPlan) : Bool :=
  data.parallelEnabled && branches.all (isSchedulableBranch data)

/-- `parallel_agent_body`, of which the walks use the component. -/
def parallelAgentBody (c : SplitSettings) (nestedPlan : DirectRunPlan) : Option String :=
  if !data.parallelEnabled then none
  else c.parallelWindow.bind fun window =>
    if window ≤ 1 || c.maxRetries > 0 || c.timeoutMs.isSome then none
    else match nestedPlan with
      | .agent a _ _ =>
        if a.breakpoint || data.agentIsWorkflowAgent a.agentId then none
        else some a.agentComponentId
      | _ => none

/-! ### The collector -/

/-- Collect from every handler of a route. -/
def collectErrorRoute (e : Option (ErrorRouteOf (DirectRunPlan × (Pools → Pools)))) (out : Pools) :
    Pools :=
  (e.elim [] ErrorRouteOf.plans).foldl (fun out p => p.2 out) out

def collectOption (m : Option (DirectRunPlan × (Pools → Pools))) (out : Pools) : Pools :=
  m.elim out fun p => p.2 out

/-- The clauses of `collect_parallel_agent_components`. The tools of an `AiAgentLoop` are not
walked. -/
def collectAlgebra : Algebra (Pools → Pools) where
  finish _ _ := id
  filter _ _ n := n.2
  switchValue _ _ n := n.2
  groupBy _ _ n := n.2
  log _ _ n := n.2
  delay _ _ _ n := n.2
  switchRoute _ _ arms d m := fun out =>
    collectOption m (d.2 (arms.foldl (fun out a => a.2.2 out) out))
  edgeRoute arms d m := fun out => collectOption m (d.2 (arms.foldl (fun out a => a.2.2 out) out))
  split c p n e := fun out =>
    let out := match parallelAgentBody data c p.1 with
      | some component => out.record (component, poolSizeForWindow (c.parallelWindow.getD 0))
      | none => out
    collectErrorRoute e (n.2 (p.2 out))
  whileLoop _ p n e := fun out => collectErrorRoute e (n.2 (p.2 out))
  embedWorkflow _ p n e := fun out => collectErrorRoute e (n.2 (p.2 out))
  waitForSignal _ _ w n e := fun out => collectErrorRoute e (n.2 (collectOption w out))
  agent _ n e := fun out => collectErrorRoute e (n.2 out)
  aiAgent _ n e := fun out => collectErrorRoute e (n.2 out)
  aiAgentLoop _ _ n e := fun out => collectErrorRoute e (n.2 out)
  error _ _ := id
  conditional _ _ t f m := fun out => collectOption m (f.2 (t.2 out))
  parallelBranches bs m := fun out =>
    let out := ((concurrentBranchPools data (bs.map Prod.fst)).getD []).foldl Pools.record out
    m.2 (bs.foldl (fun out b => b.2 out) out)
  join := id
  implicitFinish := id

def parallelAgentPools (plan : DirectRunPlan) : Pools := para (collectAlgebra data) plan []

/-! ### The emitter -/

/-- What an emitted window takes from the imports: an asynchronous invoke of a pool member,
or the waitable builtins (and the backoff timer, which is imported with them). -/
inductive Demand where
  | invoke (component : String) (member : ℕ)
  | waitable
deriving DecidableEq, Repr

/-- A branch with its lowered chain. -/
abbrev LoweredBranch := DirectRunPlan × Lowered (List Demand)

/-- `emit_branch_launch`, for an `Agent` node. -/
def branchLaunch (chains : List (List DirectRunPlan)) (branch depth : ℕ) (node : DirectRunPlan) :
    List Demand :=
  match componentOf node with
  | some component => [.invoke component (poolMember chains branch depth component)]
  | none => []

/-- `emit_branch_scheduler`: every node of every chain is launched, then assembled. -/
def branchScheduler (branches : List LoweredBranch) : List Demand :=
  let chains := branches.map fun b => b.1.branchChain
  .waitable :: branches.zipIdx.flatMap fun b => b.1.2.chain.zipIdx.flatMap fun node =>
    branchLaunch chains b.2 node.2 node.1.1 ++ node.1.2

/-- `emit_concurrent_branches`: depth by depth, the `Agent` nodes without a breakpoint are
launched and then all nodes assembled (those that suspend last). -/
def concurrentBranches (branches : List LoweredBranch) : List Demand :=
  let chains := branches.map fun b => b.1.branchChain
  .waitable :: (depths chains).flatMap fun depth =>
    (branches.zipIdx.flatMap fun b => match b.1.1.branchChain[depth]? with
      | some node => if nodeHasBreakpoint node then [] else branchLaunch chains b.2 depth node
      | none => []) ++
    branches.flatMap fun b => (b.2.chain[depth]?.map Prod.snd).getD []

/-- `emit_parallel_branches`: the whole group through the scheduler, or the schedulable
branches first and then the rest, each concurrently if it may and else one after the
other; the merge plan follows. -/
def parallelBranchesDemands (branches : List LoweredBranch)
    (mergePlan : DirectRunPlan × List Demand) :
    List Demand :=
  let plans (group : List LoweredBranch) := group.map Prod.fst
  let sequential (group : List LoweredBranch) := group.flatMap fun b => b.2.whole
  let sched := branches.filter fun b => isSchedulableBranch data b.1
  let others := branches.filter fun b => !isSchedulableBranch data b.1
  (if branchGroupRunsConcurrently data (plans branches) && schedulableBranches data (plans branches)
    then branchScheduler branches
    else
      (if branchGroupRunsConcurrently data (plans sched) then branchScheduler sched
        else sequential sched) ++
      (if branchGroupRunsConcurrently data (plans others) then concurrentBranches others
        else sequential others)) ++ mergePlan.2

/-- The window of `emit_parallel_split_items`: every member of its pool is invoked. -/
def splitWindow (c : SplitSettings) (nestedPlan : DirectRunPlan) : List Demand :=
  match parallelAgentBody data c nestedPlan with
  | some component => .waitable ::
      (List.range (poolSizeForWindow (c.parallelWindow.getD 0))).map (.invoke component)
  | none => []

/-- The demands of the handlers of a route. -/
def handlerDemands (e : Option (ErrorRouteOf (DirectRunPlan × List Demand))) : List Demand :=
  (e.elim [] ErrorRouteOf.plans).flatMap Prod.snd

def optionDemands (m : Option (DirectRunPlan × List Demand)) : List Demand := m.elim [] Prod.snd

/-- `emit_run_plan_mapping`, as far as it needs asynchronous imports. A window assembles its
items through the `Agent` lowering of the nested plan, so that the nested plan is emitted
in both cases. -/
def demandLowering : Lowering (List Demand) where
  alg :=
    { finish := fun _ _ => []
      filter := fun _ _ n => n.2
      switchValue := fun _ _ n => n.2
      groupBy := fun _ _ n => n.2
      log := fun _ _ n => n.2
      delay := fun _ _ _ n => n.2
      switchRoute := fun _ _ arms d m => arms.flatMap (fun a => a.2.2) ++ d.2 ++ optionDemands m
      edgeRoute := fun arms d m => arms.flatMap (fun a => a.2.2) ++ d.2 ++ optionDemands m
      split := fun c p n e => splitWindow data c p.1 ++ p.2 ++ handlerDemands e ++ n.2
      whileLoop := fun _ p n e => p.2 ++ handlerDemands e ++ n.2
      embedWorkflow := fun _ p n e => p.2 ++ handlerDemands e ++ n.2
      waitForSignal := fun _ _ w n e => optionDemands w ++ handlerDemands e ++ n.2
      agent := fun _ n e => handlerDemands e ++ n.2
      aiAgent := fun _ n e => handlerDemands e ++ n.2
      aiAgentLoop := fun _ ts n e =>
        handlerDemands e ++ (ts.flatMap AiToolOf.plans).flatMap Prod.snd ++ n.2
      error := fun _ _ => []
      conditional := fun _ _ t f m => t.2 ++ f.2 ++ optionDemands m
      parallelBranches := fun _ _ => []
      join := []
      implicitFinish := [] }
  fanOut := parallelBranchesDemands data

/-- The asynchronous imports the emitted code of a plan uses. -/
def demands (plan : DirectRunPlan) : List Demand := (lower (demandLowering data) plan).whole

/-- Is the demand met by imports made for the pools? Otherwise an `expect` of the emitter panics. -/
def Demand.Supplied (pools : Pools) : Demand → Prop
  | .invoke component member => ∃ size, pools.get? component = some size ∧ member < size
  | .waitable => pools ≠ []

instance (pools : Pools) (d : Demand) : Decidable (d.Supplied pools) :=
  match d with
  | .invoke component member =>
    match h : pools.get? component with
    | none => isFalse (by rintro ⟨size, hsize, -⟩; rw [h] at hsize; cases hsize)
    | some size => decidable_of_iff (member < size)
        ⟨fun hlt => ⟨size, h, hlt⟩,
          by rintro ⟨size', hsize, hlt⟩; rw [h] at hsize; cases hsize; exact hlt⟩
  | .waitable => inferInstanceAs (Decidable (pools ≠ []))

end Walks

end Runtara
