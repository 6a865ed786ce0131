/-
  `direct_run_plan` — building the run plan from a graph (`direct_wasm/plan.rs`).

  The source recurses through a stack of visited steps. Here one step of that recursion
  is `stepPlan`, which receives the planner for sub-calls as an argument, and the
  recursion is closed by fuel (`stepRunPlanInner`). The fuel is not part of the source:
  `PlanError.outOfFuel` is the only error the source does not have, and it is never
  swallowed by the fallback of `tryParallelBranches`, so a result other than
  `outOfFuel` does not depend on the fuel.
-/
import Runtara.Plan.Chain
import Runtara.Plan.Region

namespace Runtara

/-- `DirectCompileError::Component`, one constructor for each message of the planner. -/
inductive PlanError where
  | missingEntry (stepId : StepId)
  | missingStep (stepId : StepId)
  | cycle (stepId : StepId)
  | missingBranch (label : String) (stepId : StepId)
  | neverReconverge (stepId : StepId)
  | conditionalDefault (stepId : StepId)
  | onErrorDefaults (stepId : StepId)
  | missingChild (stepId : StepId)
  | toolWithoutAgent (stepId : StepId)
  | toolWithoutProvider (name : String)
  | outOfFuel
deriving DecidableEq, Repr

def PlanError.message : PlanError → String
  | missingEntry s => "missing direct entry step '" ++ s ++ "'"
  | missingStep s => "missing direct step '" ++ s ++ "'"
  | cycle s => "direct run plan contains a cycle at step '" ++ s ++ "'"
  | missingBranch l s => "missing '" ++ l ++ "' branch for Conditional step '" ++ s ++ "'"
  | neverReconverge s =>
    "direct step '" ++ s ++ "' fans out to parallel branches that never re-converge"
  | conditionalDefault s =>
    "direct step '" ++ s ++ "' conditional edge routing requires exactly one default branch"
  | onErrorDefaults s =>
    "direct step '" ++ s ++ "' onError routing supports at most one default branch"
  | missingChild s =>
    "missing direct child workflow graph for EmbedWorkflow step '" ++ s ++ "'"
  | toolWithoutAgent s => "AiAgent tool target '" ++ s ++ "' has no agent config"
  | toolWithoutProvider n => "AiAgent tool '" ++ n ++ "' has no execution-plan edge or MCP provider"
  | outOfFuel => "out of fuel"

/-- The result of planning. -/
abbrev Planned := Except PlanError

theorem Planned.bind_eq_ok {α β : Type} {x : Planned α} {f : α → Planned β} {b : β} :
    (x >>= f) = .ok b ↔ ∃ a, x = .ok a ∧ f a = .ok b := by
  cases x with
  | error e =>
    constructor
    · intro h
      cases h
    · rintro ⟨_, h, _⟩
      cases h
  | ok a =>
    constructor
    · exact fun h => ⟨a, rfl, h⟩
    · rintro ⟨_, ha, h⟩
      cases ha
      exact h

theorem Planned.bind_bind_eq_ok {α β γ : Type} {x : Planned α} {y : Planned β} {f : α → β → γ}
    {c : γ} : (x >>= fun a => y >>= fun b => .ok (f a b)) = .ok c ↔
      ∃ a b, x = .ok a ∧ y = .ok b ∧ f a b = c := by
  simp [Planned.bind_eq_ok]

/-- The arguments of `step_run_plan_inner`. The stack is only searched, so it grows at
the front. -/
structure Call where
  graph : DirectGraphManifest
  stepId : StepId
  stack : List StepId
  includeOnError : Bool
  stopAt : Option StepId
  regionRoot : StepId

namespace Call

/-- The call of `step_run_plan`: a fresh region that is the whole graph. -/
def ofGraph (graph : DirectGraphManifest) : Call where
  graph := graph
  stepId := graph.entryPoint
  stack := []
  includeOnError := true
  stopAt := none
  regionRoot := graph.entryPoint

variable (c : Call)

/-- The local merge point of some branches: the enclosing `stopAt` is not a new merge. -/
def merge (branchStarts : List (Option StepId)) : Option StepId :=
  (c.graph.directFindMergePoint branchStarts).filter fun m => some m ≠ c.stopAt

/-- The call for a branch of the step: it stops at the local merge, or at the enclosing
one if there is none. -/
def arm (merge : Option StepId) (target : StepId) : Call :=
  { c with stepId := target, stack := c.stepId :: c.stack, stopAt := merge.or c.stopAt,
           regionRoot := target }

/-- The call for the shared continuation after the branches of the step. -/
def afterMerge (m : StepId) : Call :=
  { c with stepId := m, stack := c.stepId :: c.stack, regionRoot := m }

/-- The call for the next step of the same region. -/
def next (n : StepId) : Call :=
  { c with stepId := n, stack := c.stepId :: c.stack }

/-- The call for an `onError` handler (`step_run_plan_without_on_error`). -/
def handler (target : StepId) : Call :=
  { c with stepId := target, stack := c.stepId :: c.stack, includeOnError := false,
           stopAt := none, regionRoot := target }

/-- `step_breakpoint_enabled`. -/
def breakpointEnabled (step : Step) : Bool := c.graph.durable && step.breakpoint

end Call

section Build

variable (children : List ChildWorkflow) (rec : Call → Planned DirectRunPlan)

/-- Plan a list of keyed targets in order. -/
def planEach {κ : Type} (plan : StepId → Planned DirectRunPlan) :
    List (κ × StepId) → Planned (List (κ × DirectRunPlan))
  | [] => .ok []
  | (k, target) :: rest => do
    let p ← plan target
    let ps ← planEach plan rest
    .ok ((k, p) :: ps)

def planOption (plan : StepId → Planned DirectRunPlan) :
    Option StepId → Planned (Option DirectRunPlan)
  | none => .ok none
  | some target => do
    let p ← plan target
    .ok (some p)

/-- Looking a key up after planning is planning the target found before. -/
theorem find?_planEach {κ : Type} {plan : StepId → Planned DirectRunPlan} (sel : κ → Bool)
    {arms : List (κ × StepId)} {ps : List (κ × DirectRunPlan)} (h : planEach plan arms = .ok ps) :
    (arms.find? (fun a => sel a.1) = none ∧ ps.find? (fun a => sel a.1) = none) ∨
      ∃ k target p, arms.find? (fun a => sel a.1) = some (k, target) ∧ plan target = .ok p ∧
        ps.find? (fun a => sel a.1) = some (k, p) := by
  induction arms generalizing ps with
  | nil =>
    cases h
    exact Or.inl ⟨rfl, rfl⟩
  | cons a rest ih =>
    obtain ⟨k, target⟩ := a
    obtain ⟨p, hp, h⟩ := Planned.bind_eq_ok.mp h
    obtain ⟨ps', hps, h⟩ := Planned.bind_eq_ok.mp h
    cases h
    by_cases hk : sel k = true
    · exact Or.inr ⟨k, target, p, by simp [hk], hp, by simp [hk]⟩
    · simpa [List.find?_cons, hk] using ih hps

def branchTarget (graph : DirectGraphManifest) (fromStep : StepId) (label : String) :
    Planned StepId :=
  match graph.branchTarget? fromStep label with
  | some target => .ok target
  | none => .error (.missingBranch label fromStep)

/-- The evaluation order of conditioned edges: falling priority, then declaration order. -/
def compareConditioned (left right : DirectEdge) : Ordering :=
  (compare (-(left.priority.getD 0)) (-(right.priority.getD 0)))
    |>.then (compare left.ordinal right.ordinal)
    |>.then (compare left.toStep right.toStep)

/-- The conditioned edges among some edges, in evaluation order, keyed by their condition. -/
def conditionedTargets (edges : List DirectEdge) : List (ℕ × StepId) :=
  ((edges.filter (·.conditionId.isSome)).insertionSort
      fun left right => (compareConditioned left right).isLE = true).filterMap
    fun edge => edge.conditionId.map fun id => (id, edge.toStep)

def defaultEdges (edges : List DirectEdge) : List DirectEdge :=
  edges.filter (·.conditionId.isNone)

/-! ### Parallel branches -/

/-- The declaration order of fan-out edges. -/
def compareFanOut (left right : DirectEdge) : Ordering :=
  (compare left.ordinal right.ordinal).then (compare left.toStep right.toStep)

/-- The branches of `plan_branch_diamond`: `none` as soon as a branch is not a linear
chain, or suspends in a graph that is not durable. -/
def planBranches (c : Call) (m : StepId) : List StepId → Planned (Option (List DirectRunPlan))
  | [] => .ok (some [])
  | target :: rest => do
    let p ← rec (c.arm (some m) target)
    if !p.isLinearChainBranch then .ok none
    else if p.planContainsSuspension && !c.graph.durable then .ok none
    else do
      let ps ← planBranches c m rest
      .ok (ps.map (p :: ·))

def planBranchDiamond (c : Call) (targets : List StepId) (m : StepId) :
    Planned (Option DirectRunPlan) := do
  match ← planBranches rec c m targets with
  | none => .ok none
  | some branches =>
    if !c.graph.branchesIndependent c.stepId (branches.map DirectRunPlan.chainStepIds) then .ok none
    else do
      let mergePlan ← rec (c.afterMerge m)
      .ok (some (.parallelBranches branches mergePlan))

/-- The targets of the fan-out edges, in declaration order. -/
def fanOutTargets (edges : List DirectEdge) : List StepId :=
  (edges.insertionSort fun left right => (compareFanOut left right).isLE = true).map (·.toStep)

/-- `try_parallel_branches`: any planning failure of the diamond declines it. -/
def tryParallelBranches (c : Call) (edges : List DirectEdge) : Planned (Option DirectRunPlan) :=
  match c.merge ((fanOutTargets edges).map some) with
  | none => .ok none
  | some m =>
    if !c.graph.regionSingleEntry c.stepId c.stopAt then .ok none
    else
      match planBranchDiamond rec c (fanOutTargets edges) m with
      | .error .outOfFuel => .error .outOfFuel
      | .error _ => .ok none
      | .ok plan => .ok plan

/-! ### Normal flow -/

/-- The steps of a region that have no normal-flow edge. -/
def hardTerminals (c : Call) : ℕ :=
  (c.graph.directExecutionOrder c.regionRoot c.stopAt).countP
    fun stepId => (c.graph.normalFlowEdges stepId).isEmpty

/-- The continuation of a step without conditioned edges along its region's order. -/
def linearPlan (c : Call) (edges : List DirectEdge) : Planned DirectRunPlan :=
  match c.graph.topoSuccessor c.regionRoot c.stopAt c.stepId with
  | some n => rec (c.next n)
  | none =>
    if edges.isEmpty then .ok .implicitFinish
    else if c.stopAt.isSome &&
        (defaultEdges edges).all fun edge => some edge.toStep == c.stopAt then
      .ok .join
    else .error (.cycle c.stepId)

/-- The continuation of a step whose normal flow fans out: concurrent branches if the
diamond is clean, the region's order otherwise, guarded against regions that do not
re-converge. -/
def fanOutPlan (c : Call) (edges : List DirectEdge) : Planned DirectRunPlan := do
  match ← tryParallelBranches rec c (defaultEdges edges) with
  | some plan => .ok plan
  | none =>
    if hardTerminals c ≥ 2 ∨ (c.stopAt.isSome ∧ hardTerminals c ≥ 1) then
      .error (.neverReconverge c.stepId)
    else linearPlan rec c edges

/-- The continuation of a step with conditioned normal-flow edges. -/
def edgeRoutePlan (c : Call) (edges : List DirectEdge) : Planned DirectRunPlan :=
  match defaultEdges edges with
  | [default] => do
    let arms := conditionedTargets edges
    let m := c.merge ((arms.map fun a => some a.2) ++ [some default.toStep])
    let branches ← planEach (fun target => rec (c.arm m target)) arms
    let defaultPlan ← rec (c.arm m default.toStep)
    let mergePlan ← planOption (fun target => rec (c.afterMerge target)) m
    .ok (.edgeRoute branches defaultPlan mergePlan)
  | _ => .error (.conditionalDefault c.stepId)

def normalFlowPlan (c : Call) : Planned DirectRunPlan :=
  let edges := c.graph.normalFlowEdges c.stepId
  if edges.any (·.conditionId.isSome) then edgeRoutePlan rec c edges
  else if (defaultEdges edges).length > 1 then fanOutPlan rec c edges
  else linearPlan rec c edges

/-- `on_error_plan`, behind the `include_on_error` switch of its callers. -/
def onErrorPlan (c : Call) : Planned (Option DirectErrorRoutePlan) :=
  if !c.includeOnError then .ok none
  else
    let edges := c.graph.onErrorEdges c.stepId
    if edges.isEmpty then .ok none
    else if (defaultEdges edges).length > 1 then .error (.onErrorDefaults c.stepId)
    else do
      let branches ← planEach (fun target => rec (c.handler target)) (conditionedTargets edges)
      let defaultPlan ← planOption (fun target => rec (c.handler target))
        ((defaultEdges edges).head?.map (·.toStep))
      .ok (some ⟨branches, defaultPlan⟩)

/-! ### Branching steps -/

def conditionalPlan (c : Call) (step : Step) : Planned DirectRunPlan := do
  let trueStep ← branchTarget c.graph c.stepId "true"
  let falseStep ← branchTarget c.graph c.stepId "false"
  let m := c.merge [some trueStep, some falseStep]
  let truePlan ← rec (c.arm m trueStep)
  let falsePlan ← rec (c.arm m falseStep)
  let mergePlan ← planOption (fun target => rec (c.afterMerge target)) m
  .ok (.conditional c.stepId (c.breakpointEnabled step) truePlan falsePlan mergePlan)

/-- Plan the target of a labelled branch. -/
def planLabel (c : Call) (m : Option StepId) (label : String) : Planned DirectRunPlan := do
  let target ← branchTarget c.graph c.stepId label
  rec (c.arm m target)

/-- The routes of a `Switch` step, in label order. -/
def planLabels (c : Call) (m : Option StepId) :
    List String → Planned (List (String × DirectRunPlan))
  | [] => .ok []
  | label :: rest => do
    let p ← planLabel rec c m label
    let ps ← planLabels c m rest
    .ok ((label, p) :: ps)

/-- Looking a label up after planning is planning the branch of the label. -/
theorem find?_planLabels {c : Call} {m : Option StepId} (label : String) {labels : List String}
    {ps : List (String × DirectRunPlan)} (h : planLabels rec c m labels = .ok ps) :
    (label ∉ labels ∧ ps.find? (fun a => a.1 == label) = none) ∨
      ∃ p, label ∈ labels ∧ planLabel rec c m label = .ok p ∧
        ps.find? (fun a => a.1 == label) = some (label, p) := by
  induction labels generalizing ps with
  | nil =>
    cases h
    exact Or.inl ⟨by simp, rfl⟩
  | cons l rest ih =>
    obtain ⟨p, hp, h⟩ := Planned.bind_eq_ok.mp h
    obtain ⟨ps', hps, h⟩ := Planned.bind_eq_ok.mp h
    cases h
    by_cases hl : l = label
    · subst hl
      exact Or.inr ⟨p, List.mem_cons_self .., hp, by simp⟩
    · have hbeq : (l == label) = false := by simpa using hl
      rcases ih hps with ⟨hnot, hfind⟩ | ⟨q, hmem, hq, hfind⟩
      · exact Or.inl ⟨by simp [hnot, Ne.symm hl], by simpa [List.find?_cons, hbeq] using hfind⟩
      · exact Or.inr
          ⟨q, List.mem_cons_of_mem _ hmem, hq, by simpa [List.find?_cons, hbeq] using hfind⟩

def switchRoutePlan (c : Call) (step : Step) : Planned DirectRunPlan := do
  let labels := step.routeLabels
  let m := c.merge ((labels ++ ["default"]).map (c.graph.branchTarget? c.stepId))
  let branches ← planLabels rec c m labels
  let defaultPlan ← planLabel rec c m "default"
  let mergePlan ← planOption (fun target => rec (c.afterMerge target)) m
  .ok (.switchRoute c.stepId (c.breakpointEnabled step) branches defaultPlan mergePlan)

/-! ### `AiAgent` steps -/

def isToolLabel (label : String) : Bool :=
  label != "next" && label != "onError" && label != "memory"
    && !("mcp.".toList.isPrefixOf label.toList)

/-- `ai_agent_tool_edges`, in declaration order: label and target. -/
def aiAgentToolEdges (graph : DirectGraphManifest) (stepId : StepId) : List (String × StepId) :=
  graph.executionPlan.filterMap fun edge =>
    if edge.fromStep = stepId then
      match edge.label with
      | some label => if isToolLabel label then some (label, edge.toStep) else none
      | none => none
    else none

/-- The `Agent` configuration of a step, if the step is an `Agent`. -/
def agentStep? (graph : DirectGraphManifest) (stepId : StepId) : Option AgentStep :=
  match graph.step? stepId with
  | some step => match step.kind with
    | .agent config => some config
    | _ => none
  | none => none

/-- `ai_agent_mcp_edges`: the toolsets of the `mcp.<toolset>` edges to `Agent` steps. -/
def aiAgentMcpToolsets (graph : DirectGraphManifest) (stepId : StepId) : List String :=
  graph.executionPlan.filterMap fun edge =>
    if edge.fromStep = stepId then
      match edge.label with
      | some label =>
        if "mcp.".toList.isPrefixOf label.toList && (label.toList.drop 4 != []) &&
            (agentStep? graph edge.toStep).isSome then
          some (String.ofList (label.toList.drop 4))
        else none
      | none => none
    else none

/-- The names of the MCP meta-tools, in provider order. -/
def mcpToolNames (graph : DirectGraphManifest) (stepId : StepId) : List String :=
  (aiAgentMcpToolsets graph stepId).flatMap
    fun toolset => [toolset ++ "_search", toolset ++ "_invoke"]

/-- `ai_agent_memory_provider`: the agent behind the first `memory` edge. -/
def aiAgentMemoryProvider (graph : DirectGraphManifest) (stepId : StepId) : Option AgentStep :=
  match graph.executionPlan.find? fun edge =>
      edge.fromStep == stepId && edge.label == some "memory" with
  | some edge => agentStep? graph edge.toStep
  | none => none

/-- Whether the step is a single `chat-completion` call rather than a `chat-turn` loop. -/
def isChatCompletion (graph : DirectGraphManifest) (stepId : StepId) (config : AiAgentStep) :
    Bool :=
  (aiAgentToolEdges graph stepId).isEmpty && config.memory.isNone &&
    (aiAgentMcpToolsets graph stepId).isEmpty

/-- `Option::filter(|value| *value > 0).unwrap_or(default)`. -/
def positiveOr (value : Option ℕ) (default : ℕ) : ℕ :=
  (value.filter (0 < ·)).getD default

/-- The memory plan. The load, save and summarize entries follow the step's own entry. -/
def aiMemoryPlan (graph : DirectGraphManifest) (stepId : StepId) (config : AiAgentStep) :
    Option DirectAiMemoryPlan :=
  match config.memory, aiAgentMemoryProvider graph stepId with
  | some memory, some provider => some {
      loadAgentId := config.manifestId + 1
      saveAgentId := config.manifestId + 2
      agentComponentId := provider.agentId
      maxMessages := positiveOr memory.maxMessages 50
      summarize := if memory.summarize then some (config.manifestId + 3, "ai-tools") else none }
  | _, _ => none

/-- The number of agent entries the step owns before its MCP providers. -/
def mcpBaseId (graph : DirectGraphManifest) (stepId : StepId) (config : AiAgentStep) : ℕ :=
  match config.memory, aiAgentMemoryProvider graph stepId with
  | some memory, some _ => config.manifestId + (if memory.summarize then 4 else 3)
  | _, _ => config.manifestId + 1

/-- The child graph preloaded for a step, if there is one. -/
def childWorkflow? (stepId : StepId) : Option ChildWorkflow :=
  (childManifests children).find? (·.stepId == stepId)

/-- The agent config entry of a tool target: `Agent` and `AiAgent` steps have one. -/
def toolAgent? (graph : DirectGraphManifest) (stepId : StepId) : Option (ℕ × String × Option ℕ) :=
  match graph.step? stepId with
  | some step => match step.kind with
    | .agent config => some (config.manifestId, config.agentId, config.timeout)
    | .aiAgent config => some (config.manifestId, "ai-tools", none)
    | _ => none
  | none => none

def isWaitStep (graph : DirectGraphManifest) (stepId : StepId) : Bool :=
  match graph.step? stepId with
  | some step => match step.kind with
    | .waitForSignal _ => true
    | _ => false
  | none => false

/-- The tool an advertised name stands for: the target of the edge with that label, or
else the MCP provider of that name. -/
def toolPlan (c : Call) (config : AiAgentStep) (name : String) : Planned DirectAiToolPlan :=
  match c.graph.edges.find? fun edge =>
      edge.fromStep == c.stepId && edge.label == some name && isToolLabel name with
  | some edge =>
    match childWorkflow? children edge.toStep with
    | some child => do
      let childPlan ← rec (Call.ofGraph (rootManifest child.executionGraph))
      .ok (.embed edge.toStep childPlan)
    | none =>
      if isWaitStep c.graph edge.toStep then .ok (.wait edge.toStep name)
      else match toolAgent? c.graph edge.toStep with
        | some (id, component, timeout) => .ok (.agent id component name timeout)
        | none => .error (.toolWithoutAgent edge.toStep)
  | none =>
    let names := mcpToolNames c.graph c.stepId
    if name ∈ names then
      .ok (.agent (mcpBaseId c.graph c.stepId config + names.idxOf name) "mcp" name none)
    else .error (.toolWithoutProvider name)

/-- The tool table, in the order the tools are advertised. -/
def toolPlans (c : Call) (config : AiAgentStep) : List String → Planned (List DirectAiToolPlan)
  | [] => .ok []
  | name :: rest => do
    let t ← toolPlan children rec c config name
    let ts ← toolPlans c config rest
    .ok (t :: ts)

/-- An `AiAgent` step: one `chat-completion` call, or a `chat-turn` loop over its tools. -/
def aiAgentPlan (c : Call) (step : Step) (config : AiAgentStep) : Planned DirectRunPlan :=
  let durable := c.graph.durable && config.durable.getD true
  if isChatCompletion c.graph c.stepId config then do
    let nextPlan ← normalFlowPlan rec c
    let errorPlan ← onErrorPlan rec c
    .ok (.aiAgent {
      stepId := c.stepId
      agentId := config.manifestId
      agentComponentId := "ai-tools"
      durableCheckpoint := durable
      breakpoint := c.breakpointEnabled step
      maxRetries := config.maxRetries.getD 0
      retryDelayMs := config.retryDelay.getD 1000
      rateLimitBudgetMs := 0 } nextPlan errorPlan)
  else do
    let tools ← toolPlans children rec c config
      ((aiAgentToolEdges c.graph c.stepId).map Prod.fst ++ mcpToolNames c.graph c.stepId)
    let nextPlan ← normalFlowPlan rec c
    let errorPlan ← onErrorPlan rec c
    .ok (.aiAgentLoop {
      stepId := c.stepId
      agentId := config.manifestId
      agentComponentId := "ai-tools"
      durableCheckpoint := durable
      breakpoint := c.breakpointEnabled step
      maxIterations := positiveOr config.maxIterations 10
      memory := aiMemoryPlan c.graph c.stepId config } tools nextPlan errorPlan)

/-! ### One step -/

/-- `split_parallel_window`: `0` asks for an unlimited window. -/
def splitParallelWindow (config : SplitConfig) : Option ℕ :=
  (config.parallelism.map fun window =>
    if window = 0 then 4294967295 else min window 4294967295).filter (1 < ·)

def splitSettings (c : Call) (step : Step) (config : SplitConfig) : SplitSettings where
  stepId := c.stepId
  durable := c.graph.durable && config.durable.getD true
  breakpoint := c.breakpointEnabled step
  maxRetries := config.maxRetries.getD 0
  retryDelayMs := config.retryDelay.getD 1000
  dontStopOnFailed := config.dontStopOnFailed.getD false
  parallelWindow := splitParallelWindow config
  timeoutMs := config.timeout.filter (0 < ·)

/-- The plan settings of an `EmbedWorkflow` step. -/
def embedSettings (c : Call) (step : Step) (config : EmbedConfig) : EmbedSettings where
  stepId := c.stepId
  durable := c.graph.durable && config.durable.getD true
  breakpoint := c.breakpointEnabled step
  maxRetries := config.maxRetries.getD 3
  retryDelayMs := config.retryDelay.getD 1000

/-- The plan settings of an `Agent` step: rate-limited capabilities retry longer. -/
def agentSettings (c : Call) (step : Step) (config : AgentStep) : AgentSettings where
  stepId := c.stepId
  agentId := config.manifestId
  agentComponentId := config.agentId
  durableCheckpoint := c.graph.durable && config.durable.getD true
  breakpoint := c.breakpointEnabled step
  maxRetries := config.maxRetries.getD (if config.rateLimited then 5 else 3)
  retryDelayMs := config.retryDelay.getD (if config.rateLimited then 2000 else 1000)
  rateLimitBudgetMs := c.graph.rateLimitBudgetMs

/-- The nested plan of a graph owned by a step: planned on its own, with the step's
graph as the parent durability. -/
def nestedPlan (c : Call) (graph : ExecutionGraph) : Planned DirectRunPlan :=
  rec (Call.ofGraph (graphManifest c.graph.durable graph))

/-- The plan of the `onWait` graph of a `WaitForSignal` step, if it has one. -/
def onWaitPlan (c : Call) : Option ExecutionGraph → Planned (Option DirectRunPlan)
  | none => .ok none
  | some graph => do
    let p ← nestedPlan rec c graph
    .ok (some p)

/-- The `match` of `step_run_plan_inner` on the step type. -/
def stepKindPlan (c : Call) (step : Step) : Planned DirectRunPlan :=
  let breakpoint := c.breakpointEnabled step
  match step.kind with
  | .finish => .ok (.finish c.stepId breakpoint)
  | .error => .ok (.error c.stepId breakpoint)
  | .filter => do
    let nextPlan ← normalFlowPlan rec c
    .ok (.filter c.stepId breakpoint nextPlan)
  | .groupBy => do
    let nextPlan ← normalFlowPlan rec c
    .ok (.groupBy c.stepId breakpoint nextPlan)
  | .log => do
    let nextPlan ← normalFlowPlan rec c
    .ok (.log c.stepId breakpoint nextPlan)
  | .delay durable => do
    let nextPlan ← normalFlowPlan rec c
    .ok (.delay c.stepId (c.graph.durable && durable.getD true) breakpoint nextPlan)
  | .switch _ =>
    if step.isRouting then switchRoutePlan rec c step
    else do
      let nextPlan ← normalFlowPlan rec c
      .ok (.switchValue c.stepId breakpoint nextPlan)
  | .split config subgraph => do
    let nested ← nestedPlan rec c subgraph
    let nextPlan ← normalFlowPlan rec c
    let errorPlan ← onErrorPlan rec c
    .ok (.split (splitSettings c step config) nested nextPlan errorPlan)
  | .whileLoop timeout subgraph => do
    let nested ← nestedPlan rec c subgraph
    let nextPlan ← normalFlowPlan rec c
    let errorPlan ← onErrorPlan rec c
    .ok (.whileLoop ⟨c.stepId, breakpoint, timeout.filter (0 < ·)⟩ nested nextPlan errorPlan)
  | .embedWorkflow config =>
    match childWorkflow? children c.stepId with
    | none => .error (.missingChild c.stepId)
    | some child => do
      let childPlan ← rec (Call.ofGraph (rootManifest child.executionGraph))
      let nextPlan ← normalFlowPlan rec c
      let errorPlan ← onErrorPlan rec c
      .ok (.embedWorkflow (embedSettings c step config) childPlan nextPlan errorPlan)
  | .waitForSignal onWait => do
    let onWaitPlan ← onWaitPlan rec c onWait
    let nextPlan ← normalFlowPlan rec c
    let errorPlan ← onErrorPlan rec c
    .ok (.waitForSignal c.stepId breakpoint onWaitPlan nextPlan errorPlan)
  | .agent config => do
    let nextPlan ← normalFlowPlan rec c
    let errorPlan ← onErrorPlan rec c
    .ok (.agent (agentSettings c step config) nextPlan errorPlan)
  | .aiAgent config => aiAgentPlan children rec c step config
  | .conditional => conditionalPlan rec c step

/-- One step of `step_run_plan_inner`. -/
def stepPlan (c : Call) : Planned DirectRunPlan :=
  if c.stopAt = some c.stepId then .ok .join
  else if c.stepId ∈ c.stack then .error (.cycle c.stepId)
  else match c.graph.step? c.stepId with
    | none => .error (.missingStep c.stepId)
    | some step => stepKindPlan children rec c step

end Build

/-- `step_run_plan_inner`, to the depth of the fuel. -/
def stepRunPlanInner (children : List ChildWorkflow) : ℕ → Call → Planned DirectRunPlan
  | 0, _ => .error .outOfFuel
  | fuel + 1, c => stepPlan children (stepRunPlanInner children fuel) c

def directRunPlan (fuel : ℕ) (graph : ExecutionGraph) (children : List ChildWorkflow) :
    Planned DirectRunPlan :=
  let manifest := rootManifest graph
  match manifest.step? manifest.entryPoint with
  | none => .error (.missingEntry manifest.entryPoint)
  | some _ => stepRunPlanInner children fuel (Call.ofGraph manifest)

end Runtara
