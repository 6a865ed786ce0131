/-
  `ExecutionGraph` — the workflow DSL, and the manifest view of it that the direct
  emitter plans from.

  A graph owns steps and execution-plan edges. `Split`, `While` and `WaitForSignal`
  steps own nested graphs, so the step type is stated over an arbitrary type of graphs
  and the graph closes the recursion.

  `graphManifest` follows `direct_wasm/manifest.rs`: it resolves durability against the
  inherited value and sorts the edges into routing order. The manifest's numeric ids are
  handles for the host; the ones that remain are the agent entry ids (workflow-agent
  checks are keyed by them, so a step carries the id the allocator gave it) and the edge
  condition ids, here the position of the edge in the execution plan.
-/
import Mathlib.Data.List.ReduceOption
import Mathlib.Data.List.Sort
import Runtara.Plan.RunPlan

namespace Runtara

/-! ### The DSL -/

/-- `AgentStep`. `agentId` is canonical (lower case, dashes); `rateLimited` is what the
agent catalogue says of the capability. -/
structure AgentStep where
  agentId : String
  manifestId : ℕ
  durable : Option Bool
  maxRetries : Option ℕ
  retryDelay : Option ℕ
  timeout : Option ℕ
  rateLimited : Bool
deriving DecidableEq, Repr

/-- The `memory` block of an `AiAgent` configuration: the configured compaction
threshold, and whether the compaction strategy is `summarize`. -/
structure AiMemoryConfig where
  maxMessages : Option ℕ
  summarize : Bool
deriving DecidableEq, Repr

/-- `AiAgentStep`. `manifestId` is the id of the step's `agent.config` entry and
`configured` says whether the optional `config` block is present. -/
structure AiAgentStep where
  manifestId : ℕ
  configured : Bool
  durable : Option Bool
  maxRetries : Option ℕ
  retryDelay : Option ℕ
  maxIterations : Option ℕ
  memory : Option AiMemoryConfig
deriving DecidableEq, Repr

/-- `SplitConfig`, with the step-level durability. -/
structure SplitConfig where
  durable : Option Bool
  maxRetries : Option ℕ
  retryDelay : Option ℕ
  dontStopOnFailed : Option Bool
  parallelism : Option ℕ
  timeout : Option ℕ
deriving DecidableEq, Repr

/-- `ChildVersion`: a name such as `latest` or `current`, or a number. -/
inductive ChildVersion where
  | latest (name : String)
  | specific (version : ℤ)
deriving DecidableEq, Repr

/-- The settings of an `EmbedWorkflow` step. -/
structure EmbedConfig where
  childWorkflowId : String
  childVersion : ChildVersion
  durable : Option Bool
  maxRetries : Option ℕ
  retryDelay : Option ℕ
deriving DecidableEq, Repr

/-- `Step`, over an arbitrary type `G` of nested graphs. A `switch` lists the route of
each case, `none` for a value case. -/
inductive StepKindOf (G : Type) where
  | finish
  | error
  | conditional
  | filter
  | groupBy
  | log
  | delay (durable : Option Bool)
  | switch (cases : List (Option String))
  | split (config : SplitConfig) (subgraph : G)
  | whileLoop (timeout : Option ℕ) (subgraph : G)
  | embedWorkflow (config : EmbedConfig)
  | waitForSignal (onWait : Option G)
  | agent (config : AgentStep)
  | aiAgent (config : AiAgentStep)

/-- A step: its id, its `breakpoint` flag and its kind. -/
structure StepOf (G : Type) where
  id : StepId
  breakpoint : Bool
  kind : StepKindOf G

/-- `ExecutionPlanEdge`. Of a condition only its presence matters here: its value at run
time is an input of the run. -/
structure ExecutionPlanEdge where
  fromStep : StepId
  toStep : StepId
  label : Option String
  condition : Bool
  priority : Option ℤ
deriving DecidableEq, Repr

structure ExecutionGraph where
  entryPoint : StepId
  durable : Option Bool
  rateLimitBudgetMs : ℕ
  steps : List (StepOf ExecutionGraph)
  executionPlan : List ExecutionPlanEdge

/-- A step of an execution graph. -/
abbrev Step := StepOf ExecutionGraph

/-- The kind of a step of an execution graph. -/
abbrev StepKind := StepKindOf ExecutionGraph

/-- `DirectManifestChildWorkflowInput`: a child graph preloaded for the `EmbedWorkflow`
step `stepId`. -/
structure ChildWorkflow where
  stepId : StepId
  workflowId : String
  versionRequested : String
  versionResolved : ℤ
  executionGraph : ExecutionGraph

namespace ExecutionGraph

/-- `graph.steps.get(step_id)`. -/
def step? (graph : ExecutionGraph) (stepId : StepId) : Option Step :=
  graph.steps.find? (·.id == stepId)

/-- `graph.steps.contains_key(step_id)`. -/
def hasStep (graph : ExecutionGraph) (stepId : StepId) : Bool := (graph.step? stepId).isSome

/-- The execution-plan edges with their positions. -/
def edges (graph : ExecutionGraph) : List (ℕ × ExecutionPlanEdge) :=
  graph.executionPlan.mapIdx fun index edge => (index, edge)

/-! The analyses of a graph walk the graphs nested in its steps, some with and some
without the `onWait` graphs of `WaitForSignal` steps. -/

section Nested

variable {ε : Type} (onWait : Bool) (check : ExecutionGraph → List ε × Bool)

mutual

/-- Collect what `check` finds in a graph and, where it says to go on, in the graphs
nested in its steps. -/
def collectNested : ExecutionGraph → List ε
  | ⟨entryPoint, durable, budget, steps, plan⟩ =>
    let found := check ⟨entryPoint, durable, budget, steps, plan⟩
    if found.2 then found.1 ++ collectSteps steps else found.1

def collectSteps : List (StepOf ExecutionGraph) → List ε
  | [] => []
  | step :: rest => collectStep step ++ collectSteps rest

def collectStep : StepOf ExecutionGraph → List ε
  | ⟨_, _, kind⟩ => collectKind kind

def collectKind : StepKindOf ExecutionGraph → List ε
  | .split _ subgraph => collectNested subgraph
  | .whileLoop _ subgraph => collectNested subgraph
  | .waitForSignal graph? => if onWait then collectOption graph? else []
  | _ => []

def collectOption : Option ExecutionGraph → List ε
  | none => []
  | some graph => collectNested graph

end

end Nested

/-- The `EmbedWorkflow` steps of one graph, as the pair of step id and child workflow id. -/
def embedSteps (graph : ExecutionGraph) : List (StepId × String) :=
  graph.steps.filterMap fun step =>
    match step.kind with
    | .embedWorkflow config => some (step.id, config.childWorkflowId)
    | _ => none

/-- The `EmbedWorkflow` steps of a graph and of the graphs nested in it. -/
def nestedEmbedSteps (onWait : Bool) (graph : ExecutionGraph) : List (StepId × String) :=
  collectNested onWait (fun g => (g.embedSteps, true)) graph

end ExecutionGraph

/-! ### The manifest -/

/-- `DirectEdgeManifest`. -/
structure DirectEdge where
  ordinal : ℕ
  fromStep : StepId
  toStep : StepId
  label : Option String
  conditionId : Option ℕ
  priority : Option ℤ
deriving DecidableEq, Repr

def edgeManifest (ordinal : ℕ) (edge : ExecutionPlanEdge) : DirectEdge where
  ordinal := ordinal
  fromStep := edge.fromStep
  toStep := edge.toStep
  label := edge.label
  conditionId := if edge.condition then some ordinal else none
  priority := edge.priority

/-- `edge_route_rank`: conditioned edges by falling priority, then the defaults. -/
def edgeRouteRank (edge : DirectEdge) : ℤ :=
  if edge.conditionId.isSome then -(edge.priority.getD 0) else 9223372036854775807

def compareEdges (left right : DirectEdge) : Ordering :=
  (compare left.fromStep right.fromStep)
    |>.then (compare (left.label.getD "") (right.label.getD ""))
    |>.then (compare (edgeRouteRank left) (edgeRouteRank right))
    |>.then (compare left.ordinal right.ordinal)
    |>.then (compare left.toStep right.toStep)

/-- `DirectGraphManifest`: the graph as the planner reads it. `executionPlan` keeps the
edges in declaration order, which is the order the `AiAgent` tool tables are built in. -/
structure DirectGraphManifest where
  entryPoint : StepId
  durable : Bool
  rateLimitBudgetMs : ℕ
  steps : List Step
  edges : List DirectEdge
  executionPlan : List ExecutionPlanEdge

def graphManifest (inheritedDurable : Bool) (graph : ExecutionGraph) : DirectGraphManifest where
  entryPoint := graph.entryPoint
  durable := graph.durable.getD inheritedDurable
  rateLimitBudgetMs := graph.rateLimitBudgetMs
  steps := graph.steps
  edges := (graph.executionPlan.mapIdx edgeManifest).insertionSort
    fun left right => (compareEdges left right).isLE = true
  executionPlan := graph.executionPlan

/-- The manifest of a root or child graph: durability defaults to `true`. -/
def rootManifest (graph : ExecutionGraph) : DirectGraphManifest :=
  graphManifest (graph.durable.getD true) graph

/-- The order of the preloaded child workflows in the manifest. -/
def compareChildren (left right : ChildWorkflow) : Ordering :=
  (compare left.stepId right.stepId)
    |>.then (compare left.workflowId right.workflowId)
    |>.then (compare left.versionResolved right.versionResolved)
    |>.then (compare left.versionRequested right.versionRequested)

/-- The child workflow table of the manifest. -/
def childManifests (children : List ChildWorkflow) : List ChildWorkflow :=
  children.insertionSort fun left right => (compareChildren left right).isLE = true

namespace DirectGraphManifest

variable (graph : DirectGraphManifest)

/-- `graph.steps.iter().find(|step| step.id == step_id)`. -/
def step? (stepId : StepId) : Option Step :=
  graph.steps.find? (·.id == stepId)

def isNormalLabel (label : Option String) : Bool :=
  match label with
  | none => true
  | some l => l == "" || l == "next"

def normalFlowEdges (fromStep : StepId) : List DirectEdge :=
  graph.edges.filter fun edge => edge.fromStep == fromStep && isNormalLabel edge.label

def onErrorEdges (fromStep : StepId) : List DirectEdge :=
  graph.edges.filter fun edge => edge.fromStep == fromStep && edge.label == some "onError"

/-- The target of the first edge with this label, if there is one. -/
def branchTarget? (fromStep : StepId) (label : String) : Option StepId :=
  (graph.edges.find? fun edge => edge.fromStep == fromStep && edge.label == some label).map
    (·.toStep)

end DirectGraphManifest

/-! ### Reading a step -/

namespace StepOf

variable {G : Type}

/-- `switch_is_routing`, on the kind of a step. -/
def isRouting (step : StepOf G) : Bool :=
  match step.kind with
  | .switch cases => cases.any Option.isSome
  | _ => false

/-- `switch_route_labels`: the routes of the cases other than `default`, sorted and
without repetition. -/
def routeLabels (step : StepOf G) : List String :=
  match step.kind with
  | .switch cases =>
    ((cases.reduceOption.filter (· != "default")).insertionSort (· ≤ ·)).dedup
  | _ => []

/-- `direct_is_branching_step`. -/
def isBranching (step : StepOf G) : Bool :=
  match step.kind with
  | .conditional => true
  | .switch _ => step.isRouting
  | _ => false

theorem isRouting_eq_false {step : StepOf G} (h : step.isBranching = false) :
    step.isRouting = false := by
  unfold isBranching at h
  split at h
  · cases h
  · exact h
  · next hswitch =>
    unfold isRouting
    split
    · next cases hk => exact absurd hk (hswitch cases)
    · rfl

end StepOf

end Runtara
