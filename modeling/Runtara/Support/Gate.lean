/-
  The direct support gate (`direct_wasm/support.rs`, `direct_wasm/graph_order.rs`).

  The gate decides which graphs the emitter accepts. Its core is a depth-first walk from
  the entry point (`supportsStep`) that must reach every step and use every edge, behind a
  test that the entry backbone can be linearised (`backboneTopologicallyLinearizable`).
  The walk threads the set of reached steps and used edges; the source goes on after a
  failure only to return `false` in the end, so here a failure ends the walk at once.

  The walk of one graph has as many levels as the graph has steps. Nested graphs are
  walked by the same function, so that recursion is bounded by fuel: a graph nested deeper
  than the fuel counts as not supported.
-/
import Runtara.Graph.ExecutionGraph
import Runtara.Search.Kahn

namespace Runtara

namespace ExecutionGraph

variable (graph : ExecutionGraph)

/-! ### `graph_order.rs` -/

/-- `is_normal_label`. -/
def isNormalFlowEdge (edge : ExecutionPlanEdge) : Bool :=
  DirectGraphManifest.isNormalLabel edge.label

def hasConditionedNormalFlowEdges (stepId : StepId) : Bool :=
  graph.executionPlan.any fun edge => edge.fromStep == stepId && isNormalFlowEdge edge &&
    edge.condition

/-- Whether `build_execution_order` follows the edges of a step. -/
def continues (stepId : StepId) : Bool :=
  match graph.step? stepId with
  | none => false
  | some step => !(step.isBranching || graph.hasConditionedNormalFlowEdges stepId)

/-- The normal-flow edges as pairs, in declaration order. -/
def normalFlow : List (StepId × StepId) :=
  (graph.executionPlan.filter isNormalFlowEdge).map fun edge => (edge.fromStep, edge.toStep)

def buildExecutionOrder : List StepId :=
  Search.order graph.normalFlow graph.continues none graph.entryPoint

def branchLabels (step : Step) : List String :=
  match step.kind with
  | .conditional => ["true", "false"]
  | _ => step.routeLabels ++ ["default"]

/-- The successors `collect_reachable_steps` follows. -/
def reachableSuccessors (stepId : StepId) : List StepId :=
  match graph.step? stepId with
  | none => []
  | some step =>
    match step.kind with
    | .finish => []
    | _ =>
      if step.isBranching then
        (graph.executionPlan.filter fun edge => edge.fromStep == stepId &&
          (branchLabels step).contains (edge.label.getD "")).map (·.toStep)
      else
        (graph.executionPlan.filter fun edge =>
          edge.fromStep == stepId && isNormalFlowEdge edge).map (·.toStep)

def collectReachableSteps (start : StepId) : List StepId :=
  Search.collect graph.reachableSuccessors (graph.executionPlan.length + 2) start

def findMergePointN (branchStarts : List StepId) : Option StepId :=
  match branchStarts.map graph.collectReachableSteps with
  | first :: second :: rest =>
    first.find? fun stepId => (second :: rest).all fun set => set.contains stepId
  | _ => none

/-! ### The backbone -/

def normalFlowEdges (stepId : StepId) : List (ℕ × ExecutionPlanEdge) :=
  graph.edges.filter fun e => e.2.fromStep == stepId && isNormalFlowEdge e.2

def onErrorEdges (stepId : StepId) : List (ℕ × ExecutionPlanEdge) :=
  graph.edges.filter fun e => e.2.fromStep == stepId && e.2.label == some "onError"

def stepBranchesRemerge (stepId : StepId) : Bool :=
  (graph.findMergePointN ((graph.executionPlan.filter fun edge =>
    edge.fromStep == stepId && edge.label != some "onError").map (·.toStep))).isSome

/-- A step before the last one of the backbone must go on: it is not a terminal, and if it
branches its branches re-converge. -/
def backboneStepContinues (stepId : StepId) : Bool :=
  match graph.step? stepId with
  | none => false
  | some step =>
    match step.kind with
    | .finish | .error => false
    | _ =>
      if step.isBranching || graph.hasConditionedNormalFlowEdges stepId then
        graph.stepBranchesRemerge stepId
      else !(graph.normalFlowEdges stepId).isEmpty

def backboneTopologicallyLinearizable : Bool :=
  graph.buildExecutionOrder.dropLast.all graph.backboneStepContinues

/-! ### Shapes of conditioned and `onError` routing -/

def edgeConditionRouteShapeSupported (stepId : StepId) : Bool :=
  match graph.step? stepId with
  | none => false
  | some step =>
    (match step.kind with
      | .filter | .groupBy | .log | .agent _ | .delay _ | .waitForSignal _ => true
      | .switch _ => !step.isRouting
      | _ => false) &&
    (let conditioned := graph.executionPlan.filter fun edge =>
       edge.fromStep == stepId && edge.condition
     !conditioned.isEmpty && conditioned.all isNormalFlowEdge) &&
    (graph.normalFlowEdges stepId).countP (fun e => e.2.condition) > 0 &&
    (graph.normalFlowEdges stepId).countP (fun e => !e.2.condition) = 1

end ExecutionGraph

/-- `DirectSupportChildWorkflows::get`: a later child of the same step id wins. -/
def supportChild? (children : List ChildWorkflow) (stepId : StepId) : Option ExecutionGraph :=
  (children.reverse.find? (·.stepId == stepId)).map (·.executionGraph)

/-! ### The depth-first walk -/

/-- What the walk has seen: the reached steps and the positions of the used edges. -/
structure SupportWalk where
  reachable : List StepId
  usedEdges : List ℕ
deriving DecidableEq, Repr

namespace SupportWalk

/-- `reachable.insert`. -/
def reach (w : SupportWalk) (stepId : StepId) : SupportWalk :=
  if stepId ∈ w.reachable then w else { w with reachable := stepId :: w.reachable }

/-- `used_edges.insert`. -/
def use (w : SupportWalk) (index : ℕ) : SupportWalk :=
  if index ∈ w.usedEdges then w else { w with usedEdges := index :: w.usedEdges }

end SupportWalk

section Walk

/-- A visit of a step: whether `onError` routes are included, the stack, the walk so far.
`none` means not supported. -/
abbrev Visit := StepId → Bool → List StepId → SupportWalk → Option SupportWalk

variable (sub : ExecutionGraph → List StepId → Bool) (children : List ChildWorkflow)
  (graph : ExecutionGraph) (childStack : List StepId) (visit : Visit)

/-- Use some edges in order and visit their targets. -/
def visitEdges (includeOnError : Bool) (stack : List StepId) :
    List (ℕ × ExecutionPlanEdge) → SupportWalk → Option SupportWalk
  | [], w => some w
  | (index, edge) :: rest, w =>
    (visit edge.toStep includeOnError stack (w.use index)).bind
      (visitEdges includeOnError stack rest)

def supportsNormalFlowStep (stepId : StepId) (includeOnError : Bool) (stack : List StepId)
    (w : SupportWalk) : Option SupportWalk :=
  let edges := graph.normalFlowEdges stepId
  let conditioned := edges.filter fun e => e.2.condition
  let defaults := edges.filter fun e => !e.2.condition
  if conditioned.isEmpty then visitEdges visit includeOnError (stepId :: stack) defaults w
  else match defaults with
    | [default] => visitEdges visit includeOnError (stepId :: stack) (conditioned ++ [default]) w
    | _ => none

def supportsEmbedWorkflowStepBaseline (stepId : StepId) : Bool :=
  if stepId ∈ childStack then false
  else match supportChild? children stepId with
    | none => false
    | some child => sub child (stepId :: childStack)

/-- `supports_wait_for_signal_step_baseline`: an `onWait` graph starts a new child stack. -/
def supportsWaitForSignalStepBaseline (onWait : Option ExecutionGraph) : Bool :=
  onWait.all fun onWaitGraph => sub onWaitGraph []

/-- `on_error_route_shape_supported`. The wait baseline is asked with no child workflows. -/
def onErrorRouteShapeSupported (subWithoutChildren : ExecutionGraph → List StepId → Bool)
    (stepId : StepId) : Bool :=
  match graph.step? stepId with
  | none => false
  | some step =>
    (match step.kind with
      | .agent _ | .embedWorkflow _ | .split _ _ | .whileLoop _ _ | .aiAgent _ => true
      | .waitForSignal onWait => supportsWaitForSignalStepBaseline subWithoutChildren onWait
      | _ => false) &&
    !(graph.onErrorEdges stepId).isEmpty &&
    (graph.onErrorEdges stepId).countP (fun e => !e.2.condition) ≤ 1

/-- `mark_dead_subgraph_reachable`: every edge of a step reached here is used, whatever the
step is. -/
def markDeadSubgraphReachable : ℕ → List StepId → SupportWalk → SupportWalk
  | 0, _, w => w
  | _ + 1, [], w => w
  | fuel + 1, stepId :: queue, w =>
    if stepId ∈ w.reachable then markDeadSubgraphReachable fuel queue w
    else
      let out := graph.edges.filter fun e => e.2.fromStep == stepId
      markDeadSubgraphReachable fuel ((out.map fun e => e.2.toStep).reverse ++ queue)
        (out.foldl (fun w e => w.use e.1) (w.reach stepId))

def markInertOnErrorEdges (stepId : StepId) (w : SupportWalk) : SupportWalk :=
  (graph.onErrorEdges stepId).foldl (fun w e =>
    markDeadSubgraphReachable graph (graph.executionPlan.length + 2) [e.2.toStep] (w.use e.1)) w

/-- `on_error_supported_or_inert`, with `supports_on_error_flow_step`. -/
def onErrorSupportedOrInert (subWithoutChildren : ExecutionGraph → List StepId → Bool)
    (stepId : StepId) (includeOnError : Bool) (stack : List StepId) (w : SupportWalk) :
    Option SupportWalk :=
  if includeOnError then
    let edges := graph.onErrorEdges stepId
    if edges.isEmpty then some w
    else if !onErrorRouteShapeSupported graph subWithoutChildren stepId then none
    else visitEdges visit false (stepId :: stack) edges w
  else some (markInertOnErrorEdges graph stepId w)

/-- The edges a `Conditional` step must have: one `true` and one `false`, without
conditions, and no other. -/
def conditionalEdges (stepId : StepId) : Option (List (ℕ × ExecutionPlanEdge)) :=
  let out := graph.edges.filter fun e => e.2.fromStep == stepId
  match out.filter (fun e => e.2.label == some "true"),
      out.filter fun e => e.2.label == some "false" with
  | [t], [f] => if out.length = 2 && out.all fun e => !e.2.condition then some [t, f] else none
  | _, _ => none

/-- The edges a routing `Switch` must have: one for each route and for `default`, without
conditions, and no other. They are visited in label order. -/
def routingEdges (step : Step) (stepId : StepId) : Option (List (ℕ × ExecutionPlanEdge)) :=
  let expected := (step.routeLabels ++ ["default"]).insertionSort (· ≤ ·)
  let out := graph.edges.filter fun e => e.2.fromStep == stepId
  if out.length = expected.length && out.all (fun e => !e.2.condition) then
    expected.mapM fun label =>
      match out.filter fun e => e.2.label == some label with
      | [e] => some e
      | _ => none
  else none

/-- Is the label that of an MCP edge, `mcp.` and a non-empty toolset? -/
def isMcpLabel (label : String) : Bool :=
  "mcp.".toList.isPrefixOf label.toList && label.toList.length > 4

/-- Is the label that of a tool edge of an `AiAgent`? -/
def isAiToolLabel (label : String) : Bool :=
  label != "next" && label != "onError" && label != "memory"
    && !("mcp.".toList.isPrefixOf label.toList)

/-- Is the step an `Agent`, and if so one that `p` accepts? -/
def isAgentStep (p : AgentStep → Bool) (stepId : StepId) : Bool :=
  match graph.step? stepId with
  | some step => match step.kind with
    | .agent config => p config
    | _ => false
  | none => false

def supportsAiAgentStepBaseline (stepId : StepId) (config : AiAgentStep) : Bool :=
  let out := graph.executionPlan.filter fun edge => edge.fromStep == stepId
  let memoryEdge := out.find? fun edge => edge.label == some "memory"
  config.configured &&
  (out.filter fun edge => edge.label.any isMcpLabel).all
    (fun edge => isAgentStep graph (·.agentId == "mcp") edge.toStep) &&
  config.memory.isSome == memoryEdge.isSome &&
  memoryEdge.all (fun edge => isAgentStep graph (fun _ => true) edge.toStep) &&
  (out.filter fun edge => edge.label.any isAiToolLabel).all fun edge =>
    match graph.step? edge.toStep with
    | some target => match target.kind with
      | .agent _ | .waitForSignal _ => true
      | .embedWorkflow _ => supportsEmbedWorkflowStepBaseline sub children [] edge.toStep
      | _ => false
    | none => false

/-- The edges an `AiAgent` consumes itself: labelled, and neither `next` nor `onError`. -/
def markAiAgentEdges (stepId : StepId) (w : SupportWalk) : SupportWalk :=
  (graph.edges.filter fun e => e.2.fromStep == stepId &&
    e.2.label.any fun label => label != "next" && label != "onError").foldl
      (fun w e => (w.use e.1).reach e.2.toStep) w

/-- The `match` of `supports_direct_control_step_inner` on the step. -/
def supportsStepKind (subWithoutChildren : ExecutionGraph → List StepId → Bool) (step : Step)
    (stepId : StepId) (includeOnError : Bool) (stack : List StepId) (w : SupportWalk) :
    Option SupportWalk :=
  let normalFlow := supportsNormalFlowStep graph visit stepId includeOnError stack
  let onError := onErrorSupportedOrInert graph visit subWithoutChildren stepId includeOnError stack
  match step.kind with
  | .finish | .error =>
    if graph.executionPlan.all fun edge => edge.fromStep != stepId then some w else none
  | .conditional =>
    (conditionalEdges graph stepId).bind fun edges =>
      visitEdges visit includeOnError (stepId :: stack) edges w
  | .filter | .groupBy | .log | .delay _ => normalFlow w
  | .switch _ =>
    if step.isRouting then
      (routingEdges graph step stepId).bind fun edges =>
        visitEdges visit includeOnError (stepId :: stack) edges w
    else normalFlow w
  | .split _ subgraph | .whileLoop _ subgraph =>
    if sub subgraph childStack then (normalFlow w).bind onError else none
  | .waitForSignal onWait =>
    if supportsWaitForSignalStepBaseline sub onWait then (normalFlow w).bind onError else none
  | .embedWorkflow _ =>
    if supportsEmbedWorkflowStepBaseline sub children childStack stepId then
      (normalFlow w).bind onError
    else none
  | .agent _ => (normalFlow w).bind onError
  | .aiAgent config =>
    if supportsAiAgentStepBaseline sub children graph stepId config then
      (normalFlow (markAiAgentEdges graph stepId w)).bind onError
    else none

/-- `supports_direct_control_step_inner`: a step on the stack is a cycle, a step reached
before is not walked again. -/
def supportsStep (subWithoutChildren : ExecutionGraph → List StepId → Bool) : ℕ → Visit
  | 0, _, _, _, _ => none
  | fuel + 1, stepId, includeOnError, stack, w =>
    if stepId ∈ stack then none
    else if stepId ∈ w.reachable then some w
    else match graph.step? stepId with
      | none => none
      | some step =>
        supportsStepKind sub children graph childStack
          (supportsStep subWithoutChildren fuel) subWithoutChildren step stepId includeOnError stack
          (w.reach stepId)

end Walk

/-- `supports_direct_control_graph_inner`: the backbone is linear, the walk succeeds, and it
reaches every step and uses every edge. -/
def supportsDirectControlGraphInner (children : List ChildWorkflow) :
    ℕ → ExecutionGraph → List StepId → Bool
  | 0, _, _ => false
  | fuel + 1, graph, childStack =>
    graph.backboneTopologicallyLinearizable &&
    match supportsStep (supportsDirectControlGraphInner children fuel) children graph childStack
        (supportsDirectControlGraphInner [] fuel) (graph.steps.length + 2)
        graph.entryPoint true [] ⟨[], []⟩ with
    | none => false
    | some w => w.reachable.length == graph.steps.length &&
        w.usedEdges.length == graph.executionPlan.length

def supportsDirectControlGraph (children : List ChildWorkflow) (fuel : ℕ) (graph : ExecutionGraph) :
    Bool := supportsDirectControlGraphInner children fuel graph []

end Runtara
