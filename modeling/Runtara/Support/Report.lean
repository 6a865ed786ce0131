/-
  The support report (`analyze_direct_wasm_support_with_child_workflows`): the features of
  a graph, its nested graphs and its embedded children that the emitter does not lower. A
  graph is supported when the report is empty.
-/
import Runtara.Support.Gate

namespace Runtara

/-- `step_type_name`. -/
def StepOf.typeName {G : Type} (step : StepOf G) : String :=
  match step.kind with
  | .finish => "Finish"
  | .error => "Error"
  | .conditional => "Conditional"
  | .filter => "Filter"
  | .groupBy => "GroupBy"
  | .log => "Log"
  | .delay _ => "Delay"
  | .switch _ => "Switch"
  | .split _ _ => "Split"
  | .whileLoop _ _ => "While"
  | .embedWorkflow _ => "EmbedWorkflow"
  | .waitForSignal _ => "WaitForSignal"
  | .agent _ => "Agent"
  | .aiAgent _ => "AiAgent"

structure UnsupportedWorkflowFeature where
  stepId : Option StepId
  stepType : Option String
  feature : String
  reason : String
deriving DecidableEq, Repr

section Report

variable (children : List ChildWorkflow)

/-- `child_closure_has_cycle_inner`: the children embedded below a step, followed through
the nested graphs, come back to a step on the stack. -/
def childClosureHasCycle : ℕ → List StepId → StepId → Bool
  | 0, _, _ => true
  | fuel + 1, stack, stepId =>
    if stepId ∈ stack then true
    else match supportChild? children stepId with
      | none => false
      | some child => (child.nestedEmbedSteps true).any fun e =>
        childClosureHasCycle fuel (stepId :: stack) e.1

variable (graph : ExecutionGraph)

/-- The edges with an endpoint that names no step. -/
def danglingEdges : List ExecutionPlanEdge :=
  graph.executionPlan.filter fun edge => !graph.hasStep edge.fromStep || !graph.hasStep edge.toStep

def unknownStepFeature (edge : ExecutionPlanEdge) : UnsupportedWorkflowFeature :=
  let missing := if !graph.hasStep edge.fromStep then edge.fromStep else edge.toStep
  { stepId := some missing
    stepType := none
    feature := "execution-plan-unknown-step"
    reason := "execution plan edge '" ++ edge.fromStep ++ "' -> '" ++ edge.toStep ++
      "' references step '" ++ missing ++ "', which does not exist in steps" }

/-- An entry at the source of an edge. -/
def edgeFeature (edge : ExecutionPlanEdge) (feature reason : String) :
    UnsupportedWorkflowFeature where
  stepId := some edge.fromStep
  stepType := (graph.step? edge.fromStep).map StepOf.typeName
  feature := feature
  reason := reason

/-- `unsupported_step`. -/
def stepFeature (step : Step) (feature reason : String) : UnsupportedWorkflowFeature where
  stepId := some step.id
  stepType := some step.typeName
  feature := feature
  reason := reason

/-- The entries of one edge for its condition and its `onError` routing. -/
def edgeShapeFeatures (subWithoutChildren : ExecutionGraph → List StepId → Bool)
    (edge : ExecutionPlanEdge) : List UnsupportedWorkflowFeature :=
  if !graph.hasStep edge.fromStep then []
  else
    let isOnError := edge.label == some "onError"
    let onErrorShape := onErrorRouteShapeSupported graph subWithoutChildren edge.fromStep
    let conditionShape :=
      if isOnError then onErrorShape else graph.edgeConditionRouteShapeSupported edge.fromStep
    (if edge.condition && !conditionShape then
      [edgeFeature graph edge "edge-condition" (if isOnError then
        ("direct emitter supports onError edge conditions only for Agent, AiAgent, " ++
          "EmbedWorkflow, Split, While, and WaitForSignal sources with at most one default " ++
          "fallback")
      else
        ("direct emitter supports edge-condition routing only for normal/next edges with " ++
          "exactly one default fallback"))]
    else []) ++
    (if isOnError && !onErrorShape then
      [edgeFeature graph edge "error-handler-edge"
        ("direct onError routing currently supports Agent, AiAgent, EmbedWorkflow, Split, " ++
          "While, and WaitForSignal sources with at most one default handler")]
    else [])

/-- The entries of the routing of a graph as a whole. -/
def routingFeatures (directControl : Bool)
    (subWithoutChildren : ExecutionGraph → List StepId → Bool) :
    List UnsupportedWorkflowFeature :=
  let dangling := danglingEdges graph
  let finishes := graph.steps.filter fun step => match step.kind with
    | .finish => true
    | _ => false
  dangling.map (unknownStepFeature graph) ++
  (if !directControl && dangling.isEmpty then
    graph.executionPlan.map fun edge => edgeFeature graph edge "execution-plan-routing"
      ("direct emitter currently lowers only a single entry Finish or Error step, pure " ++
        "Conditional true/false trees, normal Filter/value " ++
        "Switch/GroupBy/Delay/WaitForSignal/Log edges, and routing Switch dispatch trees " ++
        "ending in Finish/Error leaves")
  else []) ++
  (if finishes.length > 1 && !directControl && dangling.isEmpty then
    finishes.map fun step => stepFeature step "multiple-finish-steps"
      "direct emitter currently lowers only the entry Finish step"
  else []) ++
  graph.executionPlan.flatMap (edgeShapeFeatures graph subWithoutChildren)

/-- `collect_embed_workflow_step_unsupported`. -/
def embedFeatures (fuel : ℕ) (step : Step) : List UnsupportedWorkflowFeature :=
  match supportChild? children step.id with
  | none => [stepFeature step "embed-workflow-missing-child"
      "direct EmbedWorkflow lowering requires a preloaded static child graph for this call-site"]
  | some child =>
    if childClosureHasCycle children fuel [] step.id then
      [stepFeature step "embed-workflow-child-cycle"
        "static EmbedWorkflow child closures must be acyclic for direct inline lowering"]
    else if !supportsDirectControlGraphInner children fuel child [step.id] then
      [stepFeature step "embed-workflow-child-unsupported"
        ("the embedded child workflow does not compile on its own (it is not " ++
          "directly-lowerable); compile the child workflow directly to see its specific " ++
          "failure — this is not a problem with the parent's EmbedWorkflow step")]
    else []

/-- `collect_step_support`. `collect` is the report of a nested or embedded graph. -/
def stepFeatures (fuel : ℕ) (collect : ExecutionGraph → List UnsupportedWorkflowFeature)
    (directControl : Bool) (step : Step) : List UnsupportedWorkflowFeature :=
  let unlessRouted (feature reason : String) :=
    if directControl then [] else [stepFeature step feature reason]
  match step.kind with
  | .finish | .agent _ | .delay _ => []
  | .conditional => unlessRouted "conditional"
      "Conditional steps require stdlib condition evaluation and branch lowering"
  | .filter => unlessRouted "filter"
      "Filter steps require stdlib condition evaluation over array items"
  | .switch _ => if step.isRouting then unlessRouted "switch-routing"
        "Routing Switch steps require direct route dispatch lowering"
      else unlessRouted "switch" "Switch steps require value-switch stdlib lowering"
  | .groupBy => unlessRouted "group-by" "GroupBy steps require stdlib grouping semantics"
  | .log => unlessRouted "log-event" "Log steps require runtime custom-event support"
  | .error => unlessRouted "explicit-error" "Error steps require runtime failure envelope support"
  | .split _ subgraph | .whileLoop _ subgraph => collect subgraph
  | .embedWorkflow _ =>
    if supportsEmbedWorkflowStepBaseline (supportsDirectControlGraphInner children fuel) children []
        step.id then
      match supportChild? children step.id with
      | some child => collect child
      | none => []
    else embedFeatures children fuel step
  | .waitForSignal none => []
  | .waitForSignal (some onWait) =>
    (if !supportsDirectControlGraph children fuel onWait then
      [stepFeature step "wait-for-signal-on-wait-shape"
        "WaitForSignal onWait subgraphs must use a direct-control supported shape"]
    else []) ++ collect onWait
  | .aiAgent config =>
    if supportsAiAgentStepBaseline (supportsDirectControlGraphInner children fuel) children graph
        step.id config then []
    else [stepFeature step "ai-agent"
      ("AiAgent step configuration is not lowerable: config must be present; mcp.* edges must " ++
        "target Agent steps with agentId \"mcp\"; the memory edge must target an Agent step " ++
        "and match config.memory; tool edges must target Agent steps, compilable EmbedWorkflow " ++
        "steps, or WaitForSignal steps")]

end Report

/-- `collect_graph_support_inner`. A graph nested deeper than the fuel is reported as not
routable. -/
def collectGraphSupport (children : List ChildWorkflow) :
    ℕ → ExecutionGraph → List UnsupportedWorkflowFeature
  | 0, _ => [⟨none, none, "execution-plan-routing", "out of fuel"⟩]
  | fuel + 1, graph =>
    let directControl := supportsDirectControlGraph children (fuel + 1) graph
    routingFeatures graph directControl (supportsDirectControlGraphInner [] (fuel + 1)) ++
      graph.steps.flatMap (stepFeatures children graph (fuel + 1)
        (collectGraphSupport children fuel)
        (directControl || !(danglingEdges graph).isEmpty))

/-- The step ids that name more than one preloaded child. -/
def duplicateChildIds (children : List ChildWorkflow) : List StepId :=
  ((children.map (·.stepId)).filter fun s => (children.map (·.stepId)).count s > 1).dedup

/-- The entries for call sites with more than one preloaded child. -/
def duplicateChildFeatures (graph : ExecutionGraph) (children : List ChildWorkflow) :
    List UnsupportedWorkflowFeature :=
  let embedStepIds := ((graph :: children.map (·.executionGraph)).flatMap
    (·.nestedEmbedSteps true)).map Prod.fst
  ((duplicateChildIds children).filter embedStepIds.contains).map fun stepId =>
    { stepId := some stepId
      stepType := some "EmbedWorkflow"
      feature := "embed-workflow-duplicate-child"
      reason :=
        ("direct EmbedWorkflow lowering requires exactly one preloaded child graph per " ++
          "call-site step id") }

/-- `analyze_direct_wasm_support_with_child_workflows`: the unsupported features, sorted by
step, step type and feature. -/
def analyzeDirectWasmSupport (fuel : ℕ) (graph : ExecutionGraph) (children : List ChildWorkflow) :
    List UnsupportedWorkflowFeature :=
  (duplicateChildFeatures graph children ++ collectGraphSupport children fuel graph).insertionSort
    fun left right =>
      ((compare (left.stepId.getD "") (right.stepId.getD ""))
        |>.then (compare (left.stepType.getD "") (right.stepType.getD ""))
        |>.then (compare left.feature right.feature)).isLE = true

/-- The `supported` flag of the report. -/
def directWasmSupported (fuel : ℕ) (graph : ExecutionGraph) (children : List ChildWorkflow) :
    Bool :=
  (analyzeDirectWasmSupport fuel graph children).isEmpty

end Runtara
