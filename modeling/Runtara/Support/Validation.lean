/-
  Workflow validation, the phases that look at control flow (`validation.rs`): graph
  structure, edge endpoints, edge conditions, and the closure checks over embedded
  children. The other phases (references in mappings, agent capabilities, configuration,
  step names, templates) read data the graph model leaves out.

  The phases recurse into `Split` and `While` subgraphs and not into `onWait` graphs.
-/
import Runtara.Graph.ExecutionGraph
import Runtara.Search.Discover

namespace Runtara

/-- `ValidationError`, the control-flow errors. -/
inductive ValidationError where
  | emptyWorkflow
  | entryPointNotFound (entryPoint : StepId) (availableSteps : List StepId)
  | unreachableFinish (stepId entryPoint : StepId) (definedEdges : ℕ)
  | unreachableStep (stepId : StepId)
  | edgeReferencesUnknownStep (fromStep toStep : StepId) (endpoint : String) (missingStep : StepId)
      (label : Option String) (availableSteps : List StepId)
  | invalidConditionalEdge (fromStep toStep : StepId) (label : Option String) (reason : String)
  | multipleDefaultEdges (fromStep : StepId) (label : Option String) (targets : List StepId)
  | parallelFanoutNoMerge (fromStep : StepId) (targets : List StepId)
  | duplicateEdgePriority (fromStep : StepId) (label : Option String) (priority : ℤ)
      (duplicateTargets : List StepId)
  | missingChildWorkflow (stepId : StepId) (childWorkflowId : String)
  | circularDependency (cyclePath : List String)
  | duplicateEmbedStepId (stepId : StepId)
deriving DecidableEq, Repr

namespace ExecutionGraph

variable (graph : ExecutionGraph)

/-! ### Structure -/

/-- `compute_reachable_steps`: along every edge. The source pops from the back of its
queue; only the set matters. -/
def computeReachableSteps : List StepId :=
  Search.discover (fun stepId => (graph.executionPlan.filter (·.fromStep == stepId)).map (·.toStep))
    (graph.executionPlan.length + 2) graph.entryPoint

/-- The errors of the steps that the entry point does not reach. -/
def unreachableErrors : List ValidationError :=
  let reachable := graph.computeReachableSteps
  graph.steps.filterMap fun step =>
    if reachable.contains step.id then none
    else match step.kind with
      | .finish => some (.unreachableFinish step.id graph.entryPoint graph.executionPlan.length)
      | _ => some (.unreachableStep step.id)

/-- `validate_graph_structure`: an empty graph or a missing entry point ends the check. -/
def validateGraphStructure : List ValidationError :=
  collectNested false (fun g =>
    if g.steps.isEmpty then ([.emptyWorkflow], false)
    else if !g.hasStep g.entryPoint then
      ([.entryPointNotFound g.entryPoint (g.steps.map (·.id))], false)
    else (g.unreachableErrors, true)) graph

def validateEdgeEndpoints : List ValidationError :=
  collectNested false (fun g =>
    let available := (g.steps.map (·.id)).insertionSort (· ≤ ·)
    (g.executionPlan.flatMap fun edge =>
      (if g.hasStep edge.fromStep then [] else
        [.edgeReferencesUnknownStep edge.fromStep edge.toStep "fromStep" edge.fromStep edge.label
          available]) ++
      (if g.hasStep edge.toStep then [] else
        [.edgeReferencesUnknownStep edge.fromStep edge.toStep "toStep" edge.toStep edge.label
          available]), true)) graph

/-! ### Edge conditions -/

def isConditional (stepId : StepId) : Bool :=
  match graph.step? stepId with
  | some step => match step.kind with
    | .conditional => true
    | _ => false
  | none => false

/-- `validate_conditional_branch_edges`: the reason an edge of a `Conditional` is invalid. -/
def conditionalEdgeError (edge : ExecutionPlanEdge) : Option ValidationError :=
  if !graph.isConditional edge.fromStep then none
  else
    let invalid := ValidationError.invalidConditionalEdge edge.fromStep edge.toStep edge.label
    if edge.label != some "true" && edge.label != some "false" then
      some (invalid
        ("Conditional steps route only through edges labeled 'true' or 'false'; put the " ++
          "predicate in the step.condition, not in edge.condition."))
    else if edge.condition then
      some (invalid
        ("Conditional true/false branch edges must not define edge.condition; the " ++
          "step.condition chooses the branch."))
    else if edge.priority.isSome then
      some (invalid
        ("Conditional true/false branch edges must not define priority; branch labels are " ++
          "mutually exclusive."))
    else none

/-- The label an edge is grouped by: `next` stands for no label. -/
def groupLabel (edge : ExecutionPlanEdge) : Option String :=
  if edge.label = some "next" then none else edge.label

/-- The groups of edges with the same source and label, with more than one edge. -/
def edgeGroups : List ((StepId × Option String) × List ExecutionPlanEdge) :=
  ((graph.executionPlan.map fun edge => (edge.fromStep, groupLabel edge)).dedup.map fun key =>
    (key, graph.executionPlan.filter fun edge => (edge.fromStep, groupLabel edge) = key)).filter
      fun g => g.2.length > 1

/-- `reachable_over_normal_flow`: along every edge but `onError`. -/
def reachableOverNormalFlow (start : StepId) : List StepId :=
  Search.discover (fun stepId => (graph.executionPlan.filter fun edge =>
    edge.fromStep == stepId && edge.label != some "onError").map (·.toStep))
    (graph.executionPlan.length + 2) start

def parallelBranchesReconverge (branchStarts : List StepId) : Bool :=
  match branchStarts.map graph.reachableOverNormalFlow with
  | first :: second :: rest => first.any fun node => (second :: rest).all (·.contains node)
  | _ => false

/-- The priorities that two conditioned edges of a group share. -/
def duplicatePriorities (conditioned : List ExecutionPlanEdge) : List (ℤ × List StepId) :=
  (((conditioned.map fun edge => edge.priority.getD 0).dedup.map fun priority =>
    (priority, (conditioned.filter fun edge => edge.priority.getD 0 = priority).map
      (·.toStep))).filter
      fun p => p.2.length > 1)

/-- The errors of one group of edges. The labels of a `Conditional` are exclusive. -/
def edgeGroupErrors (group : (StepId × Option String) × List ExecutionPlanEdge) :
    List ValidationError :=
  let fromStep := group.1.1
  let label := group.1.2
  if graph.isConditional fromStep then
    if label = some "true" || label = some "false" then
      [.multipleDefaultEdges fromStep label (group.2.map (·.toStep))]
    else []
  else
    let conditioned := group.2.filter (·.condition)
    let defaults := group.2.filter fun edge => !edge.condition
    let targets := defaults.map (·.toStep)
    (if defaults.length > 1 && (label.isSome || !conditioned.isEmpty) then
      [.multipleDefaultEdges fromStep label targets] else []) ++
    (if label.isNone && conditioned.isEmpty && defaults.length > 1 &&
        !graph.parallelBranchesReconverge targets then
      [.parallelFanoutNoMerge fromStep targets] else []) ++
    (duplicatePriorities conditioned).map fun p => .duplicateEdgePriority fromStep label p.1 p.2

def validateEdgeConditions : List ValidationError :=
  collectNested false (fun g =>
    (g.executionPlan.filterMap g.conditionalEdgeError ++ g.edgeGroups.flatMap g.edgeGroupErrors,
      true)) graph

/-- `validate_workflow`, the control-flow phases. -/
def validateWorkflow : List ValidationError :=
  graph.validateGraphStructure ++ graph.validateEdgeEndpoints ++ graph.validateEdgeConditions

end ExecutionGraph

/-! ### The closure of embedded children -/

/-- `ClosureChildGraph`. -/
structure ClosureChild where
  workflowId : String
  version : ℤ
  executionGraph : ExecutionGraph

/-- The children by workflow id: the root first, then the first child of each id. -/
def childrenMap (rootWorkflowId : String) (root : ExecutionGraph) (children : List ClosureChild)
    (workflowId : String) : Option ExecutionGraph :=
  (((rootWorkflowId, root) :: children.map fun c => (c.workflowId, c.executionGraph)).find?
    fun c => c.1 == workflowId).map Prod.snd

def reportMissingChildReferences (lookup : String → Option ExecutionGraph)
    (graph : ExecutionGraph) :
    List ValidationError :=
  (graph.nestedEmbedSteps false).filterMap fun e =>
    if (lookup e.2).isSome then none else some (.missingChildWorkflow e.1 e.2)

/-- `build_dependency_graph`: the embed edges between workflows, each workflow expanded once.
Returns the edges and the workflows visited. -/
def buildDependencyGraph (lookup : String → Option ExecutionGraph) :
    ℕ → String → List (StepId × String) → List (String × String) × List String →
      List (String × String) × List String
  | 0, _, _, acc => acc
  | _ + 1, _, [], acc => acc
  | fuel + 1, parent, (_, child) :: rest, (deps, visited) =>
    let acc := (deps ++ [(parent, child)], visited)
    let acc' :=
      if child ∈ visited then acc
      else match lookup child with
        | some graph => buildDependencyGraph lookup fuel child (graph.nestedEmbedSteps false)
            (acc.1, child :: visited)
        | none => (acc.1, child :: visited)
    buildDependencyGraph lookup fuel parent rest acc'

/-- `DependencyGraph::dfs`: the explored nodes, or the cycle found. -/
def detectCycles {α : Type} [DecidableEq α] (deps : List (α × α)) :
    ℕ → List α → List α → List α → Except (List α) (List α)
  | 0, _, _, visited => .ok visited
  | _ + 1, [], _, visited => .ok visited
  | fuel + 1, node :: siblings, path, visited =>
    if node ∈ path then .error ((path.dropWhile (· != node)) ++ [node])
    else if node ∈ visited then detectCycles deps fuel siblings path visited
    else
      match detectCycles deps fuel ((deps.filter (·.1 == node)).map Prod.snd)
        (path ++ [node]) visited with
      | .error cycle => .error cycle
      | .ok visited' => detectCycles deps fuel siblings path (node :: visited')

def validateClosureCycles (fuel : ℕ) (rootWorkflowId : String) (root : ExecutionGraph)
    (lookup : String → Option ExecutionGraph) : List ValidationError :=
  let deps :=
    (buildDependencyGraph lookup fuel rootWorkflowId (root.nestedEmbedSteps false) ([], [])).1
  match detectCycles deps fuel [rootWorkflowId] [] [] with
  | .error cycle => if cycle.isEmpty then [] else [.circularDependency cycle]
  | .ok _ => []

/-- The children with each workflow id and version kept once. -/
def uniqueChildren : List (String × ℤ) → List ClosureChild → List ClosureChild
  | _, [] => []
  | seen, child :: rest =>
    if (child.workflowId, child.version) ∈ seen then uniqueChildren seen rest
    else child :: uniqueChildren ((child.workflowId, child.version) :: seen) rest

/-- The embed step ids used more than once in the closure. -/
def duplicateEmbedErrors (graphs : List ExecutionGraph) : List ValidationError :=
  let ids := (graphs.flatMap fun g => g.nestedEmbedSteps false).map Prod.fst
  ((ids.filter fun s => ids.count s > 1).dedup.insertionSort (· ≤ ·)).map .duplicateEmbedStepId

/-- `validate_workflow_closure`: all errors, of the root and of its children. -/
def validateWorkflowClosure (fuel : ℕ) (rootWorkflowId : String) (root : ExecutionGraph)
    (children : List ClosureChild) : List ValidationError :=
  let lookup := childrenMap rootWorkflowId root children
  let unique := uniqueChildren [] children
  root.validateWorkflow ++ reportMissingChildReferences lookup root ++
    validateClosureCycles fuel rootWorkflowId root lookup ++
    (unique.flatMap fun child => child.executionGraph.validateWorkflow ++
      reportMissingChildReferences lookup child.executionGraph) ++
    duplicateEmbedErrors (root :: unique.map (·.executionGraph))

end Runtara
