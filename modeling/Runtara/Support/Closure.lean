/-
  What the closure checks of the validation are for.

  A workflow is compiled together with the workflows it embeds, in the versions its steps ask
  for. `ClosureSound` says what has to hold of such a closure: every embedded workflow is there,
  none embeds itself, and the ids of the embedding steps are all different. All graphs count,
  also those that `WaitForSignal` steps run while they wait.

  The checks of `validate_workflow_closure` do not look into the graphs of waiting steps, and
  look for cycles in one version of each workflow. `UnseenSound` is `ClosureSound` for what they
  do not look at.
-/
import Mathlib.Logic.Relation
import Runtara.Support.Validation

namespace Runtara

/-! ### Embedding steps -/

namespace ExecutionGraph

/-- The `EmbedWorkflow` steps of one graph, with their settings. -/
def embedConfigs (graph : ExecutionGraph) : List (StepId × EmbedConfig) :=
  graph.steps.filterMap fun step =>
    match step.kind with
    | .embedWorkflow config => some (step.id, config)
    | _ => none

/-- The `EmbedWorkflow` steps of a graph and of the graphs nested in it. -/
def nestedEmbedConfigs (onWait : Bool) (graph : ExecutionGraph) : List (StepId × EmbedConfig) :=
  collectNested onWait (fun g => (g.embedConfigs, true)) graph

/-- The graph a step runs while it waits. -/
def onWaitGraph? (step : Step) : Option ExecutionGraph :=
  match step.kind with
  | .waitForSignal graph? => graph?
  | _ => none

/-- The `EmbedWorkflow` steps that lie in the graph of a waiting step, at any depth. -/
def onWaitEmbedConfigs (graph : ExecutionGraph) : List (StepId × EmbedConfig) :=
  collectNested false (fun g =>
    ((g.steps.filterMap onWaitGraph?).flatMap (nestedEmbedConfigs true), true)) graph

end ExecutionGraph

/-! ### Closures -/

structure WorkflowReference where
  workflowId : String
  version : ℤ
deriving DecidableEq, Repr

/-- `DependencyGraph`, with the children of a workflow in the order in which they were added. -/
structure DependencyGraph where
  edges : List (WorkflowReference × WorkflowReference)

def DependencyGraph.detectCycles (graph : DependencyGraph) (start : WorkflowReference) :
    Except (List WorkflowReference) Unit :=
  match Runtara.detectCycles graph.edges (2 * graph.edges.length + 2) [start] [] [] with
  | .error cycle => .error cycle
  | .ok _ => .ok ()

/-- A root workflow with the versions of the workflows it embeds, and the version each request
resolves to. -/
structure WorkflowClosure where
  root : WorkflowReference
  graph : ExecutionGraph
  children : List ClosureChild
  /-- `resolve_version` against the stored versions of the workflow -/
  resolve : String → ChildVersion → Option ℤ

namespace WorkflowClosure

variable (c : WorkflowClosure)

/-- The graph of a workflow version. -/
def graphOf (r : WorkflowReference) : Option ExecutionGraph :=
  if r = c.root then some c.graph
  else (c.children.find? fun child =>
    (child.workflowId, child.version) = (r.workflowId, r.version)).map (·.executionGraph)

/-- The graph the checks take for a workflow, whatever the version. -/
def lookup : String → Option ExecutionGraph := childrenMap c.root.workflowId c.graph c.children

/-- The graphs of the closure, each version once. -/
def graphs : List ExecutionGraph := c.graph :: (uniqueChildren [] c.children).map (·.executionGraph)

/-- An `EmbedWorkflow` step asks for a workflow version. -/
def Requests (config : EmbedConfig) (r : WorkflowReference) : Prop :=
  config.childWorkflowId = r.workflowId
    ∧ c.resolve config.childWorkflowId config.childVersion = some r.version

/-- A workflow version embeds another. -/
def Embeds (r r' : WorkflowReference) : Prop :=
  ∃ g, c.graphOf r = some g ∧ ∃ e ∈ g.nestedEmbedConfigs true, c.Requests e.2 r'

/-- It does so where the checks do not look: in the graph of a waiting step, or in a version of
the workflow that is not the one they take. -/
def EmbedsUnseen (r r' : WorkflowReference) : Prop :=
  ∃ g, c.graphOf r = some g ∧ ∃ e, c.Requests e.2 r'
    ∧ (e ∈ g.onWaitEmbedConfigs ∨ e ∈ g.nestedEmbedConfigs true ∧ c.lookup r.workflowId ≠ some g)

/-- The embeddings the checks can see, by workflow ids. -/
def visibleEdges : List (String × String) :=
  (c.graph.nestedEmbedSteps false).map (fun e => (c.root.workflowId, e.2)) ++
    c.children.flatMap fun child =>
      (child.executionGraph.nestedEmbedSteps false).map fun e => (child.workflowId, e.2)

/-- Enough fuel for the searches of the validation. -/
def validationFuel : ℕ := 4 * c.visibleEdges.length + 2

/-- The ids of all embedding steps of the closure. -/
def embedStepIds : List StepId := (c.graphs.flatMap (·.nestedEmbedConfigs true)).map Prod.fst

end WorkflowClosure

/-- The closure can be compiled, as far as embedding goes. -/
structure ClosureSound (c : WorkflowClosure) : Prop where
  /-- every embedded workflow is present -/
  present : ∀ g ∈ c.graphs, ∀ e ∈ g.nestedEmbedConfigs true, (c.lookup e.2.childWorkflowId).isSome
  /-- no workflow version reachable from the root embeds itself, directly or through others -/
  acyclic : ∀ r, Relation.ReflTransGen c.Embeds c.root r → ¬ Relation.TransGen c.Embeds r r
  /-- no step id is used by two embedding steps -/
  unique : c.embedStepIds.Nodup

/-- The same for the embedding steps the checks do not see. -/
structure UnseenSound (c : WorkflowClosure) : Prop where
  present : ∀ g ∈ c.graphs, ∀ e ∈ g.onWaitEmbedConfigs, (c.lookup e.2.childWorkflowId).isSome
  acyclic : ∀ r r' r'', Relation.ReflTransGen c.Embeds c.root r → c.EmbedsUnseen r r' →
    Relation.ReflTransGen c.Embeds r' r'' → ¬ Relation.TransGen c.Embeds r'' r''
  unique : ∀ g ∈ c.graphs, ∀ e ∈ g.onWaitEmbedConfigs, c.embedStepIds.count e.1 ≤ 1

end Runtara
