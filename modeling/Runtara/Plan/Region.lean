/-
  Region and merge analysis of the planner (`direct_wasm/plan.rs`).

  A region is the unconditional normal flow from a root: traversal stops at branching
  steps and at steps with conditioned edges, and never enters `stopAt`. Its order is
  Kahn's order (`Search.order`). The merge point of a set of branches is the first step,
  in breadth-first order of the first branch, that every branch reaches.
-/
import Runtara.Graph.ExecutionGraph
import Runtara.Search.Kahn

namespace Runtara

namespace DirectGraphManifest

variable (graph : DirectGraphManifest)

/-- `direct_has_conditioned_normal_flow_edges`. -/
def hasConditionedNormalFlowEdges (stepId : StepId) : Bool :=
  graph.edges.any fun edge =>
    edge.fromStep == stepId && isNormalLabel edge.label && edge.conditionId.isSome

/-- Whether the region traversal follows the edges of a step: the step exists, does not
branch, and has no conditioned normal-flow edge. -/
def continues (stepId : StepId) : Bool :=
  match graph.step? stepId with
  | none => false
  | some step => !(step.isBranching || graph.hasConditionedNormalFlowEdges stepId)

/-- The normal-flow edges of the graph as pairs of steps, in routing order. -/
def normalFlow : List (StepId × StepId) :=
  (graph.edges.filter fun edge => isNormalLabel edge.label).map
    fun edge => (edge.fromStep, edge.toStep)

def directExecutionOrder (root : StepId) (stopAt : Option StepId) : List StepId :=
  Search.order graph.normalFlow graph.continues stopAt root

def topoSuccessor (regionRoot : StepId) (stopAt : Option StepId) (fromStep : StepId) :
    Option StepId :=
  Search.successor graph.normalFlow graph.continues stopAt regionRoot fromStep

def directControlSuccessors (stepId : StepId) : List StepId :=
  match graph.step? stepId with
  | none => []
  | some step =>
    match step.kind with
    | .finish | .error => []
    | _ =>
      if step.isBranching then
        (graph.edges.filter fun edge =>
          edge.fromStep == stepId && edge.label != some "onError").map (·.toStep)
      else (graph.normalFlowEdges stepId).map (·.toStep)

/-- `direct_collect_reachable`. Each edge is pushed at most once, so the edge count bounds
the number of pops. -/
def directCollectReachable (start : StepId) : List StepId :=
  Search.collect graph.directControlSuccessors (graph.edges.length + 2) start

def directFindMergePoint (branchStarts : List (Option StepId)) : Option StepId :=
  match branchStarts.reduceOption.map graph.directCollectReachable with
  | first :: second :: rest =>
    first.find? fun stepId => (second :: rest).all fun set => set.contains stepId
  | _ => none

/-- Forward flow, for the single-entry test: every edge but `onError`, not into `stopAt`. -/
def forwardSuccessors (stopAt : Option StepId) (stepId : StepId) : List StepId :=
  (graph.edges.filter fun edge =>
    edge.fromStep == stepId && edge.label != some "onError" &&
      some edge.toStep != stopAt).map (·.toStep)

/-- The steps reached from `fromStep` by forward flow in one step or more. -/
def forwardReach (fromStep : StepId) (stopAt : Option StepId) : List StepId :=
  Search.discoverAux (graph.forwardSuccessors stopAt) (graph.edges.length + 1) []
    (Search.fresh [] (graph.forwardSuccessors stopAt fromStep))

def regionSingleEntry (fromStep : StepId) (stopAt : Option StepId) : Bool :=
  let reach := graph.forwardReach fromStep stopAt
  !graph.edges.any fun edge =>
    edge.label != some "onError" && reach.contains edge.toStep && edge.fromStep != fromStep
      && !reach.contains edge.fromStep

/-! ### Small facts about edges and regions -/

variable {graph : DirectGraphManifest}

theorem mem_normalFlow {x y : StepId} :
    (x, y) ∈ graph.normalFlow ↔ ∃ edge ∈ graph.normalFlowEdges x, edge.toStep = y := by
  simp only [normalFlow, normalFlowEdges, List.mem_map, List.mem_filter, Bool.and_eq_true,
    beq_iff_eq, Prod.mk.injEq]
  constructor
  · rintro ⟨edge, ⟨hmem, hnorm⟩, hx, hy⟩
    exact ⟨edge, ⟨hmem, hx, hnorm⟩, hy⟩
  · rintro ⟨edge, ⟨hmem, hx, hnorm⟩, hy⟩
    exact ⟨edge, ⟨hmem, hnorm⟩, hx, hy⟩

theorem targets_normalFlow (graph : DirectGraphManifest) (x : StepId) :
    Search.targets graph.normalFlow x = (graph.normalFlowEdges x).map (·.toStep) := by
  rw [Search.targets, normalFlow, normalFlowEdges, List.filterMap_map]
  induction graph.edges with
  | nil => rfl
  | cons edge edges ih =>
    by_cases hn : isNormalLabel edge.label = true
    · by_cases hx : edge.fromStep = x
      · simpa [List.filter_cons, hn, hx] using ih
      · simpa [List.filter_cons, hn, hx] using ih
    · simpa [List.filter_cons, hn] using ih

/-- The steps that can be found by name keep the name they were found by. -/
theorem id_of_step? {stepId : StepId} {step : Step} (h : graph.step? stepId = some step) :
    step.id = stepId := by
  simpa using List.find?_some h

theorem continues_iff {stepId : StepId} {step : Step} (h : graph.step? stepId = some step) :
    graph.continues stepId = true ↔
      step.isBranching = false ∧ graph.hasConditionedNormalFlowEdges stepId = false := by
  simp [continues, h]

end DirectGraphManifest

end Runtara
