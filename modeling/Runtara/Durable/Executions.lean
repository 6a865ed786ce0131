/-
  Durable executions of a workflow.

  An execution is a durable operation at the end of a path of frames: the iterations, the `onWait`
  graphs and the children that the run is inside of. `Located` says which paths a program has, and
  `Performs` which operations the steps of a graph have. A `DurableRun` has what the program does
  not determine: the data of every scope, what the `variables` of a loop evaluate to, and the arena
  that `build_source` meets. `DurableRun.key` is the key that the builders make.
-/
import Runtara.Durable.Keys
import Runtara.Plan.Build

namespace Runtara

open Json

/-! ### Programs -/

/-- A compiled workflow: its graph, the graphs of its `EmbedWorkflow` steps, and the capability of
each agent entry of the manifest. -/
structure Artifact where
  workflowId : String
  graph : ExecutionGraph
  children : List ChildWorkflow
  capabilityId : ℕ → String

/-- A workflow with the workflows that are published as agents. -/
structure Program where
  root : Artifact
  published : String → Option Artifact

def Artifact.child? (artifact : Artifact) (stepId : StepId) : Option ExecutionGraph :=
  (artifact.children.find? fun child => child.stepId = stepId).map ChildWorkflow.executionGraph

/-- A graph of a program, with the durability that is inherited. -/
structure Place where
  artifact : Artifact
  inheritedDurable : Bool
  graph : ExecutionGraph

namespace Place

def durable (p : Place) : Bool := p.graph.durable.getD p.inheritedDurable

def nested (p : Place) (graph : ExecutionGraph) : Place := ⟨p.artifact, p.durable, graph⟩

def ofArtifact (artifact : Artifact) : Place :=
  ⟨artifact, artifact.graph.durable.getD true, artifact.graph⟩

def embedded (p : Place) (graph : ExecutionGraph) : Place :=
  ⟨p.artifact, graph.durable.getD true, graph⟩

/-- An `AiAgent` step has a tool under this label, with the target as its step. -/
def HasTool (p : Place) (aiStepId : StepId) (label : String) (target : Step) : Prop :=
  (∃ breakpoint config, (⟨aiStepId, breakpoint, .aiAgent config⟩ : Step) ∈ p.graph.steps) ∧
    target ∈ p.graph.steps ∧
    (label, target.id) ∈ aiAgentToolEdges (graphManifest p.inheritedDurable p.graph) aiStepId

end Place

/-! ### Frames and operations -/

/-- What an execution can be inside of. -/
inductive Frame where
  | split (stepId : StepId) (index : UInt32)
  | whileLoop (stepId : StepId) (index : UInt32)
  | onWait (stepId : StepId)
  | embed (stepId : StepId)
  | embedTool (stepId : StepId) (call : UInt32)
  | composed (stepId : StepId)
  | composedTool (aiStepId : StepId) (label : String) (call : UInt32)
deriving DecidableEq, Repr

/-- The operations whose result is cached. -/
inductive CachedOperation where
  | agent (agentId capabilityId : String) (stepId : StepId)
  | split (stepId : StepId)
  | embed (stepId : StepId)
deriving DecidableEq, Repr

/-- The keys that are derived from a cached operation. -/
inductive Derived where
  | result
  | attempt (number : UInt32)
  | retrySleep (number : UInt32)
deriving DecidableEq, Repr

/-- A durable operation. -/
inductive Operation where
  | cached (operation : CachedOperation) (derived : Derived)
  | delay (stepId : StepId)
  | turn (stepId : StepId) (iteration : UInt32)
  | breakpoint (stepId : StepId)
  | wait (stepId : StepId)
  | waitTool (aiStepId : StepId) (label : String) (call : UInt32)
deriving DecidableEq, Repr

/-- A durable operation with the frames around it, the innermost first. -/
structure Execution where
  frames : List Frame
  operation : Operation
deriving DecidableEq, Repr

/-- The graph that a frame leads to. -/
inductive Enters (P : Program) (p : Place) : Frame → Place → Prop
  | split {stepId breakpoint config graph} (index : UInt32)
      (h : ⟨stepId, breakpoint, .split config graph⟩ ∈ p.graph.steps) :
      Enters P p (.split stepId index) (p.nested graph)
  | whileLoop {stepId breakpoint timeout graph} (index : UInt32)
      (h : ⟨stepId, breakpoint, .whileLoop timeout graph⟩ ∈ p.graph.steps) :
      Enters P p (.whileLoop stepId index) (p.nested graph)
  | onWait {stepId breakpoint graph}
      (h : ⟨stepId, breakpoint, .waitForSignal (some graph)⟩ ∈ p.graph.steps) :
      Enters P p (.onWait stepId) (p.nested graph)
  | embed {stepId breakpoint config graph}
      (h : ⟨stepId, breakpoint, .embedWorkflow config⟩ ∈ p.graph.steps)
      (hchild : p.artifact.child? stepId = some graph) :
      Enters P p (.embed stepId) (p.embedded graph)
  | embedTool {aiStepId label stepId breakpoint config graph} (call : UInt32)
      (h : p.HasTool aiStepId label ⟨stepId, breakpoint, .embedWorkflow config⟩)
      (hchild : p.artifact.child? stepId = some graph) :
      Enters P p (.embedTool stepId call) (p.embedded graph)
  | composed {stepId breakpoint config artifact}
      (h : ⟨stepId, breakpoint, .agent config⟩ ∈ p.graph.steps)
      (hpublished : P.published config.agentId = some artifact) :
      Enters P p (.composed stepId) (.ofArtifact artifact)
  | composedTool {aiStepId label stepId breakpoint config artifact} (call : UInt32)
      (h : p.HasTool aiStepId label ⟨stepId, breakpoint, .agent config⟩)
      (hpublished : P.published config.agentId = some artifact) :
      Enters P p (.composedTool aiStepId label call) (.ofArtifact artifact)

/-- The graph at the end of a path of frames. -/
inductive Located (P : Program) : List Frame → Place → Prop
  | root : Located P [] (.ofArtifact P.root)
  | enter {frames p f p'} (h : Located P frames p) (henter : Enters P p f p') :
      Located P (f :: frames) p'

/-- The durable operations of the steps of a graph. An `AiAgent` step is cached like an agent or has
turns. A wait has a signal id whether or not the graph is durable. -/
inductive Performs (p : Place) : Operation → Prop
  | agent {stepId breakpoint config} (derived : Derived)
      (h : ⟨stepId, breakpoint, .agent config⟩ ∈ p.graph.steps)
      (hdurable : p.durable = true ∧ config.durable.getD true = true) :
      Performs p (.cached (.agent config.agentId (p.artifact.capabilityId config.manifestId) stepId)
        derived)
  | aiAgent {stepId breakpoint config} (derived : Derived)
      (h : ⟨stepId, breakpoint, .aiAgent config⟩ ∈ p.graph.steps)
      (hdurable : p.durable = true ∧ config.durable.getD true = true) :
      Performs p (.cached (.agent "ai-tools" (p.artifact.capabilityId config.manifestId) stepId)
        derived)
  | split {stepId breakpoint config graph} (derived : Derived)
      (h : ⟨stepId, breakpoint, .split config graph⟩ ∈ p.graph.steps)
      (hdurable : p.durable = true ∧ config.durable.getD true = true) :
      Performs p (.cached (.split stepId) derived)
  | embed {stepId breakpoint config} (derived : Derived)
      (h : ⟨stepId, breakpoint, .embedWorkflow config⟩ ∈ p.graph.steps)
      (hdurable : p.durable = true ∧ config.durable.getD true = true) :
      Performs p (.cached (.embed stepId) derived)
  | delay {stepId breakpoint durable}
      (h : ⟨stepId, breakpoint, .delay durable⟩ ∈ p.graph.steps)
      (hdurable : p.durable = true ∧ durable.getD true = true) : Performs p (.delay stepId)
  | turn {stepId breakpoint config} (iteration : UInt32)
      (h : ⟨stepId, breakpoint, .aiAgent config⟩ ∈ p.graph.steps)
      (hdurable : p.durable = true ∧ config.durable.getD true = true) :
      Performs p (.turn stepId iteration)
  | breakpoint {stepId kind} (h : ⟨stepId, true, kind⟩ ∈ p.graph.steps)
      (hdurable : p.durable = true) : Performs p (.breakpoint stepId)
  | wait {stepId breakpoint onWait}
      (h : ⟨stepId, breakpoint, .waitForSignal onWait⟩ ∈ p.graph.steps) : Performs p (.wait stepId)
  | waitTool {aiStepId label stepId breakpoint onWait} (call : UInt32)
      (h : p.HasTool aiStepId label ⟨stepId, breakpoint, .waitForSignal onWait⟩) :
      Performs p (.waitTool aiStepId label call)

/-- An execution of the program, at the given place. -/
structure Program.Executes (P : Program) (e : Execution) (p : Place) : Prop where
  located : Located P e.frames p
  performs : Performs p e.operation

/-! ### The key of an execution -/

/-- What a run has beside the program, by the frames of a scope. `data` is the data of the scope
(for a composed child the input before it is put into the envelope), `extra` what the `variables` of
a loop evaluate to, `outputs` the state of a `While`, and `declared` the declared variables of an
artifact or of an embedded child. The source of the breakpoint of an `EmbedWorkflow` step is built
with the data of the child. -/
structure DurableRun (ν : Type) where
  env : ProcessEnv
  contentHash : String → UInt64
  instanceId : String
  arena : List Frame → Arena
  data : List Frame → Value ν
  steps : List Frame → Value ν
  extra : List Frame → Option (Value ν)
  outputs : List Frame → Value ν
  declared : List Frame → Entries ν
  workflowId : List Frame → String
  breakpointData : Execution → Option (Value ν)

namespace DurableRun

variable {ν : Type} [NumberOps ν] (r : DurableRun ν)

/-- The source of a scope with the given data and variables. -/
def build (frames : List Frame) (data : Value ν) (vars : Entries ν) : Value ν :=
  (r.arena frames).scopeSource r.env r.contentHash data (.object vars) (r.steps frames)

/-- The variables that `build_source` is called with, and the data. -/
def scope : List Frame → Value ν × Entries ν
  | [] => (r.data [], directCoreVariables (r.workflowId []) (r.declared []))
  | .split stepId index :: frames =>
    let source := r.build frames (scope frames).1 (scope frames).2
    let item := r.data (.split stepId index :: frames)
    (item, splitIterationVariables stepId
      (r.extra (.split stepId index :: frames)) source item index)
  | .whileLoop stepId index :: frames =>
    let source := r.build frames (scope frames).1 (scope frames).2
    (r.data (.whileLoop stepId index :: frames),
      whileIterationVariables stepId (r.extra (.whileLoop stepId index :: frames)) source
        (r.outputs (.whileLoop stepId index :: frames)) index)
  | .onWait stepId :: frames =>
    let source := r.build frames (scope frames).1 (scope frames).2
    ((scope frames).1,
      waitOnWaitVariables r.instanceId (waitSignalId stepId r.instanceId source) source)
  | .embed stepId :: frames =>
    let source := r.build frames (scope frames).1 (scope frames).2
    (r.data (.embed stepId :: frames),
      embedChildVariables stepId (.object (r.declared (.embed stepId :: frames))) source)
  | .embedTool stepId call :: frames =>
    let source := r.build frames (scope frames).1 (scope frames).2
    (r.data (.embedTool stepId call :: frames),
      embedChildVariables stepId (.object (r.declared (.embedTool stepId call :: frames))) source)
  | .composed stepId :: frames =>
    let source := r.build frames (scope frames).1 (scope frames).2
    (agentScopeInput stepId (r.data (.composed stepId :: frames)) source,
      directCoreVariables (r.workflowId (.composed stepId :: frames))
        (r.declared (.composed stepId :: frames)))
  | .composedTool aiStepId label call :: frames =>
    let source := r.build frames (scope frames).1 (scope frames).2
    (agentScopeInput (toolSite aiStepId label call)
        (r.data (.composedTool aiStepId label call :: frames)) source,
      directCoreVariables (r.workflowId (.composedTool aiStepId label call :: frames))
        (r.declared (.composedTool aiStepId label call :: frames)))

def source (frames : List Frame) : Value ν :=
  r.build frames (r.scope frames).1 (r.scope frames).2

def cacheKey (source : Value ν) : CachedOperation → String
  | .agent agentId capabilityId stepId => agentCacheKey agentId capabilityId stepId source
  | .split stepId => splitCacheKey stepId source
  | .embed stepId => embedWorkflowCacheKey stepId source

def key (e : Execution) : String :=
  match e.operation with
  | .cached operation .result => cacheKey (r.source e.frames) operation
  | .cached operation (.attempt number) =>
    agentAttemptResultKey (cacheKey (r.source e.frames) operation) number
  | .cached operation (.retrySleep number) =>
    retrySleepKey (cacheKey (r.source e.frames) operation) number
  | .delay stepId => delaySleepKey stepId (r.source e.frames)
  | .turn stepId iteration => aiTurnCacheKey stepId iteration (r.source e.frames)
  | .breakpoint stepId =>
    breakpointKey stepId (r.build e.frames ((r.breakpointData e).getD (r.scope e.frames).1)
      (r.scope e.frames).2)
  | .wait stepId => waitSignalId stepId r.instanceId (r.source e.frames)
  | .waitTool aiStepId label call =>
    aiWaitToolSignalId aiStepId r.instanceId label call (r.source e.frames)

end DurableRun

end Runtara
