/-
  What a plan runs, and what the graph says should run.

  `DirectRunPlan.exec` is the control flow of the lowered plan when no step fails, as
  `emit_run_plan_mapping` lays it out: a branching node runs the selected arm and then,
  unconditionally, its merge plan; `Join` is a no-op; `Finish` stores the output and
  falls through; `Error` aborts. The branches of a `ParallelBranches` node are listed one
  after the other, the order in which the sequential lowering runs them.

  `selected` is the meaning of the graph itself: the steps that follow a step under given
  outcomes. Both read the outcomes of a run from an `Outcome`.
-/
import Runtara.Plan.Build

namespace Runtara

/-- The outcomes of a run: a boolean per `Conditional`, a route per `Switch` and a
boolean per edge condition. -/
structure Outcome where
  condition : StepId → Bool
  route : StepId → String
  edge : ℕ → Bool

/-- The outcome in which every condition holds and every switch takes its default. -/
def allTrue : Outcome := ⟨fun _ => true, fun _ => "default", fun _ => true⟩

/-- The output slot of the workflow: not written, `null`, or written by a `Finish` step. -/
inductive Output where
  | unset
  | null
  | ofFinish (stepId : StepId)
deriving DecidableEq, Repr

/-- A run without failures: the steps in the order they ran, the output slot at the end,
and whether an `Error` step aborted it. -/
structure Run where
  steps : List StepId
  output : Output
  aborted : Bool
deriving DecidableEq, Repr

namespace Run

def empty : Run := ⟨[], .unset, false⟩

/-- One step that only continues. -/
def step (stepId : StepId) : Run := ⟨[stepId], .unset, false⟩

/-- A later write of the output slot wins. -/
def overwrite (old new : Output) : Output :=
  match new with
  | .unset => old
  | _ => new

/-- Sequential composition; an aborted run does not continue. -/
def andThen (r s : Run) : Run :=
  if r.aborted then r else ⟨r.steps ++ s.steps, overwrite r.output s.output, s.aborted⟩

@[simp] theorem andThen_empty (r : Run) : r.andThen empty = r := by
  obtain ⟨steps, output, aborted⟩ := r
  cases aborted <;> simp [andThen, empty, overwrite]

theorem step_andThen (s : StepId) (r : Run) :
    (step s).andThen r = ⟨s :: r.steps, r.output, r.aborted⟩ := by
  obtain ⟨steps, output, aborted⟩ := r
  cases output <;> rfl

end Run

namespace DirectRunPlan

def execOption (m : Option (DirectRunPlan × Run)) : Run := m.elim Run.empty Prod.snd

/-- The arm whose key is selected, or the default. -/
def execArm {κ : Type} (sel : κ → Bool) (arms : List (κ × DirectRunPlan × Run)) (d : Run) : Run :=
  match arms.find? fun a => sel a.1 with
  | some a => a.2.2
  | none => d

def execAlgebra (σ : Outcome) : Algebra Run where
  finish s _ := ⟨[s], .ofFinish s, false⟩
  filter s _ n := (Run.step s).andThen n.2
  switchValue s _ n := (Run.step s).andThen n.2
  groupBy s _ n := (Run.step s).andThen n.2
  log s _ n := (Run.step s).andThen n.2
  delay s _ _ n := (Run.step s).andThen n.2
  switchRoute s _ arms d m :=
    (Run.step s).andThen ((execArm (· == σ.route s) arms d.2).andThen (execOption m))
  edgeRoute arms d m := (execArm σ.edge arms d.2).andThen (execOption m)
  split c _ n _ := (Run.step c.stepId).andThen n.2
  whileLoop c _ n _ := (Run.step c.stepId).andThen n.2
  embedWorkflow c _ n _ := (Run.step c.stepId).andThen n.2
  waitForSignal s _ _ n _ := (Run.step s).andThen n.2
  agent c n _ := (Run.step c.stepId).andThen n.2
  aiAgent c n _ := (Run.step c.stepId).andThen n.2
  aiAgentLoop c _ n _ := (Run.step c.stepId).andThen n.2
  error s _ := ⟨[s], .unset, true⟩
  conditional s _ t f m :=
    (Run.step s).andThen ((if σ.condition s then t.2 else f.2).andThen (execOption m))
  parallelBranches bs m := (bs.foldl (fun r b => r.andThen b.2) Run.empty).andThen m.2
  join := Run.empty
  implicitFinish := ⟨[], .null, false⟩

/-- The steps a plan runs under given outcomes, when no step fails. -/
def exec (σ : Outcome) (plan : DirectRunPlan) : Run := para (execAlgebra σ) plan

variable (σ : Outcome)

theorem execOption_map (m : Option DirectRunPlan) :
    execOption (m.map (withResult (execAlgebra σ))) = m.elim Run.empty (exec σ) := by
  cases m <;> rfl

theorem execArm_map {κ : Type} (sel : κ → Bool) (arms : List (κ × DirectRunPlan)) (d : Run) :
    execArm sel (arms.map fun a => (a.1, withResult (execAlgebra σ) a.2)) d =
      (arms.find? fun a => sel a.1).elim d fun a => exec σ a.2 := by
  induction arms with
  | nil => rfl
  | cons a rest ih =>
    by_cases ha : sel a.1 = true
    · simp [execArm, ha, exec]
    · simpa [execArm, ha] using ih

theorem exec_conditional (s : StepId) (b : Bool) (t f : DirectRunPlan)
    (m : Option DirectRunPlan) : exec σ (.conditional s b t f m) =
      (Run.step s).andThen ((if σ.condition s then exec σ t else exec σ f).andThen
        (m.elim Run.empty (exec σ))) := by
  rw [← execOption_map, ← paraOption_eq]
  rfl

theorem exec_switchRoute (s : StepId) (b : Bool) (arms : List (String × DirectRunPlan))
    (d : DirectRunPlan) (m : Option DirectRunPlan) : exec σ (.switchRoute s b arms d m) =
      (Run.step s).andThen (((arms.find? fun a => a.1 == σ.route s).elim (exec σ d)
        fun a => exec σ a.2).andThen (m.elim Run.empty (exec σ))) := by
  rw [← execOption_map, ← paraOption_eq, ← execArm_map σ (· == σ.route s), ← paraRoutes_eq]
  rfl

theorem exec_edgeRoute (arms : List (ℕ × DirectRunPlan)) (d : DirectRunPlan)
    (m : Option DirectRunPlan) : exec σ (.edgeRoute arms d m) =
      ((arms.find? fun a => σ.edge a.1).elim (exec σ d) fun a => exec σ a.2).andThen
        (m.elim Run.empty (exec σ)) := by
  rw [← execOption_map, ← paraOption_eq, ← execArm_map σ σ.edge, ← paraEdges_eq]
  rfl

theorem exec_parallelBranches (branches : List DirectRunPlan) (m : DirectRunPlan) :
    exec σ (.parallelBranches branches m) =
      (branches.foldl (fun r b => r.andThen (exec σ b)) Run.empty).andThen (exec σ m) := by
  have hfold : branches.foldl (fun r b => r.andThen (exec σ b)) Run.empty =
      (paraList (execAlgebra σ) branches).foldl (fun r b => r.andThen b.2) Run.empty := by
    rw [paraList_eq, List.foldl_map]
    rfl
  rw [hfold]
  rfl

end DirectRunPlan

namespace DirectGraphManifest

variable (graph : DirectGraphManifest) (σ : Outcome)

/-- The targets selected by conditioned edges: the first that holds, or the default. -/
def selectedEdge (edges : List DirectEdge) : List StepId :=
  match (conditionedTargets edges).find? fun a => σ.edge a.1 with
  | some a => [a.2]
  | none => ((defaultEdges edges).head?.map (·.toStep)).toList

def selectedLabel (step : Step) : String :=
  match step.kind with
  | .conditional => if σ.condition step.id then "true" else "false"
  | _ => if σ.route step.id ∈ step.routeLabels then σ.route step.id else "default"

/-- The steps that run after a step: every normal-flow target of a step that continues
unconditionally, the selected target of a step that branches. -/
def selected (stepId : StepId) : List StepId :=
  match graph.step? stepId with
  | none => []
  | some step =>
    match step.kind with
    | .finish | .error => []
    | _ =>
      if step.isBranching then (graph.branchTarget? stepId (selectedLabel σ step)).toList
      else
        let edges := graph.normalFlowEdges stepId
        if edges.any (·.conditionId.isSome) then selectedEdge σ edges
        else edges.map (·.toStep)

def isError (stepId : StepId) : Bool :=
  match graph.step? stepId with
  | some step => match step.kind with
    | .error => true
    | _ => false
  | none => false

end DirectGraphManifest

end Runtara
