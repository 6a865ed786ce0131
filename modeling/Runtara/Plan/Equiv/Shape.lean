/-
  What one call of the planner returns.

  `Shape σ rec c run` lists the cases of `step_run_plan_inner` by what the returned plan
  runs: nothing at the enclosing merge point, one step that ends the run, a step that
  branches (runs the selected arm, then the merge plan), a step lowered to concurrent
  branches, or a step followed along its region's order. `stepPlan_shape` is the one
  inversion of the planner that the results about whole plans rest on.
-/
import Runtara.Plan.Exec

namespace Runtara

variable {children : List ChildWorkflow} {step : Step} {p : DirectRunPlan}

/-- **Inversion**: planning a step that neither ends the run nor branches plans its normal
flow, and the plan runs the step and then that. -/
theorem stepKindPlan_linear {rec : Call → Planned DirectRunPlan} {c : Call}
    (hf : step.kind ≠ .finish) (he : step.kind ≠ .error) (hb : step.isBranching = false)
    (h : stepKindPlan children rec c step = .ok p) : ∃ n, normalFlowPlan rec c = .ok n ∧
      ∀ σ, p.exec σ = (Run.step c.stepId).andThen (n.exec σ) := by
  cases hk : step.kind with
  | finish => exact absurd hk hf
  | error => exact absurd hk he
  | conditional => simp [StepOf.isBranching, hk] at hb
  | filter | groupBy | log | delay =>
    simp only [stepKindPlan, hk] at h
    obtain ⟨n, hn, h⟩ := Planned.bind_eq_ok.mp h
    cases h
    exact ⟨n, hn, fun _ => rfl⟩
  | switch cases =>
    have hr := StepOf.isRouting_eq_false hb
    simp only [stepKindPlan, hk, hr, Bool.false_eq_true, if_false] at h
    obtain ⟨n, hn, h⟩ := Planned.bind_eq_ok.mp h
    cases h
    exact ⟨n, hn, fun _ => rfl⟩
  | split | whileLoop =>
    simp only [stepKindPlan, hk] at h
    obtain ⟨nested, -, h⟩ := Planned.bind_eq_ok.mp h
    obtain ⟨n, err, hn, -, rfl⟩ := Planned.bind_bind_eq_ok.mp h
    exact ⟨n, hn, fun _ => rfl⟩
  | embedWorkflow config =>
    simp only [stepKindPlan, hk] at h
    split at h
    · cases h
    · obtain ⟨child, -, h⟩ := Planned.bind_eq_ok.mp h
      obtain ⟨n, err, hn, -, rfl⟩ := Planned.bind_bind_eq_ok.mp h
      exact ⟨n, hn, fun _ => rfl⟩
  | waitForSignal onWait =>
    simp only [stepKindPlan, hk] at h
    obtain ⟨wait, -, h⟩ := Planned.bind_eq_ok.mp h
    obtain ⟨n, err, hn, -, rfl⟩ := Planned.bind_bind_eq_ok.mp h
    exact ⟨n, hn, fun _ => rfl⟩
  | agent config =>
    simp only [stepKindPlan, hk] at h
    obtain ⟨n, err, hn, -, rfl⟩ := Planned.bind_bind_eq_ok.mp h
    exact ⟨n, hn, fun _ => rfl⟩
  | aiAgent config =>
    simp only [stepKindPlan, hk, aiAgentPlan] at h
    split at h
    · obtain ⟨n, err, hn, -, rfl⟩ := Planned.bind_bind_eq_ok.mp h
      exact ⟨n, hn, fun _ => rfl⟩
    · obtain ⟨tools, -, h⟩ := Planned.bind_eq_ok.mp h
      obtain ⟨n, err, hn, -, rfl⟩ := Planned.bind_bind_eq_ok.mp h
      exact ⟨n, hn, fun _ => rfl⟩

variable {edges : List DirectEdge}

namespace DirectGraphManifest

variable (graph : DirectGraphManifest) (σ : Outcome)

/-- The branch starts of a step, as the merge analysis receives them. -/
def branchStarts (stepId : StepId) : List (Option StepId) :=
  match graph.step? stepId with
  | none => []
  | some step =>
    match step.kind with
    | .finish | .error => []
    | .conditional => [graph.branchTarget? stepId "true", graph.branchTarget? stepId "false"]
    | _ =>
      if step.isRouting then (step.routeLabels ++ ["default"]).map (graph.branchTarget? stepId)
      else
        let edges := graph.normalFlowEdges stepId
        if edges.any (·.conditionId.isSome) then
          ((conditionedTargets edges).map fun a => some a.2) ++
            ((defaultEdges edges).map fun edge => some edge.toStep)
        else []

/-- No step has two unconditional normal-flow edges. -/
def NoFanOut : Prop := ∀ stepId, (defaultEdges (graph.normalFlowEdges stepId)).length ≤ 1

variable {graph σ}

theorem any_conditioned_eq (graph : DirectGraphManifest) (s : StepId) :
    (graph.normalFlowEdges s).any (·.conditionId.isSome) =
      graph.hasConditionedNormalFlowEdges s := by
  rw [normalFlowEdges, hasConditionedNormalFlowEdges, List.any_filter]

/-- A step that neither ends the run nor branches. -/
structure Linear (graph : DirectGraphManifest) (s : StepId) (step : Step) : Prop where
  found : graph.step? s = some step
  notFinish : step.kind ≠ .finish
  notError : step.kind ≠ .error
  notBranching : step.isBranching = false

variable {s : StepId}

theorem Linear.selected_eq (h : graph.Linear s step) : graph.selected σ s =
      if (graph.normalFlowEdges s).any (·.conditionId.isSome) then
        selectedEdge σ (graph.normalFlowEdges s)
      else (graph.normalFlowEdges s).map (·.toStep) := by
  have hf := h.notFinish
  have he := h.notError
  rw [selected, h.found]
  dsimp only
  split
  · contradiction
  · contradiction
  · rw [if_neg (by simp [h.notBranching])]

theorem Linear.branchStarts_eq (h : graph.Linear s step) : graph.branchStarts s =
      if (graph.normalFlowEdges s).any (·.conditionId.isSome) then
        ((conditionedTargets (graph.normalFlowEdges s)).map fun a => some a.2) ++
          ((defaultEdges (graph.normalFlowEdges s)).map fun edge => some edge.toStep)
      else [] := by
  have hf := h.notFinish
  have he := h.notError
  have hb := h.notBranching
  have hr : step.isRouting = false := StepOf.isRouting_eq_false hb
  rw [branchStarts, h.found]
  dsimp only
  split
  · contradiction
  · contradiction
  · next hk => simp [StepOf.isBranching, hk] at hb
  · rw [if_neg (by simp [hr])]

theorem defaultEdges_eq (hcond : edges.any (·.conditionId.isSome) = false) :
    defaultEdges edges = edges := by
  rw [defaultEdges, List.filter_eq_self]
  intro edge hedge
  simpa using List.any_eq_false.mp hcond edge hedge

theorem length_normalFlowEdges_le (hfan : graph.NoFanOut)
    (hcond : (graph.normalFlowEdges s).any (·.conditionId.isSome) = false) :
    (graph.normalFlowEdges s).length ≤ 1 := by
  rw [← defaultEdges_eq hcond]
  exact hfan s

/-- Without fan-out the region traversal follows at most one edge out of a step. -/
theorem length_expand_le (hfan : graph.NoFanOut) (s : StepId) :
    (Search.expand graph.normalFlow graph.continues s).length ≤ 1 := by
  rw [Search.expand]
  split
  · next hlive =>
    rw [targets_normalFlow, List.length_map]
    refine length_normalFlowEdges_le hfan ?_
    cases hstep : graph.step? s with
    | none => simp [continues, hstep] at hlive
    | some step =>
      rw [any_conditioned_eq]
      exact ((continues_iff hstep).mp hlive).2
  · simp

theorem branchTarget_eq_ok {g : DirectGraphManifest} {t : StepId} {label : String}
    (h : branchTarget g s label = .ok t) : g.branchTarget? s label = some t := by
  unfold branchTarget at h
  split at h
  · next target heq =>
    cases h
    exact heq
  · cases h

/-- The selected successor of a branching step is the target of the selected label. -/
theorem selected_of_branching {t : StepId} (hstep : graph.step? s = some step)
    (hbr : step.isBranching = true) (ht : graph.branchTarget? s (selectedLabel σ step) = some t) :
    graph.selected σ s = [t] := by
  rw [selected, hstep]
  dsimp only
  split
  · next hk => simp [StepOf.isBranching, hk] at hbr
  · next hk => simp [StepOf.isBranching, hk] at hbr
  · rw [if_pos hbr, ht]
    rfl

end DirectGraphManifest

open DirectGraphManifest

/-- The cases of a successful call of the planner, by the run of the plan it returns. The
calls made for sub-plans go to `rec`. -/
inductive Shape (σ : Outcome) (rec : Call → Planned DirectRunPlan) (c : Call) : Run → Prop where
  /-- The call is at the enclosing merge point. -/
  | join (hstop : c.stopAt = some c.stepId) : Shape σ rec c Run.empty
  | finish (step : Step) (hne : c.stopAt ≠ some c.stepId)
      (hstep : c.graph.step? c.stepId = some step) (hk : step.kind = .finish) :
      Shape σ rec c ⟨[c.stepId], .ofFinish c.stepId, false⟩
  | error (step : Step) (hne : c.stopAt ≠ some c.stepId)
      (hstep : c.graph.step? c.stepId = some step) (hk : step.kind = .error) :
      Shape σ rec c ⟨[c.stepId], .unset, true⟩
  /-- One of several branches is taken; the merge plan follows unconditionally. -/
  | routed (target : StepId) (arm : DirectRunPlan) (mergePlan : Option DirectRunPlan)
      (hne : c.stopAt ≠ some c.stepId) (hlive : c.graph.continues c.stepId = false)
      (hselected : c.graph.selected σ c.stepId = [target])
      (harm : rec (c.arm (c.merge (c.graph.branchStarts c.stepId)) target) = .ok arm)
      (hmerge : planOption (fun m => rec (c.afterMerge m))
        (c.merge (c.graph.branchStarts c.stepId)) = .ok mergePlan) :
      Shape σ rec c ((Run.step c.stepId).andThen ((arm.exec σ).andThen
        (mergePlan.elim Run.empty (DirectRunPlan.exec σ))))
  /-- An unconditional fan-out lowered to concurrent branches. -/
  | parallel (step : Step) (m : StepId) (branches : List DirectRunPlan) (after : DirectRunPlan)
      (hne : c.stopAt ≠ some c.stepId) (hlin : c.graph.Linear c.stepId step)
      (hcond : (c.graph.normalFlowEdges c.stepId).any (·.conditionId.isSome) = false)
      (hmany : 1 < (defaultEdges (c.graph.normalFlowEdges c.stepId)).length)
      (htry : tryParallelBranches rec c (defaultEdges (c.graph.normalFlowEdges c.stepId)) =
        .ok (some (.parallelBranches branches after)))
      (hmerge : c.merge ((fanOutTargets (defaultEdges (c.graph.normalFlowEdges c.stepId))).map some)
        = some m)
      (hbranches : planBranches rec c m
        (fanOutTargets (defaultEdges (c.graph.normalFlowEdges c.stepId))) = .ok (some branches))
      (hafter : rec (c.afterMerge m) = .ok after) :
      Shape σ rec c ((Run.step c.stepId).andThen
        ((branches.foldl (fun r b => r.andThen (b.exec σ)) Run.empty).andThen (after.exec σ)))
  /-- The normal flow continues along the order of the region. -/
  | linear (step : Step) (n : DirectRunPlan) (hne : c.stopAt ≠ some c.stepId)
      (hlin : c.graph.Linear c.stepId step)
      (hcond : (c.graph.normalFlowEdges c.stepId).any (·.conditionId.isSome) = false)
      (htry : tryParallelBranches rec c (defaultEdges (c.graph.normalFlowEdges c.stepId)) =
        .ok none)
      (h : linearPlan rec c (c.graph.normalFlowEdges c.stepId) = .ok n) :
      Shape σ rec c ((Run.step c.stepId).andThen (n.exec σ))

variable {plan : DirectRunPlan} {n : DirectRunPlan}

section

variable {σ : Outcome} {rec : Call → Planned DirectRunPlan} {c : Call} {step : Step}

theorem continues_of_branching (hstep : c.graph.step? c.stepId = some step)
    (hb : step.isBranching = true) : c.graph.continues c.stepId = false := by
  simp [continues, hstep, hb]

theorem shape_conditionalPlan (hne : c.stopAt ≠ some c.stepId)
    (hstep : c.graph.step? c.stepId = some step) (hk : step.kind = .conditional)
    (h : conditionalPlan rec c step = .ok p) : Shape σ rec c (p.exec σ) := by
  unfold conditionalPlan at h
  obtain ⟨trueStep, htrue, h⟩ := Planned.bind_eq_ok.mp h
  obtain ⟨falseStep, hfalse, h⟩ := Planned.bind_eq_ok.mp h
  obtain ⟨truePlan, htruePlan, h⟩ := Planned.bind_eq_ok.mp h
  obtain ⟨falsePlan, hfalsePlan, h⟩ := Planned.bind_eq_ok.mp h
  obtain ⟨mergePlan, hmerge, h⟩ := Planned.bind_eq_ok.mp h
  cases h
  have htrue := branchTarget_eq_ok htrue
  have hfalse := branchTarget_eq_ok hfalse
  have hstarts : c.graph.branchStarts c.stepId = [some trueStep, some falseStep] := by
    simp only [branchStarts, hstep, hk, htrue, hfalse]
  have hbr : step.isBranching = true := by simp [StepOf.isBranching, hk]
  have hlabel : selectedLabel σ step = if σ.condition c.stepId then "true" else "false" := by
    simp only [selectedLabel, hk, id_of_step? hstep]
  rw [← hstarts] at htruePlan hfalsePlan hmerge
  rw [DirectRunPlan.exec_conditional]
  cases hcond : σ.condition c.stepId with
  | true =>
    refine .routed trueStep truePlan mergePlan hne (continues_of_branching hstep hbr)
      (selected_of_branching hstep hbr ?_) htruePlan hmerge
    rw [hlabel, hcond]
    exact htrue
  | false =>
    refine .routed falseStep falsePlan mergePlan hne (continues_of_branching hstep hbr)
      (selected_of_branching hstep hbr ?_) hfalsePlan hmerge
    rw [hlabel, hcond]
    exact hfalse

theorem shape_switchRoutePlan (hne : c.stopAt ≠ some c.stepId)
    (hstep : c.graph.step? c.stepId = some step) {cases : List (Option String)}
    (hk : step.kind = .switch cases) (hrouting : step.isRouting = true)
    (h : switchRoutePlan rec c step = .ok p) : Shape σ rec c (p.exec σ) := by
  unfold switchRoutePlan at h
  obtain ⟨branches, hbranches, h⟩ := Planned.bind_eq_ok.mp h
  obtain ⟨defaultPlan, hdefault, h⟩ := Planned.bind_eq_ok.mp h
  obtain ⟨mergePlan, hmerge, h⟩ := Planned.bind_eq_ok.mp h
  cases h
  have hstarts : c.graph.branchStarts c.stepId =
      (step.routeLabels ++ ["default"]).map (c.graph.branchTarget? c.stepId) := by
    simp only [branchStarts, hstep, hk, if_pos hrouting]
  have hbr : step.isBranching = true := by simpa [StepOf.isBranching, hk] using hrouting
  have hlabel : selectedLabel σ step
      = if σ.route c.stepId ∈ step.routeLabels then σ.route c.stepId else "default" := by
    simp only [selectedLabel, hk, id_of_step? hstep]
  rw [← hstarts] at hbranches hdefault hmerge
  rw [DirectRunPlan.exec_switchRoute]
  rcases find?_planLabels rec (σ.route c.stepId) hbranches with
    ⟨hnot, hfind⟩ | ⟨q, hmem, hq, hfind⟩
  · obtain ⟨target, htarget, harm⟩ := Planned.bind_eq_ok.mp hdefault
    rw [hfind, Option.elim_none]
    refine .routed target defaultPlan mergePlan hne (continues_of_branching hstep hbr)
      (selected_of_branching hstep hbr ?_) harm hmerge
    rw [hlabel, if_neg hnot]
    exact branchTarget_eq_ok htarget
  · obtain ⟨target, htarget, harm⟩ := Planned.bind_eq_ok.mp hq
    rw [hfind, Option.elim_some]
    refine .routed target q mergePlan hne (continues_of_branching hstep hbr)
      (selected_of_branching hstep hbr ?_) harm hmerge
    rw [hlabel, if_pos hmem]
    exact branchTarget_eq_ok htarget

theorem shape_edgeRoutePlan (hne : c.stopAt ≠ some c.stepId) (hlin : c.graph.Linear c.stepId step)
    (hcond : (c.graph.normalFlowEdges c.stepId).any (·.conditionId.isSome) = true)
    (h : edgeRoutePlan rec c (c.graph.normalFlowEdges c.stepId) = .ok n) :
    Shape σ rec c ((Run.step c.stepId).andThen (n.exec σ)) := by
  unfold edgeRoutePlan at h
  split at h
  · next default hdefault =>
    obtain ⟨branches, hbranches, h⟩ := Planned.bind_eq_ok.mp h
    obtain ⟨defaultPlan, hdefaultPlan, h⟩ := Planned.bind_eq_ok.mp h
    obtain ⟨mergePlan, hmerge, h⟩ := Planned.bind_eq_ok.mp h
    cases h
    have hstarts : c.graph.branchStarts c.stepId =
        ((conditionedTargets (c.graph.normalFlowEdges c.stepId)).map fun a => some a.2) ++
          [some default.toStep] := by
      rw [hlin.branchStarts_eq, if_pos hcond, hdefault]
      rfl
    have hsel : c.graph.selected σ c.stepId
        = selectedEdge σ (c.graph.normalFlowEdges c.stepId) := by
      rw [hlin.selected_eq, if_pos hcond]
    have hlive : c.graph.continues c.stepId = false := by
      have := any_conditioned_eq c.graph c.stepId
      simp [continues, hlin.found, ← this, hcond]
    rw [← hstarts] at hbranches hdefaultPlan hmerge
    rw [DirectRunPlan.exec_edgeRoute]
    rcases find?_planEach σ.edge hbranches with ⟨hfind, hfind'⟩ | ⟨k, target, p, hfind, hp, hfind'⟩
    · rw [hfind', Option.elim_none]
      refine .routed default.toStep defaultPlan mergePlan hne hlive ?_ hdefaultPlan hmerge
      simp [hsel, selectedEdge, hfind, hdefault]
    · rw [hfind', Option.elim_some]
      refine .routed target p mergePlan hne hlive ?_ hp hmerge
      simp [hsel, selectedEdge, hfind]
  · cases h

theorem tryParallelBranches_eq_some (h : tryParallelBranches rec c edges = .ok (some plan)) :
    ∃ m branches after, c.merge ((fanOutTargets edges).map some) = some m ∧
      planBranches rec c m (fanOutTargets edges) = .ok (some branches) ∧
      rec (c.afterMerge m) = .ok after ∧ plan = .parallelBranches branches after := by
  unfold tryParallelBranches at h
  split at h
  · cases h
  · next m hm =>
    split at h
    · cases h
    split at h
    · cases h
    · cases h
    · next diamond hdiamond =>
      cases h
      unfold planBranchDiamond at hdiamond
      obtain ⟨found, hfound, h⟩ := Planned.bind_eq_ok.mp hdiamond
      cases found with
      | none => cases h
      | some branches =>
        dsimp only at h
        split at h
        · cases h
        · obtain ⟨after, hafter, h⟩ := Planned.bind_eq_ok.mp h
          cases h
          exact ⟨m, branches, after, hm, hfound, hafter, rfl⟩

/-- With fewer than two branches there is no diamond. -/
theorem tryParallelBranches_of_length_le (h : edges.length ≤ 1) :
    tryParallelBranches rec c edges = .ok none := by
  have hmerge : c.merge ((fanOutTargets edges).map some) = none := by
    cases edges with
    | nil => rfl
    | cons edge rest =>
      obtain rfl : rest = [] := by simpa using h
      rfl
  simp [tryParallelBranches, hmerge]

/-- The continuation of a step that neither ends the run nor branches. -/
theorem shape_normalFlowPlan (hne : c.stopAt ≠ some c.stepId)
    (hlin : c.graph.Linear c.stepId step) (h : normalFlowPlan rec c = .ok n) :
    Shape σ rec c ((Run.step c.stepId).andThen (n.exec σ)) := by
  simp only [normalFlowPlan] at h
  split at h
  · next hcond => exact shape_edgeRoutePlan hne hlin hcond h
  · next hcond =>
    have hcond' : (c.graph.normalFlowEdges c.stepId).any (·.conditionId.isSome) = false := by
      simpa using hcond
    split at h
    · next hmany =>
      unfold fanOutPlan at h
      obtain ⟨found, hfound, h⟩ := Planned.bind_eq_ok.mp h
      cases found with
      | some plan =>
        cases h
        obtain ⟨m, branches, after, hm, hbranches, hafter, rfl⟩ :=
          tryParallelBranches_eq_some hfound
        rw [DirectRunPlan.exec_parallelBranches]
        exact .parallel step m branches after hne hlin hcond' hmany hfound hm hbranches hafter
      | none =>
        dsimp only at h
        split at h
        · cases h
        · exact .linear step n hne hlin hcond' hfound h
    · next hone =>
      exact .linear step n hne hlin hcond'
        (tryParallelBranches_of_length_le (Nat.le_of_not_lt hone)) h

end

/-- **Inversion**: a successful call of the planner has one of the shapes. -/
theorem stepPlan_shape {rec : Call → Planned DirectRunPlan} {c : Call}
    (h : stepPlan children rec c = .ok p) (σ : Outcome) : Shape σ rec c (p.exec σ) := by
  unfold stepPlan at h
  split at h
  · next hjoin =>
    cases h
    exact .join hjoin
  · next hne =>
    split at h
    · cases h
    · cases hstep : c.graph.step? c.stepId with
      | none =>
        rw [hstep] at h
        cases h
      | some step =>
        rw [hstep] at h
        dsimp only at h
        by_cases hf : step.kind = .finish
        · simp only [stepKindPlan, hf] at h
          cases h
          exact .finish step hne hstep hf
        by_cases he : step.kind = .error
        · simp only [stepKindPlan, he] at h
          cases h
          exact .error step hne hstep he
        cases hb : step.isBranching with
        | false =>
          obtain ⟨n, hn, hexec⟩ := stepKindPlan_linear hf he hb h
          rw [hexec]
          exact shape_normalFlowPlan hne ⟨hstep, hf, he, hb⟩ hn
        | true =>
          cases hk : step.kind with
          | conditional =>
            simp only [stepKindPlan, hk] at h
            exact shape_conditionalPlan hne hstep hk h
          | switch cases =>
            have hr : step.isRouting = true := by simpa [StepOf.isBranching, hk] using hb
            simp only [stepKindPlan, hk, hr, if_true] at h
            exact shape_switchRoutePlan hne hstep hk hr h
          | _ => simp [StepOf.isBranching, hk] at hb

theorem stepRunPlanInner_of_directRunPlan {fuel : ℕ} {graph : ExecutionGraph}
    (h : directRunPlan fuel graph children = .ok plan) :
    stepRunPlanInner children fuel (Call.ofGraph (rootManifest graph)) = .ok plan := by
  simp only [directRunPlan] at h
  split at h
  · cases h
  · exact h

end Runtara
