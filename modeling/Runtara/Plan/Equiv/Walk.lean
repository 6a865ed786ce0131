/-
  Exclusive control flow: the plan runs the walk of the graph.

  Without unconditional fan-out the graph has, under given outcomes, one walk from its
  entry point (`IsWalk`). The planner replaces the walk by nested arms and merge plans,
  and a merge plan runs after its arms whether or not the walk has reached the merge
  point. `pendingMerges` follows the merge points that are open along a walk: a branching
  step opens its merge point unless it is the innermost open one already, and arriving at
  the innermost open merge point closes it.

  The simulation `sim_stepRunPlanInner` is by induction on the planner: the run of a
  sub-plan either leads to the enclosing merge point, or is a complete walk followed by
  extra steps, and there are extra steps exactly when the walk ends with merge points of
  its own still open. `runsWalk_iff_mergesClosed` is the result for whole plans.
-/
import Runtara.Plan.Equiv.Shape
import Runtara.Support.Report
import Runtara.Support.Validation

namespace Runtara

open List

namespace DirectGraphManifest

variable (graph : DirectGraphManifest) (σ : Outcome)

def walkNext (stepId : StepId) : Option StepId := (graph.selected σ stepId).head?

/-- `walk` is the complete walk from `stepId`: it follows the selected edges until a step
with no selected successor. -/
def IsWalk : StepId → List StepId → Prop
  | _, [] => False
  | stepId, x :: rest => x = stepId ∧
    match graph.walkNext σ stepId with
    | none => rest = []
    | some next => IsWalk next rest

/-- `path` leads from `stepId` to `target`, which it does not contain as its end. -/
def LeadsTo (target : StepId) : StepId → List StepId → Prop
  | stepId, [] => stepId = target
  | stepId, x :: rest => x = stepId ∧
    match graph.walkNext σ stepId with
    | none => False
    | some next => LeadsTo target next rest

/-- The merge point of the branches of a step. -/
def mergePoint (stepId : StepId) : Option StepId :=
  graph.directFindMergePoint (graph.branchStarts stepId)

/-- Arriving at the innermost open merge point closes it. -/
def arrive (pending : List StepId) (stepId : StepId) : List StepId :=
  if pending.head? = some stepId then pending.tail else pending

/-- A branching step opens its merge point unless it is the innermost open one. -/
def branch (pending : List StepId) (stepId : StepId) : List StepId :=
  match graph.mergePoint stepId with
  | some m => if pending.head? = some m then pending else m :: pending
  | none => pending

/-- The merge points open after a stretch of the walk, innermost first. -/
def pendingMerges (pending : List StepId) : List StepId → List StepId
  | [] => pending
  | stepId :: rest => pendingMerges (graph.branch (arrive pending stepId) stepId) rest

/-- Does the walk end in an `Error` step? -/
def endsInError (walk : List StepId) : Bool := walk.getLast?.any graph.isError

/-- The output the walk calls for: the one its last step stores if that is a `Finish`
step, `null` otherwise. -/
def walkOutput (walk : List StepId) : Output :=
  match walk.getLast?.bind graph.step? with
  | some step => match step.kind with
    | .finish => .ofFinish step.id
    | _ => .null
  | none => .null

/-- The run is the walk from the entry point, each step once, and ends as the walk does. -/
def RunsWalk (run : Run) : Prop :=
  ∃ walk, graph.IsWalk σ graph.entryPoint walk ∧ walk.Nodup ∧ run.steps = walk ∧
    run.aborted = graph.endsInError walk ∧
    (graph.endsInError walk = false → run.output = graph.walkOutput walk)

/-- The walk from the entry point ends with no merge point open, or in an `Error` step. -/
def MergesClosed : Prop :=
  ∃ walk, graph.IsWalk σ graph.entryPoint walk ∧
    (graph.endsInError walk = true ∨ graph.pendingMerges [] walk = [])

variable {graph σ}

/-- Fan-out only has to be looked for at the sources of edges. -/
theorem noFanOut_iff : graph.NoFanOut ↔
    ∀ edge ∈ graph.edges, (defaultEdges (graph.normalFlowEdges edge.fromStep)).length ≤ 1 := by
  refine ⟨fun h edge _ => h edge.fromStep, fun h s => ?_⟩
  cases hs : defaultEdges (graph.normalFlowEdges s) with
  | nil => simp
  | cons edge rest =>
    have hmem : edge ∈ graph.normalFlowEdges s :=
      mem_of_mem_filter (hs ▸ mem_cons_self .. : edge ∈ defaultEdges _)
    have hedge := mem_filter.mp hmem
    have hfrom : edge.fromStep = s := by
      have := hedge.2
      simp only [Bool.and_eq_true, beq_iff_eq] at this
      exact this.1
    rw [← hs, ← hfrom]
    exact h edge hedge.1

instance : Decidable graph.NoFanOut := decidable_of_iff _ noFanOut_iff.symm

def decideWalk (graph : DirectGraphManifest) (σ : Outcome) :
    (s : StepId) → (w : List StepId) → Decidable (graph.IsWalk σ s w)
  | _, [] => isFalse id
  | s, _ :: rest =>
    have : Decidable (match graph.walkNext σ s with
        | none => rest = []
        | some next => graph.IsWalk σ next rest) :=
      match graph.walkNext σ s with
      | none => inferInstanceAs (Decidable (rest = []))
      | some next => decideWalk graph σ next rest
    inferInstanceAs (Decidable (_ ∧ _))

instance (s : StepId) (w : List StepId) : Decidable (graph.IsWalk σ s w) := decideWalk graph σ s w

/-! ### Walks -/

variable {s : StepId} {w : List StepId}

theorem IsWalk.ne_nil (h : graph.IsWalk σ s w) : w ≠ [] := by
  rintro rfl
  exact h

variable {w' : List StepId}

theorem IsWalk.unique (h : graph.IsWalk σ s w) (h' : graph.IsWalk σ s w') : w = w' := by
  induction w generalizing s w' with
  | nil => exact absurd rfl h.ne_nil
  | cons x rest ih =>
    cases w' with
    | nil => exact absurd rfl h'.ne_nil
    | cons x' rest' =>
      obtain ⟨rfl, h⟩ := h
      obtain ⟨rfl, h'⟩ := h'
      cases hn : graph.walkNext σ x' with
      | none =>
        rw [hn] at h h'
        rw [h, h']
      | some n =>
        rw [hn] at h h'
        rw [ih h h']

theorem IsWalk.suffix {y : StepId} {l₁ l₂ : List StepId} (h : graph.IsWalk σ s (l₁ ++ y :: l₂)) :
    graph.IsWalk σ y (y :: l₂) := by
  induction l₁ generalizing s with
  | nil =>
    obtain ⟨rfl, h'⟩ := id h
    exact h
  | cons x rest ih =>
    obtain ⟨rfl, h⟩ := h
    cases hn : graph.walkNext σ x with
    | none =>
      rw [hn] at h
      simp at h
    | some n =>
      rw [hn] at h
      exact ih h

/-- A complete walk visits no step twice: from the second visit it would go on as from the
first. -/
theorem IsWalk.nodup (h : graph.IsWalk σ s w) : w.Nodup := by
  induction w generalizing s with
  | nil => exact nodup_nil
  | cons x rest ih =>
    obtain ⟨rfl, h'⟩ := id h
    refine nodup_cons.mpr ⟨fun hx => ?_, ?_⟩
    · obtain ⟨l₁, l₂, rfl⟩ := append_of_mem hx
      have hshort : graph.IsWalk σ x (x :: l₂) :=
        (show graph.IsWalk σ x ((x :: l₁) ++ x :: l₂) by simpa using h).suffix
      have hlen := congrArg List.length (h.unique hshort)
      simp at hlen
      omega
    · cases hn : graph.walkNext σ x with
      | none =>
        rw [hn] at h'
        rw [h']
        exact nodup_nil
      | some n =>
        rw [hn] at h'
        exact ih h'

variable {n : StepId}

theorem IsWalk.cons (hn : graph.walkNext σ s = some n) (h : graph.IsWalk σ n w) :
    graph.IsWalk σ s (s :: w) := by
  refine ⟨rfl, ?_⟩
  rw [hn]
  exact h

variable {m : StepId}

theorem LeadsTo.cons (hn : graph.walkNext σ s = some n) (h : graph.LeadsTo σ m n w) :
    graph.LeadsTo σ m s (s :: w) := by
  refine ⟨rfl, ?_⟩
  rw [hn]
  exact h

theorem LeadsTo.append_walk (h : graph.LeadsTo σ m s w) (h' : graph.IsWalk σ m w') :
    graph.IsWalk σ s (w ++ w') := by
  induction w generalizing s with
  | nil =>
    obtain rfl : s = m := h
    exact h'
  | cons x rest ih =>
    obtain ⟨rfl, h⟩ := h
    cases hn : graph.walkNext σ x with
    | none =>
      rw [hn] at h
      exact h.elim
    | some n =>
      rw [hn] at h
      exact IsWalk.cons hn (ih h)

theorem LeadsTo.trans {t : StepId} (h : graph.LeadsTo σ m s w) (h' : graph.LeadsTo σ t m w') :
    graph.LeadsTo σ t s (w ++ w') := by
  induction w generalizing s with
  | nil =>
    obtain rfl : s = m := h
    exact h'
  | cons x rest ih =>
    obtain ⟨rfl, h⟩ := h
    cases hn : graph.walkNext σ x with
    | none =>
      rw [hn] at h
      exact h.elim
    | some n =>
      rw [hn] at h
      exact LeadsTo.cons hn (ih h)

/-! ### Open merge points -/

theorem pendingMerges_append (pending l₁ l₂ : List StepId) :
    graph.pendingMerges pending (l₁ ++ l₂) =
      graph.pendingMerges (graph.pendingMerges pending l₁) l₂ := by
  induction l₁ generalizing pending with
  | nil => rfl
  | cons x rest ih => exact ih _

theorem arrive_of_ne {pending : List StepId} (h : pending.head? ≠ some s) :
    arrive pending s = pending := if_neg h

theorem arrive_cons_self (pending : List StepId) (s : StepId) :
    arrive (s :: pending) s = pending := by
  simp [arrive]

variable {base : List StepId}

/-- Arriving at the innermost open merge point is arriving with it closed. -/
theorem pendingMerges_arrive {rest : List StepId} (h : base.head? ≠ some m) :
    graph.pendingMerges (m :: base) (m :: rest) = graph.pendingMerges base (m :: rest) := by
  rw [pendingMerges, pendingMerges, arrive_cons_self, arrive_of_ne h]

/-! ### How a walk ends -/

theorem endsInError_cons (h : w ≠ []) : graph.endsInError (s :: w) = graph.endsInError w := by
  obtain ⟨x, rest, rfl⟩ := exists_cons_of_ne_nil h
  rw [endsInError, endsInError, getLast?_cons_cons]

theorem endsInError_append {l : List StepId} (h : w ≠ []) :
    graph.endsInError (l ++ w) = graph.endsInError w := by
  rw [endsInError, endsInError, getLast?_append_of_ne_nil l h]

theorem walkOutput_cons (h : w ≠ []) : graph.walkOutput (s :: w) = graph.walkOutput w := by
  obtain ⟨x, rest, rfl⟩ := exists_cons_of_ne_nil h
  rw [walkOutput, walkOutput, getLast?_cons_cons]

theorem walkOutput_append {l : List StepId} (h : w ≠ []) :
    graph.walkOutput (l ++ w) = graph.walkOutput w := by
  rw [walkOutput, walkOutput, getLast?_append_of_ne_nil l h]

/-! ### The simulation relation -/

/-- How the run of a sub-plan started at `s` relates to the walk from `s`, when the merge
points `start` are open at its start and `base` are those of the enclosing plans: it leads
to the innermost of them with nothing opened on the way left open, or it runs a complete
walk and then `extra` steps, where steps are extra exactly when the walk ends with merge
points of its own open. -/
inductive Sim (graph : DirectGraphManifest) (σ : Outcome) (start base : List StepId) (s : StepId)
    (run : Run) : Prop
  | leads (m : StepId) (w : List StepId) (hstop : base.head? = some m)
      (hlead : graph.LeadsTo σ m s w) (hpend : graph.pendingMerges start w = base)
      (hrun : run = ⟨w, .unset, false⟩)
  | ends (w extra own : List StepId) (hwalk : graph.IsWalk σ s w) (hsteps : run.steps = w ++ extra)
      (hpend : graph.pendingMerges start w = own ++ base)
      (herr : graph.endsInError w = true → extra = [] ∧ run.aborted = true)
      (hok : graph.endsInError w = false → (extra = [] ↔ own = []) ∧
        (extra = [] → run.aborted = false ∧ run.output = graph.walkOutput w))

/-- A sub-plan started away from the enclosing merge point runs its first step. -/
theorem Sim.steps_ne_nil {start : List StepId} {run : Run} (h : Sim graph σ start base s run)
    (hne : base.head? ≠ some s) : run.steps ≠ [] := by
  cases h with
  | leads m w hstop hlead _ hrun =>
    subst hrun
    rintro rfl
    obtain rfl : s = m := hlead
    exact hne hstop
  | ends w extra own hwalk hsteps =>
    rw [hsteps]
    exact append_ne_nil_of_left_ne_nil hwalk.ne_nil _

theorem Sim.cons {run : Run} (hne : base.head? ≠ some s) (hn : graph.walkNext σ s = some n)
    (h : Sim graph σ (graph.branch base s) base n run) :
    Sim graph σ base base s ((Run.step s).andThen run) := by
  have hpend : ∀ w, graph.pendingMerges base (s :: w) =
      graph.pendingMerges (graph.branch base s) w :=
    fun w => by rw [pendingMerges, arrive_of_ne hne]
  rw [Run.step_andThen]
  cases h with
  | leads m w hstop hlead hp hrun =>
    subst hrun
    exact .leads m (s :: w) hstop (hlead.cons hn) ((hpend w).trans hp) rfl
  | ends w extra own hwalk hsteps hp herr hok =>
    have hw := hwalk.ne_nil
    refine .ends (s :: w) extra own (hwalk.cons hn) ?_ ((hpend w).trans hp) ?_ ?_
    · simpa using hsteps
    · rw [endsInError_cons hw]
      exact herr
    · rw [endsInError_cons hw, walkOutput_cons hw]
      exact hok

/-- Run a merge plan after an arm that was planned up to its merge point. -/
theorem Sim.merge {arm after : Run} (hne : base.head? ≠ some m)
    (harm : Sim graph σ (m :: base) (m :: base) n arm) (hafter : Sim graph σ base base m after) :
    Sim graph σ (m :: base) base n (arm.andThen after) := by
  cases harm with
  | leads m' w hstop hlead hp hrun =>
    -- The arm reaches the merge point, and the merge plan goes on from there.
    obtain rfl : m = m' := by simpa using hstop
    subst hrun
    have hrun : Run.andThen ⟨w, .unset, false⟩ after
        = ⟨w ++ after.steps, after.output, after.aborted⟩ := by
      cases ho : after.output <;> simp [Run.andThen, Run.overwrite, ho]
    rw [hrun]
    cases hafter with
    | leads t w' hstop' hlead' hp' hrun' =>
      subst hrun'
      refine .leads t (w ++ w') hstop' (hlead.trans hlead') ?_ rfl
      cases w' with
      | nil => exact absurd (hstop'.trans (congrArg some (show m = t from hlead').symm)) hne
      | cons x rest =>
        obtain ⟨rfl, -⟩ := id hlead'
        rw [pendingMerges_append, hp, pendingMerges_arrive hne, hp']
    | ends w' extra own hwalk' hsteps' hp' herr' hok' =>
      have hw' := hwalk'.ne_nil
      refine .ends (w ++ w') extra own (hlead.append_walk hwalk') ?_ ?_ ?_ ?_
      · rw [hsteps', append_assoc]
      · obtain ⟨x, rest, rfl⟩ := exists_cons_of_ne_nil hw'
        obtain ⟨rfl, -⟩ := id hwalk'
        rw [pendingMerges_append, hp, pendingMerges_arrive hne, hp']
      · rw [endsInError_append hw']
        exact herr'
      · rw [endsInError_append hw', walkOutput_append hw']
        exact hok'
  | ends w extra own hwalk hsteps hp herr hok =>
    -- The walk ends inside the arm: the merge point stays open and the merge plan is extra.
    cases herror : graph.endsInError w with
    | true =>
      obtain ⟨hextra, habort⟩ := herr herror
      refine .ends w extra (own ++ [m]) hwalk ?_ ?_ ?_ ?_
      · simpa [Run.andThen, habort] using hsteps
      · simpa using hp
      · intro _
        exact ⟨hextra, by simp [Run.andThen, habort]⟩
      · simp [herror]
    | false =>
      obtain ⟨hiff, hclean⟩ := hok herror
      cases habort : arm.aborted with
      | true =>
        have hextra : extra ≠ [] := fun h => by simp [(hclean h).1] at habort
        refine .ends w extra (own ++ [m]) hwalk ?_ (by simpa using hp) (by simp [herror]) ?_
        · simpa [Run.andThen, habort] using hsteps
        · intro _
          simp [hextra]
      | false =>
        have hmore : extra ++ after.steps ≠ [] :=
          append_ne_nil_of_right_ne_nil _ (hafter.steps_ne_nil hne)
        refine .ends w (extra ++ after.steps) (own ++ [m]) hwalk ?_ (by simpa using hp)
          (by simp [herror]) ?_
        · simp [Run.andThen, habort, hsteps]
        · intro _
          simp only [hmore, false_iff, false_implies, and_true]
          simp

/-! ### Steps that do not branch -/

/-- What the planner guarantees for the calls it makes: the run of the plan simulates the
walk, whatever merge points are open outside. -/
def PlansSim (graph : DirectGraphManifest) (σ : Outcome) (rec : Call → Planned DirectRunPlan) :
    Prop :=
  ∀ c p base, rec c = .ok p → c.graph = graph → c.stopAt = base.head? →
    Sim graph σ base base c.stepId (p.exec σ)

theorem branch_of_mergePoint_none (h : graph.mergePoint s = none) : graph.branch base s = base := by
  simp [branch, h]

variable {step : Step}

theorem Linear.isError_eq (h : graph.Linear s step) : graph.isError s = false := by
  have he := h.notError
  simp only [isError, h.found]

theorem Linear.walkOutput_eq (h : graph.Linear s step) : graph.walkOutput [s] = .null := by
  have hf := h.notFinish
  simp only [walkOutput, getLast?_singleton, Option.bind_some, h.found]

/-- A step that ends its region and has no edges completes the workflow with `null`. -/
theorem Sim.implicitFinish (hlin : graph.Linear s step) (hne : base.head? ≠ some s)
    (hbr : graph.branch base s = base) (hnext : graph.walkNext σ s = none) :
    Sim graph σ base base s ((Run.step s).andThen ⟨[], .null, false⟩) := by
  have hnoerr : graph.endsInError [s] = false := by
    simp [endsInError, hlin.isError_eq]
  refine .ends [s] [] [] ?_ rfl ?_ (by simp [hnoerr]) ?_
  · refine ⟨rfl, ?_⟩
    rw [hnext]
  · rw [pendingMerges, pendingMerges, arrive_of_ne hne, hbr]
    rfl
  · intro _
    exact ⟨by simp, fun _ => ⟨rfl, hlin.walkOutput_eq.symm⟩⟩

variable {rec : Call → Planned DirectRunPlan}

theorem sim_linearPlan (hfan : graph.NoFanOut) (hrec : PlansSim graph σ rec) {c : Call}
    {n : DirectRunPlan} (hg : c.graph = graph) (hstop : c.stopAt = base.head?)
    (hne : base.head? ≠ some c.stepId) (hlin : graph.Linear c.stepId step)
    (hcond : (graph.normalFlowEdges c.stepId).any (·.conditionId.isSome) = false)
    (h : linearPlan rec c (graph.normalFlowEdges c.stepId) = .ok n) :
    Sim graph σ base base c.stepId ((Run.step c.stepId).andThen (n.exec σ)) := by
  have hsel : graph.selected σ c.stepId = (graph.normalFlowEdges c.stepId).map (·.toStep) := by
    rw [hlin.selected_eq, if_neg (by simp [hcond])]
  have hmerge : graph.mergePoint c.stepId = none := by
    rw [mergePoint, hlin.branchStarts_eq, if_neg (by simp [hcond])]
    rfl
  have hbr : graph.branch base c.stepId = base := branch_of_mergePoint_none hmerge
  have hlen := length_normalFlowEdges_le hfan hcond
  simp only [linearPlan, hg] at h
  cases hsucc : graph.topoSuccessor c.regionRoot c.stopAt c.stepId with
  | some t =>
    simp only [hsucc] at h
    -- The successor in the region's order is the target of the one edge.
    have hflow := Search.flow_of_successor (length_expand_le hfan) hsucc
    obtain ⟨edge, hedge, hto⟩ := mem_normalFlow.mp hflow.2.1
    have hnext : graph.walkNext σ c.stepId = some t := by
      rw [walkNext, hsel]
      cases hedges : graph.normalFlowEdges c.stepId with
      | nil => simp [hedges] at hedge
      | cons e rest =>
        obtain rfl : rest = [] := by simpa [hedges] using hlen
        obtain rfl : edge = e := by simpa [hedges] using hedge
        simp [hto]
    refine Sim.cons hne hnext ?_
    rw [hbr]
    exact hrec (c.next t) n base h hg hstop
  | none =>
    simp only [hsucc] at h
    cases hedges : graph.normalFlowEdges c.stepId with
    | nil =>
      rw [hedges] at h
      cases h
      exact Sim.implicitFinish hlin hne hbr (by simp [walkNext, hsel, hedges])
    | cons e rest =>
      obtain rfl : rest = [] := by simpa [hedges] using hlen
      have hdef : defaultEdges [e] = [e] := by
        have hnone : e.conditionId.isSome = false := by simpa [hedges] using hcond
        simpa [defaultEdges] using hnone
      rw [hedges, hdef] at h
      -- The remaining edge exits to the enclosing merge point.
      simp only [isEmpty_cons, Bool.false_eq_true, if_false] at h
      split at h
      · next hexit =>
        cases h
        simp only [all_cons, all_nil, Bool.and_true, Bool.and_eq_true, beq_iff_eq] at hexit
        refine .leads e.toStep [c.stepId] (hstop ▸ hexit.2.symm) ?_ ?_ rfl
        · refine ⟨rfl, ?_⟩
          simp [walkNext, hsel, hedges, LeadsTo]
        · rw [pendingMerges, pendingMerges, arrive_of_ne hne, hbr]
      · cases h

/-! ### Steps that branch -/

/-- A branching step runs the selected arm, planned up to the local merge point, and then
the merge plan. -/
theorem sim_routed (hrec : PlansSim graph σ rec) {c : Call} {target : StepId} {arm : DirectRunPlan}
    {mergePlan : Option DirectRunPlan} (hg : c.graph = graph) (hstop : c.stopAt = base.head?)
    (hne : base.head? ≠ some c.stepId) (hnext : graph.walkNext σ c.stepId = some target)
    (harm : rec (c.arm (c.merge (graph.branchStarts c.stepId)) target) = .ok arm)
    (hmerge : planOption (fun m => rec (c.afterMerge m)) (c.merge (graph.branchStarts c.stepId)) =
      .ok mergePlan) :
    Sim graph σ base base c.stepId
      ((Run.step c.stepId).andThen ((arm.exec σ).andThen
        (mergePlan.elim Run.empty (DirectRunPlan.exec σ)))) := by
  refine Sim.cons hne hnext ?_
  cases hm : c.merge (graph.branchStarts c.stepId) with
  | none =>
    -- No local merge: the arm is planned up to the enclosing merge point.
    rw [hm] at harm hmerge
    cases hmerge
    have hbr : graph.branch base c.stepId = base := by
      rw [branch]
      rw [Call.merge, hg] at hm
      cases hpt : graph.mergePoint c.stepId with
      | none => rfl
      | some m =>
        rw [mergePoint] at hpt
        rw [hpt] at hm
        have : some m = base.head? := by simpa [Option.filter, hstop] using hm
        simp [this]
    rw [hbr, Option.elim_none, Run.andThen_empty]
    exact hrec _ arm base harm hg (by simp [Call.arm, hstop])
  | some m =>
    rw [hm] at harm hmerge
    obtain ⟨after, hafter, h⟩ := Planned.bind_eq_ok.mp hmerge
    cases h
    rw [Call.merge, hg, Option.filter_eq_some_iff] at hm
    obtain ⟨hpt, hmne⟩ := hm
    have hbase : base.head? ≠ some m := fun h => of_decide_eq_true hmne (h ▸ hstop.symm)
    have hbr : graph.branch base c.stepId = m :: base := by
      rw [branch, mergePoint, hpt]
      simp [hbase]
    rw [hbr, Option.elim_some]
    exact Sim.merge hbase (hrec _ arm (m :: base) harm hg (by simp [Call.arm]))
      (hrec _ after base hafter hg hstop)

/-! ### Steps that end the run -/

theorem Sim.finish (hne : base.head? ≠ some s) (hstep : graph.step? s = some step)
    (hk : step.kind = .finish) : Sim graph σ base base s ⟨[s], .ofFinish s, false⟩ := by
  have hnext : graph.walkNext σ s = none := by simp [walkNext, selected, hstep, hk]
  have hmerge : graph.mergePoint s = none := by
    simp [mergePoint, branchStarts, hstep, hk, directFindMergePoint]
  have hnoerr : graph.endsInError [s] = false := by simp [endsInError, isError, hstep, hk]
  refine .ends [s] [] [] ?_ rfl ?_ (by simp [hnoerr]) ?_
  · refine ⟨rfl, ?_⟩
    rw [hnext]
  · rw [pendingMerges, pendingMerges, arrive_of_ne hne, branch_of_mergePoint_none hmerge]
    rfl
  · intro _
    refine ⟨by simp, fun _ => ⟨rfl, ?_⟩⟩
    simp [walkOutput, hstep, hk, id_of_step? hstep]

theorem Sim.error (hne : base.head? ≠ some s) (hstep : graph.step? s = some step)
    (hk : step.kind = .error) : Sim graph σ base base s ⟨[s], .unset, true⟩ := by
  have hnext : graph.walkNext σ s = none := by simp [walkNext, selected, hstep, hk]
  have hmerge : graph.mergePoint s = none := by
    simp [mergePoint, branchStarts, hstep, hk, directFindMergePoint]
  have herror : graph.endsInError [s] = true := by simp [endsInError, isError, hstep, hk]
  refine .ends [s] [] [] ?_ rfl ?_ (fun _ => ⟨rfl, rfl⟩) (by simp [herror])
  · refine ⟨rfl, ?_⟩
    rw [hnext]
  · rw [pendingMerges, pendingMerges, arrive_of_ne hne, branch_of_mergePoint_none hmerge]
    rfl

/-! ### The planner -/

theorem sim_stepPlan (hfan : graph.NoFanOut) (children : List ChildWorkflow)
    (hrec : PlansSim graph σ rec) : PlansSim graph σ (stepPlan children rec) := by
  intro c p base h hg hstop
  subst hg
  have hne : c.stopAt ≠ some c.stepId → base.head? ≠ some c.stepId := fun h hb => h (hstop.trans hb)
  generalize hrun : p.exec σ = run
  have hshape := stepPlan_shape h σ
  rw [hrun] at hshape
  cases hshape with
  | join hjoin => exact .leads c.stepId [] (hstop ▸ hjoin) rfl rfl rfl
  | finish step hs hstep hk => exact Sim.finish (hne hs) hstep hk
  | error step hs hstep hk => exact Sim.error (hne hs) hstep hk
  | routed target arm mergePlan hs _ hselected harm hmerge =>
    exact sim_routed hrec rfl hstop (hne hs) (by rw [walkNext, hselected]; rfl) harm hmerge
  | parallel step m branches after _ _ _ hmany =>
    exact absurd hmany (Nat.not_lt.mpr (hfan c.stepId))
  | linear step n hs hlin hcond _ h =>
    exact sim_linearPlan hfan hrec rfl hstop (hne hs) hlin hcond h

/-- **Simulation**: whatever the planner returns for a call runs the walk from the step of
the call, up to the enclosing merge point or to its end. -/
theorem sim_stepRunPlanInner (hfan : graph.NoFanOut) (children : List ChildWorkflow) (fuel : ℕ) :
    PlansSim graph σ (stepRunPlanInner children fuel) := by
  induction fuel with
  | zero =>
    intro c p base h
    cases h
  | succ fuel ih => exact sim_stepPlan hfan children ih

end DirectGraphManifest

open DirectGraphManifest in
/-- **Plan refines graph, exclusive control flow**: without unconditional fan-out, the plan
of a graph runs exactly the walk of the graph, each step once and with the output of the
step that ends the walk, if and only if that walk closes every merge point it opens (or
ends in an `Error` step). -/
theorem runsWalk_iff_mergesClosed {fuel : ℕ} {graph : ExecutionGraph}
    {children : List ChildWorkflow}
    {plan : DirectRunPlan} (hplan : directRunPlan fuel graph children = .ok plan)
    (hfan : (rootManifest graph).NoFanOut) (σ : Outcome) :
    (rootManifest graph).RunsWalk σ (plan.exec σ) ↔ (rootManifest graph).MergesClosed σ := by
  have hcall := stepRunPlanInner_of_directRunPlan hplan
  have hsim := sim_stepRunPlanInner (σ := σ) hfan children fuel _ plan [] hcall rfl rfl
  cases hsim with
  | leads m w hstop => simp at hstop
  | ends w extra own hwalk hsteps hpend herr hok =>
    rw [append_nil] at hpend
    subst hpend
    constructor
    · rintro ⟨w', hwalk', -, hsteps', -⟩
      obtain rfl := hwalk.unique hwalk'
      have hextra : extra = [] := by simpa [hsteps'] using hsteps
      refine ⟨w, hwalk, ?_⟩
      cases herror : (rootManifest graph).endsInError w with
      | true => exact Or.inl rfl
      | false => exact Or.inr ((hok herror).1.mp hextra)
    · rintro ⟨w', hwalk', hclosed⟩
      obtain rfl := hwalk.unique hwalk'
      refine ⟨w, hwalk, hwalk.nodup, ?_⟩
      cases herror : (rootManifest graph).endsInError w with
      | true =>
        obtain ⟨hextra, habort⟩ := herr herror
        exact ⟨by simpa [hextra] using hsteps, habort, by simp⟩
      | false =>
        obtain ⟨hiff, hclean⟩ := hok herror
        have hextra : extra = [] := hiff.mpr (hclosed.resolve_left (by simp [herror]))
        obtain ⟨habort, hout⟩ := hclean hextra
        exact ⟨by simpa [hextra] using hsteps, habort, fun _ => hout⟩

def plainEdge (fromStep toStep : StepId) (label : Option String) : ExecutionPlanEdge :=
  ⟨fromStep, toStep, label, false, none⟩

/-- A conditional whose arms meet again before the `Finish` step. -/
def diamondGraph : ExecutionGraph where
  entryPoint := "check"
  durable := none
  rateLimitBudgetMs := 0
  steps := [⟨"check", false, .conditional⟩, ⟨"yes", false, .log⟩, ⟨"no", false, .log⟩,
    ⟨"done", false, .finish⟩]
  executionPlan := [plainEdge "check" "yes" (some "true"), plainEdge "check" "no" (some "false"),
    plainEdge "yes" "done" none, plainEdge "no" "done" none]

/-- The plan of the diamond runs its walk: the merge point is reached. -/
theorem diamond_runsWalk : (rootManifest diamondGraph).RunsWalk allTrue
    (DirectRunPlan.exec allTrue (.conditional "check" false (.log "yes" false .join)
      (.log "no" false .join) (some (.finish "done" false)))) :=
  (runsWalk_iff_mergesClosed (show directRunPlan 9 diamondGraph [] = .ok _ from rfl) (by decide)
    allTrue).mpr ⟨["check", "yes", "done"], by decide, Or.inr (by decide)⟩

/-- A conditional with an inner conditional in one arm: the inner `true` branch finishes
early, every other branch passes through `after`. -/
def earlyFinishGraph : ExecutionGraph where
  entryPoint := "outer"
  durable := none
  rateLimitBudgetMs := 0
  steps := [⟨"outer", false, .conditional⟩, ⟨"inner", false, .conditional⟩, ⟨"after", false, .log⟩,
    ⟨"early", false, .finish⟩, ⟨"done", false, .finish⟩]
  executionPlan :=
    [plainEdge "outer" "inner" (some "true"), plainEdge "outer" "after" (some "false"),
    plainEdge "inner" "early" (some "true"), plainEdge "inner" "after" (some "false"),
    plainEdge "after" "done" none]

def earlyFinishPlan : DirectRunPlan :=
  .conditional "outer" false (.conditional "inner" false (.finish "early" false) .join none) .join
    (some (.log "after" false (.finish "done" false)))

/-- A walk that ends in the early `Finish` leaves the merge point of the outer conditional
open: the plan goes on with `after` and overwrites the output. -/
theorem earlyFinish_not_runsWalk :
    earlyFinishGraph.validateWorkflow = [] ∧ directWasmSupported 3 earlyFinishGraph [] = true ∧
      (rootManifest earlyFinishGraph).NoFanOut ∧
      directRunPlan 9 earlyFinishGraph [] = .ok earlyFinishPlan ∧
      (rootManifest earlyFinishGraph).IsWalk allTrue "outer" ["outer", "inner", "early"] ∧
      earlyFinishPlan.exec allTrue
        = ⟨["outer", "inner", "early", "after", "done"], .ofFinish "done", false⟩ ∧
      ¬ (rootManifest earlyFinishGraph).RunsWalk allTrue (earlyFinishPlan.exec allTrue) := by
  refine ⟨by decide, by decide, by decide, rfl, by decide, by decide, ?_⟩
  rintro ⟨walk, hwalk, -, hsteps, -⟩
  obtain rfl : ["outer", "inner", "early", "after", "done"] = walk := hsteps
  exact absurd hwalk (by decide)

end Runtara
