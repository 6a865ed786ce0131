/-
  `DirectRunPlan` — the run-plan tree of the direct Wasm emitter.

  `direct_wasm/plan.rs` turns a workflow graph into this tree and
  `direct_wasm/compile/` lowers the tree to structured Wasm. Every constructor of
  the source enum is here, with the fields that planning or lowering decides on.
  The numeric manifest ids that lowering only copies into a host call
  (`mapping_id`, `filter_id`, `split_id`, ...) are left out: each step owns exactly
  one such entry, so the step id identifies it. Edge conditions keep their id, since
  one step may own several.

  The tree is nested through lists, options and the error route, so the file also
  provides the two tools every later module uses: `DirectRunPlan.para`, the one
  recursion over the tree (a lowering is an algebra for it), and
  `DirectRunPlan.induction`, the matching induction principle.
-/
import Mathlib.Data.List.Basic
import Mathlib.Data.Option.Basic
import Mathlib.Data.Prod.Basic

namespace Runtara

/-- Step identifiers, as the DSL has them. -/
abbrev StepId := String

/-! ### Settings carried by the nodes -/

/-- The fields of a `Split` node that are not sub-plans. -/
structure SplitSettings where
  stepId : StepId
  durable : Bool
  breakpoint : Bool
  maxRetries : ℕ
  retryDelayMs : ℕ
  dontStopOnFailed : Bool
  parallelWindow : Option ℕ
  timeoutMs : Option ℕ
deriving DecidableEq, Repr

/-- The fields of a `While` node that are not sub-plans. -/
structure WhileSettings where
  stepId : StepId
  breakpoint : Bool
  timeoutMs : Option ℕ
deriving DecidableEq, Repr

/-- The fields of an `EmbedWorkflow` node that are not sub-plans. -/
structure EmbedSettings where
  stepId : StepId
  durable : Bool
  breakpoint : Bool
  maxRetries : ℕ
  retryDelayMs : ℕ
deriving DecidableEq, Repr

/-- The fields of an `Agent` node that are not sub-plans. The single-shot `AiAgent`
node has the same fields except the budget: the dispatcher lowers it through
`emit_agent_plan` with `rate_limit_budget_ms = 0`. -/
structure AgentSettings where
  stepId : StepId
  agentId : ℕ
  agentComponentId : String
  durableCheckpoint : Bool
  breakpoint : Bool
  maxRetries : ℕ
  retryDelayMs : ℕ
  rateLimitBudgetMs : ℕ
deriving DecidableEq, Repr

/-- `DirectAiMemoryPlan`: the memory provider of an `AiAgent` loop. `summarize` holds
the summarize provider's agent id and component id. -/
structure DirectAiMemoryPlan where
  loadAgentId : ℕ
  saveAgentId : ℕ
  agentComponentId : String
  maxMessages : ℕ
  summarize : Option (ℕ × String)
deriving DecidableEq, Repr

/-- The fields of an `AiAgentLoop` node that are not sub-plans. -/
structure AiLoopSettings where
  stepId : StepId
  agentId : ℕ
  agentComponentId : String
  durableCheckpoint : Bool
  breakpoint : Bool
  maxIterations : ℕ
  memory : Option DirectAiMemoryPlan
deriving DecidableEq, Repr

/-- `DirectErrorRoutePlan`, over an arbitrary type of handler plans: the conditioned
handlers in evaluation order and the optional default handler. -/
structure ErrorRouteOf (P : Type) where
  branches : List (ℕ × P)
  defaultPlan : Option P

/-- `DirectAiToolPlan`, over an arbitrary type of child plans. -/
inductive AiToolOf (P : Type) where
  | agent (agentId : ℕ) (agentComponentId : String) (label : String) (timeoutMs : Option ℕ)
  | embed (stepId : StepId) (childPlan : P)
  | wait (stepId : StepId) (label : String)

namespace ErrorRouteOf

variable {P Q : Type}

/-- Apply a function to every handler plan. -/
def map (f : P → Q) (r : ErrorRouteOf P) : ErrorRouteOf Q :=
  ⟨r.branches.map fun b => (b.1, f b.2), r.defaultPlan.map f⟩

/-- Every handler plan of the route, conditioned ones first. -/
def plans (r : ErrorRouteOf P) : List P :=
  r.branches.map Prod.snd ++ r.defaultPlan.toList

end ErrorRouteOf

namespace AiToolOf

variable {P Q : Type}

/-- Apply a function to the child plan of an `Embed` tool. -/
def map (f : P → Q) : AiToolOf P → AiToolOf Q
  | agent a c l t => agent a c l t
  | embed s p => embed s (f p)
  | wait s l => wait s l

/-- The child plan of an `Embed` tool, as a list. -/
def plans : AiToolOf P → List P
  | agent _ _ _ _ => []
  | embed _ p => [p]
  | wait _ _ => []

end AiToolOf

/-! ### The tree -/

inductive DirectRunPlan where
  | finish (stepId : StepId) (breakpoint : Bool)
  | filter (stepId : StepId) (breakpoint : Bool) (nextPlan : DirectRunPlan)
  | switchValue (stepId : StepId) (breakpoint : Bool) (nextPlan : DirectRunPlan)
  | groupBy (stepId : StepId) (breakpoint : Bool) (nextPlan : DirectRunPlan)
  | log (stepId : StepId) (breakpoint : Bool) (nextPlan : DirectRunPlan)
  | delay (stepId : StepId) (durable : Bool) (breakpoint : Bool) (nextPlan : DirectRunPlan)
  | switchRoute (stepId : StepId) (breakpoint : Bool) (branches : List (String × DirectRunPlan))
      (defaultPlan : DirectRunPlan) (mergePlan : Option DirectRunPlan)
  | edgeRoute (branches : List (ℕ × DirectRunPlan)) (defaultPlan : DirectRunPlan)
      (mergePlan : Option DirectRunPlan)
  | split (settings : SplitSettings) (nestedPlan nextPlan : DirectRunPlan)
      (errorPlan : Option (ErrorRouteOf DirectRunPlan))
  | whileLoop (settings : WhileSettings) (nestedPlan nextPlan : DirectRunPlan)
      (errorPlan : Option (ErrorRouteOf DirectRunPlan))
  | embedWorkflow (settings : EmbedSettings) (childPlan nextPlan : DirectRunPlan)
      (errorPlan : Option (ErrorRouteOf DirectRunPlan))
  | waitForSignal (stepId : StepId) (breakpoint : Bool) (onWaitPlan : Option DirectRunPlan)
      (nextPlan : DirectRunPlan) (errorPlan : Option (ErrorRouteOf DirectRunPlan))
  | agent (settings : AgentSettings) (nextPlan : DirectRunPlan)
      (errorPlan : Option (ErrorRouteOf DirectRunPlan))
  | aiAgent (settings : AgentSettings) (nextPlan : DirectRunPlan)
      (errorPlan : Option (ErrorRouteOf DirectRunPlan))
  | aiAgentLoop (settings : AiLoopSettings) (tools : List (AiToolOf DirectRunPlan))
      (nextPlan : DirectRunPlan) (errorPlan : Option (ErrorRouteOf DirectRunPlan))
  | error (stepId : StepId) (breakpoint : Bool)
  | conditional (stepId : StepId) (breakpoint : Bool) (truePlan falsePlan : DirectRunPlan)
      (mergePlan : Option DirectRunPlan)
  | parallelBranches (branches : List DirectRunPlan) (mergePlan : DirectRunPlan)
  | join
  | implicitFinish

abbrev DirectErrorRoutePlan := ErrorRouteOf DirectRunPlan

abbrev DirectAiToolPlan := AiToolOf DirectRunPlan

namespace DirectRunPlan

/-! ### The recursion principle -/

/-- One clause per constructor of the plan. A clause receives every sub-plan paired
with the result already computed for it: lowering needs both, because some nodes are
lowered after a look at the shape of a sub-plan. -/
structure Algebra (β : Type) where
  finish : StepId → Bool → β
  filter : StepId → Bool → DirectRunPlan × β → β
  switchValue : StepId → Bool → DirectRunPlan × β → β
  groupBy : StepId → Bool → DirectRunPlan × β → β
  log : StepId → Bool → DirectRunPlan × β → β
  delay : StepId → Bool → Bool → DirectRunPlan × β → β
  switchRoute : StepId → Bool → List (String × DirectRunPlan × β) → DirectRunPlan × β →
    Option (DirectRunPlan × β) → β
  edgeRoute : List (ℕ × DirectRunPlan × β) → DirectRunPlan × β → Option (DirectRunPlan × β) → β
  split : SplitSettings → DirectRunPlan × β → DirectRunPlan × β →
    Option (ErrorRouteOf (DirectRunPlan × β)) → β
  whileLoop : WhileSettings → DirectRunPlan × β → DirectRunPlan × β →
    Option (ErrorRouteOf (DirectRunPlan × β)) → β
  embedWorkflow : EmbedSettings → DirectRunPlan × β → DirectRunPlan × β →
    Option (ErrorRouteOf (DirectRunPlan × β)) → β
  waitForSignal : StepId → Bool → Option (DirectRunPlan × β) → DirectRunPlan × β →
    Option (ErrorRouteOf (DirectRunPlan × β)) → β
  agent : AgentSettings → DirectRunPlan × β → Option (ErrorRouteOf (DirectRunPlan × β)) → β
  aiAgent : AgentSettings → DirectRunPlan × β → Option (ErrorRouteOf (DirectRunPlan × β)) → β
  aiAgentLoop : AiLoopSettings → List (AiToolOf (DirectRunPlan × β)) → DirectRunPlan × β →
    Option (ErrorRouteOf (DirectRunPlan × β)) → β
  error : StepId → Bool → β
  conditional : StepId → Bool → DirectRunPlan × β → DirectRunPlan × β →
    Option (DirectRunPlan × β) → β
  parallelBranches : List (DirectRunPlan × β) → DirectRunPlan × β → β
  join : β
  implicitFinish : β

variable {β : Type}

mutual

/-- The recursion over the plan tree that all lowerings share. -/
def para (alg : Algebra β) : DirectRunPlan → β
  | finish s b => alg.finish s b
  | filter s b n => alg.filter s b (n, para alg n)
  | switchValue s b n => alg.switchValue s b (n, para alg n)
  | groupBy s b n => alg.groupBy s b (n, para alg n)
  | log s b n => alg.log s b (n, para alg n)
  | delay s d b n => alg.delay s d b (n, para alg n)
  | switchRoute s b arms d m =>
      alg.switchRoute s b (paraRoutes alg arms) (d, para alg d) (paraOption alg m)
  | edgeRoute arms d m => alg.edgeRoute (paraEdges alg arms) (d, para alg d) (paraOption alg m)
  | split c p n e => alg.split c (p, para alg p) (n, para alg n) (paraError alg e)
  | whileLoop c p n e => alg.whileLoop c (p, para alg p) (n, para alg n) (paraError alg e)
  | embedWorkflow c p n e => alg.embedWorkflow c (p, para alg p) (n, para alg n) (paraError alg e)
  | waitForSignal s b w n e =>
      alg.waitForSignal s b (paraOption alg w) (n, para alg n) (paraError alg e)
  | agent c n e => alg.agent c (n, para alg n) (paraError alg e)
  | aiAgent c n e => alg.aiAgent c (n, para alg n) (paraError alg e)
  | aiAgentLoop c ts n e => alg.aiAgentLoop c (paraTools alg ts) (n, para alg n) (paraError alg e)
  | error s b => alg.error s b
  | conditional s b t f m =>
      alg.conditional s b (t, para alg t) (f, para alg f) (paraOption alg m)
  | parallelBranches bs m => alg.parallelBranches (paraList alg bs) (m, para alg m)
  | join => alg.join
  | implicitFinish => alg.implicitFinish

def paraRoutes (alg : Algebra β) : List (String × DirectRunPlan) → List (String × DirectRunPlan × β)
  | [] => []
  | (k, p) :: rest => (k, p, para alg p) :: paraRoutes alg rest

def paraEdges (alg : Algebra β) : List (ℕ × DirectRunPlan) → List (ℕ × DirectRunPlan × β)
  | [] => []
  | (k, p) :: rest => (k, p, para alg p) :: paraEdges alg rest

def paraOption (alg : Algebra β) : Option DirectRunPlan → Option (DirectRunPlan × β)
  | none => none
  | some p => some (p, para alg p)

def paraError (alg : Algebra β) :
    Option (ErrorRouteOf DirectRunPlan) → Option (ErrorRouteOf (DirectRunPlan × β))
  | none => none
  | some r => some (paraErrorRoute alg r)

def paraErrorRoute (alg : Algebra β) :
    ErrorRouteOf DirectRunPlan → ErrorRouteOf (DirectRunPlan × β)
  | ⟨arms, d⟩ => ⟨paraEdges alg arms, paraOption alg d⟩

def paraTools (alg : Algebra β) :
    List (AiToolOf DirectRunPlan) → List (AiToolOf (DirectRunPlan × β))
  | [] => []
  | t :: rest => paraTool alg t :: paraTools alg rest

def paraTool (alg : Algebra β) : AiToolOf DirectRunPlan → AiToolOf (DirectRunPlan × β)
  | .agent a c l t => .agent a c l t
  | .embed s p => .embed s (p, para alg p)
  | .wait s l => .wait s l

def paraList (alg : Algebra β) : List DirectRunPlan → List (DirectRunPlan × β)
  | [] => []
  | p :: rest => (p, para alg p) :: paraList alg rest

end

def withResult (alg : Algebra β) (p : DirectRunPlan) : DirectRunPlan × β := (p, para alg p)

variable (alg : Algebra β)

@[simp] theorem withResult_fst (p : DirectRunPlan) : (withResult alg p).1 = p := rfl

@[simp] theorem withResult_snd (p : DirectRunPlan) : (withResult alg p).2 = para alg p := rfl

/-! The helpers of `para` are the container maps of `withResult`. -/

theorem paraRoutes_eq (arms : List (String × DirectRunPlan)) :
    paraRoutes alg arms = arms.map fun a => (a.1, withResult alg a.2) := by
  induction arms with
  | nil => rfl
  | cons a rest ih =>
    obtain ⟨k, p⟩ := a
    rw [paraRoutes, ih]; rfl

theorem paraEdges_eq (arms : List (ℕ × DirectRunPlan)) :
    paraEdges alg arms = arms.map fun a => (a.1, withResult alg a.2) := by
  induction arms with
  | nil => rfl
  | cons a rest ih =>
    obtain ⟨k, p⟩ := a
    rw [paraEdges, ih]; rfl

theorem paraOption_eq (m : Option DirectRunPlan) : paraOption alg m = m.map (withResult alg) := by
  cases m <;> rfl

theorem paraError_eq (e : Option DirectErrorRoutePlan) :
    paraError alg e = e.map (ErrorRouteOf.map (withResult alg)) := by
  cases e with
  | none => rfl
  | some r =>
    obtain ⟨arms, d⟩ := r
    simp only [paraError, paraErrorRoute, Option.map_some, ErrorRouteOf.map, paraEdges_eq,
      paraOption_eq]

theorem paraTools_eq (ts : List DirectAiToolPlan) :
    paraTools alg ts = ts.map (AiToolOf.map (withResult alg)) := by
  induction ts with
  | nil => rfl
  | cons t rest ih =>
    rw [paraTools, ih]
    cases t <;> rfl

theorem paraList_eq (ps : List DirectRunPlan) : paraList alg ps = ps.map (withResult alg) := by
  induction ps with
  | nil => rfl
  | cons p rest ih => rw [paraList, ih]; rfl

/-! ### The induction principle -/

/-- **Induction over the plan tree.** The hypotheses for the sub-plans held in lists,
options, error routes and tools are stated through membership. -/
@[elab_as_elim]
theorem induction {motive : DirectRunPlan → Prop}
    (finish : ∀ s b, motive (.finish s b))
    (filter : ∀ s b n, motive n → motive (.filter s b n))
    (switchValue : ∀ s b n, motive n → motive (.switchValue s b n))
    (groupBy : ∀ s b n, motive n → motive (.groupBy s b n))
    (log : ∀ s b n, motive n → motive (.log s b n))
    (delay : ∀ s d b n, motive n → motive (.delay s d b n))
    (switchRoute : ∀ s b arms d m, (∀ a ∈ arms, motive a.2) → motive d → (∀ p ∈ m, motive p) →
      motive (.switchRoute s b arms d m))
    (edgeRoute : ∀ arms d m, (∀ a ∈ arms, motive a.2) → motive d → (∀ p ∈ m, motive p) →
      motive (.edgeRoute arms d m))
    (split : ∀ c p n e, motive p → motive n → (∀ r ∈ e, ∀ q ∈ ErrorRouteOf.plans r, motive q) →
      motive (.split c p n e))
    (whileLoop : ∀ c p n e, motive p → motive n →
      (∀ r ∈ e, ∀ q ∈ ErrorRouteOf.plans r, motive q) → motive (.whileLoop c p n e))
    (embedWorkflow : ∀ c p n e, motive p → motive n →
      (∀ r ∈ e, ∀ q ∈ ErrorRouteOf.plans r, motive q) → motive (.embedWorkflow c p n e))
    (waitForSignal : ∀ s b w n e, (∀ p ∈ w, motive p) → motive n →
      (∀ r ∈ e, ∀ q ∈ ErrorRouteOf.plans r, motive q) → motive (.waitForSignal s b w n e))
    (agent : ∀ c n e, motive n → (∀ r ∈ e, ∀ q ∈ ErrorRouteOf.plans r, motive q) →
      motive (.agent c n e))
    (aiAgent : ∀ c n e, motive n → (∀ r ∈ e, ∀ q ∈ ErrorRouteOf.plans r, motive q) →
      motive (.aiAgent c n e))
    (aiAgentLoop : ∀ c ts n e, (∀ t ∈ ts, ∀ q ∈ AiToolOf.plans t, motive q) → motive n →
      (∀ r ∈ e, ∀ q ∈ ErrorRouteOf.plans r, motive q) → motive (.aiAgentLoop c ts n e))
    (error : ∀ s b, motive (.error s b))
    (conditional : ∀ s b t f m, motive t → motive f → (∀ p ∈ m, motive p) →
      motive (.conditional s b t f m))
    (parallelBranches : ∀ bs m, (∀ p ∈ bs, motive p) → motive m →
      motive (.parallelBranches bs m))
    (join : motive .join) (implicitFinish : motive .implicitFinish) (p : DirectRunPlan) :
    motive p := by
  -- The motives for the containers, in the order of the nested occurrences.
  refine @DirectRunPlan.rec motive
    (fun arms => ∀ a ∈ arms, motive a.2) (fun m => ∀ p ∈ m, motive p)
    (fun arms => ∀ a ∈ arms, motive a.2)
    (fun e => ∀ r ∈ e, ∀ q ∈ ErrorRouteOf.plans r, motive q)
    (fun ts => ∀ t ∈ ts, ∀ q ∈ AiToolOf.plans t, motive q)
    (fun ps => ∀ p ∈ ps, motive p)
    (fun a => motive a.2) (fun a => motive a.2)
    (fun r => ∀ q ∈ ErrorRouteOf.plans r, motive q)
    (fun t => ∀ q ∈ AiToolOf.plans t, motive q)
    ?_ ?_ ?_ ?_ ?_ ?_ ?_ ?_ ?_ ?_ ?_ ?_ ?_ ?_ ?_ ?_ ?_ ?_ ?_ ?_ ?_ ?_ ?_ ?_ ?_ ?_ ?_ ?_ ?_ ?_ ?_ ?_
    ?_
    ?_ ?_ ?_ ?_ ?_ p
  -- The first twenty goals are the hypotheses themselves; what is left is how each
  -- container's statement unfolds into its elements.
  all_goals first | assumption | skip
  · simp
  · rintro hd tl hhd htl
    exact List.forall_mem_cons.mpr ⟨hhd, htl⟩
  · simp
  · intro v hv p hp
    cases hp
    exact hv
  · simp
  · rintro hd tl hhd htl
    exact List.forall_mem_cons.mpr ⟨hhd, htl⟩
  · simp
  · intro v hv r hr
    cases hr
    exact hv
  · simp
  · rintro hd tl hhd htl
    exact List.forall_mem_cons.mpr ⟨hhd, htl⟩
  · simp
  · rintro hd tl hhd htl
    exact List.forall_mem_cons.mpr ⟨hhd, htl⟩
  · exact fun _ _ h => h
  · exact fun _ _ h => h
  · rintro arms d harms hd q hq
    rcases List.mem_append.mp hq with hq | hq
    · obtain ⟨a, ha, rfl⟩ := List.mem_map.mp hq
      exact harms a ha
    · exact hd q (Option.mem_toList.mp hq)
  · simp [AiToolOf.plans]
  · rintro s p hp q hq
    rw [List.mem_singleton.mp hq]
    exact hp
  · simp [AiToolOf.plans]

end DirectRunPlan

end Runtara
