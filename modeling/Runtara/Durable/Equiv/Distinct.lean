/-
  Which workflows have a key of their own for every durable execution.

  With plain names and an honest run, two executions have the same key exactly if they have the same
  address. The counters of loops, attempts, turns and calls are all in the address, but for the
  calls of an embedded workflow that is a tool. What is not in it is the loop or the waiting step
  that a subgraph belongs to. So the keys are distinct exactly if no two durable steps at the same
  depth have the same ids, and no embedded tool has a durable step (`keys_identify_iff`).
-/
import Runtara.Durable.Equiv.Keys
import Runtara.Support.Validation

namespace Runtara

open Json List

/-! ### The static place of an execution -/

/-- The frame of the first iteration or call. -/
def Frame.first : Frame → Frame
  | .split stepId _ => .split stepId 0
  | .whileLoop stepId _ => .whileLoop stepId 0
  | .onWait stepId => .onWait stepId
  | .embed stepId => .embed stepId
  | .embedTool stepId _ => .embedTool stepId 0
  | .composed stepId => .composed stepId
  | .composedTool aiStepId label _ => .composedTool aiStepId label 0

def Derived.first : Derived → Derived
  | .result => .result
  | .attempt _ => .attempt 0
  | .retrySleep _ => .retrySleep 0

def Operation.first : Operation → Operation
  | .cached operation derived => .cached operation derived.first
  | .delay stepId => .delay stepId
  | .turn stepId _ => .turn stepId 0
  | .breakpoint stepId => .breakpoint stepId
  | .wait stepId => .wait stepId
  | .waitTool aiStepId label _ => .waitTool aiStepId label 0

/-- The execution with all counters at zero: its place in the tree of graphs. -/
def Execution.first (e : Execution) : Execution := ⟨e.frames.map Frame.first, e.operation.first⟩

variable {P : Program} {p p' : Place} {f : Frame}

theorem Enters.first (h : Enters P p f p') : Enters P p f.first p' := by
  cases h with
  | split _ h => exact .split 0 h
  | whileLoop _ h => exact .whileLoop 0 h
  | onWait h => exact .onWait h
  | embed h hchild => exact .embed h hchild
  | embedTool _ h hchild => exact .embedTool 0 h hchild
  | composed h hpublished => exact .composed h hpublished
  | composedTool _ h hpublished => exact .composedTool 0 h hpublished

variable {frames : List Frame}

/-- A change of frames that keeps where each one leads to. -/
theorem Located.map {change : Frame → Frame}
    (hchange : ∀ {p f p'}, Enters P p f p' → Enters P p (change f) p') (h : Located P frames p) :
    Located P (frames.map change) p := by
  induction h with
  | root => exact .root
  | enter _ henter ih => exact .enter ih (hchange henter)

variable {operation : Operation}

theorem Performs.first (h : Performs p operation) : Performs p operation.first := by
  cases h with
  | agent derived h hdurable => exact .agent derived.first h hdurable
  | aiAgent derived h hdurable => exact .aiAgent derived.first h hdurable
  | split derived h hdurable => exact .split derived.first h hdurable
  | embed derived h hdurable => exact .embed derived.first h hdurable
  | delay h hdurable => exact .delay h hdurable
  | turn _ h hdurable => exact .turn 0 h hdurable
  | breakpoint h hdurable => exact .breakpoint h hdurable
  | wait h => exact .wait h
  | waitTool _ h => exact .waitTool 0 h

variable {e : Execution}

theorem Program.Executes.first (h : P.Executes e p) : P.Executes e.first p :=
  ⟨h.located.map Enters.first, h.performs.first⟩

/-! ### Addresses and static places -/

def Site.first : Site → Site
  | .step stepId => .step stepId
  | .tool aiStepId label _ => .tool aiStepId label 0

theorem Frame.site?_first (f : Frame) : f.first.site? = f.site?.map Site.first := by
  cases f <;> rfl

theorem Frame.index?_first (f : Frame) : f.first.index? = f.index?.map fun _ => 0 := by
  cases f <;> rfl

theorem indicesOf_first (frames : List Frame) :
    indicesOf (frames.map Frame.first) = (indicesOf frames).map fun _ => 0 := by
  induction frames with
  | nil => rfl
  | cons f frames ih =>
    rw [map_cons, indicesOf, indicesOf, Frame.site?_first, Frame.index?_first,
      Option.isSome_map, ih]
    split
    · rfl
    · rw [map_append]
      cases f.index? <;> rfl

theorem sitesOf_first (frames : List Frame) :
    sitesOf (frames.map Frame.first)
      = (sitesOf frames).map fun s => (s.1.first, s.2.map fun _ => 0) := by
  induction frames with
  | nil => rfl
  | cons f frames ih =>
    rw [map_cons, sitesOf, sitesOf, ih, Frame.site?_first, indicesOf_first, map_append]
    cases f.site? <;> rfl

theorem Operation.isSignal_first (operation : Operation) :
    operation.first.isSignal = operation.isSignal := by
  cases operation <;> rfl

variable {e' : Execution}

/-- Executions with the same address have places with the same address. -/
theorem address_first {wf wf' : String} (h : e.address wf = e'.address wf') :
    e.first.address wf = e'.first.address wf' := by
  simp only [Execution.address, Address.mk.injEq] at h
  obtain ⟨hsites, hindices, hoperation, hscope⟩ := h
  simp only [Execution.address, Execution.first, Address.mk.injEq, sitesOf_first, indicesOf_first,
    Operation.isSignal_first, hsites, hindices, hoperation, true_and]
  rwa [hoperation] at hscope

/-- The frame is not a call of an embedded tool. -/
def Frame.counted : Frame → Bool
  | .embedTool _ _ => false
  | _ => true

theorem Frame.site?_inj {f' : Frame} (hfirst : f.first = f'.first) (hcounted : f.counted = true)
    {site : Site} (h : f.site? = some site) (h' : f'.site? = some site) : f = f' := by
  cases f <;> cases f' <;> simp_all [Frame.first, Frame.site?, Frame.counted]
  all_goals grind

theorem Frame.index?_inj {f' : Frame} (hfirst : f.first = f'.first) (h : f.site? = none)
    (hindex : f.index? = f'.index?) : f = f' := by
  cases f <;> cases f' <;> simp_all [Frame.first, Frame.site?, Frame.index?]

/-- The frames can be told from their static places, the sites and the indices. -/
theorem frames_eq {frames' : List Frame} (hfirst : frames.map Frame.first = frames'.map Frame.first)
    (hsites : sitesOf frames = sitesOf frames') (hindices : indicesOf frames = indicesOf frames')
    (hcounted : ∀ f ∈ frames, f.counted = true) : frames = frames' := by
  induction frames generalizing frames' with
  | nil =>
    rw [map_nil] at hfirst
    exact (map_eq_nil_iff.mp hfirst.symm).symm
  | cons f frames ih =>
    cases frames' with
    | nil => cases hfirst
    | cons f' frames' =>
      rw [map_cons, map_cons, List.cons.injEq] at hfirst
      rw [forall_mem_cons] at hcounted
      have hsome : f.site?.map Site.first = f'.site?.map Site.first := by
        rw [← Frame.site?_first, ← Frame.site?_first, hfirst.1]
      cases hsite : f.site? with
      | none =>
        rw [hsite, Option.map_none, eq_comm, Option.map_eq_none_iff] at hsome
        rw [sitesOf_of_none hsite, sitesOf_of_none hsome] at hsites
        rw [indicesOf_of_none hsite, indicesOf_of_none hsome] at hindices
        have hindex : f.index?.map (fun _ => (0 : UInt32)) = f'.index?.map fun _ => 0 := by
          rw [← Frame.index?_first, ← Frame.index?_first, hfirst.1]
        have hlength : f.index?.toList.length = f'.index?.toList.length := by
          cases hi : f.index? <;> cases hi' : f'.index? <;> simp_all
        obtain ⟨hrest, hlast⟩ := append_inj' hindices hlength
        have hf := Frame.index?_inj hfirst.1 hsite (by
          cases hi : f.index? <;> cases hi' : f'.index? <;> simp_all)
        rw [hf, ih hfirst.2 hsites hrest hcounted.2]
      | some site =>
        rw [hsite, Option.map_some, eq_comm, Option.map_eq_some_iff] at hsome
        obtain ⟨site', hsite', _⟩ := hsome
        rw [sitesOf_of_some hsite, sitesOf_of_some hsite'] at hsites
        obtain ⟨hrest, hlast⟩ := append_inj' hsites rfl
        simp only [List.cons.injEq, Prod.mk.injEq, and_true] at hlast
        have hf := Frame.site?_inj hfirst.1 hcounted.1 hsite (hlast.1 ▸ hsite')
        rw [hf, ih hfirst.2 hrest hlast.2 hcounted.2]

/-! ### Distinct keys -/

/-- **Distinct executions have distinct keys.** -/
def KeysIdentify {ν : Type} [NumberOps ν] (P : Program) (r : DurableRun ν) : Prop :=
  ∀ e p e' p', P.Executes e p → P.Executes e' p' → r.key e = r.key e' → e = e'

/-- No two places with the same call sites, at the same depth of loops, have a durable operation of
the same kind and ids. -/
def Program.StepsApart (P : Program) : Prop :=
  ∀ e p e' p', P.Executes e p → P.Executes e' p' →
    e.first.address p.artifact.workflowId = e'.first.address p'.artifact.workflowId →
    e.first = e'.first

/-- There is no durable operation in an embedded workflow that is a tool. -/
def Program.ToolsCounted (P : Program) : Prop :=
  ∀ e p, P.Executes e p → ∀ f ∈ e.frames, f.counted = true

/-- The names that keys are made of have none of their separators in them. -/
structure PlainNames (P : Program) : Prop where
  root : PlainRoot P.root.workflowId
  site : ∀ frames p f p', Located P frames p → Enters P p f p' →
    ∀ site, f.site? = some site → site.Plain
  operation : ∀ e p, P.Executes e p → e.operation.Plain
  workflowId : ∀ frames p, Located P frames p → Plain p.artifact.workflowId

theorem PlainNames.sites (h : PlainNames P) (hlocated : Located P frames p) :
    ∀ s ∈ sitesOf frames, s.1.Plain := by
  induction hlocated with
  | root => intro s hs; cases hs
  | @enter frames p f p' hlocated henter ih =>
    intro s hs
    rw [sitesOf, mem_append] at hs
    rcases hs with hs | hs
    · exact ih s hs
    · rw [Option.mem_toList, Option.map_eq_some_iff] at hs
      obtain ⟨site, hsite, rfl⟩ := hs
      exact h.site frames p f p' hlocated henter site hsite

theorem PlainNames.address (h : PlainNames P) (he : P.Executes e p) :
    (e.address p.artifact.workflowId).Plain where
  sites := h.sites he.located
  operation := h.operation e p he
  scopeId := by
    show Plain (if e.operation.isSignal = true then p.artifact.workflowId else "")
    split
    · exact h.workflowId _ _ he.located
    · decide

theorem Execution.scoped (e : Execution) (workflowId : String) : (e.address workflowId).Scoped := by
  intro h
  exact if_neg (by rw [show e.operation.isSignal = false from h]; exact Bool.false_ne_true)

section Runs

variable {ν : Type} [NumberOps ν] [DecimalU64 ν] {P : Program} {r : DurableRun ν}

theorem key_eq_of_address (hr : r.Honest P) (he : P.Executes e p) (he' : P.Executes e' p')
    (h : e.address p.artifact.workflowId = e'.address p'.artifact.workflowId) :
    r.key e = r.key e' := by
  rw [← String.toList_inj, key_toList hr he.located, key_toList hr he'.located, h]

theorem address_of_key_eq (hnames : PlainNames P) (hinstance : Plain r.instanceId) (hr : r.Honest P)
    (he : P.Executes e p) (he' : P.Executes e' p') (h : r.key e = r.key e') :
    e.address p.artifact.workflowId = e'.address p'.artifact.workflowId := by
  rw [← String.toList_inj, key_toList hr he.located, key_toList hr he'.located] at h
  exact Address.text_inj hnames.root hinstance (hnames.address he) (hnames.address he')
    (e.scoped _) (e'.scoped _) h

/-- The frame of the next call of an embedded tool. -/
def Frame.nextCall : Frame → Frame
  | .embedTool stepId call => .embedTool stepId (call + 1)
  | f => f

omit [NumberOps ν] [DecimalU64 ν] in
theorem Enters.nextCall (h : Enters P p f p') : Enters P p f.nextCall p' := by
  cases h with
  | embedTool call h hchild => exact .embedTool (call + 1) h hchild
  | split index h => exact .split index h
  | whileLoop index h => exact .whileLoop index h
  | onWait h => exact .onWait h
  | embed h hchild => exact .embed h hchild
  | composed h hpublished => exact .composed h hpublished
  | composedTool call h hpublished => exact .composedTool call h hpublished

theorem indicesOf_nextCall (frames : List Frame) :
    indicesOf (frames.map Frame.nextCall) = indicesOf frames := by
  induction frames with
  | nil => rfl
  | cons f frames ih => cases f <;> simp [indicesOf, Frame.nextCall, Frame.site?, Frame.index?, ih]

theorem sitesOf_nextCall (frames : List Frame) :
    sitesOf (frames.map Frame.nextCall) = sitesOf frames := by
  induction frames with
  | nil => rfl
  | cons f frames ih =>
    cases f <;> simp [sitesOf, Frame.nextCall, Frame.site?, ih, indicesOf_nextCall]

/-- The calls of an embedded tool share their keys. -/
theorem counted_of_keysIdentify (hr : r.Honest P) (hkeys : KeysIdentify P r) : P.ToolsCounted := by
  intro e p he f hf
  have he' : P.Executes ⟨e.frames.map Frame.nextCall, e.operation⟩ p :=
    ⟨he.located.map Enters.nextCall, he.performs⟩
  have haddress : e.address p.artifact.workflowId
      = (Execution.mk (e.frames.map Frame.nextCall) e.operation).address
        p.artifact.workflowId := by
    rw [Execution.address, Execution.address, sitesOf_nextCall, indicesOf_nextCall]
  have hsame := hkeys e p _ p he he' (key_eq_of_address hr he he' haddress)
  have hframes : e.frames.map Frame.nextCall = e.frames.map id := by
    rw [map_id]
    exact (congrArg Execution.frames hsame).symm
  have hfixed := map_inj_left.mp hframes f hf
  cases f with
  | embedTool stepId call =>
    simp [Frame.nextCall] at hfixed
  | _ => rfl

/-- **Which programs have distinct keys.** -/
theorem keys_identify_iff (hnames : PlainNames P) (hinstance : Plain r.instanceId)
    (hr : r.Honest P) : KeysIdentify P r ↔ P.StepsApart ∧ P.ToolsCounted := by
  constructor
  · intro hkeys
    refine ⟨fun e p e' p' he he' haddress => ?_, counted_of_keysIdentify hr hkeys⟩
    exact hkeys _ p _ p' he.first he'.first (key_eq_of_address hr he.first he'.first haddress)
  · rintro ⟨hapart, hcounted⟩ e p e' p' he he' hkey
    have haddress := address_of_key_eq hnames hinstance hr he he' hkey
    have hfirst := hapart e p e' p' he he' (address_first haddress)
    simp only [Execution.address, Address.mk.injEq] at haddress
    have hframes := frames_eq (congrArg Execution.frames hfirst) haddress.1 haddress.2.1
      (hcounted e p he)
    obtain ⟨frames, operation⟩ := e
    obtain ⟨frames', operation'⟩ := e'
    rw [Execution.mk.injEq]
    exact ⟨hframes, haddress.2.2.1⟩

end Runs

/-! ### Two batches -/

def callGraph (stepId : StepId) : ExecutionGraph where
  entryPoint := stepId
  durable := none
  rateLimitBudgetMs := 0
  steps := [⟨stepId, false, .agent ⟨"http", 0, none, none, none, none, false⟩⟩,
    ⟨"sent", false, .finish⟩]
  executionPlan := [⟨stepId, "sent", none, false, none⟩]

/-- Two batches one after the other, each with a call for every item. -/
def batchGraph (stepId stepId' : StepId) : ExecutionGraph where
  entryPoint := "orders"
  durable := none
  rateLimitBudgetMs := 0
  steps := [⟨"orders", false, .split ⟨none, none, none, none, none, none⟩ (callGraph stepId)⟩,
    ⟨"invoices", false, .split ⟨none, none, none, none, none, none⟩ (callGraph stepId')⟩,
    ⟨"done", false, .finish⟩]
  executionPlan := [⟨"orders", "invoices", none, false, none⟩,
    ⟨"invoices", "done", none, false, none⟩]

def batchProgram (stepId stepId' : StepId) : Program where
  root := ⟨"billing", batchGraph stepId stepId', [], fun _ => "request"⟩
  published := fun _ => none

/-- A run without data. -/
def batchRun : DurableRun ℕ where
  env := ⟨none, none, id⟩
  contentHash := fun _ => 0
  instanceId := "run"
  arena := fun _ => .reset 0
  data := fun _ => .null
  steps := fun _ => .null
  extra := fun _ => none
  outputs := fun _ => .null
  declared := fun _ => []
  workflowId := fun _ => "billing"
  breakpointData := fun _ => none

section Batches

variable {a b : StepId}

/-- The root of the batches, and the graph of a call. -/
def batchPlace (a b : StepId) : Place := .ofArtifact (batchProgram a b).root

theorem located_batch (h : Located (batchProgram a b) frames p) : (frames = [] ∧ p = batchPlace a b)
      ∨ (∃ i, frames = [.split "orders" i] ∧ p = (batchPlace a b).nested (callGraph a))
      ∨ ∃ i, frames = [.split "invoices" i] ∧ p = (batchPlace a b).nested (callGraph b) := by
  induction h with
  | root => exact Or.inl ⟨rfl, rfl⟩
  | @enter frames p f p' _ henter ih =>
    -- the calls have no graphs in them, and the batches none but the calls
    rcases ih with ⟨rfl, rfl⟩ | ⟨i, rfl, rfl⟩ | ⟨i, rfl, rfl⟩
    · cases henter with
      | split index h =>
        simp [batchPlace, batchProgram, Place.ofArtifact, batchGraph] at h
        rcases h with ⟨rfl, -, -, rfl⟩ | ⟨rfl, -, -, rfl⟩
        · exact Or.inr (Or.inl ⟨index, rfl, rfl⟩)
        · exact Or.inr (Or.inr ⟨index, rfl, rfl⟩)
      | whileLoop _ h | onWait h | embed h =>
        simp [batchPlace, batchProgram, Place.ofArtifact, batchGraph] at h
      | embedTool _ h =>
        obtain ⟨⟨_, _, h⟩, _⟩ := h
        simp [batchPlace, batchProgram, Place.ofArtifact, batchGraph] at h
      | composed _ hpublished | composedTool _ _ hpublished => cases hpublished
    all_goals
      cases henter with
      | split _ h | whileLoop _ h | onWait h | embed h => simp [Place.nested, callGraph] at h
      | embedTool _ h =>
        obtain ⟨⟨_, _, h⟩, _⟩ := h
        simp [Place.nested, callGraph] at h
      | composed _ hpublished | composedTool _ _ hpublished => cases hpublished

theorem performs_batch (h : Performs (batchPlace a b) operation) :
    ∃ derived, operation = .cached (.split "orders") derived
      ∨ operation = .cached (.split "invoices") derived := by
  cases h with
  | split derived h _ =>
    simp [batchPlace, batchProgram, Place.ofArtifact, batchGraph] at h
    rcases h with ⟨rfl, _⟩ | ⟨rfl, _⟩
    · exact ⟨derived, Or.inl rfl⟩
    · exact ⟨derived, Or.inr rfl⟩
  | agent _ h | aiAgent _ h | embed _ h | delay h | turn _ h | breakpoint h | wait h =>
    simp [batchPlace, batchProgram, Place.ofArtifact, batchGraph] at h
  | waitTool _ h =>
    obtain ⟨⟨_, _, h⟩, _⟩ := h
    simp [batchPlace, batchProgram, Place.ofArtifact, batchGraph] at h

theorem performs_call {stepId : StepId}
    (h : Performs ((batchPlace a b).nested (callGraph stepId)) operation) :
    ∃ derived, operation = .cached (.agent "http" "request" stepId) derived := by
  cases h with
  | agent derived h _ =>
    simp [Place.nested, callGraph] at h
    obtain ⟨rfl, rfl, rfl⟩ := h
    exact ⟨derived, rfl⟩
  | aiAgent _ h | split _ h | embed _ h | delay h | turn _ h | breakpoint h | wait h =>
    simp [Place.nested, callGraph] at h
  | waitTool _ h =>
    obtain ⟨⟨_, _, h⟩, _⟩ := h
    simp [Place.nested, callGraph] at h

theorem executes_batch (h : (batchProgram a b).Executes e p) :
    p.artifact.workflowId = "billing" ∧ ∃ derived,
      (∃ s ∈ ["orders", "invoices"], e = ⟨[], .cached (.split s) derived⟩)
        ∨ (∃ i, e = ⟨[.split "orders" i], .cached (.agent "http" "request" a) derived⟩)
        ∨ ∃ i, e = ⟨[.split "invoices" i], .cached (.agent "http" "request" b) derived⟩ := by
  obtain ⟨hlocated, hperforms⟩ := h
  obtain ⟨frames, operation⟩ := e
  rcases located_batch hlocated with ⟨rfl, rfl⟩ | ⟨i, rfl, rfl⟩ | ⟨i, rfl, rfl⟩
  · obtain ⟨derived, rfl | rfl⟩ := performs_batch hperforms
    · exact ⟨rfl, derived, Or.inl ⟨"orders", by decide, rfl⟩⟩
    · exact ⟨rfl, derived, Or.inl ⟨"invoices", by decide, rfl⟩⟩
  · obtain ⟨derived, rfl⟩ := performs_call hperforms
    exact ⟨rfl, derived, Or.inr (Or.inl ⟨i, rfl⟩)⟩
  · obtain ⟨derived, rfl⟩ := performs_call hperforms
    exact ⟨rfl, derived, Or.inr (Or.inr ⟨i, rfl⟩)⟩

end Batches

theorem batchRun_honest (a b : StepId) : batchRun.Honest (batchProgram a b) where
  workflowId frames p h := by
    rcases located_batch h with ⟨_, rfl⟩ | ⟨_, _, rfl⟩ | ⟨_, _, rfl⟩ <;> rfl
  data _ _ _ h := by cases h
  extra _ _ h := by cases h
  declared _ _ := ⟨rfl, rfl⟩
  breakpoint _ _ h := by cases h
  size frames p h := by
    have hroot : scopeBytes "billing" [] + 2 < wfrefThresholdBytes := by decide
    have hworkflow : "billing".utf8ByteSize + 2 < wfrefThresholdBytes := by decide
    rcases located_batch h with ⟨rfl, rfl⟩ | ⟨_, rfl, rfl⟩ | ⟨_, rfl, rfl⟩
    · exact ⟨hroot, hworkflow, by decide⟩
    · exact ⟨hroot, hworkflow, (by decide : 9 * 1 + 2 < wfrefThresholdBytes)⟩
    · exact ⟨hroot, hworkflow, (by decide : 9 * 1 + 2 < wfrefThresholdBytes)⟩

/-- The items of two batches have different keys if the calls in them have different ids. -/
theorem batches_identify : PlainNames (batchProgram "call" "post") ∧ Plain batchRun.instanceId
    ∧ batchRun.Honest (batchProgram "call" "post")
    ∧ KeysIdentify (batchProgram "call" "post") batchRun := by
  have hnames : PlainNames (batchProgram "call" "post") := {
    root := ⟨by decide, by decide⟩
    site := by
      intro frames p f p' h henter site hsite
      rcases located_batch (.enter h henter) with ⟨hnil, -⟩ | ⟨i, hf, -⟩ | ⟨i, hf, -⟩
      · cases hnil
      · cases hf
        cases hsite
      · cases hf
        cases hsite
    operation := by
      intro e p h
      obtain ⟨-, derived, ⟨s, hs, rfl⟩ | ⟨i, rfl⟩ | ⟨i, rfl⟩⟩ := executes_batch h
      · simp only [mem_cons, not_mem_nil, or_false] at hs
        rcases hs with rfl | rfl
        · exact (by decide : Plain "orders")
        · exact (by decide : Plain "invoices")
      · exact (by decide : ':' ∉ "http".toList ∧ ':' ∉ "request".toList ∧ Plain "call")
      · exact (by decide : ':' ∉ "http".toList ∧ ':' ∉ "request".toList ∧ Plain "post")
    workflowId := by
      intro frames p h
      rw [← (batchRun_honest _ _).workflowId frames p h]
      exact (by decide : Plain "billing") }
  refine ⟨hnames, by decide, batchRun_honest _ _,
    (keys_identify_iff hnames (by decide) (batchRun_honest _ _)).mpr ⟨?_, ?_⟩⟩
  · intro e p e' p' he he' haddress
    obtain ⟨hp, derived, hcases⟩ := executes_batch he
    obtain ⟨hp', derived', hcases'⟩ := executes_batch he'
    rw [hp, hp'] at haddress
    simp only [Execution.address, Address.mk.injEq] at haddress
    obtain ⟨-, hindices, hoperation, -⟩ := haddress
    rcases hcases with ⟨s, _, rfl⟩ | ⟨i, rfl⟩ | ⟨i, rfl⟩ <;>
      rcases hcases' with ⟨s', _, rfl⟩ | ⟨j, rfl⟩ | ⟨j, rfl⟩ <;>
      simp_all [Execution.first, Frame.first, Operation.first]
  · intro e p he f hf
    obtain ⟨-, derived, ⟨s, _, rfl⟩ | ⟨i, rfl⟩ | ⟨i, rfl⟩⟩ := executes_batch he
    · cases hf
    · rw [mem_singleton.mp hf]; rfl
    · rw [mem_singleton.mp hf]; rfl

/-- **Two steps with one key.** The calls of two batches have the same id, and the items of the
second batch find the results of the first. -/
theorem batches_share_key :
    validateWorkflowClosure 2 "billing" (batchGraph "call" "call") [] = []
      ∧ (batchProgram "call" "call").Executes
        ⟨[.split "orders" 0], .cached (.agent "http" "request" "call") .result⟩
        ((batchPlace "call" "call").nested (callGraph "call"))
      ∧ (batchProgram "call" "call").Executes
        ⟨[.split "invoices" 0], .cached (.agent "http" "request" "call") .result⟩
        ((batchPlace "call" "call").nested (callGraph "call"))
      ∧ batchRun.key ⟨[.split "orders" 0], .cached (.agent "http" "request" "call") .result⟩
        = batchRun.key ⟨[.split "invoices" 0], .cached (.agent "http" "request" "call") .result⟩
      ∧ ¬KeysIdentify (batchProgram "call" "call") batchRun := by
  have hexecutes : ∀ batch ∈ ["orders", "invoices"], (batchProgram "call" "call").Executes
      ⟨[.split batch 0], .cached (.agent "http" "request" "call") .result⟩
      ((batchPlace "call" "call").nested (callGraph "call")) := by
    intro batch hbatch
    have henters : Enters (batchProgram "call" "call") (batchPlace "call" "call") (.split batch 0)
        ((batchPlace "call" "call").nested (callGraph "call")) := by
      simp only [mem_cons, not_mem_nil, or_false] at hbatch
      rcases hbatch with rfl | rfl
      · exact .split 0 mem_cons_self
      · exact .split 0 (mem_cons_of_mem _ mem_cons_self)
    exact ⟨.enter .root henters, @Performs.agent _ "call" false
      ⟨"http", 0, none, none, none, none, false⟩ .result mem_cons_self ⟨rfl, rfl⟩⟩
  have hkey : batchRun.key ⟨[.split "orders" 0], .cached (.agent "http" "request" "call") .result⟩
      = batchRun.key
        ⟨[.split "invoices" 0], .cached (.agent "http" "request" "call") .result⟩ := by
    decide +kernel
  refine ⟨by decide +kernel, hexecutes _ (by decide), hexecutes _ (by decide), hkey, fun h => ?_⟩
  have hsame := h _ _ _ _ (hexecutes "orders" (by decide)) (hexecutes "invoices" (by decide)) hkey
  exact absurd hsame (by decide)

end Runtara
