/-
  Lowering a plan whose fan-outs look into their branches.

  Most nodes are lowered from the lowered sub-plans. A concurrent fan-out is different: it
  takes every branch apart into its chain (`branch_chain` in `compile/branch_parallel.rs`)
  and lowers each chain node alone, with its continuation replaced by `Join`
  (`with_next_join`). So the recursion keeps two results for a plan (`Lowered`), the plan as
  a whole and its chain nodes one by one, and `DirectRunPlan.lower` builds both from one
  clause per constructor.

  `subplans` lists what a node holds; `subplan_induction` is the induction over it, for
  results that treat all constructors alike.
-/
import Runtara.Plan.Chain

namespace Runtara

open List

namespace DirectRunPlan

/-! ### Sub-plans -/

/-- The handler plans of an optional error route. -/
def handlers (e : Option DirectErrorRoutePlan) : List DirectRunPlan := e.elim [] ErrorRouteOf.plans

/-- The plans a node holds, its continuation included. -/
def subplans : DirectRunPlan → List DirectRunPlan
  | finish _ _ | error _ _ | join | implicitFinish => []
  | filter _ _ n | switchValue _ _ n | groupBy _ _ n | log _ _ n | delay _ _ _ n => [n]
  | switchRoute _ _ arms d m => arms.map Prod.snd ++ d :: m.toList
  | edgeRoute arms d m => arms.map Prod.snd ++ d :: m.toList
  | split _ p n e | whileLoop _ p n e | embedWorkflow _ p n e => p :: n :: handlers e
  | waitForSignal _ _ w n e => w.toList ++ n :: handlers e
  | agent _ n e | aiAgent _ n e => n :: handlers e
  | aiAgentLoop _ ts n e => ts.flatMap AiToolOf.plans ++ n :: handlers e
  | conditional _ _ t f m => t :: f :: m.toList
  | parallelBranches bs m => bs ++ [m]

theorem mem_handlers {e : Option DirectErrorRoutePlan} {q : DirectRunPlan} :
    q ∈ handlers e ↔ ∃ r ∈ e, q ∈ ErrorRouteOf.plans r := by
  cases e <;> simp [handlers]

/-- **Induction over sub-plans**, the same hypothesis for every constructor. -/
theorem subplan_induction {motive : DirectRunPlan → Prop}
    (h : ∀ p, (∀ q ∈ p.subplans, motive q) → motive p) (p : DirectRunPlan) : motive p := by
  induction p using DirectRunPlan.induction with
  | finish | error | join | implicitFinish => exact h _ (by simp [subplans])
  | filter _ _ n ih | switchValue _ _ n ih | groupBy _ _ n ih | log _ _ n ih | delay _ _ _ n ih =>
    exact h _ (by simpa [subplans] using ih)
  | switchRoute _ _ arms d m harms hd hm | edgeRoute arms d m harms hd hm =>
    refine h _ fun q hq => ?_
    simp only [subplans, mem_append, mem_map, mem_cons, Option.mem_toList] at hq
    obtain ⟨a, ha, rfl⟩ | rfl | hq := hq
    · exact harms a ha
    · exact hd
    · exact hm q hq
  | split _ p n e hp hn he | whileLoop _ p n e hp hn he | embedWorkflow _ p n e hp hn he =>
    refine h _ fun q hq => ?_
    simp only [subplans, mem_cons, mem_handlers] at hq
    obtain rfl | rfl | ⟨r, hr, hq⟩ := hq
    · exact hp
    · exact hn
    · exact he r hr q hq
  | waitForSignal _ _ w n e hw hn he =>
    refine h _ fun q hq => ?_
    simp only [subplans, mem_append, mem_cons, Option.mem_toList, mem_handlers] at hq
    obtain hq | rfl | ⟨r, hr, hq⟩ := hq
    · exact hw q hq
    · exact hn
    · exact he r hr q hq
  | agent _ n e hn he | aiAgent _ n e hn he =>
    refine h _ fun q hq => ?_
    simp only [subplans, mem_cons, mem_handlers] at hq
    obtain rfl | ⟨r, hr, hq⟩ := hq
    · exact hn
    · exact he r hr q hq
  | aiAgentLoop _ ts n e hts hn he =>
    refine h _ fun q hq => ?_
    simp only [subplans, mem_append, mem_flatMap, mem_cons, mem_handlers] at hq
    obtain ⟨t, ht, hq⟩ | rfl | ⟨r, hr, hq⟩ := hq
    · exact hts t ht q hq
    · exact hn
    · exact he r hr q hq
  | conditional _ _ t f m ht hf hm =>
    refine h _ fun q hq => ?_
    simp only [subplans, mem_cons, Option.mem_toList] at hq
    obtain rfl | rfl | hq := hq
    · exact ht
    · exact hf
    · exact hm q hq
  | parallelBranches bs m hbs hm =>
    refine h _ fun q hq => ?_
    simp only [subplans, mem_append, mem_singleton] at hq
    obtain hq | rfl := hq
    · exact hbs q hq
    · exact hm

/-! ### Folding over sub-plans -/

section Rebuild

variable {β : Type} (alg : Algebra β)

theorem rebuild_routes (arms : List (String × DirectRunPlan)) :
    (paraRoutes alg arms).map (fun a => (a.1, a.2.1)) = arms := by
  simp [paraRoutes_eq, Function.comp_def]

theorem rebuild_edges (arms : List (ℕ × DirectRunPlan)) :
    (paraEdges alg arms).map (fun a => (a.1, a.2.1)) = arms := by
  simp [paraEdges_eq, Function.comp_def]

theorem rebuild_option (m : Option DirectRunPlan) : (paraOption alg m).map Prod.fst = m := by
  cases m <;> rfl

theorem rebuild_error (e : Option DirectErrorRoutePlan) :
    (paraError alg e).map (ErrorRouteOf.map Prod.fst) = e := by
  cases e with
  | none => rfl
  | some r =>
    obtain ⟨arms, d⟩ := r
    simp [paraError_eq, ErrorRouteOf.map, Function.comp_def]

theorem rebuild_tools (ts : List DirectAiToolPlan) :
    (paraTools alg ts).map (AiToolOf.map Prod.fst) = ts := by
  rw [paraTools_eq, map_map]
  conv_rhs => rw [← map_id ts]
  refine map_congr_left fun t _ => ?_
  cases t <;> rfl

theorem rebuild_list (ps : List DirectRunPlan) : (paraList alg ps).map Prod.fst = ps := by
  simp [paraList_eq, Function.comp_def]

end Rebuild

section FoldNodes

variable {β : Type}

/-- The clauses of a fold that only looks at a node and at the results for its sub-plans. -/
def nodeAlgebra (f : DirectRunPlan → List β → β) : Algebra β :=
  let option (m : Option (DirectRunPlan × β)) : List β := m.toList.map Prod.snd
  let error (e : Option (ErrorRouteOf (DirectRunPlan × β))) : List β :=
    (e.elim [] ErrorRouteOf.plans).map Prod.snd
  let plan (e : Option (ErrorRouteOf (DirectRunPlan × β))) : Option DirectErrorRoutePlan :=
    e.map (ErrorRouteOf.map Prod.fst)
  { finish := fun s b => f (.finish s b) []
    filter := fun s b n => f (.filter s b n.1) [n.2]
    switchValue := fun s b n => f (.switchValue s b n.1) [n.2]
    groupBy := fun s b n => f (.groupBy s b n.1) [n.2]
    log := fun s b n => f (.log s b n.1) [n.2]
    delay := fun s d b n => f (.delay s d b n.1) [n.2]
    switchRoute := fun s b arms d m =>
      f (.switchRoute s b (arms.map fun a => (a.1, a.2.1)) d.1 (m.map Prod.fst))
        (arms.map (fun a => a.2.2) ++ d.2 :: option m)
    edgeRoute := fun arms d m =>
      f (.edgeRoute (arms.map fun a => (a.1, a.2.1)) d.1 (m.map Prod.fst))
        (arms.map (fun a => a.2.2) ++ d.2 :: option m)
    split := fun c p n e => f (.split c p.1 n.1 (plan e)) (p.2 :: n.2 :: error e)
    whileLoop := fun c p n e => f (.whileLoop c p.1 n.1 (plan e)) (p.2 :: n.2 :: error e)
    embedWorkflow := fun c p n e => f (.embedWorkflow c p.1 n.1 (plan e)) (p.2 :: n.2 :: error e)
    waitForSignal := fun s b w n e =>
      f (.waitForSignal s b (w.map Prod.fst) n.1 (plan e)) (option w ++ n.2 :: error e)
    agent := fun c n e => f (.agent c n.1 (plan e)) (n.2 :: error e)
    aiAgent := fun c n e => f (.aiAgent c n.1 (plan e)) (n.2 :: error e)
    aiAgentLoop := fun c ts n e =>
      f (.aiAgentLoop c (ts.map (AiToolOf.map Prod.fst)) n.1 (plan e))
        ((ts.flatMap AiToolOf.plans).map Prod.snd ++ n.2 :: error e)
    error := fun s b => f (.error s b) []
    conditional := fun s b t f' m =>
      f (.conditional s b t.1 f'.1 (m.map Prod.fst)) (t.2 :: f'.2 :: option m)
    parallelBranches := fun bs m =>
      f (.parallelBranches (bs.map Prod.fst) m.1) (bs.map Prod.snd ++ [m.2])
    join := f .join []
    implicitFinish := f .implicitFinish [] }

def foldNodes (f : DirectRunPlan → List β → β) (p : DirectRunPlan) : β := para (nodeAlgebra f) p

variable (f : DirectRunPlan → List β → β)

theorem snd_error (e : Option DirectErrorRoutePlan) :
    ((paraError (nodeAlgebra f) e).elim [] ErrorRouteOf.plans).map Prod.snd =
      (handlers e).map (foldNodes f) := by
  cases e with
  | none => rfl
  | some r =>
    obtain ⟨arms, d⟩ := r
    cases d <;> simp [paraError_eq, handlers, ErrorRouteOf.map, ErrorRouteOf.plans, foldNodes]

theorem snd_tools (ts : List DirectAiToolPlan) :
    ((paraTools (nodeAlgebra f) ts).flatMap AiToolOf.plans).map Prod.snd =
      (ts.flatMap AiToolOf.plans).map (foldNodes f) := by
  induction ts with
  | nil => rfl
  | cons t rest ih =>
    rw [paraTools, flatMap_cons, map_append, ih, flatMap_cons, map_append]
    cases t <;> rfl

theorem snd_routes (arms : List (String × DirectRunPlan)) :
    (paraRoutes (nodeAlgebra f) arms).map (fun a => a.2.2) =
      (arms.map Prod.snd).map (foldNodes f) := by
  simp [paraRoutes_eq, foldNodes, Function.comp_def]

theorem snd_edges (arms : List (ℕ × DirectRunPlan)) :
    (paraEdges (nodeAlgebra f) arms).map (fun a => a.2.2) =
      (arms.map Prod.snd).map (foldNodes f) := by
  simp [paraEdges_eq, foldNodes, Function.comp_def]

theorem snd_option (m : Option DirectRunPlan) :
    (paraOption (nodeAlgebra f) m).toList.map Prod.snd = m.toList.map (foldNodes f) := by
  cases m <;> rfl

theorem snd_list (ps : List DirectRunPlan) :
    (paraList (nodeAlgebra f) ps).map Prod.snd = ps.map (foldNodes f) := by
  simp [paraList_eq, foldNodes, Function.comp_def]

/-- The equation of the fold: the results for the sub-plans, in the order of `subplans`. -/
theorem foldNodes_eq (p : DirectRunPlan) : foldNodes f p = f p (p.subplans.map (foldNodes f)) := by
  have hm := rebuild_option (nodeAlgebra f)
  have he := rebuild_error (nodeAlgebra f)
  cases p with
  | switchRoute s b arms d m =>
    refine congrArg₂ f
      (congrArg₂ (fun a m => switchRoute s b a d m) (rebuild_routes _ arms) (hm m)) ?_
    rw [subplans, map_append, map_cons, ← snd_routes, ← snd_option]
    rfl
  | edgeRoute arms d m =>
    refine congrArg₂ f (congrArg₂ (fun a m => edgeRoute a d m) (rebuild_edges _ arms) (hm m)) ?_
    rw [subplans, map_append, map_cons, ← snd_edges, ← snd_option]
    rfl
  | split c p n e =>
    refine congrArg₂ f (congrArg (split c p n) (he e)) ?_
    rw [subplans, map_cons, map_cons, ← snd_error]
    rfl
  | whileLoop c p n e =>
    refine congrArg₂ f (congrArg (whileLoop c p n) (he e)) ?_
    rw [subplans, map_cons, map_cons, ← snd_error]
    rfl
  | embedWorkflow c p n e =>
    refine congrArg₂ f (congrArg (embedWorkflow c p n) (he e)) ?_
    rw [subplans, map_cons, map_cons, ← snd_error]
    rfl
  | waitForSignal s b w n e =>
    refine congrArg₂ f (congrArg₂ (fun w e => waitForSignal s b w n e) (hm w) (he e)) ?_
    rw [subplans, map_append, map_cons, ← snd_option, ← snd_error]
    rfl
  | agent c n e =>
    refine congrArg₂ f (congrArg (agent c n) (he e)) ?_
    rw [subplans, map_cons, ← snd_error]
    rfl
  | aiAgent c n e =>
    refine congrArg₂ f (congrArg (aiAgent c n) (he e)) ?_
    rw [subplans, map_cons, ← snd_error]
    rfl
  | aiAgentLoop c ts n e =>
    refine congrArg₂ f
      (congrArg₂ (fun ts e => aiAgentLoop c ts n e) (rebuild_tools _ ts) (he e)) ?_
    rw [subplans, map_append, map_cons, ← snd_tools, ← snd_error]
    rfl
  | conditional s b t f' m =>
    refine congrArg₂ f (congrArg (conditional s b t f') (hm m)) ?_
    rw [subplans, map_cons, map_cons, ← snd_option]
    rfl
  | parallelBranches bs m =>
    refine congrArg₂ f (congrArg (parallelBranches · m) (rebuild_list _ bs)) ?_
    rw [subplans, map_append, ← snd_list]
    rfl
  | _ => rfl

end FoldNodes

/-! ### Chains -/

/-- `chain_next`: the continuation of a chain node, its merge plan for a routing composite. -/
def chainNext : DirectRunPlan → Option DirectRunPlan
  | agent _ n _ | log _ _ n | filter _ _ n | switchValue _ _ n | groupBy _ _ n
  | whileLoop _ _ n _ | split _ _ n _ | embedWorkflow _ _ n _ | aiAgent _ n _
  | aiAgentLoop _ _ n _ | waitForSignal _ _ _ n _ | delay _ _ _ n => some n
  | conditional _ _ _ _ m | switchRoute _ _ _ _ m | edgeRoute _ _ m => m
  | finish _ _ | error _ _ | parallelBranches _ _ | join | implicitFinish => none

def chainFrom (next : DirectRunPlan) (chain : List DirectRunPlan) : List DirectRunPlan :=
  if next.isJoin then [] else chain

mutual

/-- `branch_chain`: the nodes from a plan along `chain_next`, up to `Join`. -/
def branchChain : DirectRunPlan → List DirectRunPlan
  | agent c n e => agent c n e :: chainFrom n (branchChain n)
  | log s b n => log s b n :: chainFrom n (branchChain n)
  | filter s b n => filter s b n :: chainFrom n (branchChain n)
  | switchValue s b n => switchValue s b n :: chainFrom n (branchChain n)
  | groupBy s b n => groupBy s b n :: chainFrom n (branchChain n)
  | conditional s b t f m => conditional s b t f m :: mergeChain m
  | switchRoute s b arms d m => switchRoute s b arms d m :: mergeChain m
  | edgeRoute arms d m => edgeRoute arms d m :: mergeChain m
  | whileLoop c p n e => whileLoop c p n e :: chainFrom n (branchChain n)
  | split c p n e => split c p n e :: chainFrom n (branchChain n)
  | embedWorkflow c p n e => embedWorkflow c p n e :: chainFrom n (branchChain n)
  | aiAgent c n e => aiAgent c n e :: chainFrom n (branchChain n)
  | aiAgentLoop c ts n e => aiAgentLoop c ts n e :: chainFrom n (branchChain n)
  | waitForSignal s b w n e => waitForSignal s b w n e :: chainFrom n (branchChain n)
  | delay s d b n => delay s d b n :: chainFrom n (branchChain n)
  | finish s b => [finish s b]
  | error s b => [error s b]
  | parallelBranches bs m => [parallelBranches bs m]
  | join => [join]
  | implicitFinish => [implicitFinish]

/-- The chain after a routing composite. -/
def mergeChain : Option DirectRunPlan → List DirectRunPlan
  | none => []
  | some m => chainFrom m (branchChain m)

end

theorem branchChain_eq (p : DirectRunPlan) :
    p.branchChain = p :: p.chainNext.elim [] fun n => chainFrom n n.branchChain := by
  cases p with
  | conditional s b t f m | switchRoute s b arms d m | edgeRoute arms d m => cases m <;> rfl
  | _ => rfl

/-- The continuation of a node is one of its sub-plans. -/
theorem mem_subplans_of_chainNext {p n : DirectRunPlan} (h : p.chainNext = some n) :
    n ∈ p.subplans := by
  cases p <;> simp_all [chainNext, subplans]

/-- The node alone, its continuation replaced by `Join`: by `with_next_join`, or for an `Agent` in
the call of `emit_branch_agent`. -/
def alone : DirectRunPlan → DirectRunPlan
  | agent c _ e => agent c join e
  | log s b _ => log s b join
  | filter s b _ => filter s b join
  | switchValue s b _ => switchValue s b join
  | groupBy s b _ => groupBy s b join
  | conditional s b t f _ => conditional s b t f (some join)
  | switchRoute s b arms d _ => switchRoute s b arms d (some join)
  | edgeRoute arms d _ => edgeRoute arms d (some join)
  | whileLoop c p _ e => whileLoop c p join e
  | split c p _ e => split c p join e
  | embedWorkflow c p _ e => embedWorkflow c p join e
  | aiAgent c _ e => aiAgent c join e
  | aiAgentLoop c ts _ e => aiAgentLoop c ts join e
  | waitForSignal s b w _ e => waitForSignal s b w join e
  | delay s d b _ => delay s d b join
  | p => p

/-! ### The recursion -/

/-- What is kept for a plan: its lowering, and its chain nodes, each lowered alone. -/
structure Lowered (X : Type) where
  whole : X
  chain : List (DirectRunPlan × X)

variable {X : Type}

def Lowered.sub (n : DirectRunPlan × Lowered X) : DirectRunPlan × X := (n.1, n.2.whole)

/-- The rest of a chain after a continuation; it stops before `Join`. -/
def Lowered.rest (n : DirectRunPlan × Lowered X) : List (DirectRunPlan × X) :=
  if n.1.isJoin then [] else n.2.chain

/-- The rest of a chain after a routing composite. -/
def Lowered.mergeRest (m : Option (DirectRunPlan × Lowered X)) : List (DirectRunPlan × X) :=
  m.elim [] Lowered.rest

/-- A node that is not continued. -/
def Lowered.last (p : DirectRunPlan) (x : X) : Lowered X := ⟨x, [(p, x)]⟩

/-- One clause per constructor, as in `Algebra`, except for the fan-out, which also sees the
chains of its branches. -/
structure Lowering (X : Type) where
  alg : Algebra X
  fanOut : List (DirectRunPlan × Lowered X) → DirectRunPlan × X → X

namespace Lowering

open Lowered (sub rest mergeRest last)

/-- The clauses for the pair of results. -/
def algebra (l : Lowering X) : Algebra (Lowered X) :=
  let alg := l.alg
  let joined : DirectRunPlan × X := (.join, alg.join)
  let fst {α : Type} (n : DirectRunPlan × α) : DirectRunPlan := n.1
  { finish := fun s b => last (.finish s b) (alg.finish s b)
    filter := fun s b n =>
      ⟨alg.filter s b (sub n), (.filter s b n.1, alg.filter s b joined) :: rest n⟩
    switchValue := fun s b n =>
      ⟨alg.switchValue s b (sub n), (.switchValue s b n.1, alg.switchValue s b joined) :: rest n⟩
    groupBy := fun s b n =>
      ⟨alg.groupBy s b (sub n), (.groupBy s b n.1, alg.groupBy s b joined) :: rest n⟩
    log := fun s b n => ⟨alg.log s b (sub n), (.log s b n.1, alg.log s b joined) :: rest n⟩
    delay := fun s d b n =>
      ⟨alg.delay s d b (sub n), (.delay s d b n.1, alg.delay s d b joined) :: rest n⟩
    switchRoute := fun s b arms d m =>
      let arms' := arms.map fun a => (a.1, sub a.2)
      ⟨alg.switchRoute s b arms' (sub d) (m.map sub),
        (.switchRoute s b (arms.map fun a => (a.1, a.2.1)) d.1 (m.map fst),
          alg.switchRoute s b arms' (sub d) (some joined)) :: mergeRest m⟩
    edgeRoute := fun arms d m =>
      let arms' := arms.map fun a => (a.1, sub a.2)
      ⟨alg.edgeRoute arms' (sub d) (m.map sub),
        (.edgeRoute (arms.map fun a => (a.1, a.2.1)) d.1 (m.map fst),
          alg.edgeRoute arms' (sub d) (some joined)) :: mergeRest m⟩
    split := fun c p n e =>
      let e' := e.map (ErrorRouteOf.map sub)
      ⟨alg.split c (sub p) (sub n) e',
        (.split c p.1 n.1 (e.map (ErrorRouteOf.map fst)), alg.split c (sub p) joined e') :: rest n⟩
    whileLoop := fun c p n e =>
      let e' := e.map (ErrorRouteOf.map sub)
      ⟨alg.whileLoop c (sub p) (sub n) e',
        (.whileLoop c p.1 n.1 (e.map (ErrorRouteOf.map fst)),
          alg.whileLoop c (sub p) joined e') :: rest n⟩
    embedWorkflow := fun c p n e =>
      let e' := e.map (ErrorRouteOf.map sub)
      ⟨alg.embedWorkflow c (sub p) (sub n) e',
        (.embedWorkflow c p.1 n.1 (e.map (ErrorRouteOf.map fst)),
          alg.embedWorkflow c (sub p) joined e') :: rest n⟩
    waitForSignal := fun s b w n e =>
      let e' := e.map (ErrorRouteOf.map sub)
      ⟨alg.waitForSignal s b (w.map sub) (sub n) e',
        (.waitForSignal s b (w.map fst) n.1 (e.map (ErrorRouteOf.map fst)),
          alg.waitForSignal s b (w.map sub) joined e') :: rest n⟩
    agent := fun c n e =>
      let e' := e.map (ErrorRouteOf.map sub)
      ⟨alg.agent c (sub n) e',
        (.agent c n.1 (e.map (ErrorRouteOf.map fst)), alg.agent c joined e') :: rest n⟩
    aiAgent := fun c n e =>
      let e' := e.map (ErrorRouteOf.map sub)
      ⟨alg.aiAgent c (sub n) e',
        (.aiAgent c n.1 (e.map (ErrorRouteOf.map fst)), alg.aiAgent c joined e') :: rest n⟩
    aiAgentLoop := fun c ts n e =>
      let e' := e.map (ErrorRouteOf.map sub)
      ⟨alg.aiAgentLoop c (ts.map (AiToolOf.map sub)) (sub n) e',
        (.aiAgentLoop c (ts.map (AiToolOf.map fst)) n.1 (e.map (ErrorRouteOf.map fst)),
          alg.aiAgentLoop c (ts.map (AiToolOf.map sub)) joined e') :: rest n⟩
    error := fun s b => last (.error s b) (alg.error s b)
    conditional := fun s b t f m =>
      ⟨alg.conditional s b (sub t) (sub f) (m.map sub),
        (.conditional s b t.1 f.1 (m.map fst), alg.conditional s b (sub t) (sub f) (some joined))
          :: mergeRest m⟩
    parallelBranches := fun bs m =>
      last (.parallelBranches (bs.map fst) m.1) (l.fanOut bs (sub m))
    join := last .join alg.join
    implicitFinish := last .implicitFinish alg.implicitFinish }

end Lowering

def lower (l : Lowering X) (p : DirectRunPlan) : Lowered X := para l.algebra p

/-- A sub-plan with what is kept for it. -/
def withLowered (l : Lowering X) (p : DirectRunPlan) : DirectRunPlan × Lowered X := (p, lower l p)

def withLowering (l : Lowering X) (p : DirectRunPlan) : DirectRunPlan × X := (p, (lower l p).whole)

/-- The chain of a plan begins with the plan itself, lowered with its continuation replaced. -/
theorem chain_lower (l : Lowering X) (p : DirectRunPlan) :
    (lower l p).chain = (p, (lower l p.alone).whole) :: p.chainNext.elim [] fun n =>
      if n.isJoin then [] else (lower l n).chain := by
  cases p with
  | conditional s b t f m => cases m <;> rfl
  | switchRoute s b arms d m =>
    have h := rebuild_routes l.algebra arms
    cases m with
    | none => exact congrArg (fun a => [(switchRoute s b a d none, _)]) h
    | some m => exact congrArg (fun a => (switchRoute s b a d (some m), _) :: _) h
  | edgeRoute arms d m =>
    have h := rebuild_edges l.algebra arms
    cases m with
    | none => exact congrArg (fun a => [(edgeRoute a d none, _)]) h
    | some m => exact congrArg (fun a => (edgeRoute a d (some m), _) :: _) h
  | split c p n e => exact congrArg (fun e => (split c p n e, _) :: _) (rebuild_error l.algebra e)
  | whileLoop c p n e =>
    exact congrArg (fun e => (whileLoop c p n e, _) :: _) (rebuild_error l.algebra e)
  | embedWorkflow c p n e =>
    exact congrArg (fun e => (embedWorkflow c p n e, _) :: _) (rebuild_error l.algebra e)
  | waitForSignal s b w n e =>
    exact congrArg₂ (fun w e => (waitForSignal s b w n e, _) :: _) (rebuild_option l.algebra w)
      (rebuild_error l.algebra e)
  | agent c n e => exact congrArg (fun e => (agent c n e, _) :: _) (rebuild_error l.algebra e)
  | aiAgent c n e => exact congrArg (fun e => (aiAgent c n e, _) :: _) (rebuild_error l.algebra e)
  | aiAgentLoop c ts n e =>
    exact congrArg₂ (fun ts e => (aiAgentLoop c ts n e, _) :: _) (rebuild_tools l.algebra ts)
      (rebuild_error l.algebra e)
  | parallelBranches bs m =>
    exact congrArg (fun bs => [(parallelBranches bs m, _)]) (rebuild_list l.algebra bs)
  | _ => rfl

theorem chain_lower_fst (l : Lowering X) (p : DirectRunPlan) :
    (lower l p).chain.map Prod.fst = p.branchChain := by
  induction p using subplan_induction with
  | h p ih =>
    rw [chain_lower, branchChain_eq, map_cons]
    congr 1
    cases hn : p.chainNext with
    | none => rfl
    | some n =>
      simp only [Option.elim_some, chainFrom]
      split
      · rfl
      · exact ih n (mem_subplans_of_chainNext hn)

end DirectRunPlan

end Runtara
