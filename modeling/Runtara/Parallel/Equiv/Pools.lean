/-
  When the imports cover what the emitter launches.

  The collector (`parallelAgentPools`) and the emitter (`demands`) walk the same plan. The
  first part brings both to one form, a sum over nodes: the emitter visits all nodes, the
  collector all but those in the `Embed` tools of an `AiAgentLoop` (`visited`). The second
  part is about one fan-out, whose branches the emitter divides into groups: a group that is
  launched needs no more pool members than the whole fan-out. So a launch is uncovered only
  in a tool, or in a fan-out that has a workflow-agent in one branch and launches the
  others (`missedAt`). `supplied_iff_missed_metBy` says when that does no harm.
-/
import Mathlib.Data.List.MinMax
import Mathlib.Order.Nat
import Runtara.Parallel.Pools
import Runtara.Plan.Build

namespace Runtara

open DirectRunPlan List

variable {data : StaticData}

/-! ### The emitter as a sum over nodes -/

variable {p : DirectRunPlan} {d : Demand} {bs : List DirectRunPlan}
  {chains : List (List DirectRunPlan)} (arms : List (String × DirectRunPlan))
  (m : Option DirectRunPlan)

section Demands

def DirectRunPlan.isFanOut : DirectRunPlan → Bool
  | parallelBranches _ _ => true
  | _ => false

/-- What `emit_branch_scheduler` itself launches. -/
def schedulerLaunches (branches : List DirectRunPlan) : List Demand :=
  let chains := branches.map branchChain
  .waitable :: chains.zipIdx.flatMap fun chain => chain.1.zipIdx.flatMap fun node =>
    branchLaunch chains chain.2 node.2 node.1

/-- What `emit_concurrent_branches` itself launches. -/
def wavefrontLaunches (branches : List DirectRunPlan) : List Demand :=
  let chains := branches.map branchChain
  .waitable :: (depths chains).flatMap fun depth => chains.zipIdx.flatMap fun chain =>
    match chain.1[depth]? with
    | some node => if nodeHasBreakpoint node then [] else branchLaunch chains chain.2 depth node
    | none => []

/-- What `emit_parallel_branches` itself launches. -/
def fanOutLaunches (data : StaticData) (branches : List DirectRunPlan) : List Demand :=
  let sched := branches.filter (isSchedulableBranch data)
  let others := branches.filter fun b => !isSchedulableBranch data b
  if branchGroupRunsConcurrently data branches && schedulableBranches data branches
    then schedulerLaunches branches
    else
      (if branchGroupRunsConcurrently data sched then schedulerLaunches sched else []) ++
      (if branchGroupRunsConcurrently data others then wavefrontLaunches others else [])

/-- The demands of a node, apart from its sub-plans. -/
def windowOf (data : StaticData) : DirectRunPlan → List Demand
  | .split c p _ _ => splitWindow data c p
  | .parallelBranches bs _ => fanOutLaunches data bs
  | _ => []

theorem handlerDemands_eq (e : Option DirectErrorRoutePlan) :
    handlerDemands
      ((paraError (demandLowering data).algebra e).map (ErrorRouteOf.map Lowered.sub)) =
      (handlers e).flatMap (demands data) := by
  cases e with
  | none => rfl
  | some r =>
    obtain ⟨arms, dflt⟩ := r
    cases dflt <;>
      simp [paraError_eq, handlerDemands, handlers, ErrorRouteOf.map, ErrorRouteOf.plans,
        Lowered.sub, withResult, demands, lower, flatMap_map]

theorem optionDemands_eq :
    optionDemands ((paraOption (demandLowering data).algebra m).map Lowered.sub) =
      m.toList.flatMap (demands data) := by
  cases m with
  | none => rfl
  | some p => exact (append_nil _).symm

theorem routeDemands_eq :
    ((paraRoutes (demandLowering data).algebra arms).map fun a => (a.1, Lowered.sub a.2)).flatMap
      (fun a => a.2.2) = (arms.map Prod.snd).flatMap (demands data) := by
  simp [paraRoutes_eq, flatMap_map, Lowered.sub, withResult, demands, lower]

theorem edgeDemands_eq (arms : List (ℕ × DirectRunPlan)) :
    ((paraEdges (demandLowering data).algebra arms).map fun a => (a.1, Lowered.sub a.2)).flatMap
      (fun a => a.2.2) = (arms.map Prod.snd).flatMap (demands data) := by
  simp [paraEdges_eq, flatMap_map, Lowered.sub, withResult, demands, lower]

theorem toolDemands_eq (ts : List DirectAiToolPlan) :
    (((paraTools (demandLowering data).algebra ts).map (AiToolOf.map Lowered.sub)).flatMap
      AiToolOf.plans).flatMap Prod.snd = (ts.flatMap AiToolOf.plans).flatMap (demands data) := by
  induction ts with
  | nil => rfl
  | cons t rest ih =>
    rw [paraTools, map_cons, flatMap_cons, flatMap_append, ih, flatMap_cons, flatMap_append]
    cases t <;> rfl

/-- A node other than a fan-out demands what its window and its sub-plans demand. -/
theorem mem_demands_of_not_fanOut (hp : p.isFanOut = false) :
    d ∈ demands data p ↔ d ∈ windowOf data p ∨ d ∈ p.subplans.flatMap (demands data) := by
  cases p with
  | parallelBranches bs m => cases hp
  | finish | error | join | implicitFinish => exact (or_self_iff (a := d ∈ ([] : List Demand))).symm
  | filter _ _ n | switchValue _ _ n | groupBy _ _ n | log _ _ n | delay _ _ _ n =>
    simp only [subplans, windowOf, flatMap_singleton, not_mem_nil, false_or]
    rfl
  | switchRoute s b arms dflt m =>
    change d ∈ flatMap _ _ ++ demands data dflt ++ optionDemands _ ↔ _
    rw [routeDemands_eq, optionDemands_eq]
    simp [windowOf, subplans]
  | edgeRoute arms dflt m =>
    change d ∈ flatMap _ _ ++ demands data dflt ++ optionDemands _ ↔ _
    rw [edgeDemands_eq, optionDemands_eq]
    simp [windowOf, subplans]
  | split c p n e =>
    change d ∈ splitWindow data c p ++ demands data p ++ handlerDemands _ ++ demands data n ↔ _
    rw [handlerDemands_eq]
    simp only [windowOf, subplans, flatMap_cons, mem_append]
    tauto
  | whileLoop c p n e | embedWorkflow c p n e =>
    change d ∈ demands data p ++ handlerDemands _ ++ demands data n ↔ _
    rw [handlerDemands_eq]
    simp only [windowOf, subplans, flatMap_cons, mem_append, not_mem_nil]
    tauto
  | waitForSignal s b w n e =>
    change d ∈ optionDemands _ ++ handlerDemands _ ++ demands data n ↔ _
    rw [optionDemands_eq, handlerDemands_eq]
    simp only [windowOf, subplans, flatMap_append, flatMap_cons, mem_append, not_mem_nil]
    tauto
  | agent c n e | aiAgent c n e =>
    change d ∈ handlerDemands _ ++ demands data n ↔ _
    rw [handlerDemands_eq]
    simp only [windowOf, subplans, flatMap_cons, mem_append, not_mem_nil]
    tauto
  | aiAgentLoop c ts n e =>
    change d ∈ handlerDemands _ ++ flatMap _ _ ++ demands data n ↔ _
    rw [handlerDemands_eq, toolDemands_eq]
    simp only [windowOf, subplans, flatMap_append, flatMap_cons, mem_append, not_mem_nil]
    tauto
  | conditional s b t f m =>
    change d ∈ demands data t ++ demands data f ++ optionDemands _ ↔ _
    rw [optionDemands_eq]
    simp [windowOf, subplans]

/-- The node alone and its continuation together demand what the node demands. -/
theorem mem_demands_iff_chainNext : d ∈ demands data p ↔
      d ∈ demands data p.alone ∨ ∃ n, p.chainNext = some n ∧ d ∈ demands data n := by
  cases hp : p.isFanOut with
  | true =>
    cases p <;> simp_all [isFanOut, alone, chainNext]
  | false =>
    have hp' : p.alone.isFanOut = false := by cases p <;> first | rfl | cases hp
    have hjoin : demands data .join = [] := rfl
    rw [mem_demands_of_not_fanOut hp, mem_demands_of_not_fanOut hp']
    cases p <;>
      simp [alone, chainNext, windowOf, subplans, hjoin, or_assoc, or_left_comm, or_comm]

/-- The chain nodes of a branch, each lowered alone, demand what the branch demands. -/
theorem mem_chain_demands :
    (∃ e ∈ (lower (demandLowering data) p).chain, d ∈ e.2) ↔ d ∈ demands data p := by
  induction p using subplan_induction with
  | h p ih =>
    rw [chain_lower, mem_demands_iff_chainNext]
    simp only [mem_cons, exists_eq_or_imp]
    refine or_congr Iff.rfl ?_
    cases hn : p.chainNext with
    | none => simp
    | some n =>
      have hrest := ih n (mem_subplans_of_chainNext hn)
      simp only [Option.elim_some, Option.some.injEq, exists_eq_left']
      have hjoin : demands data .join = [] := rfl
      cases n <;> first | exact hrest | simp [isJoin, hjoin]

theorem zipIdx_chain (data : StaticData) (p : DirectRunPlan) :
    p.branchChain.zipIdx =
      (lower (demandLowering data) p).chain.zipIdx.map fun e => (e.1.1, e.2) := by
  rw [← chain_lower_fst (demandLowering data), zipIdx_map]
  rfl

theorem exists_mem_zipIdx {α : Type} {l : List α} {P : α → Prop} :
    (∃ e ∈ l.zipIdx, P e.1) ↔ ∃ x ∈ l, P x := by
  have hfst (x : α) : x ∈ l ↔ ∃ e ∈ l.zipIdx, e.1 = x := by
    conv_lhs => rw [← zipIdx_map_fst 0 l]
    exact mem_map
  constructor
  · rintro ⟨e, he, hP⟩
    exact ⟨e.1, (hfst e.1).mpr ⟨e, he, rfl⟩, hP⟩
  · rintro ⟨x, hx, hP⟩
    obtain ⟨e, he, rfl⟩ := (hfst x).mp hx
    exact ⟨e, he, hP⟩

/-- A walk of a chain that puts something before each node. -/
theorem mem_chain_zipIdx (f : ℕ → DirectRunPlan → List Demand) :
    d ∈ (lower (demandLowering data) p).chain.zipIdx.flatMap (fun e => f e.2 e.1.1 ++ e.1.2) ↔
      d ∈ p.branchChain.zipIdx.flatMap (fun e => f e.2 e.1) ∨ d ∈ demands data p := by
  rw [zipIdx_chain data, ← mem_chain_demands, ← exists_mem_zipIdx]
  simp only [mem_flatMap, mem_map, mem_append, and_or_left, exists_or,
    exists_exists_and_eq_and]

theorem map_withLowered_chain (bs : List DirectRunPlan) :
    (bs.map (withLowered (demandLowering data))).map (fun b => b.1.branchChain) =
      bs.map branchChain := by
  simp [withLowered, Function.comp_def]

theorem mem_branchScheduler : d ∈ branchScheduler (bs.map (withLowered (demandLowering data))) ↔
      d ∈ schedulerLaunches bs ∨ ∃ b ∈ bs, d ∈ demands data b := by
  simp only [branchScheduler, schedulerLaunches, map_withLowered_chain, zipIdx_map,
    mem_cons, or_assoc]
  refine or_congr Iff.rfl ?_
  rw [flatMap_map, flatMap_map, ← exists_mem_zipIdx, mem_flatMap, mem_flatMap,
    ← exists_or]
  refine exists_congr fun b => ?_
  rw [← and_or_left]
  exact and_congr_right fun _ => mem_chain_zipIdx fun depth node => branchLaunch _ b.2 depth node

theorem mem_depths {depth : ℕ} :
    depth ∈ depths chains ↔ ∃ chain ∈ chains, depth < chain.length := by
  induction chains with
  | nil => simp [depths]
  | cons chain rest ih =>
    simp only [depths, mem_range, map_cons, foldr_cons, lt_max_iff, mem_cons,
      exists_eq_or_imp] at ih ⊢
    exact or_congr Iff.rfl ih

/-- The assembly passes of a wavefront run every chain node. -/
theorem mem_assembled : (∃ depth ∈ depths (bs.map branchChain), ∃ b ∈ bs,
      d ∈ ((lower (demandLowering data) b).chain[depth]?.map Prod.snd).getD []) ↔
      ∃ b ∈ bs, d ∈ demands data b := by
  constructor
  · rintro ⟨depth, -, b, hb, hd⟩
    cases he : (lower (demandLowering data) b).chain[depth]? with
    | none => rw [he] at hd; simp at hd
    | some e =>
      rw [he] at hd
      exact ⟨b, hb, mem_chain_demands.mp ⟨e, mem_of_getElem? he, hd⟩⟩
  · rintro ⟨b, hb, hd⟩
    obtain ⟨e, he, hd⟩ := mem_chain_demands.mpr hd
    obtain ⟨depth, hlt, rfl⟩ := getElem_of_mem he
    refine ⟨depth, mem_depths.mpr ⟨b.branchChain, mem_map_of_mem hb, ?_⟩, b, hb, ?_⟩
    · rw [← chain_lower_fst (demandLowering data), length_map]
      exact hlt
    · rw [getElem?_eq_getElem hlt]
      exact hd

theorem mem_concurrentBranches :
    d ∈ concurrentBranches (bs.map (withLowered (demandLowering data))) ↔
      d ∈ wavefrontLaunches bs ∨ ∃ b ∈ bs, d ∈ demands data b := by
  rw [← mem_assembled]
  simp only [concurrentBranches, wavefrontLaunches, map_withLowered_chain, zipIdx_map,
    mem_cons, or_assoc, flatMap_map, mem_flatMap, mem_append, and_or_left,
    exists_or]
  rfl

/-- A group of branches, launched concurrently or run one after the other. -/
theorem mem_group {b : Bool} {code launches : List Demand}
    (hcode : d ∈ code ↔ d ∈ launches ∨ ∃ b ∈ bs, d ∈ demands data b) :
    d ∈ (if b then code
      else (bs.map (withLowered (demandLowering data))).flatMap fun b => b.2.whole)
      ↔ d ∈ (if b then launches else []) ∨ ∃ b ∈ bs, d ∈ demands data b := by
  cases b with
  | true => exact hcode
  | false => simp [withLowered, demands]

theorem fst_withLowered (bs : List DirectRunPlan) :
    (bs.map (withLowered (demandLowering data))).map Prod.fst = bs := by
  simp [withLowered, Function.comp_def]

theorem exists_mem_filter_or {f : DirectRunPlan → Bool} {P : DirectRunPlan → Prop} :
    ((∃ b ∈ bs.filter f, P b) ∨ ∃ b ∈ bs.filter fun b => !f b, P b) ↔ ∃ b ∈ bs, P b := by
  simp only [mem_filter, ← exists_or]
  refine exists_congr fun b => ?_
  cases f b <;> simp

/-- A fan-out demands what it launches, and what its branches and its merge plan demand. -/
theorem mem_demands_fanOut {m : DirectRunPlan} : d ∈ demands data (.parallelBranches bs m) ↔
      d ∈ fanOutLaunches data bs ∨ (∃ b ∈ bs, d ∈ demands data b) ∨ d ∈ demands data m := by
  have h : demands data (.parallelBranches bs m) = parallelBranchesDemands data
      (bs.map (withLowered (demandLowering data))) (withLowering (demandLowering data) m) := by
    have hlist : paraList (demandLowering data).algebra bs
        = bs.map (withLowered (demandLowering data)) := paraList_eq _ _
    rw [← hlist]
    rfl
  have hfilter (f : DirectRunPlan → Bool) :
      (bs.map (withLowered (demandLowering data))).filter (fun b => f b.1) =
        (bs.filter f).map (withLowered (demandLowering data)) := filter_map
  rw [h, ← or_assoc, parallelBranchesDemands, mem_append]
  refine or_congr ?_ Iff.rfl
  simp only [hfilter, hfilter fun b => !isSchedulableBranch data b, fst_withLowered, fanOutLaunches]
  split
  · exact mem_branchScheduler
  · rw [mem_append, mem_group mem_branchScheduler, mem_group mem_concurrentBranches,
      or_or_or_comm, exists_mem_filter_or, mem_append]

/-- **The emitter as a sum over nodes.** A plan demands what its node launches and what its
sub-plans demand. -/
theorem mem_demands :
    d ∈ demands data p ↔ d ∈ windowOf data p ∨ ∃ q ∈ p.subplans, d ∈ demands data q := by
  cases hp : p.isFanOut with
  | false => rw [mem_demands_of_not_fanOut hp, mem_flatMap]
  | true =>
    cases p with
    | parallelBranches bs m =>
      rw [mem_demands_fanOut]
      simp [windowOf, subplans, or_and_right, exists_or]
    | _ => cases hp

end Demands

/-! ### The collector as a sum over nodes -/

variable {component : String} {q : DirectRunPlan}

section Collector

/-- The child plans of the `Embed` tools of a node. -/
def DirectRunPlan.toolPlans : DirectRunPlan → List DirectRunPlan
  | aiAgentLoop _ ts _ _ => ts.flatMap AiToolOf.plans
  | _ => []

/-- The sub-plans that the collector walks: all but the tools. -/
def DirectRunPlan.walkedPlans (p : DirectRunPlan) : List DirectRunPlan :=
  p.subplans.drop p.toolPlans.length

theorem mem_subplans_iff : q ∈ p.subplans ↔ q ∈ p.toolPlans ∨ q ∈ p.walkedPlans := by
  have htools : p.subplans.take p.toolPlans.length = p.toolPlans := by
    cases p with
    | aiAgentLoop c ts n e => exact take_left
    | _ => rfl
  have h : p.toolPlans ++ p.walkedPlans = p.subplans := by
    conv_lhs => rw [← htools]
    exact take_append_drop _ _
  rw [← h, mem_append]

/-- The nodes that the collector walks. -/
def visited : DirectRunPlan → List DirectRunPlan :=
  foldNodes fun p rs => p :: (rs.drop p.toolPlans.length).flatten

theorem visited_eq (p : DirectRunPlan) : visited p = p :: p.walkedPlans.flatMap visited := by
  rw [visited, foldNodes_eq, ← map_drop]
  rfl

/-- What the collector records for one node. -/
def contribution (data : StaticData) : DirectRunPlan → Pools
  | .split c p _ _ => match parallelAgentBody data c p with
    | some component => [(component, poolSizeForWindow (c.parallelWindow.getD 0))]
    | none => []
  | .parallelBranches bs _ => (concurrentBranchPools data bs).getD []
  | _ => []

/-- All that the collector records. -/
def counted (data : StaticData) (p : DirectRunPlan) : Pools :=
  (visited p).flatMap (contribution data)

theorem counted_eq (p : DirectRunPlan) :
    counted data p = contribution data p ++ p.walkedPlans.flatMap (counted data) := by
  rw [counted, visited_eq, flatMap_cons, flatMap_assoc]
  rfl

/-- `collect_parallel_agent_components`. -/
def collect (data : StaticData) (p : DirectRunPlan) (out : Pools) : Pools :=
  para (collectAlgebra data) p out

theorem collectErrorRoute_eq (e : Option DirectErrorRoutePlan) (out : Pools) :
    collectErrorRoute (paraError (collectAlgebra data) e) out =
      (handlers e).foldl (fun out q => collect data q out) out := by
  cases e with
  | none => rfl
  | some r =>
    obtain ⟨arms, d⟩ := r
    cases d <;>
      simp [paraError_eq, collectErrorRoute, handlers, ErrorRouteOf.map, ErrorRouteOf.plans,
        foldl_map, withResult, collect]

theorem collectOption_eq (out : Pools) : collectOption (paraOption (collectAlgebra data) m) out =
      m.toList.foldl (fun out q => collect data q out) out := by
  cases m <;> rfl

theorem collectRoutes_eq (out : Pools) :
    (paraRoutes (collectAlgebra data) arms).foldl (fun out a => a.2.2 out) out =
      (arms.map Prod.snd).foldl (fun out q => collect data q out) out := by
  simp [paraRoutes_eq, foldl_map, withResult, collect]

theorem collectEdges_eq (arms : List (ℕ × DirectRunPlan)) (out : Pools) :
    (paraEdges (collectAlgebra data) arms).foldl (fun out a => a.2.2 out) out =
      (arms.map Prod.snd).foldl (fun out q => collect data q out) out := by
  simp [paraEdges_eq, foldl_map, withResult, collect]

theorem collectList_eq (ps : List DirectRunPlan) (out : Pools) :
    (paraList (collectAlgebra data) ps).foldl (fun out b => b.2 out) out =
      ps.foldl (fun out q => collect data q out) out := by
  simp [paraList_eq, foldl_map, withResult, collect]

/-- One node: its own pools are recorded, then the walked sub-plans are collected in order. -/
theorem collect_step (p : DirectRunPlan) (out : Pools) :
    collect data p out = p.walkedPlans.foldl (fun out q => collect data q out)
      ((contribution data p).foldl Pools.record out) := by
  cases p with
  | switchRoute s b arms d m =>
    change _ = (arms.map Prod.snd ++ d :: m.toList).foldl _ _
    rw [foldl_append, foldl_cons, ← collectRoutes_eq, ← collectOption_eq]
    rfl
  | edgeRoute arms d m =>
    change _ = (arms.map Prod.snd ++ d :: m.toList).foldl _ _
    rw [foldl_append, foldl_cons, ← collectEdges_eq, ← collectOption_eq]
    rfl
  | split c p n e =>
    change _ = (p :: n :: handlers e).foldl _ _
    rw [foldl_cons, foldl_cons, ← collectErrorRoute_eq]
    simp only [contribution]
    cases h : parallelAgentBody data c p <;>
      simp [collect, para, collectAlgebra, h]
  | whileLoop c p n e | embedWorkflow c p n e =>
    change _ = (p :: n :: handlers e).foldl _ _
    rw [foldl_cons, foldl_cons, ← collectErrorRoute_eq]
    rfl
  | waitForSignal s b w n e =>
    change _ = (w.toList ++ n :: handlers e).foldl _ _
    rw [foldl_append, foldl_cons, ← collectOption_eq, ← collectErrorRoute_eq]
    rfl
  | agent c n e | aiAgent c n e =>
    change _ = (n :: handlers e).foldl _ _
    rw [foldl_cons, ← collectErrorRoute_eq]
    rfl
  | aiAgentLoop c ts n e =>
    have hwalked : (aiAgentLoop c ts n e).walkedPlans = n :: handlers e := drop_left
    rw [hwalked, foldl_cons, ← collectErrorRoute_eq]
    rfl
  | conditional s b t f m =>
    change _ = (t :: f :: m.toList).foldl _ _
    rw [foldl_cons, foldl_cons, ← collectOption_eq]
    rfl
  | parallelBranches bs m =>
    change _ = (bs ++ [m]).foldl _ _
    have h : collect data (.parallelBranches bs m) out = collect data m
        ((paraList (collectAlgebra data) bs).foldl (fun out b => b.2 out)
          (((concurrentBranchPools data ((paraList (collectAlgebra data) bs).map Prod.fst)).getD
            []).foldl Pools.record out)) := rfl
    rw [h, rebuild_list, collectList_eq, foldl_append]
    rfl
  | _ => rfl

/-- The whole walk records the contributions of the visited nodes in order. -/
theorem collect_eq (p : DirectRunPlan) (out : Pools) :
    collect data p out = (counted data p).foldl Pools.record out := by
  induction p using subplan_induction generalizing out with
  | h p ih =>
    rw [collect_step, counted_eq, foldl_append, foldl_flatMap]
    refine foldl_ext _ _ _ fun out q hq => ?_
    exact ih q (mem_subplans_iff.mpr (.inr hq)) out

theorem one_le_poolSizeForWindow (window : ℕ) : 1 ≤ poolSizeForWindow window := by
  unfold poolSizeForWindow parallelPoolMax
  omega

variable {e : String × ℕ}

theorem one_le_of_mem_branchPoolSizes (he : e ∈ branchPoolSizes chains) : 1 ≤ e.2 := by
  obtain ⟨component, -, rfl⟩ := mem_map.mp he
  exact one_le_poolSizeForWindow _

theorem one_le_of_mem_counted (he : e ∈ counted data p) : 1 ≤ e.2 := by
  obtain ⟨q, -, he⟩ := mem_flatMap.mp he
  cases q with
  | split c p n r =>
    simp only [contribution] at he
    cases hbody : parallelAgentBody data c p with
    | none => rw [hbody] at he; cases he
    | some component =>
      rw [hbody, mem_singleton] at he
      subst he
      exact one_le_poolSizeForWindow _
  | parallelBranches bs m =>
    simp only [contribution, concurrentBranchPools] at he
    split_ifs at he
    · cases he
    · cases he
    · exact one_le_of_mem_branchPoolSizes he
  | _ => cases he

/-- Is the demand met by one recorded pool? -/
def Demand.MetBy (e : String × ℕ) : Demand → Prop
  | .invoke component member => e.1 = component ∧ member < e.2
  | .waitable => True

instance (e : String × ℕ) (d : Demand) : Decidable (d.MetBy e) :=
  match d with
  | .invoke component member => inferInstanceAs (Decidable (e.1 = component ∧ member < e.2))
  | .waitable => isTrue trivial

theorem get?_record_self (pools : Pools) (e : String × ℕ) :
    (pools.record e).get? e.1 = some (max ((pools.get? e.1).getD 1) e.2) := by
  simp [Pools.record, Pools.get?]

variable {pools : Pools}

theorem get?_record_of_ne (h : e.1 ≠ component) :
    (pools.record e).get? component = pools.get? component := by
  have hpred :
      (fun e' : String × ℕ => decide ((!(e'.1 == e.1)) = true ∧ (e'.1 == component) = true))
      = fun e' => e'.1 == component := by
    funext e'
    by_cases hc : e'.1 = component
    · simp [hc, h.symm]
    · simp [hc]
  simp only [Pools.record, Pools.get?, find?_cons, find?_filter, hpred, beq_eq_false_iff_ne.mpr h]

theorem supplied_record (he : 1 ≤ e.2) :
    d.Supplied (pools.record e) ↔ d.Supplied pools ∨ d.MetBy e := by
  cases d with
  | waitable => simp [Demand.Supplied, Demand.MetBy, Pools.record]
  | invoke component member =>
    simp only [Demand.Supplied, Demand.MetBy]
    by_cases h : e.1 = component
    · subst h
      rw [get?_record_self]
      cases pools.get? e.1 with
      | none => simp; omega
      | some size => simp
    · rw [get?_record_of_ne h]
      simp [h]

/-- The imports meet a demand if some recorded pool does. -/
theorem supplied_foldl_record {es : Pools} (hes : ∀ e ∈ es, 1 ≤ e.2) :
    d.Supplied (es.foldl Pools.record pools) ↔ d.Supplied pools ∨ ∃ e ∈ es, d.MetBy e := by
  induction es generalizing pools with
  | nil => simp
  | cons e rest ih =>
    rw [foldl_cons, ih fun e' h => hes e' (mem_cons_of_mem _ h),
      supplied_record (hes e mem_cons_self)]
    simp only [mem_cons, exists_eq_or_imp, or_assoc]

theorem supplied_iff_counted :
    d.Supplied (parallelAgentPools data p) ↔ ∃ e ∈ counted data p, d.MetBy e := by
  have hnil : ¬ d.Supplied [] := by cases d <;> simp [Demand.Supplied, Pools.get?]
  have h : parallelAgentPools data p = collect data p [] := rfl
  rw [h, collect_eq, supplied_foldl_record fun e => one_le_of_mem_counted]
  exact or_iff_right hnil

end Collector

/-! ### One group of branches -/

variable {sub : List (List DirectRunPlan)} {node : DirectRunPlan}

section Groups

theorem mem_components : component ∈ components chains ↔
      ∃ chain ∈ chains, ∃ node ∈ chain, componentOf node = some component := by
  simp only [components, mem_dedup, mem_filterMap, mem_flatten]
  constructor
  · rintro ⟨node, ⟨chain, hchain, hnode⟩, h⟩
    exact ⟨chain, hchain, node, hnode, h⟩
  · rintro ⟨chain, hchain, node, hnode, h⟩
    exact ⟨node, ⟨chain, hchain, hnode⟩, h⟩

theorem get?_branchPoolSizes (h : component ∈ components chains) :
    (branchPoolSizes chains).get? component =
      some (poolSizeForWindow (poolMax chains component)) := by
  rw [branchPoolSizes, Pools.get?, find?_map, Option.map_map]
  cases hfind : (components chains).find? fun c => c == component with
  | none => exact absurd (find?_eq_none.mp hfind component h) (by simp)
  | some c =>
    have hc : c = component := by simpa using find?_some hfind
    subst hc
    simp [Function.comp_def, hfind]

/-- A launched member is below the size of the group's own pool. -/
theorem metBy_of_mem_branchLaunch {chain : List DirectRunPlan} (hchain : chain ∈ chains)
    (hnode : node ∈ chain) {branch depth : ℕ}
    (hd : d ∈ branchLaunch chains branch depth node) : ∃ e ∈ branchPoolSizes chains, d.MetBy e := by
  rw [branchLaunch] at hd
  cases hc : componentOf node with
  | none => rw [hc] at hd; cases hd
  | some component =>
    rw [hc, mem_singleton] at hd
    subst hd
    have hmem : component ∈ components chains := mem_components.mpr ⟨chain, hchain, node, hnode, hc⟩
    refine ⟨_, mem_map_of_mem hmem, rfl, ?_⟩
    rw [poolMember, get?_branchPoolSizes hmem, Option.getD_some]
    exact Nat.mod_lt _ (one_le_poolSizeForWindow _)

theorem exists_pool_of_concurrent (h : branchGroupRunsConcurrently data bs = true) :
    concurrentBranchPools data bs = some (branchPoolSizes (bs.map branchChain)) ∧
      ∃ e, e ∈ branchPoolSizes (bs.map branchChain) := by
  rw [branchGroupRunsConcurrently, Option.any_eq_true] at h
  obtain ⟨pools, hpools, hne⟩ := h
  have heq : pools = branchPoolSizes (bs.map branchChain) := by
    rw [concurrentBranchPools] at hpools
    split_ifs at hpools
    exact (Option.some.inj hpools).symm
  subst heq
  refine ⟨hpools, exists_mem_of_ne_nil _ ?_⟩
  simpa using hne

theorem metBy_of_mem_schedulerLaunches (hconc : branchGroupRunsConcurrently data bs = true)
    (hd : d ∈ schedulerLaunches bs) : ∃ e ∈ branchPoolSizes (bs.map branchChain), d.MetBy e := by
  rw [schedulerLaunches, mem_cons] at hd
  obtain rfl | hd := hd
  · obtain ⟨e, he⟩ := (exists_pool_of_concurrent hconc).2
    exact ⟨e, he, trivial⟩
  · obtain ⟨chain, hchain, hd⟩ := mem_flatMap.mp hd
    obtain ⟨node, hnode, hd⟩ := mem_flatMap.mp hd
    exact metBy_of_mem_branchLaunch (fst_mem_of_mem_zipIdx hchain)
      (fst_mem_of_mem_zipIdx hnode) hd

theorem metBy_of_mem_wavefrontLaunches (hconc : branchGroupRunsConcurrently data bs = true)
    (hd : d ∈ wavefrontLaunches bs) : ∃ e ∈ branchPoolSizes (bs.map branchChain), d.MetBy e := by
  rw [wavefrontLaunches, mem_cons] at hd
  obtain rfl | hd := hd
  · obtain ⟨e, he⟩ := (exists_pool_of_concurrent hconc).2
    exact ⟨e, he, trivial⟩
  · obtain ⟨depth, -, hd⟩ := mem_flatMap.mp hd
    obtain ⟨chain, hchain, hd⟩ := mem_flatMap.mp hd
    cases hnode : chain.1[depth]? with
    | none => rw [hnode] at hd; cases hd
    | some node =>
      rw [hnode] at hd
      simp only at hd
      split_ifs at hd
      · cases hd
      · exact metBy_of_mem_branchLaunch (fst_mem_of_mem_zipIdx hchain)
          (mem_of_getElem? hnode) hd

theorem poolMax_le_of_sublist (h : sub.Sublist chains)
    (component : String) : poolMax sub component ≤ poolMax chains component := by
  refine max_le_of_forall_le ((depths sub).map (countAt sub component)) _ fun n hn => ?_
  obtain ⟨depth, hdepth, rfl⟩ := mem_map.mp hn
  obtain ⟨chain, hchain, hlt⟩ := mem_depths.mp hdepth
  have hmem : depth ∈ depths chains := mem_depths.mpr ⟨chain, h.subset hchain, hlt⟩
  exact le_max_of_le (mem_map_of_mem hmem) (h.countP_le)

/-- The pools of the whole fan-out meet what the pools of some of its branches meet. -/
theorem exists_metBy_of_sublist (h : sub.Sublist chains)
    (hd : ∃ e ∈ branchPoolSizes sub, d.MetBy e) : ∃ e ∈ branchPoolSizes chains, d.MetBy e := by
  obtain ⟨e, he, hmet⟩ := hd
  obtain ⟨component, hc, rfl⟩ := mem_map.mp he
  have hc' : component ∈ components chains := by
    obtain ⟨chain, hchain, hnode⟩ := mem_components.mp hc
    exact mem_components.mpr ⟨chain, h.subset hchain, hnode⟩
  refine ⟨_, mem_map_of_mem hc', ?_⟩
  have hle := poolMax_le_of_sublist h component
  cases d with
  | waitable => trivial
  | invoke c member =>
    obtain ⟨rfl, hlt⟩ := hmet
    refine ⟨rfl, ?_⟩
    simp only [poolSizeForWindow] at hlt ⊢
    omega

theorem not_callsWorkflowAgent_of_schedulable {b : DirectRunPlan}
    (h : isSchedulableBranch data b = true) (hnode : node ∈ b.branchChain) :
    callsWorkflowAgent data node = false := by
  have hall := all_eq_true.mp h node hnode
  cases node <;> simp_all [callsWorkflowAgent]

/-- If the branches that are not schedulable run concurrently, so may the whole fan-out. -/
theorem concurrentBranchPools_ne_none
    (h : branchGroupRunsConcurrently data (bs.filter fun b => !isSchedulableBranch data b) = true) :
    concurrentBranchPools data bs ≠ none := by
  have hothers := (exists_pool_of_concurrent h).1
  rw [concurrentBranchPools] at hothers ⊢
  split_ifs at hothers with hoff hany
  rw [if_neg hoff, if_neg]
  · exact Option.some_ne_none _
  · rw [any_eq_true] at hany ⊢
    rintro ⟨node, hnode, hcalls⟩
    obtain ⟨chain, hchain, hnode⟩ := mem_flatten.mp hnode
    obtain ⟨b, hb, rfl⟩ := mem_map.mp hchain
    cases hs : isSchedulableBranch data b with
    | true =>
      rw [not_callsWorkflowAgent_of_schedulable hs hnode] at hcalls
      cases hcalls
    | false =>
      refine hany ⟨node, mem_flatten.mpr ⟨b.branchChain, mem_map_of_mem ?_, hnode⟩, hcalls⟩
      exact mem_filter.mpr ⟨hb, by rw [hs]; rfl⟩

end Groups

/-! ### Supply and demand -/

section Supply

/-- The launches of a node that the collector does not record there: all those of its
tools, and in a fan-out with a workflow-agent those of the schedulable branches. -/
def missedAt (data : StaticData) : DirectRunPlan → List Demand
  | .aiAgentLoop _ ts _ _ => (ts.flatMap AiToolOf.plans).flatMap (demands data)
  | .parallelBranches bs _ =>
    let sched := bs.filter (isSchedulableBranch data)
    if (concurrentBranchPools data bs).isNone && branchGroupRunsConcurrently data sched
      then schedulerLaunches sched else []
  | _ => []

/-- The launches that the collector does not record at the node that makes them. -/
def missed (data : StaticData) (p : DirectRunPlan) : List Demand :=
  (visited p).flatMap (missedAt data)

theorem missed_eq (p : DirectRunPlan) :
    missed data p = missedAt data p ++ p.walkedPlans.flatMap (missed data) := by
  rw [missed, visited_eq, flatMap_cons, flatMap_assoc]
  rfl

theorem metBy_of_mem_splitWindow {c : SplitSettings} (hd : d ∈ splitWindow data c p)
    (n : DirectRunPlan) (e : Option DirectErrorRoutePlan) :
    ∃ pool ∈ contribution data (.split c p n e), d.MetBy pool := by
  simp only [splitWindow, contribution] at hd ⊢
  cases hbody : parallelAgentBody data c p with
  | none => rw [hbody] at hd; cases hd
  | some component =>
    rw [hbody, mem_cons, mem_map] at hd
    refine ⟨_, mem_singleton.mpr rfl, ?_⟩
    obtain rfl | ⟨member, hlt, rfl⟩ := hd
    · trivial
    · exact ⟨rfl, mem_range.mp hlt⟩

theorem fanOutLaunches_groups (hd : d ∈ fanOutLaunches data bs) :
    (branchGroupRunsConcurrently data bs = true ∧ d ∈ schedulerLaunches bs) ∨
    (branchGroupRunsConcurrently data (bs.filter (isSchedulableBranch data)) = true ∧
      d ∈ schedulerLaunches (bs.filter (isSchedulableBranch data))) ∨
    branchGroupRunsConcurrently data (bs.filter fun b => !isSchedulableBranch data b) = true ∧
      d ∈ wavefrontLaunches (bs.filter fun b => !isSchedulableBranch data b) := by
  simp only [fanOutLaunches] at hd
  split at hd
  · next hall => exact .inl ⟨(Bool.and_eq_true_iff.mp hall).1, hd⟩
  · obtain hd | hd := mem_append.mp hd
    · rw [mem_ite_nil_right] at hd
      exact .inr (.inl hd)
    · rw [mem_ite_nil_right] at hd
      exact .inr (.inr hd)

/-- What a fan-out launches is recorded there, or missed there. -/
theorem fanOutLaunches_cases {m : DirectRunPlan} (hd : d ∈ fanOutLaunches data bs) :
    d ∈ missedAt data (.parallelBranches bs m) ∨
      ∃ pool ∈ contribution data (.parallelBranches bs m), d.MetBy pool := by
  simp only [missedAt, contribution]
  cases hpools : concurrentBranchPools data bs with
  | none =>
    -- only the schedulable branches can still be launched
    left
    obtain ⟨hconc, -⟩ | ⟨hconc, hd⟩ | ⟨hconc, -⟩ := fanOutLaunches_groups hd
    · rw [branchGroupRunsConcurrently, hpools] at hconc
      cases hconc
    · simpa [hconc] using hd
    · exact absurd hpools (concurrentBranchPools_ne_none hconc)
  | some pools =>
    have heq : pools = branchPoolSizes (bs.map branchChain) := by
      rw [concurrentBranchPools] at hpools
      split_ifs at hpools
      exact (Option.some.inj hpools).symm
    have hsub (f : DirectRunPlan → Bool) :
        ((bs.filter f).map branchChain).Sublist (bs.map branchChain) := filter_sublist.map _
    right
    rw [Option.getD_some, heq]
    obtain ⟨hconc, hd⟩ | ⟨hconc, hd⟩ | ⟨hconc, hd⟩ := fanOutLaunches_groups hd
    · exact metBy_of_mem_schedulerLaunches hconc hd
    · exact exists_metBy_of_sublist (hsub _) (metBy_of_mem_schedulerLaunches hconc hd)
    · exact exists_metBy_of_sublist (hsub _) (metBy_of_mem_wavefrontLaunches hconc hd)

/-- One node: what it launches itself is recorded or missed there. -/
theorem windowOf_cases (hd : d ∈ windowOf data p) :
    d ∈ missedAt data p ∨ ∃ e ∈ contribution data p, d.MetBy e := by
  cases p with
  | split c p n e => exact .inr (metBy_of_mem_splitWindow hd n e)
  | parallelBranches bs m => exact fanOutLaunches_cases hd
  | _ => cases hd

theorem mem_missedAt_of_tool (hq : q ∈ p.toolPlans) (hd : d ∈ demands data q) :
    d ∈ missedAt data p := by
  cases p with
  | aiAgentLoop c ts n e => exact mem_flatMap.mpr ⟨q, hq, hd⟩
  | _ => cases hq

/-- The whole plan: a launch is recorded by the collector, or missed. -/
theorem missed_or_counted (hd : d ∈ demands data p) :
    d ∈ missed data p ∨ ∃ e ∈ counted data p, d.MetBy e := by
  induction p using subplan_induction with
  | h p ih =>
    rw [missed_eq, counted_eq, mem_append]
    obtain hd | ⟨q, hq, hd⟩ := mem_demands.mp hd
    · obtain h | ⟨e, he, hmet⟩ := windowOf_cases hd
      · exact .inl (.inl h)
      · exact .inr ⟨e, mem_append_left _ he, hmet⟩
    obtain htool | hwalked := mem_subplans_iff.mp hq
    · exact .inl (.inl (mem_missedAt_of_tool htool hd))
    · obtain h | ⟨e, he, hmet⟩ := ih q hq hd
      · exact .inl (.inr (mem_flatMap.mpr ⟨q, hwalked, h⟩))
      · exact .inr ⟨e, mem_append_right _ (mem_flatMap.mpr ⟨q, hwalked, he⟩), hmet⟩

theorem mem_demands_of_missedAt (hd : d ∈ missedAt data p) : d ∈ demands data p := by
  rw [mem_demands]
  cases p with
  | aiAgentLoop c ts n e =>
    obtain ⟨q, hq, hd⟩ := mem_flatMap.mp hd
    exact .inr ⟨q, mem_subplans_iff.mpr (.inl hq), hd⟩
  | parallelBranches bs m =>
    simp only [missedAt, mem_ite_nil_right, Bool.and_eq_true_iff, Option.isNone_iff_eq_none]
      at hd
    obtain ⟨⟨hpools, hconc⟩, hd⟩ := hd
    left
    have hwhole : branchGroupRunsConcurrently data bs = false := by
      rw [branchGroupRunsConcurrently, hpools]
      rfl
    rw [windowOf, fanOutLaunches, hwhole, if_neg (by simp), if_pos hconc]
    exact mem_append_left _ hd
  | _ => cases hd

theorem mem_demands_of_missed (hd : d ∈ missed data p) : d ∈ demands data p := by
  induction p using subplan_induction with
  | h p ih =>
    rw [missed_eq, mem_append] at hd
    obtain hd | hd := hd
    · exact mem_demands_of_missedAt hd
    · obtain ⟨q, hwalked, hd⟩ := mem_flatMap.mp hd
      have hq : q ∈ p.subplans := mem_subplans_iff.mpr (.inr hwalked)
      exact mem_demands.mpr (.inr ⟨q, hq, ih q hq hd⟩)

/-- **Supply covers demand** exactly when every launch that the collector does not record at
its own node (one in an `Embed` tool, or one in a fan-out that also has a workflow-agent)
happens to be covered by the pools recorded elsewhere in the plan. -/
theorem supplied_iff_missed_metBy (data : StaticData) (plan : DirectRunPlan) :
    (∀ d ∈ demands data plan, d.Supplied (parallelAgentPools data plan)) ↔
      ∀ d ∈ missed data plan, ∃ e ∈ counted data plan, d.MetBy e := by
  constructor
  · intro h d hd
    exact supplied_iff_counted.mp (h d (mem_demands_of_missed hd))
  · intro h d hd
    rw [supplied_iff_counted]
    exact (missed_or_counted hd).elim (h d) id

def agentStep (id agentId : String) (manifestId : ℕ) : Step :=
  ⟨id, false, .agent ⟨agentId, manifestId, some false, some 0, none, none, false⟩⟩

def agentPairGraph : ExecutionGraph where
  entryPoint := "start"
  durable := some false
  rateLimitBudgetMs := 0
  steps := [⟨"start", false, .log⟩, agentStep "flow" "sub-flow" 0, agentStep "call" "http" 1,
    ⟨"done", false, .finish⟩]
  executionPlan := [⟨"start", "flow", none, false, none⟩, ⟨"start", "call", none, false, none⟩,
    ⟨"flow", "done", none, false, none⟩, ⟨"call", "done", none, false, none⟩]

/-- The agent of the first branch is a workflow-agent. -/
def agentPairData : StaticData := ⟨true, fun agentId => agentId == 0⟩

def agentPairPlan : DirectRunPlan :=
  .log "start" false (.parallelBranches
    [.agent ⟨"flow", 0, "sub-flow", false, false, 0, 1000, 0⟩ .join none,
      .agent ⟨"call", 1, "http", false, false, 0, 1000, 0⟩ .join none]
    (.finish "done" false))

/-- The collector records nothing for the fan-out because of the workflow-agent, yet the
emitter launches the other agent. -/
theorem agentPair_not_supplied :
    directRunPlan 9 agentPairGraph [] = .ok agentPairPlan ∧
      agentPairData.parallelEnabled = true ∧
      parallelAgentPools agentPairData agentPairPlan = [] ∧
      demands agentPairData agentPairPlan = [.waitable, .invoke "http" 0] ∧
      ¬ ∀ d ∈ demands agentPairData agentPairPlan,
        d.Supplied (parallelAgentPools agentPairData agentPairPlan) := by
  refine ⟨rfl, rfl, by decide, by decide, by decide⟩

end Supply

end Runtara
