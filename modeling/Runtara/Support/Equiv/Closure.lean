/-
  What the closure validation guarantees.

  The checks collect the embedding steps outside the graphs of waiting steps and look for cycles
  among the workflows in the versions they take. Hence an accepted closure can only be unsound in
  what they do not see: `closure_sound_iff`.
-/
import Mathlib.Data.List.Dedup
import Runtara.Support.Closure
import Runtara.Support.Equiv.Cycles

namespace Runtara

open ExecutionGraph Relation List

/-! ### Nested graphs, with and without waiting steps -/

variable (onWait : Bool)

section Collect

variable {ε δ : Type} (found : ExecutionGraph → List ε)

theorem append_swap (a b c d : List ε) : ((a ++ b) ++ (c ++ d)).Perm ((a ++ c) ++ (b ++ d)) := by
  simp only [append_assoc]
  refine List.Perm.append_left a ?_
  simp only [← append_assoc]
  exact perm_append_comm.append_right d

variable (f : ε → δ)

mutual

theorem collectNested_map : ∀ graph : ExecutionGraph,
    collectNested onWait (fun g => ((found g).map f, true)) graph
      = (collectNested onWait (fun g => (found g, true)) graph).map f
  | ⟨_, _, _, steps, _⟩ => by
    rw [collectNested, collectNested]
    simp only [if_true, map_append, collectSteps_map steps]

theorem collectSteps_map : ∀ steps : List (StepOf ExecutionGraph),
    collectSteps onWait (fun g => ((found g).map f, true)) steps
      = (collectSteps onWait (fun g => (found g, true)) steps).map f
  | [] => rfl
  | step :: rest => by
    rw [collectSteps, collectSteps, map_append, collectStep_map step,
      collectSteps_map rest]

theorem collectStep_map : ∀ step : StepOf ExecutionGraph,
    collectStep onWait (fun g => ((found g).map f, true)) step
      = (collectStep onWait (fun g => (found g, true)) step).map f
  | ⟨_, _, kind⟩ => by
    rw [collectStep, collectStep]
    exact collectKind_map kind

theorem collectKind_map : ∀ kind : StepKindOf ExecutionGraph,
    collectKind onWait (fun g => ((found g).map f, true)) kind
      = (collectKind onWait (fun g => (found g, true)) kind).map f
  | .split _ subgraph | .whileLoop _ subgraph => collectNested_map subgraph
  | .waitForSignal graph? => by
    rw [collectKind, collectKind]
    split
    · exact collectOption_map graph?
    · rfl
  | .finish | .error | .conditional | .filter | .groupBy | .log | .delay _ | .switch _
  | .embedWorkflow _ | .agent _ | .aiAgent _ => rfl

theorem collectOption_map : ∀ graph? : Option ExecutionGraph,
    ExecutionGraph.collectOption onWait (fun g => ((found g).map f, true)) graph?
      = (ExecutionGraph.collectOption onWait (fun g => (found g, true)) graph?).map f
  | none => rfl
  | some graph => collectNested_map graph

end

/-- What is found in the graphs of waiting steps of a graph. -/
def foundOnWait (g : ExecutionGraph) : List ε :=
  (g.steps.filterMap onWaitGraph?).flatMap (collectNested true fun g => (found g, true))

mutual

/-- What is found in all nested graphs is what is found outside the graphs of waiting steps, and
what is found in those. -/
theorem collectNested_perm : ∀ graph : ExecutionGraph,
    (collectNested true (fun g => (found g, true)) graph).Perm
      (collectNested false (fun g => (found g, true)) graph
        ++ collectNested false (fun g => (foundOnWait found g, true)) graph)
  | ⟨_, _, _, steps, _⟩ => by
    rw [collectNested, collectNested, collectNested]
    simp only [if_true]
    rw [append_assoc]
    exact (collectSteps_perm steps).append_left _

theorem collectSteps_perm : ∀ steps : List (StepOf ExecutionGraph),
    (collectSteps true (fun g => (found g, true)) steps).Perm
      (collectSteps false (fun g => (found g, true)) steps
        ++ ((steps.filterMap onWaitGraph?).flatMap (collectNested true fun g => (found g, true))
          ++ collectSteps false (fun g => (foundOnWait found g, true)) steps))
  | [] => .nil
  | step :: rest => by
    rw [collectSteps, collectSteps, collectSteps]
    refine ((collectStep_perm step).append (collectSteps_perm rest)).trans ?_
    have hhead : ((step :: rest).filterMap onWaitGraph?).flatMap
          (collectNested true fun g => (found g, true))
        = (onWaitGraph? step).toList.flatMap (collectNested true fun g => (found g, true))
          ++ (rest.filterMap onWaitGraph?).flatMap
            (collectNested true fun g => (found g, true)) := by
      cases hstep : onWaitGraph? step with
      | none => rw [filterMap_cons_none hstep]; rfl
      | some g => rw [filterMap_cons_some hstep, flatMap_cons]; simp
    rw [hhead]
    exact (append_swap _ _ _ _).trans ((append_swap _ _ _ _).append_left _)

theorem collectStep_perm : ∀ step : StepOf ExecutionGraph,
    (collectStep true (fun g => (found g, true)) step).Perm
      (collectStep false (fun g => (found g, true)) step
        ++ ((onWaitGraph? step).toList.flatMap (collectNested true fun g => (found g, true))
          ++ collectStep false (fun g => (foundOnWait found g, true)) step))
  | ⟨_, _, .split _ subgraph⟩ => collectNested_perm subgraph
  | ⟨_, _, .whileLoop _ subgraph⟩ => collectNested_perm subgraph
  | ⟨_, _, .waitForSignal none⟩ => .nil
  | ⟨_, _, .waitForSignal (some graph)⟩ => by
    rw [collectStep, collectKind, collectStep, collectKind, collectStep, collectKind]
    simp [onWaitGraph?, ExecutionGraph.collectOption]
  | ⟨_, _, .finish⟩ | ⟨_, _, .error⟩ | ⟨_, _, .conditional⟩ | ⟨_, _, .filter⟩ | ⟨_, _, .groupBy⟩
  | ⟨_, _, .log⟩ | ⟨_, _, .delay _⟩ | ⟨_, _, .switch _⟩ | ⟨_, _, .embedWorkflow _⟩
  | ⟨_, _, .agent _⟩ | ⟨_, _, .aiAgent _⟩ => .nil

end

end Collect

/-! ### Embedding steps -/

variable (graph : ExecutionGraph)

theorem embedSteps_eq :
    graph.embedSteps = graph.embedConfigs.map fun e => (e.1, e.2.childWorkflowId) := by
  unfold embedSteps embedConfigs
  rw [map_filterMap]
  congr 1
  funext step
  cases step.kind <;> rfl

theorem nestedEmbedSteps_eq : graph.nestedEmbedSteps onWait
      = (graph.nestedEmbedConfigs onWait).map fun e => (e.1, e.2.childWorkflowId) := by
  unfold nestedEmbedSteps nestedEmbedConfigs
  rw [← collectNested_map]
  simp only [embedSteps_eq]

theorem nestedEmbedConfigs_perm : (graph.nestedEmbedConfigs true).Perm
      (graph.nestedEmbedConfigs false ++ graph.onWaitEmbedConfigs) :=
  collectNested_perm embedConfigs graph

theorem mem_nestedEmbedConfigs {graph : ExecutionGraph} {e : StepId × EmbedConfig} :
    e ∈ graph.nestedEmbedConfigs true
      ↔ e ∈ graph.nestedEmbedConfigs false ∨ e ∈ graph.onWaitEmbedConfigs := by
  rw [(nestedEmbedConfigs_perm graph).mem_iff, mem_append]

/-! ### Accepted closures -/

namespace WorkflowClosure

variable {c : WorkflowClosure} {fuel : ℕ}

/-- What no error means. -/
structure Accepted (c : WorkflowClosure) (fuel : ℕ) : Prop where
  present : ∀ g ∈ c.graphs, ∀ e ∈ g.nestedEmbedSteps false, (c.lookup e.2).isSome
  cycles : validateClosureCycles fuel c.root.workflowId c.graph c.lookup = []
  unique : ((c.graphs.flatMap fun g => g.nestedEmbedSteps false).map Prod.fst).Nodup

theorem present_of_missing {lookup : String → Option ExecutionGraph} {g : ExecutionGraph}
    (h : reportMissingChildReferences lookup g = []) :
    ∀ e ∈ g.nestedEmbedSteps false, (lookup e.2).isSome := by
  intro e he
  have hnone := filterMap_eq_nil_iff.mp h e he
  by_contra hmissing
  rw [if_neg hmissing] at hnone
  cases hnone

theorem unique_of_duplicate {graphs : List ExecutionGraph} (h : duplicateEmbedErrors graphs = []) :
    ((graphs.flatMap fun g => g.nestedEmbedSteps false).map Prod.fst).Nodup := by
  refine nodup_iff_count_le_one.mpr fun s => ?_
  by_contra hcount
  have hmem : s ∈ (graphs.flatMap fun g => g.nestedEmbedSteps false).map Prod.fst :=
    count_pos_iff.mp (by omega)
  simp only [duplicateEmbedErrors, map_eq_nil_iff] at h
  have hdup : s ∈ ((((graphs.flatMap fun g => g.nestedEmbedSteps false).map Prod.fst).filter
      fun s => ((graphs.flatMap fun g => g.nestedEmbedSteps false).map Prod.fst).count s > 1).dedup
        ).insertionSort (· ≤ ·) := by
    rw [mem_insertionSort, mem_dedup, mem_filter]
    exact ⟨hmem, by simpa using hcount⟩
  rw [h] at hdup
  cases hdup

theorem accepted_of_valid
    (h : validateWorkflowClosure fuel c.root.workflowId c.graph c.children = []) :
    c.Accepted fuel := by
  simp only [validateWorkflowClosure, append_eq_nil_iff, flatMap_eq_nil_iff] at h
  obtain ⟨⟨⟨⟨-, hroot⟩, hcycles⟩, hchildren⟩, hdup⟩ := h
  refine ⟨?_, hcycles, unique_of_duplicate hdup⟩
  intro g hg
  rcases mem_cons.mp hg with rfl | hg
  · exact present_of_missing hroot
  · obtain ⟨child, hchild, rfl⟩ := mem_map.mp hg
    exact present_of_missing (hchildren child hchild).2

/-! ### Cycles that are seen -/

/-- An embedding as the checks see it. -/
def EmbedsSeen (c : WorkflowClosure) (r r' : WorkflowReference) : Prop :=
  ∃ g, c.lookup r.workflowId = some g ∧ ∃ e ∈ g.nestedEmbedSteps false, e.2 = r'.workflowId

theorem seen_or_unseen {r r' : WorkflowReference} (h : c.Embeds r r') :
    c.EmbedsSeen r r' ∨ c.EmbedsUnseen r r' := by
  obtain ⟨g, hg, e, he, hreq⟩ := h
  by_cases hlookup : c.lookup r.workflowId = some g
  · rcases mem_nestedEmbedConfigs.mp he with he | he
    · refine .inl ⟨g, hlookup, (e.1, e.2.childWorkflowId), ?_, hreq.1⟩
      rw [nestedEmbedSteps_eq]
      exact mem_map_of_mem he
    · exact .inr ⟨g, hg, e, hreq, .inl he⟩
  · exact .inr ⟨g, hg, e, hreq, .inr ⟨he, hlookup⟩⟩

theorem lookup_root : c.lookup c.root.workflowId = some c.graph := by
  unfold lookup childrenMap
  rw [find?_cons_of_pos (by exact beq_self_eq_true _)]
  rfl

theorem covers_visibleEdges : Covers c.visibleEdges c.lookup := by
  intro w g hg
  unfold lookup childrenMap at hg
  obtain ⟨⟨id, g'⟩, hfind, hg'⟩ := Option.map_eq_some_iff.mp hg
  obtain rfl : g' = g := hg'
  obtain rfl : id = w := by simpa using find?_some hfind
  have hlength (es : List (StepId × String)) :
      ((es.map fun e => (id, e.2)).filter (·.1 == id)).length = es.length := by
    rw [filter_eq_self.mpr, length_map]
    intro d hd
    obtain ⟨e, -, rfl⟩ := mem_map.mp hd
    exact beq_self_eq_true id
  unfold visibleEdges
  rw [filter_append, length_append]
  rcases mem_cons.mp (mem_of_find?_eq_some hfind) with heq | hmem
  · obtain ⟨rfl, rfl⟩ := Prod.mk.inj heq
    rw [hlength]
    omega
  · obtain ⟨child, hchild, heq⟩ := mem_map.mp hmem
    obtain ⟨rfl, rfl⟩ := Prod.mk.inj heq
    have hsub := (sublist_flatten_of_mem (mem_map_of_mem (f := fun child : ClosureChild =>
      (child.executionGraph.nestedEmbedSteps false).map fun e => (child.workflowId, e.2))
        hchild)).filter (·.1 == child.workflowId)
    have hle := hsub.length_le
    rw [hlength] at hle
    rw [flatMap_def]
    omega

/-- No cycle of embeddings that are seen can be reached through such embeddings. -/
theorem seen_acyclic (haccepted : c.Accepted fuel) (hfuel : c.validationFuel ≤ fuel)
    {r : WorkflowReference} (hreach : ReflTransGen c.EmbedsSeen c.root r) :
    ¬ TransGen c.EmbedsSeen r r := by
  cases hbuild : buildDependencyGraph c.lookup fuel c.root.workflowId
      (c.graph.nestedEmbedSteps false) ([], []) with
  | mk deps visited =>
  have hroots : (c.graph.nestedEmbedSteps false).length ≤ c.visibleEdges.length := by
    unfold visibleEdges
    rw [length_append, length_map]
    omega
  have hopen : openEdges c.visibleEdges [] = c.visibleEdges.length := by simp [openEdges]
  unfold validationFuel at hfuel
  obtain ⟨hbuilt, hlength⟩ := buildDependencyGraph_built covers_visibleEdges (by omega) hbuild
  -- Every workflow reached so far has all its embeddings collected.
  have hcollected (r : WorkflowReference)
      (hr : r.workflowId = c.root.workflowId ∨ r.workflowId ∈ visited) (r' : WorkflowReference)
      (hseen : c.EmbedsSeen r r') :
      Depends deps r.workflowId r'.workflowId ∧ r'.workflowId ∈ visited := by
    obtain ⟨g, hg, e, he, hid⟩ := hseen
    rw [← hid]
    rcases hr with hr | hr
    · rw [hr] at hg ⊢
      obtain rfl := Option.some.inj (lookup_root.symm.trans hg)
      exact hbuilt.embeds_mem e he
    · exact hbuilt.collected _ hr not_mem_nil g hg e he
  have hvisited : (r.workflowId = c.root.workflowId ∨ r.workflowId ∈ visited)
      ∧ ReflTransGen (Depends deps) c.root.workflowId r.workflowId := by
    induction hreach with
    | refl => exact ⟨.inl rfl, .refl⟩
    | tail _ hstep ih =>
      obtain ⟨hdep, hmem⟩ := hcollected _ ih.1 _ hstep
      exact ⟨.inr hmem, ih.2.tail hdep⟩
  intro hcycle
  have hdeps {s : WorkflowReference} (hs : TransGen c.EmbedsSeen r s) :
      TransGen (Depends deps) r.workflowId s.workflowId ∧ s.workflowId ∈ visited := by
    induction hs with
    | single hstep =>
      obtain ⟨hdep, hmem⟩ := hcollected _ hvisited.1 _ hstep
      exact ⟨.single hdep, hmem⟩
    | tail _ hstep ih =>
      obtain ⟨hdep, hmem⟩ := hcollected _ (.inr ih.2) _ hstep
      exact ⟨ih.1.tail hdep, hmem⟩
  have hvalid := haccepted.cycles
  rw [validateClosureCycles, hbuild] at hvalid
  simp only at hvalid
  split at hvalid
  · next cycle hdetect =>
    obtain ⟨node, inner, rfl, -⟩ := detectCycles_error (Trail.root _) hdetect
    rw [if_neg (by simp)] at hvalid
    cases hvalid
  · next explored hdetect =>
    have hopenDeps : openEdges deps [] = deps.length := by simp [openEdges]
    have hlengthDeps : deps.length ≤ 2 * c.visibleEdges.length := by
      simp only [length_nil] at hlength
      omega
    have hnone : Explored deps [] := fun v hv => absurd hv not_mem_nil
    obtain ⟨hexplored, -, hnodes⟩ := detectCycles_ok
      (by rw [hopenDeps, length_singleton]; omega) hnone hdetect
    have hmem := mem_of_reaches hexplored (hnodes mem_cons_self) hvisited.2
    exact (hexplored _ hmem).2 (hdeps hcycle).1

/-! ### The main result -/

section Paths

variable {α : Type} {R S U : α → α → Prop}

/-- A path of steps of two kinds has only the first kind, or a step of the second kind. -/
theorem reflTransGen_or (h : ∀ a b, R a b → S a b ∨ U a b) {a b : α} (hab : ReflTransGen R a b) :
    ReflTransGen S a b ∨ ∃ x y, ReflTransGen R a x ∧ U x y ∧ ReflTransGen R y b := by
  induction hab with
  | refl => exact .inl .refl
  | tail hstart hstep ih =>
    rcases ih with ih | ⟨x, y, hx, hxy, hy⟩
    · rcases h _ _ hstep with hS | hU
      · exact .inl (ih.tail hS)
      · exact .inr ⟨_, _, hstart, hU, .refl⟩
    · exact .inr ⟨x, y, hx, hxy, hy.tail hstep⟩

theorem transGen_or (h : ∀ a b, R a b → S a b ∨ U a b) {a b : α} (hab : TransGen R a b) :
    TransGen S a b ∨ ∃ x y, ReflTransGen R a x ∧ U x y ∧ ReflTransGen R y b := by
  obtain ⟨x, hax, hxb⟩ := TransGen.head'_iff.mp hab
  rcases h _ _ hax with hS | hU
  · rcases reflTransGen_or h hxb with hrest | ⟨y, z, hy, hyz, hz⟩
    · exact .inl (TransGen.head' hS hrest)
    · exact .inr ⟨y, z, hy.head hax, hyz, hz⟩
  · exact .inr ⟨a, x, .refl, hU, hxb⟩

end Paths

theorem embeds_of_unseen {r r' : WorkflowReference} (h : c.EmbedsUnseen r r') : c.Embeds r r' := by
  obtain ⟨g, hg, e, hreq, he⟩ := h
  refine ⟨g, hg, e, ?_, hreq⟩
  rcases he with he | ⟨he, -⟩
  · exact mem_nestedEmbedConfigs.mpr (.inr he)
  · exact he

theorem acyclic_of_unseen (haccepted : c.Accepted fuel) (hfuel : c.validationFuel ≤ fuel)
    (hunseen : UnseenSound c) (r : WorkflowReference) (hreach : ReflTransGen c.Embeds c.root r) :
    ¬ TransGen c.Embeds r r := by
  intro hcycle
  have hsplit : ∀ a b, c.Embeds a b → c.EmbedsSeen a b ∨ c.EmbedsUnseen a b :=
    fun _ _ => seen_or_unseen
  rcases reflTransGen_or hsplit hreach with hseen | ⟨x, y, hx, hxy, hy⟩
  · rcases transGen_or hsplit hcycle with hcycle' | ⟨x, y, hx, hxy, hy⟩
    · exact seen_acyclic haccepted hfuel hseen hcycle'
    · exact hunseen.acyclic x y r (hreach.trans hx) hxy hy hcycle
  · exact hunseen.acyclic x y r hx hxy hy hcycle

theorem present_of_unseen (haccepted : c.Accepted fuel) (hunseen : UnseenSound c)
    (g : ExecutionGraph) (hg : g ∈ c.graphs) (e : StepId × EmbedConfig)
    (he : e ∈ g.nestedEmbedConfigs true) : (c.lookup e.2.childWorkflowId).isSome := by
  rcases mem_nestedEmbedConfigs.mp he with he | he
  · refine haccepted.present g hg (e.1, e.2.childWorkflowId) ?_
    rw [nestedEmbedSteps_eq]
    exact mem_map_of_mem he
  · exact hunseen.present g hg e he

/-- The ids of the closure are those that are seen and those of waiting steps. -/
theorem embedStepIds_perm : c.embedStepIds.Perm
    ((c.graphs.flatMap fun g => g.nestedEmbedSteps false).map Prod.fst
      ++ (c.graphs.flatMap onWaitEmbedConfigs).map Prod.fst) := by
  unfold embedStepIds
  have hperm : (c.graphs.flatMap (·.nestedEmbedConfigs true)).Perm
      (c.graphs.flatMap (·.nestedEmbedConfigs false) ++ c.graphs.flatMap onWaitEmbedConfigs) := by
    induction c.graphs with
    | nil => exact .nil
    | cons g gs ih =>
      simp only [flatMap_cons]
      exact ((nestedEmbedConfigs_perm g).append ih).trans (append_swap _ _ _ _)
  have hids : (c.graphs.flatMap fun g => g.nestedEmbedSteps false).map Prod.fst
      = (c.graphs.flatMap (·.nestedEmbedConfigs false)).map Prod.fst := by
    simp only [nestedEmbedSteps_eq, map_flatMap, List.map_map]
    rfl
  rw [hids, ← map_append]
  exact hperm.map _

theorem unique_of_unseen (haccepted : c.Accepted fuel) (hunseen : UnseenSound c) :
    c.embedStepIds.Nodup := by
  refine nodup_iff_count_le_one.mpr fun s => ?_
  by_cases hmem : s ∈ (c.graphs.flatMap onWaitEmbedConfigs).map Prod.fst
  · obtain ⟨e, he, rfl⟩ := mem_map.mp hmem
    obtain ⟨g, hg, he⟩ := mem_flatMap.mp he
    exact hunseen.unique g hg e he
  · rw [embedStepIds_perm.count_eq, count_append, count_eq_zero_of_not_mem hmem]
    exact nodup_iff_count_le_one.mp haccepted.unique s

end WorkflowClosure

open WorkflowClosure

/-- **What the closure validation guarantees.** A closure without validation errors is sound
exactly if it is sound in what the checks do not see: the embedding steps in the graphs of waiting
steps, and the versions of a workflow other than the one they take. -/
theorem closure_sound_iff (c : WorkflowClosure) (fuel : ℕ) (hfuel : c.validationFuel ≤ fuel)
    (hvalid : validateWorkflowClosure fuel c.root.workflowId c.graph c.children = []) :
    ClosureSound c ↔ UnseenSound c := by
  have haccepted := accepted_of_valid hvalid
  constructor
  · intro hsound
    refine ⟨?_, ?_, ?_⟩
    · intro g hg e he
      exact hsound.present g hg e (mem_nestedEmbedConfigs.mpr (.inr he))
    · intro r r' r'' hr hunseen hr''
      have hreach : ReflTransGen c.Embeds c.root r' := hr.tail (embeds_of_unseen hunseen)
      exact hsound.acyclic r'' (hreach.trans hr'')
    · intro g _ e _
      exact nodup_iff_count_le_one.mp hsound.unique e.1
  · intro hunseen
    exact ⟨present_of_unseen haccepted hunseen, acyclic_of_unseen haccepted hfuel hunseen,
      unique_of_unseen haccepted hunseen⟩

/-! ### Two closures -/

def mailerGraph : ExecutionGraph where
  entryPoint := "sent"
  durable := none
  rateLimitBudgetMs := 0
  steps := [⟨"sent", false, .finish⟩]
  executionPlan := []

/-- A graph that embeds the workflow `mailer`. -/
def notifyGraph : ExecutionGraph where
  entryPoint := "notify"
  durable := none
  rateLimitBudgetMs := 0
  steps := [⟨"notify", false, .embedWorkflow ⟨"mailer", .specific 1, none, none, none⟩⟩]
  executionPlan := []

/-- A workflow that embeds `mailer`, with the children it is given. -/
def notifyClosure (children : List ClosureChild) : WorkflowClosure where
  root := ⟨"orders", 1⟩
  graph := notifyGraph
  children := children
  resolve _ version := match version with
    | .specific n => some n
    | .latest _ => none

/-- The checks see everything of this closure. -/
theorem notifyClosure_sound : (notifyClosure [⟨"mailer", 1, mailerGraph⟩]).validationFuel ≤ 6
    ∧ validateWorkflowClosure 6 "orders" notifyGraph [⟨"mailer", 1, mailerGraph⟩] = []
    ∧ ClosureSound (notifyClosure [⟨"mailer", 1, mailerGraph⟩]) := by
  have hvalid : validateWorkflowClosure 6 "orders" notifyGraph [⟨"mailer", 1, mailerGraph⟩] =
      [] := by
    decide +kernel
  have hfuel : (notifyClosure [⟨"mailer", 1, mailerGraph⟩]).validationFuel ≤ 6 := by decide +kernel
  refine ⟨hfuel, hvalid,
    (closure_sound_iff (notifyClosure [⟨"mailer", 1, mailerGraph⟩]) 6 hfuel hvalid).mpr
      ⟨?_, ?_, ?_⟩⟩
  · intro g hg e he
    rcases mem_cons.mp hg with rfl | hg
    · cases he
    · rcases mem_cons.mp hg with rfl | hg
      · cases he
      · cases hg
  · -- Each workflow is there in one version, and none has a step that waits.
    rintro r r' r'' - ⟨g, hg, e, -, he⟩
    unfold WorkflowClosure.graphOf at hg
    split at hg
    · next hroot =>
      obtain rfl := Option.some.inj hg
      rcases he with he | ⟨-, hlookup⟩
      · cases he
      · rw [hroot] at hlookup
        exact absurd rfl hlookup
    · obtain ⟨child, hchild, rfl⟩ := Option.map_eq_some_iff.mp hg
      obtain rfl := mem_singleton.mp (mem_of_find?_eq_some hchild)
      rcases he with he | ⟨he, -⟩ <;> cases he
  · intro g hg e he
    rcases mem_cons.mp hg with rfl | hg
    · cases he
    · rcases mem_cons.mp hg with rfl | hg
      · cases he
      · cases hg

/-- A workflow that embeds `mailer` while it waits. -/
def waitingGraph : ExecutionGraph where
  entryPoint := "wait"
  durable := none
  rateLimitBudgetMs := 0
  steps := [⟨"wait", false, .waitForSignal (some notifyGraph)⟩, ⟨"done", false, .finish⟩]
  executionPlan := [⟨"wait", "done", none, false, none⟩]

/-- **A missing child can be accepted.** The embedding step in the graph of the waiting step is not
looked at. -/
theorem waitingGraph_unsound :
    validateWorkflowClosure 2 "orders" waitingGraph [] = []
      ∧ ¬ ClosureSound { notifyClosure [] with graph := waitingGraph } := by
  refine ⟨by decide +kernel, fun hsound => ?_⟩
  have hpresent := hsound.present waitingGraph mem_cons_self
    ("notify", ⟨"mailer", .specific 1, none, none, none⟩) mem_cons_self
  exact absurd hpresent (by decide)

end Runtara
