/-
  The two searches behind the cycle check.

  `buildDependencyGraph` expands every workflow once and collects the embeddings it sees;
  `detectCycles` walks them depth first. Both are given enough fuel when it covers the edges that
  can still be followed, counted twice: each descent uses up the edges of a workflow.
-/
import Mathlib.Logic.Relation
import Runtara.Support.Closure

namespace Runtara

open Relation List

/-! ### Depth-first search -/

variable {α : Type}

/-- The embeddings of a dependency graph. -/
def Depends (deps : List (α × α)) (a b : α) : Prop := (a, b) ∈ deps

variable {deps : List (α × α)} {fuel : ℕ}

/-- The explored nodes: closed under the edges, and on no cycle. -/
def Explored (deps : List (α × α)) (visited : List α) : Prop :=
  ∀ v ∈ visited, (∀ w, Depends deps v w → w ∈ visited) ∧ ¬ TransGen (Depends deps) v v

variable {visited : List α}

theorem mem_of_reaches (h : Explored deps visited) {v w : α} (hv : v ∈ visited)
    (hw : ReflTransGen (Depends deps) v w) : w ∈ visited := by
  induction hw with
  | refl => exact hv
  | tail _ hstep ih => exact (h _ ih).1 _ hstep

variable {node : α}

theorem Explored.cons (h : Explored deps visited) (hnext : ∀ w, Depends deps node w → w ∈ visited) :
    Explored deps (node :: visited) := by
  intro v hv
  rcases mem_cons.mp hv with rfl | hv
  · refine ⟨fun w hw => mem_cons_of_mem _ (hnext w hw), fun hcycle => ?_⟩
    -- A cycle through the node leaves it for an explored node and so makes it one itself.
    obtain ⟨w, hw, hback⟩ := TransGen.head'_iff.mp hcycle
    have hmem := mem_of_reaches h (hnext w hw) hback
    exact (h v hmem).2 hcycle
  · exact ⟨fun w hw => mem_cons_of_mem _ ((h v hv).1 w hw), (h v hv).2⟩

/-- A cycle that can be reached, with its first node repeated at the end. -/
def IsCycleFrom (deps : List (α × α)) (start : α) (cycle : List α) : Prop :=
  ∃ node inner, cycle = node :: (inner ++ [node]) ∧ (node :: inner).Nodup ∧
    cycle.IsChain (Depends deps) ∧ ReflTransGen (Depends deps) start node

/-- The nodes still to be searched come after the path, on which no node repeats. -/
structure Trail (deps : List (α × α)) (start : α) (path nodes : List α) : Prop where
  nodup : path.Nodup
  chain : ∀ node ∈ nodes, (path ++ [node]).IsChain (Depends deps)
  reaches : ∀ node ∈ nodes, ReflTransGen (Depends deps) start node

theorem Trail.root (start : α) : Trail deps start [] [start] :=
  ⟨nodup_nil, fun _ _ => isChain_singleton _, fun _ h => mem_singleton.mp h ▸ .refl⟩

variable {path : List α}

theorem Trail.tail {start : α} {siblings : List α} (h : Trail deps start path (node :: siblings)) :
    Trail deps start path siblings :=
  ⟨h.nodup, (forall_mem_cons.mp h.chain).2, (forall_mem_cons.mp h.reaches).2⟩

variable [DecidableEq α]

/-- The edges that do not start on the path. -/
def openEdges (deps : List (α × α)) (path : List α) : ℕ :=
  (deps.filter fun d => d.1 ∉ path).length

theorem openEdges_append (deps : List (α × α)) (hnode : node ∉ path) :
    openEdges deps (path ++ [node]) + (deps.filter (·.1 == node)).length = openEdges deps path := by
  unfold openEdges
  induction deps with
  | nil => rfl
  | cons d deps ih =>
    by_cases hd : d.1 = node
    · have hpath : d.1 ∉ path := hd ▸ hnode
      rw [filter_cons_of_neg (by simp [hd]), filter_cons_of_pos (by simp [hd]),
        filter_cons_of_pos (by simp [hpath]), length_cons, length_cons, ← ih]
      omega
    · rw [filter_cons_of_neg (p := fun x : α × α => x.1 == node) (by simp [hd])]
      by_cases hpath : d.1 ∈ path
      · rw [filter_cons_of_neg (by simp [hpath]), filter_cons_of_neg (by simp [hpath]), ih]
      · rw [filter_cons_of_pos (by simp [hpath, hd]), filter_cons_of_pos (by simp [hpath]),
          length_cons, length_cons, ← ih]
        omega

/-- **The search finds every cycle.** With enough fuel, a search that succeeds has explored all
its nodes. -/
theorem detectCycles_ok {nodes visited' : List α}
    (hfuel : nodes.length + 1 + 2 * openEdges deps path ≤ fuel) (hexplored : Explored deps visited)
    (h : detectCycles deps fuel nodes path visited = .ok visited') :
    Explored deps visited' ∧ visited ⊆ visited' ∧ nodes ⊆ visited' := by
  induction fuel generalizing nodes path visited visited' with
  | zero => omega
  | succ fuel ih =>
    cases nodes with
    | nil =>
      obtain rfl := Except.ok.inj h
      exact ⟨hexplored, List.Subset.refl _, nil_subset _⟩
    | cons node siblings =>
      rw [length_cons] at hfuel
      rw [detectCycles] at h
      split at h
      · cases h
      next hpath =>
      split at h
      · next hvisited =>
        obtain ⟨hgood, hsub, hnodes⟩ := ih (by omega) hexplored h
        exact ⟨hgood, hsub, cons_subset.mpr ⟨hsub hvisited, hnodes⟩⟩
      · split at h
        · cases h
        next inner hinner =>
        have hopen := openEdges_append deps hpath
        have hbelow : ((deps.filter (·.1 == node)).map Prod.snd).length + 1
            + 2 * openEdges deps (path ++ [node]) ≤ fuel := by
          rw [length_map]
          omega
        obtain ⟨hgood, hsub, hchildren⟩ := ih hbelow hexplored hinner
        have hnext : ∀ w, Depends deps node w → w ∈ inner := by
          intro w hw
          refine hchildren (mem_map.mpr ⟨(node, w), mem_filter.mpr ⟨hw, ?_⟩, rfl⟩)
          exact beq_self_eq_true node
        obtain ⟨hgood', hsub', hnodes⟩ := ih (by omega) (hgood.cons hnext) h
        refine ⟨hgood', fun v hv => hsub' (mem_cons_of_mem _ (hsub hv)), ?_⟩
        exact cons_subset.mpr ⟨hsub' mem_cons_self, hnodes⟩

section Reported

variable {start node : α} {path siblings : List α}

theorem Trail.children (h : Trail deps start path (node :: siblings)) (hnode : node ∉ path) :
    Trail deps start (path ++ [node]) ((deps.filter (·.1 == node)).map Prod.snd) := by
  have hedge : ∀ child ∈ (deps.filter (·.1 == node)).map Prod.snd, Depends deps node child := by
    intro child hchild
    obtain ⟨⟨parent, _⟩, hmem, rfl⟩ := mem_map.mp hchild
    obtain ⟨hdep, hparent⟩ := mem_filter.mp hmem
    obtain rfl : parent = node := by simpa using hparent
    exact hdep
  refine ⟨h.nodup.append (nodup_singleton _) (by simpa using hnode), ?_, ?_⟩
  · intro child hchild
    rw [append_assoc]
    exact isChain_append_cons_cons.mpr
      ⟨h.chain node mem_cons_self, hedge child hchild, isChain_singleton _⟩
  · intro child hchild
    exact (h.reaches node mem_cons_self).tail (hedge child hchild)

/-- A node that is met again closes a cycle: the part of the path from its first occurrence. -/
theorem Trail.cycle (h : Trail deps start path (node :: siblings)) (hnode : node ∈ path) :
    IsCycleFrom deps start (path.dropWhile (· != node) ++ [node]) := by
  have hchain := h.chain node mem_cons_self
  have hnodup := h.nodup
  obtain ⟨before, inner, rfl, hbefore⟩ := eq_append_cons_of_mem hnode
  rw [dropWhile_append_of_pos (by simpa using fun x hx => ne_of_mem_of_not_mem hx hbefore),
    dropWhile_cons_of_neg (by simp)]
  rw [append_assoc] at hchain
  exact ⟨node, inner, rfl, hnodup.of_append_right, hchain.right_of_append,
    h.reaches node mem_cons_self⟩

/-- **Every reported cycle is one.** -/
theorem detectCycles_error {nodes cycle : List α} (h : Trail deps start path nodes)
    (hrun : detectCycles deps fuel nodes path visited = .error cycle) :
    IsCycleFrom deps start cycle := by
  induction fuel generalizing nodes path visited with
  | zero => cases hrun
  | succ fuel ih =>
    cases nodes with
    | nil => cases hrun
    | cons node siblings =>
      rw [detectCycles] at hrun
      split at hrun
      · next hnode => exact Except.error.inj hrun ▸ h.cycle hnode
      next hnode =>
      split at hrun
      · exact ih h.tail hrun
      · split at hrun
        · next hinner =>
          obtain rfl := Except.error.inj hrun
          exact ih (h.children hnode) hinner
        · exact ih h.tail hrun

end Reported

/-- **Cycle detection is exact.** It fails exactly if a cycle can be reached from the start, and
what it reports is such a cycle, on which no node repeats but the first, at the end. -/
theorem detect_cycles_exact (graph : DependencyGraph) (start : WorkflowReference) :
    ((∃ cycle, graph.detectCycles start = .error cycle) ↔
      ∃ node, ReflTransGen (Depends graph.edges) start node ∧
        TransGen (Depends graph.edges) node node) ∧
    ∀ cycle, graph.detectCycles start = .error cycle → IsCycleFrom graph.edges start cycle := by
  have hopen : openEdges graph.edges [] = graph.edges.length := by simp [openEdges]
  have hreported : ∀ cycle, graph.detectCycles start = .error cycle →
      IsCycleFrom graph.edges start cycle := by
    intro cycle h
    rw [DependencyGraph.detectCycles] at h
    split at h
    · next hrun => exact Except.error.inj h ▸ detectCycles_error (Trail.root start) hrun
    · cases h
  refine ⟨⟨?_, ?_⟩, hreported⟩
  · rintro ⟨cycle, h⟩
    obtain ⟨node, inner, rfl, -, hchain, hreach⟩ := hreported cycle h
    refine ⟨node, hreach, TransGen.head'_iff.mpr ?_⟩
    cases inner with
    | nil => exact ⟨node, isChain_pair.mp hchain, .refl⟩
    | cons next inner =>
      obtain ⟨hedge, hrest⟩ := isChain_cons_cons.mp hchain
      exact ⟨next, hedge, relationReflTransGen_of_exists_isChain_cons _ hrest (by simp)⟩
  · rintro ⟨node, hreach, hcycle⟩
    rw [DependencyGraph.detectCycles]
    split
    · exact ⟨_, rfl⟩
    next visited hrun =>
    -- the explored nodes are closed, so they have the one on the cycle
    obtain ⟨hexplored, -, hstart⟩ := detectCycles_ok (by rw [hopen, length_singleton]; omega)
      (fun v hv => absurd hv not_mem_nil) hrun
    have hnode := mem_of_reaches hexplored (hstart mem_cons_self) hreach
    exact absurd hcycle (hexplored node hnode).2

/-! ### Collecting the embeddings -/

variable {lookup : String → Option ExecutionGraph} {deps deps' : List (String × String)}
  {visited visited' : List String}

/-- The embeddings of a workflow have been collected and followed. -/
def Collected (lookup : String → Option ExecutionGraph) (deps : List (String × String))
    (visited : List String) (workflowId : String) : Prop :=
  ∀ g, lookup workflowId = some g → ∀ e ∈ g.nestedEmbedSteps false,
    (workflowId, e.2) ∈ deps ∧ e.2 ∈ visited

theorem Collected.mono {workflowId : String} (h : Collected lookup deps visited workflowId)
    (hdeps : deps ⊆ deps') (hvisited : visited ⊆ visited') :
    Collected lookup deps' visited' workflowId := fun g hg e he =>
  ⟨hdeps (h g hg e he).1, hvisited (h g hg e he).2⟩

/-- What a call of `buildDependencyGraph` does: it collects the given embeddings of the parent,
and all those of the workflows it visits. -/
structure Built (lookup : String → Option ExecutionGraph) (parent : String)
    (embeds : List (StepId × String)) (deps deps' : List (String × String))
    (visited visited' : List String) : Prop where
  deps_subset : deps ⊆ deps'
  visited_subset : visited ⊆ visited'
  embeds_mem : ∀ e ∈ embeds, (parent, e.2) ∈ deps' ∧ e.2 ∈ visited'
  collected : ∀ w ∈ visited', w ∉ visited → Collected lookup deps' visited' w

variable {parent : String}

theorem Built.nil : Built lookup parent [] deps deps visited visited where
  deps_subset := List.Subset.refl _
  visited_subset := List.Subset.refl _
  embeds_mem _ he := absurd he not_mem_nil
  collected _ hw hnew := absurd hw hnew

variable {child : String}

/-- The first embedding of the parent, then what is collected below it, then the rest. -/
theorem Built.cons {step : StepId} {rest below : List (StepId × String)}
    {deps₁ deps₂ : List (String × String)} {visited₁ visited₂ : List String}
    (hbelow : Built lookup child below (deps ++ [(parent, child)]) deps₁
      (child :: visited) visited₁)
    (hgraph : ∀ g, lookup child = some g → g.nestedEmbedSteps false ⊆ below)
    (hrest : Built lookup parent rest deps₁ deps₂ visited₁ visited₂) :
    Built lookup parent ((step, child) :: rest) deps deps₂ visited visited₂ where
  deps_subset := fun d hd => hrest.deps_subset (hbelow.deps_subset (mem_append_left _ hd))
  visited_subset := fun v hv => hrest.visited_subset (hbelow.visited_subset (mem_cons_of_mem _ hv))
  embeds_mem e he := by
    rcases mem_cons.mp he with rfl | he
    · exact ⟨hrest.deps_subset (hbelow.deps_subset (mem_append_right _ mem_cons_self)),
        hrest.visited_subset (hbelow.visited_subset mem_cons_self)⟩
    · exact hrest.embeds_mem e he
  collected w hw hnew := by
    by_cases hmid : w ∈ visited₁
    · by_cases hchild : w = child
      · subst hchild
        intro g hg e he
        obtain ⟨hdep, hvis⟩ := hbelow.embeds_mem e (hgraph g hg he)
        exact ⟨hrest.deps_subset hdep, hrest.visited_subset hvis⟩
      · exact (hbelow.collected w hmid (by simp [hchild, hnew])).mono hrest.deps_subset
          hrest.visited_subset
    · exact hrest.collected w hw hmid

/-- A child that has been visited is not followed again. -/
theorem Built.again {step : StepId} {rest : List (StepId × String)} {deps₂ : List (String × String)}
    {visited₂ : List String} (hchild : child ∈ visited)
    (hrest : Built lookup parent rest (deps ++ [(parent, child)]) deps₂ visited visited₂) :
    Built lookup parent ((step, child) :: rest) deps deps₂ visited visited₂ where
  deps_subset := fun d hd => hrest.deps_subset (mem_append_left _ hd)
  visited_subset := hrest.visited_subset
  embeds_mem e he := by
    rcases mem_cons.mp he with rfl | he
    · exact ⟨hrest.deps_subset (mem_append_right _ mem_cons_self),
        hrest.visited_subset hchild⟩
    · exact hrest.embeds_mem e he
  collected := hrest.collected

variable {edges : List (String × String)}

theorem openEdges_anti (edges : List (String × String)) (h : visited ⊆ visited') :
    openEdges edges visited' ≤ openEdges edges visited := by
  unfold openEdges
  refine (monotone_filter_right _ ?_).length_le
  intro d hd
  simp only [decide_eq_true_eq] at hd ⊢
  exact fun hmem => hd (h hmem)

/-- `edges` has all embeddings of the workflows that can be looked up. -/
def Covers (edges : List (String × String)) (lookup : String → Option ExecutionGraph) : Prop :=
  ∀ w g, lookup w = some g →
    (g.nestedEmbedSteps false).length ≤ (edges.filter (·.1 == w)).length

theorem openEdges_cons (edges : List (String × String)) (hchild : child ∉ visited) :
    openEdges edges (child :: visited) + (edges.filter (·.1 == child)).length
      = openEdges edges visited := by
  rw [← openEdges_append edges hchild]
  have hsame : openEdges edges (child :: visited) = openEdges edges (visited ++ [child]) := by
    unfold openEdges
    congr 1
    refine filter_congr fun d _ => ?_
    simp [or_comm]
  rw [hsame]

/-- **Everything that can be seen is collected**, with enough fuel; and no embedding is collected
more often than it can be come by. -/
theorem buildDependencyGraph_built (hcovers : Covers edges lookup) {embeds : List (StepId × String)}
    (hfuel : embeds.length + 1 + 2 * openEdges edges visited ≤ fuel)
    (h : buildDependencyGraph lookup fuel parent embeds (deps, visited) = (deps', visited')) :
    Built lookup parent embeds deps deps' visited visited'
      ∧ deps'.length + openEdges edges visited'
        ≤ deps.length + embeds.length + openEdges edges visited := by
  induction fuel generalizing parent embeds deps visited deps' visited' with
  | zero => omega
  | succ fuel ih =>
    cases embeds with
    | nil =>
      obtain ⟨rfl, rfl⟩ := Prod.mk.inj h
      exact ⟨.nil, by simp⟩
    | cons e rest =>
      obtain ⟨step, child⟩ := e
      rw [length_cons] at hfuel ⊢
      rw [buildDependencyGraph] at h
      simp only at h
      split at h
      · next hchild =>
        obtain ⟨hbuilt, hlength⟩ := ih (by omega) h
        rw [length_append, length_singleton] at hlength
        exact ⟨.again hchild hbuilt, by omega⟩
      next hchild =>
      have hopen := openEdges_cons edges hchild
      split at h
      · next g hg =>
        have hlen := hcovers child g hg
        cases hinner : buildDependencyGraph lookup fuel child (g.nestedEmbedSteps false)
          (deps ++ [(parent, child)], child :: visited) with
        | mk deps₁ visited₁ =>
        rw [hinner] at h
        obtain ⟨hbelow, hlength₁⟩ := ih (by omega) hinner
        have hanti := openEdges_anti edges hbelow.visited_subset
        obtain ⟨hrest, hlength₂⟩ := ih (by omega) h
        rw [length_append, length_singleton] at hlength₁
        refine ⟨.cons hbelow ?_ hrest, by omega⟩
        intro g' hg'
        obtain rfl := Option.some.inj (hg.symm.trans hg')
        exact List.Subset.refl _
      · next hnone =>
        obtain ⟨hrest, hlength⟩ := ih (by omega) h
        rw [length_append, length_singleton] at hlength
        have hnil : Built lookup child [] (deps ++ [(parent, child)]) (deps ++ [(parent, child)])
            (child :: visited) (child :: visited) := .nil
        refine ⟨.cons hnil ?_ hrest, by omega⟩
        intro g' hg'
        rw [hnone] at hg'
        cases hg'

end Runtara
