/-
  Kahn's algorithm on the region discovered from a root.

  A region is given by a list of edges, a predicate saying which nodes are `live` (a node
  that is not live belongs to the region but its own edges are not followed) and an
  optional `stop` node that is never entered. `order` lists the region: first the nodes
  released by Kahn's algorithm, first in first out, then whatever was left blocked, in
  discovery order. Blocked nodes exist exactly because an edge from a node that is not
  live still counts towards the indegree of its target.

  The order lists a node once (`nodup_order`), and without fan-out it walks one path
  (`isChain_order`).
-/
import Runtara.Search.Discover
import Mathlib.Data.Finset.Card
import Mathlib.Data.List.Count
import Mathlib.Logic.Function.Basic
import Mathlib.Order.RelClasses

namespace Search

open List

variable {α : Type*} [DecidableEq α]

/-- The targets of the edges leaving `x`, in edge order and with multiplicity. -/
def targets (E : List (α × α)) (x : α) : List α :=
  E.filterMap fun e => if e.1 = x then some e.2 else none

/-- The edges the traversal follows out of `x`: none if `x` is not live. -/
def expand (E : List (α × α)) (live : α → Bool) (x : α) : List α :=
  if live x then targets E x else []

/-- The nodes discovered from `root` without entering `stop`. -/
def region (E : List (α × α)) (live : α → Bool) (stop : Option α) (root : α) : List α :=
  discover (fun x => (expand E live x).filter fun y => some y ≠ stop) (E.length + 2) root

/-- The number of edges into `y` that leave a node of `D`. -/
def indegree (E : List (α × α)) (D : List α) (y : α) : ℕ :=
  E.countP fun e => e.1 ∈ D ∧ e.2 = y

/-- Relax the edges to `ys`: each lowers the indegree of its target, and a target that
reaches zero for the first time is released. Returns the new indegrees and the released
nodes. -/
def relax (queued : List α) (deg : α → ℕ) : List α → (α → ℕ) × List α
  | [] => (deg, [])
  | y :: ys =>
    let deg' := Function.update deg y (deg y - 1)
    if deg' y = 0 ∧ y ∉ queued then
      ((relax (y :: queued) deg' ys).1, y :: (relax (y :: queued) deg' ys).2)
    else relax queued deg' ys

/-- Kahn's loop over the FIFO `ready` queue. -/
def kahnAux (succ : α → List α) : ℕ → (α → ℕ) → List α → List α → List α
  | 0, _, order, ready => order ++ ready
  | _ + 1, _, order, [] => order
  | fuel + 1, deg, order, x :: ready =>
    let r := relax (order ++ x :: ready) deg (succ x)
    kahnAux succ fuel r.1 (order ++ [x]) (ready ++ r.2)

/-- The nodes of the region that Kahn's algorithm releases from `root`. -/
def released (E : List (α × α)) (live : α → Bool) (stop : Option α) (root : α) : List α :=
  let D := region E live stop root
  kahnAux (fun x => (expand E live x).filter (· ∈ D)) (E.length + 2) (indegree E D) [] [root]

/-- The region in topological order, blocked nodes last. -/
def order (E : List (α × α)) (live : α → Bool) (stop : Option α) (root : α) : List α :=
  released E live stop root ++
    (region E live stop root).filter (· ∉ released E live stop root)

def successor (E : List (α × α)) (live : α → Bool) (stop : Option α) (root x : α) : Option α :=
  let o := order E live stop root
  if x ∈ o then o[o.idxOf x + 1]? else none

/-! ### Edges followed -/

variable {x y : α}

section Region

variable {E : List (α × α)} {live : α → Bool} {stop : Option α} {root : α}

@[simp] theorem mem_targets : y ∈ targets E x ↔ (x, y) ∈ E := by
  simp only [targets, mem_filterMap]
  constructor
  · rintro ⟨⟨a, b⟩, he, h⟩
    split at h
    · next hx =>
      obtain rfl : a = x := hx
      obtain rfl : b = y := Option.some.inj h
      exact he
    · exact absurd h (by simp)
  · intro h
    exact ⟨(x, y), h, by simp⟩

theorem mem_expand : y ∈ expand E live x ↔ live x = true ∧ (x, y) ∈ E := by
  by_cases hl : live x = true <;> simp [expand, hl]

/-- One followed edge inside the region. -/
def Flow (E : List (α × α)) (live : α → Bool) (stop : Option α) (x y : α) : Prop :=
  live x = true ∧ (x, y) ∈ E ∧ some y ≠ stop

theorem step_region_iff :
    Step (fun x => (expand E live x).filter fun y => some y ≠ stop) x y ↔ Flow E live stop x y := by
  simp [Step, Flow, mem_expand, and_assoc]

theorem nodup_region : (region E live stop root).Nodup := nodup_discover

end Region

/-! ### One relaxation -/

variable (queued : List α)

variable {deg : α → ℕ}

/-- A node is released exactly when the relaxed edges use up its indegree and it was not
queued before. -/
theorem mem_relax_snd {queued : List α} {ys : List α} {z : α} :
    z ∈ (relax queued deg ys).2 ↔ z ∈ ys ∧ z ∉ queued ∧ deg z ≤ ys.count z := by
  induction ys generalizing queued deg with
  | nil => simp [relax]
  | cons y ys ih =>
    rw [relax]
    by_cases hzy : z = y
    · subst hzy
      have hcount : (z :: ys).count z = ys.count z + 1 := count_cons_self
      split
      · next h =>
        have : deg z - 1 = 0 := by simpa using h.1
        simp only [mem_cons, true_or, true_iff]
        exact ⟨trivial, h.2, by omega⟩
      · next h =>
        rw [ih, Function.update_self, hcount]
        simp only [Function.update_self, not_and, not_not] at h
        constructor
        · rintro ⟨_, hq, hd⟩
          exact ⟨mem_cons_self .., hq, by omega⟩
        · rintro ⟨_, hq, hd⟩
          have hpos : deg z - 1 ≠ 0 := fun h0 => hq (h h0)
          refine ⟨count_pos_iff.mp (by omega), hq, by omega⟩
    · have hcount : (y :: ys).count z = ys.count z := count_cons_of_ne (Ne.symm hzy)
      split
      · rw [mem_cons, ih, Function.update_of_ne hzy, hcount]
        simp [hzy]
      · rw [ih, Function.update_of_ne hzy, hcount]
        simp [hzy]

theorem nodup_relax_snd (deg : α → ℕ) (ys : List α) : (relax queued deg ys).2.Nodup := by
  induction ys generalizing queued deg with
  | nil => simp [relax]
  | cons y ys ih =>
    rw [relax]
    split
    · refine nodup_cons.mpr ⟨fun h => ?_, ih _ _⟩
      exact (mem_relax_snd.mp h).2.1 (mem_cons_self ..)
    · exact ih _ _

/-! ### The loop -/

theorem nodup_kahnAux (succ : α → List α) (fuel : ℕ) (deg : α → ℕ) {order ready : List α}
    (h : (order ++ ready).Nodup) : (kahnAux succ fuel deg order ready).Nodup := by
  induction fuel generalizing deg order ready with
  | zero => exact h
  | succ fuel ih =>
    cases ready with
    | nil => simpa [kahnAux] using h
    | cons x ready =>
      refine ih _ ?_
      -- what is released now was not queued before
      have hnew := h.append (nodup_relax_snd (order ++ x :: ready) deg (succ x))
        fun y hy hn => (mem_relax_snd.mp hn).2.1 hy
      simpa using hnew

/-! ### The order -/

section Order

variable {E : List (α × α)} {live : α → Bool} {root : α} {stop : Option α} {l₁ l₂ : List α}

theorem nodup_released : (released E live stop root).Nodup :=
  nodup_kahnAux _ _ _ (nodup_singleton root)

theorem nodup_order : (order E live stop root).Nodup := by
  refine nodup_released.append (nodup_region.filter _) fun y hy hf => ?_
  exact (of_decide_eq_true (mem_filter.mp hf).2) hy

/-! ### Without fan-out -/

section

variable (hone : ∀ x, (expand E live x).length ≤ 1)

include hone

/-- A loop whose nodes have at most one successor pops a prefix of the discovered path. -/
theorem kahnAux_prefix_region (fuel : ℕ) (deg : α → ℕ) (order ready : List α)
    (hpre : order ++ ready <+: region E live stop root) (hready : ready.length ≤ 1) :
    kahnAux (fun x => (expand E live x).filter (· ∈ region E live stop root)) fuel deg order ready
      <+: region E live stop root := by
  induction fuel generalizing deg order ready with
  | zero => exact hpre
  | succ fuel ih =>
    cases ready with
    | nil => simpa [kahnAux] using hpre
    | cons x ready =>
      obtain rfl : ready = [] := by simpa using hready
      set D := region E live stop root with hD
      set r := relax (order ++ [x]) deg ((expand E live x).filter (· ∈ D)) with hr
      have hlen : ((expand E live x).filter (· ∈ D)).length ≤ 1 :=
        (length_filter_le ..).trans (hone x)
      have hsub : r.2 ⊆ (expand E live x).filter (· ∈ D) := fun y hy => (mem_relax_snd.mp hy).1
      have hrlen : r.2.length ≤ 1 := ((nodup_relax_snd ..).subperm hsub).length_le.trans hlen
      refine ih r.1 (order ++ [x]) ([] ++ r.2) ?_ (by simpa using hrlen)
      cases hr2 : r.2 with
      | nil => simpa using hpre
      | cons y rest =>
        obtain rfl : rest = [] := by simpa [hr2] using hrlen
        have hy : y ∈ r.2 := by rw [hr2]; simp
        obtain ⟨hyx, hyq, -⟩ := mem_relax_snd.mp hy
        obtain ⟨hyE, hyD⟩ := mem_filter.mp hyx
        -- The path continues from `x`, since it holds `y` and `y` is not before `x`.
        obtain ⟨rest, hrest⟩ := hpre
        cases rest with
        | nil =>
          rw [append_nil] at hrest
          exact absurd (hrest ▸ of_decide_eq_true hyD) hyq
        | cons z rest =>
          have hchain : List.IsChain (Step fun x => (expand E live x).filter fun y => some y ≠ stop)
              D := isChain_discover fun x => (length_filter_le ..).trans (hone x)
          rw [← hrest, append_assoc, singleton_append] at hchain
          have hxz : z ∈ expand E live x :=
            (mem_filter.mp (isChain_append.mp hchain).2.1.rel).1
          have hzy : z = y := by
            have hone' := hone x
            match hex : expand E live x with
            | [] => simp [hex] at hxz
            | [w] =>
              rw [hex, mem_singleton] at hxz hyE
              rw [hxz, hyE]
            | _ :: _ :: _ => simp [hex] at hone'
          refine ⟨rest, ?_⟩
          rw [← hrest, hzy]
          simp

/-- Without fan-out the order is the discovered path. -/
theorem order_eq_region : order E live stop root = region E live stop root := by
  have hpre : released E live stop root <+: region E live stop root :=
    kahnAux_prefix_region hone _ _ [] [root] (prefix_discoverAux _ [] [root]) (by simp)
  obtain ⟨rest, hrest⟩ := hpre
  have hnd : (released E live stop root ++ rest).Nodup := hrest ▸ nodup_region
  have hreleased : (released E live stop root).filter (· ∉ released E live stop root) = [] := by
    simp [filter_eq_nil_iff]
  have hblocked : rest.filter (· ∉ released E live stop root) = rest := by
    rw [filter_eq_self]
    intro y hy
    exact decide_eq_true fun h => (nodup_append.mp hnd).2.2 y h y hy rfl
  calc order E live stop root
      = released E live stop root ++
          (released E live stop root ++ rest).filter (· ∉ released E live stop root) := by
        rw [order, hrest]
    _ = released E live stop root ++ rest := by
        rw [filter_append, hreleased, hblocked, nil_append]
    _ = region E live stop root := hrest

/-- Without fan-out, neighbours in the order are joined by a followed edge. -/
theorem isChain_order : List.IsChain (Flow E live stop) (order E live stop root) := by
  rw [order_eq_region hone]
  refine List.IsChain.imp (fun x y h => step_region_iff.mp h) ?_
  exact isChain_discover fun x => (length_filter_le ..).trans (hone x)

end

/-! ### The successor in the order -/

/-- The order has no duplicates, so the successor can be read off any split at the node. -/
theorem successor_of_split {x : α} (hsplit : order E live stop root = l₁ ++ x :: l₂) :
    successor E live stop root x = l₂.head? := by
  have hnd : (l₁ ++ x :: l₂).Nodup := hsplit ▸ nodup_order
  have hnot : x ∉ l₁ := fun h => (nodup_append.mp hnd).2.2 x h x (by simp) rfl
  simp only [successor]
  rw [hsplit, if_pos (by simp), idxOf_append_of_notMem hnot, idxOf_cons_self, Nat.add_zero,
    getElem?_append_right (Nat.le_succ _)]
  cases l₂ <;> simp

theorem successor_eq_some (h : successor E live stop root x = some y) :
    ∃ l₁ l₂, order E live stop root = l₁ ++ x :: y :: l₂ := by
  have hx : x ∈ order E live stop root := by
    by_contra hx
    simp [successor, hx] at h
  obtain ⟨l₁, l₂, hsplit⟩ := append_of_mem hx
  rw [successor_of_split hsplit] at h
  cases l₂ with
  | nil => simp at h
  | cons z l₂ =>
    obtain rfl : z = y := by simpa using h
    exact ⟨l₁, l₂, hsplit⟩

/-- Without fan-out the successor in the order is the target of the one followed edge. -/
theorem flow_of_successor (hone : ∀ x, (expand E live x).length ≤ 1)
    (h : successor E live stop root x = some y) : Flow E live stop x y := by
  obtain ⟨l₁, l₂, hsplit⟩ := successor_eq_some h
  have hchain := @isChain_order α _ E live root stop hone
  rw [hsplit] at hchain
  exact (isChain_append.mp hchain).2.1.rel

end Order

end Search
