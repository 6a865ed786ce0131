/-
  Marking with a stack and a set, as a collector does it.

  A node is marked when it is popped, and its successors are pushed whether or not they are
  marked, so that a node may be on the stack more than once. `mark` is executable: its fuel counts
  every push. `mem_mark_iff` says that what is reachable from the roots is marked, and no more.
-/
import Mathlib.Algebra.Order.BigOperators.Group.List
import Mathlib.Algebra.Order.Ring.Nat
import Runtara.Search.Discover

namespace Search

open List

variable {α : Type*} [DecidableEq α]

/-- The marking loop; the top of the stack is the head of `work`. -/
def markAux (succ : α → List α) : ℕ → List α → List α → List α
  | 0, marked, _ => marked
  | _ + 1, marked, [] => marked
  | fuel + 1, marked, x :: work =>
    if x ∈ marked then markAux succ fuel marked work
    else markAux succ fuel (x :: marked) ((succ x).reverse ++ work)

/-- What the nodes that are not marked can still push. -/
def unpushed (succ : α → List α) (nodes marked : List α) : ℕ :=
  (nodes.map fun x => if x ∈ marked then 0 else (succ x).length).sum

/-- Marks from `roots`, the last one first; only the `nodes` have successors. -/
def mark (succ : α → List α) (nodes roots : List α) : List α :=
  markAux succ (roots.length + unpushed succ nodes []) [] roots.reverse

section

variable (succ : α → List α)

theorem unpushed_cons_le (nodes : List α) (x : α) (marked : List α) :
    unpushed succ nodes (x :: marked) ≤ unpushed succ nodes marked := by
  unfold unpushed
  refine sum_le_sum fun y _ => ?_
  by_cases hy : y ∈ marked
  · rw [if_pos hy, if_pos (mem_cons_of_mem _ hy)]
  · rw [if_neg hy]
    split <;> omega

/-- A node that is marked leaves the budget with all that it pushes. -/
theorem unpushed_cons {nodes : List α} {x : α} (hx : x ∈ nodes) {marked : List α}
    (hnew : x ∉ marked) :
    unpushed succ nodes (x :: marked) + (succ x).length ≤ unpushed succ nodes marked := by
  induction nodes with
  | nil => exact absurd hx not_mem_nil
  | cons y nodes ih =>
    unfold unpushed at ih ⊢
    rw [map_cons, sum_cons, map_cons, sum_cons]
    by_cases hyx : y = x
    · have hrest := unpushed_cons_le succ nodes x marked
      unfold unpushed at hrest
      rw [hyx, if_pos mem_cons_self, if_neg hnew]
      omega
    · have hrest := ih ((mem_cons.mp hx).resolve_left (Ne.symm hyx))
      have hsame : (y ∈ x :: marked) = (y ∈ marked) := by rw [mem_cons, eq_false hyx, false_or]
      simp only [hsame] at hrest ⊢
      omega

end

variable {succ : α → List α} {nodes : List α}

/-- The loop with enough fuel: all it has marked or pushed is marked in the end, and what is marked
in the end is closed under `succ`. -/
theorem closed_markAux (hnodes : ∀ x, x ∉ nodes → succ x = []) (fuel : ℕ) {marked work : List α}
    (hclosed : ∀ x ∈ marked, ∀ y ∈ succ x, y ∈ marked ∨ y ∈ work)
    (hfuel : work.length + unpushed succ nodes marked ≤ fuel) :
    (∀ x, x ∈ marked ∨ x ∈ work → x ∈ markAux succ fuel marked work) ∧
      ∀ x ∈ markAux succ fuel marked work, ∀ y ∈ succ x, y ∈ markAux succ fuel marked work := by
  induction fuel generalizing marked work with
  | zero =>
    obtain rfl : work = [] := length_eq_zero_iff.mp (by omega)
    simpa [markAux] using hclosed
  | succ fuel ih =>
    cases work with
    | nil => simpa [markAux] using hclosed
    | cons x work =>
      rw [length_cons] at hfuel
      by_cases hx : x ∈ marked
      · -- popped once more: nothing is pushed
        have hclosed' : ∀ z ∈ marked, ∀ y ∈ succ z, y ∈ marked ∨ y ∈ work := by
          intro z hz y hy
          rcases hclosed z hz y hy with h | h
          · exact Or.inl h
          · rcases mem_cons.mp h with rfl | h
            · exact Or.inl hx
            · exact Or.inr h
        obtain ⟨hsub, hres⟩ := ih hclosed' (by omega)
        rw [markAux, if_pos hx]
        refine ⟨fun z hz => hsub z ?_, hres⟩
        rcases hz with h | h
        · exact Or.inl h
        · rcases mem_cons.mp h with rfl | h
          · exact Or.inl hx
          · exact Or.inr h
      · have hclosed' : ∀ z ∈ x :: marked, ∀ y ∈ succ z,
            y ∈ x :: marked ∨ y ∈ (succ x).reverse ++ work := by
          intro z hz y hy
          rcases mem_cons.mp hz with rfl | hz
          · exact Or.inr (mem_append.mpr (Or.inl (mem_reverse.mpr hy)))
          · rcases hclosed z hz y hy with h | h
            · exact Or.inl (mem_cons_of_mem _ h)
            · rcases mem_cons.mp h with rfl | h
              · exact Or.inl mem_cons_self
              · exact Or.inr (mem_append.mpr (Or.inr h))
        have hbudget : ((succ x).reverse ++ work).length + unpushed succ nodes (x :: marked)
            ≤ fuel := by
          rw [length_append, length_reverse]
          by_cases hmem : x ∈ nodes
          · have := unpushed_cons succ hmem hx
            omega
          · have := unpushed_cons_le succ nodes x marked
            rw [hnodes x hmem, length_nil]
            omega
        obtain ⟨hsub, hres⟩ := ih hclosed' hbudget
        rw [markAux, if_neg hx]
        refine ⟨fun z hz => hsub z ?_, hres⟩
        rcases hz with h | h
        · exact Or.inl (mem_cons_of_mem _ h)
        · rcases mem_cons.mp h with rfl | h
          · exact Or.inl mem_cons_self
          · exact Or.inr (mem_append.mpr (Or.inr h))

theorem mark_nil : mark succ nodes [] = [] := by
  unfold mark
  cases ([] : List α).length + unpushed succ nodes [] <;> rfl

/-- **Completeness**: whatever is reachable from a root is marked. -/
theorem mem_mark_of_reaches (hnodes : ∀ x, x ∉ nodes → succ x = []) {roots : List α} {root x : α}
    (hroot : root ∈ roots) (h : Reaches succ root x) : x ∈ mark succ nodes roots := by
  have hstart : ∀ x ∈ ([] : List α), ∀ y ∈ succ x, y ∈ ([] : List α) ∨ y ∈ roots.reverse :=
    fun x hx => absurd hx not_mem_nil
  have hrun := closed_markAux hnodes (roots.length + unpushed succ nodes []) hstart
    (by rw [length_reverse])
  induction h with
  | refl => exact hrun.1 root (Or.inr (mem_reverse.mpr hroot))
  | tail _ hstep ih => exact hrun.2 _ ih _ hstep

theorem forall_mem_markAux {P : α → Prop} (hP : ∀ x, P x → ∀ y ∈ succ x, P y) (fuel : ℕ)
    {marked work : List α} (hmarked : ∀ x ∈ marked, P x) (hwork : ∀ x ∈ work, P x) :
    ∀ x ∈ markAux succ fuel marked work, P x := by
  induction fuel generalizing marked work with
  | zero => exact hmarked
  | succ fuel ih =>
    cases work with
    | nil => exact hmarked
    | cons x work =>
      rw [forall_mem_cons] at hwork
      rw [markAux]
      split
      · exact ih hmarked hwork.2
      · refine ih (forall_mem_cons.mpr ⟨hwork.1, hmarked⟩) fun y hy => ?_
        obtain hy | hy := mem_append.mp hy
        · exact hP x hwork.1 y (mem_reverse.mp hy)
        · exact hwork.2 y hy

/-- **Exactness**: what is marked is what is reachable from the roots. -/
theorem mem_mark_iff (hnodes : ∀ x, x ∉ nodes → succ x = []) {roots : List α} {x : α} :
    x ∈ mark succ nodes roots ↔ ∃ root ∈ roots, Reaches succ root x := by
  refine ⟨fun hx => ?_, fun ⟨root, hroot, hx⟩ => mem_mark_of_reaches hnodes hroot hx⟩
  refine forall_mem_markAux (P := fun x => ∃ root ∈ roots, Reaches succ root x) ?_ _
    (by simp) ?_ x hx
  · exact fun y ⟨root, hroot, hy⟩ z hz => ⟨root, hroot, hy.tail hz⟩
  · exact fun y hy => ⟨y, mem_reverse.mp hy, .refl⟩

end Search
