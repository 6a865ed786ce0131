/-
  Groups.

  A list taken apart by a key and put together again, group after group in any order of the keys, is
  the list up to the order of its elements (`perm_flatMap_filter`).
-/
import Mathlib.Data.List.Perm.Basic

namespace Sql

variable {α κ : Type} [DecidableEq κ] {key : α → κ}

theorem perm_flatMap_filter_mem {order : List κ} (horder : order.Nodup) (l : List α) :
    (order.flatMap fun k => l.filter fun a => key a = k).Perm
      (l.filter fun a => key a ∈ order) := by
  induction order with
  | nil => simp
  | cons k order ih =>
    obtain ⟨hk, horder⟩ := List.nodup_cons.mp horder
    rw [List.flatMap_cons]
    refine ((ih horder).append_left _).trans ?_
    -- the first group and the others are the two halves of what is kept
    refine List.Perm.trans (List.Perm.of_eq ?_)
      (List.filter_append_perm (fun a => key a = k) (l.filter fun a => key a ∈ k :: order))
    rw [List.filter_filter, List.filter_filter]
    refine congrArg₂ _ (List.filter_congr fun a _ => ?_) (List.filter_congr fun a _ => ?_)
    · grind
    · grind

theorem perm_flatMap_filter {order : List κ} (horder : order.Nodup) {l : List α}
    (hall : ∀ a ∈ l, key a ∈ order) :
    (order.flatMap fun k => l.filter fun a => key a = k).Perm l := by
  refine (perm_flatMap_filter_mem horder l).trans (List.Perm.of_eq ?_)
  exact List.filter_eq_self.mpr fun a ha => decide_eq_true (hall a ha)

end Sql
