/-
  Left joins.

  A left join has, for each row of the left side, the rows of the right side that match it, or a
  single row without a match (`leftJoin`). It never has fewer rows than its left side, and it has as
  many only if no row has two matches (`filter_eq_toList`); then it pairs each row with what it
  matches (`leftJoin_eq_map`).
-/
import Mathlib.Data.List.Basic

namespace Sql

open List

variable {α β α' β' : Type}

/-- A row with each of its matches, or without one. -/
def padded (x : α) : List β → List (α × Option β)
  | [] => [(x, none)]
  | y :: ys => (y :: ys).map fun y => (x, some y)

/-- `LEFT JOIN` on a condition. -/
def leftJoin (on : α → β → Bool) (xs : List α) (ys : List β) : List (α × Option β) :=
  xs.flatMap fun x => padded x (ys.filter (on x))

variable {on : α → β → Bool} {xs : List α} {ys : List β}

theorem leftJoin_cons (x : α) (xs : List α) :
    leftJoin on (x :: xs) ys = padded x (ys.filter (on x)) ++ leftJoin on xs ys := rfl

theorem length_padded (x : α) (ys : List β) : (padded x ys).length = max 1 ys.length := by
  cases ys with
  | nil => rfl
  | cons y ys =>
    rw [padded, length_map, length_cons]
    omega

theorem padded_toList (x : α) (o : Option β) : padded x o.toList = [(x, o)] := by
  cases o with
  | none | some => rfl

theorem padded_map (f : α → α') (g : β → β') (x : α) (ys : List β) :
    padded (f x) (ys.map g) = (padded x ys).map fun r => (f r.1, r.2.map g) := by
  cases ys with
  | nil => rfl
  | cons y ys =>
    rw [map_cons, padded, padded, map_map, ← map_cons, map_map]
    rfl

/-- A match is a row of the right side on which the condition holds. -/
theorem mem_leftJoin_some {x : α} {y : β} :
    (x, some y) ∈ leftJoin on xs ys ↔ x ∈ xs ∧ y ∈ ys ∧ on x y = true := by
  have hpadded : ∀ (x' : α) (ms : List β), (x, some y) ∈ padded x' ms ↔ x = x' ∧ y ∈ ms := by
    intro x' ms
    cases ms with
    | nil => simp [padded]
    | cons m ms =>
      rw [padded, mem_map]
      constructor
      · rintro ⟨y', hy', heq⟩
        obtain ⟨rfl, hsome⟩ := Prod.mk.inj heq
        exact ⟨rfl, Option.some.inj hsome ▸ hy'⟩
      · rintro ⟨rfl, hy⟩
        exact ⟨y, hy, rfl⟩
  unfold leftJoin
  rw [mem_flatMap]
  constructor
  · rintro ⟨x', hx', hmem⟩
    obtain ⟨rfl, hy⟩ := (hpadded x' _).mp hmem
    exact ⟨hx', mem_filter.mp hy⟩
  · rintro ⟨hx, hy⟩
    exact ⟨x, hx, (hpadded x _).mpr ⟨rfl, mem_filter.mpr hy⟩⟩

theorem mem_leftJoin_left {r : α × Option β} (h : r ∈ leftJoin on xs ys) : r.1 ∈ xs := by
  obtain ⟨x, hx, hr⟩ := mem_flatMap.mp h
  have hleft : r.1 = x := by
    cases hmatch : ys.filter (on x) with
    | nil =>
      rw [hmatch, padded, mem_singleton] at hr
      rw [hr]
    | cons y rest =>
      rw [hmatch, padded] at hr
      obtain ⟨y', -, rfl⟩ := mem_map.mp hr
      rfl
  rw [hleft]
  exact hx

/-- If each row has at most the match `f` gives, the join pairs it with that. -/
theorem leftJoin_eq_map {f : α → Option β} (h : ∀ x ∈ xs, ys.filter (on x) = (f x).toList) :
    leftJoin on xs ys = xs.map fun x => (x, f x) := by
  induction xs with
  | nil => rfl
  | cons x xs ih =>
    rw [forall_mem_cons] at h
    rw [leftJoin_cons, h.1, padded_toList, ih h.2]
    rfl

theorem length_le_leftJoin : xs.length ≤ (leftJoin on xs ys).length := by
  induction xs with
  | nil => exact Nat.le_refl _
  | cons x xs ih =>
    rw [leftJoin_cons, length_append, length_padded, length_cons]
    omega

/-- A join with no more rows than its left side has no row with two matches. -/
theorem filter_eq_toList (h : (leftJoin on xs ys).length ≤ xs.length) :
    ∀ x ∈ xs, ys.filter (on x) = (ys.filter (on x)).head?.toList := by
  induction xs with
  | nil => exact fun x hx => absurd hx not_mem_nil
  | cons x xs ih =>
    have hrest : xs.length ≤ (leftJoin on xs ys).length := length_le_leftJoin
    rw [leftJoin_cons, length_append, length_padded, length_cons] at h
    rw [forall_mem_cons]
    refine ⟨?_, ih (by omega)⟩
    have hone : (ys.filter (on x)).length ≤ 1 := by omega
    cases hmatch : ys.filter (on x) with
    | nil => rfl
    | cons y rest =>
      rw [hmatch, length_cons] at hone
      rw [eq_nil_of_length_eq_zero (by omega : rest.length = 0)]
      rfl

/-- A join of projections is the projection of the join. -/
theorem leftJoin_map {on' : α' → β' → Bool} (f : α → α') (g : β → β')
    (h : ∀ x y, on' (f x) (g y) = on x y) (xs : List α) (ys : List β) :
    leftJoin on' (xs.map f) (ys.map g)
      = (leftJoin on xs ys).map fun r => (f r.1, r.2.map g) := by
  induction xs with
  | nil => rfl
  | cons x xs ih =>
    have hfilter : (ys.map g).filter (on' (f x)) = (ys.filter (on x)).map g := by
      rw [filter_map]
      exact congrArg _ (filter_congr fun y _ => h x y)
    rw [map_cons, leftJoin_cons, leftJoin_cons, hfilter, padded_map, ih, map_append]

end Sql
