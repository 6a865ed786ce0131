/-
  Lists that are joined by separators.

  A part that has no separator in it ends at the first one (`append_cons_inj`). If the separator is
  written twice, it is enough that a part is `Solid`: it never has the separator twice in a row, nor
  at its end. Solid parts can be told from the list they are joined to (`joinDoubled_inj`).
-/
import Mathlib.Data.List.Basic

namespace Text

open List

variable {α : Type}

/-! ### A single separator -/

variable {c : α} {p q x y : List α}

/-- A part without the separator ends at the first one. -/
theorem append_cons_inj (hp : c ∉ p) (hq : c ∉ q) (h : p ++ c :: x = q ++ c :: y) :
    p = q ∧ x = y := by
  induction p generalizing q with
  | nil =>
    cases q with
    | nil => exact ⟨rfl, (List.cons.inj h).2⟩
    | cons b q => exact absurd ((List.cons.inj h).1 ▸ mem_cons_self) hq
  | cons a p ih =>
    cases q with
    | nil => exact absurd ((List.cons.inj h).1 ▸ mem_cons_self) hp
    | cons b q =>
      obtain ⟨rfl, hrest⟩ := List.cons.inj h
      obtain ⟨rfl, hxy⟩ := ih (fun hc => hp (mem_cons_of_mem _ hc))
        (fun hc => hq (mem_cons_of_mem _ hc)) hrest
      exact ⟨rfl, hxy⟩

/-- The same where one of the two may end there. -/
theorem append_inj_of_head (hp : c ∉ p) (hq : c ∉ q) (hx : x = [] ∨ ∃ x', x = c :: x')
    (hy : y = [] ∨ ∃ y', y = c :: y') (h : p ++ x = q ++ y) : p = q ∧ x = y := by
  rcases hx with rfl | ⟨x, rfl⟩ <;> rcases hy with rfl | ⟨y, rfl⟩
  · rw [append_nil, append_nil] at h
    exact ⟨h, rfl⟩
  · rw [append_nil] at h
    exact absurd (h ▸ mem_append_right q mem_cons_self) hp
  · rw [append_nil] at h
    exact absurd (h ▸ mem_append_right p mem_cons_self) hq
  · obtain ⟨rfl, rfl⟩ := append_cons_inj hp hq h
    exact ⟨rfl, rfl⟩

/-- Two lists with different separators after parts that have neither of them. -/
theorem append_cons_ne {d : α} (hp : d ∉ p) (hq : c ∉ q) (hcd : c ≠ d) :
    p ++ c :: x ≠ q ++ d :: y := by
  intro h
  rcases append_eq_append_iff.mp h with ⟨t, ht, hx⟩ | ⟨t, ht, hx⟩
  · cases t with
    | nil => exact hcd (List.cons.inj hx).1
    | cons b t => exact hq (ht ▸ mem_append_right _ ((List.cons.inj hx).1 ▸ mem_cons_self))
  · cases t with
    | nil => exact hcd (List.cons.inj hx).1.symm
    | cons b t => exact hp (ht ▸ mem_append_right _ ((List.cons.inj hx).1 ▸ mem_cons_self))

variable {ps qs : List (List α)}

theorem intercalate_inj [DecidableEq α] (hps : ∀ p ∈ ps, c ∉ p) (hqs : ∀ q ∈ qs, c ∉ q)
    (hne : ps ≠ []) (hne' : qs ≠ []) (h : [c].intercalate ps = [c].intercalate qs) : ps = qs := by
  rw [← splitOn_intercalate c hps hne, ← splitOn_intercalate c hqs hne', h]

/-- A joined list has nothing else in it than its parts and separators. -/
theorem mem_intercalate {d : α} {sep : List α} (h : d ∈ sep.intercalate ps) :
    d ∈ sep ∨ ∃ p ∈ ps, d ∈ p := by
  induction ps with
  | nil => simp [List.intercalate] at h
  | cons p ps ih =>
    cases ps with
    | nil =>
      rw [intercalate_singleton] at h
      exact Or.inr ⟨p, mem_cons_self, h⟩
    | cons q ps =>
      rw [intercalate_cons_cons, mem_append, mem_append] at h
      rcases h with (h | h) | h
      · exact Or.inr ⟨p, mem_cons_self, h⟩
      · exact Or.inl h
      · exact (ih h).imp_right fun ⟨p', hp', hd⟩ => ⟨p', mem_cons_of_mem _ hp', hd⟩

/-- What is only written if there is something to write can be told as it can be where it is. -/
theorem ite_nil_inj {β : Type} [∀ is : List α, Decidable (is = [])] {f : List α → β} {e : β}
    (h : (if x = [] then e else f x) = if y = [] then e else f y) (he : ∀ is, f is ≠ e)
    (hf : x ≠ [] → y ≠ [] → f x = f y → x = y) : x = y := by
  split at h <;> split at h
  · next hx hy => rw [hx, hy]
  · exact absurd h.symm (he y)
  · exact absurd h (he x)
  · next hx hy => exact hf hx hy h

theorem forall_mem_pair {P : α → Prop} {a b : α} (ha : P a) (hb : P b) : ∀ x ∈ [a, b], P x :=
  forall_mem_cons.mpr ⟨ha, forall_mem_singleton.mpr hb⟩

/-! ### A doubled separator -/

/-- The separator is never twice in a row in the list, nor at its end. -/
def Solid (c : α) : List α → Prop
  | [] => True
  | [x] => x ≠ c
  | x :: y :: rest => (x ≠ c ∨ y ≠ c) ∧ Solid c (y :: rest)

instance decidableSolid [DecidableEq α] (c : α) : (p : List α) → Decidable (Solid c p)
  | [] => inferInstanceAs (Decidable True)
  | [x] => inferInstanceAs (Decidable (x ≠ c))
  | x :: y :: rest =>
    have := decidableSolid c (y :: rest)
    inferInstanceAs (Decidable ((x ≠ c ∨ y ≠ c) ∧ Solid c (y :: rest)))

variable {c : α}

theorem Solid.tail {x : α} (h : Solid c (x :: p)) : Solid c p := by
  cases p with
  | nil => trivial
  | cons y p => exact h.2

theorem solid_of_not_mem (h : c ∉ p) : Solid c p := by
  induction p with
  | nil => trivial
  | cons x p ih =>
    rw [mem_cons, not_or] at h
    cases p with
    | nil => exact Ne.symm h.1
    | cons y p => exact ⟨Or.inl (Ne.symm h.1), ih h.2⟩

theorem not_solid (p x : List α) : ¬Solid c (p ++ c :: c :: x) := by
  induction p with
  | nil => exact fun h => h.1.elim (fun h => h rfl) fun h => h rfl
  | cons a p ih => exact fun h => ih h.tail

theorem Solid.append (hp : Solid c p) (hq : Solid c q) : Solid c (p ++ q) := by
  induction p with
  | nil => exact hq
  | cons x p ih =>
    cases p with
    | nil =>
      cases q with
      | nil => exact hp
      | cons y q => exact ⟨Or.inl hp, hq⟩
    | cons y p => exact ⟨hp.1, ih hp.2⟩

/-- A solid part ends at the first doubled separator. -/
theorem Solid.append_inj (hp : Solid c p) (hq : Solid c q)
    (h : p ++ c :: c :: x = q ++ c :: c :: y) : p = q ∧ x = y := by
  -- a part that is longer than the other has the first separator, or half of it, at its start
  have hstart : ∀ {a : α} {q x y : List α}, Solid c (a :: q) →
      c :: c :: x ≠ a :: q ++ c :: c :: y := by
    intro a q x y hq h
    obtain ⟨ha, hrest⟩ := List.cons.inj h
    cases q with
    | nil => exact hq ha.symm
    | cons b q =>
      have hb := (List.cons.inj hrest).1
      exact hq.1.elim (fun h => h ha.symm) fun h => h hb.symm
  induction p generalizing q with
  | nil =>
    cases q with
    | nil => exact ⟨rfl, (List.cons.inj (List.cons.inj h).2).2⟩
    | cons b q => exact absurd h (hstart hq)
  | cons a p ih =>
    cases q with
    | nil => exact absurd h.symm (hstart hp)
    | cons b q =>
      obtain ⟨rfl, hrest⟩ := List.cons.inj h
      obtain ⟨rfl, hxy⟩ := ih hp.tail hq.tail hrest
      exact ⟨rfl, hxy⟩

/-- The parts, with the separator twice between them. -/
def joinDoubled (c : α) (parts : List (List α)) : List α := [c, c].intercalate parts

@[simp]
theorem joinDoubled_singleton (p : List α) : joinDoubled c [p] = p := by
  simp [joinDoubled, List.intercalate]

theorem joinDoubled_cons (p : List α) (hps : ps ≠ []) :
    joinDoubled c (p :: ps) = p ++ c :: c :: joinDoubled c ps := by
  obtain ⟨q, ps, rfl⟩ := exists_cons_of_ne_nil hps
  rw [joinDoubled, intercalate_cons_cons, append_assoc]
  rfl

/-- The first part, and every other one after a separator. -/
theorem joinDoubled_eq (p : List α) (ps : List (List α)) :
    joinDoubled c (p :: ps) = p ++ ps.flatMap fun q => c :: c :: q := by
  induction ps generalizing p with
  | nil => rw [joinDoubled_singleton, flatMap_nil, append_nil]
  | cons q ps ih => rw [joinDoubled_cons p (cons_ne_nil _ _), ih, flatMap_cons]; rfl

theorem joinDoubled_append_tail (hps : ps ≠ []) (qs : List (List α)) :
    joinDoubled c (ps ++ qs) = joinDoubled c ps ++ qs.flatMap fun q => c :: c :: q := by
  obtain ⟨p, ps, rfl⟩ := exists_cons_of_ne_nil hps
  rw [cons_append, joinDoubled_eq, joinDoubled_eq, flatMap_append, append_assoc]

theorem joinDoubled_append (hps : ps ≠ []) (hqs : qs ≠ []) :
    joinDoubled c (ps ++ qs) = joinDoubled c ps ++ c :: c :: joinDoubled c qs := by
  obtain ⟨q, qs, rfl⟩ := exists_cons_of_ne_nil hqs
  rw [joinDoubled_append_tail hps, joinDoubled_eq, flatMap_cons]
  rfl

/-- **Solid parts can be told** from the list they are joined to. -/
theorem joinDoubled_inj (hps : ∀ p ∈ ps, Solid c p) (hqs : ∀ q ∈ qs, Solid c q) (hne : ps ≠ [])
    (hne' : qs ≠ []) (h : joinDoubled c ps = joinDoubled c qs) : ps = qs := by
  induction ps generalizing qs with
  | nil => exact absurd rfl hne
  | cons p ps ih =>
    obtain ⟨q, qs, rfl⟩ := exists_cons_of_ne_nil hne'
    rw [forall_mem_cons] at hps hqs
    by_cases hp : ps = [] <;> by_cases hq : qs = []
    · rw [hp, hq, joinDoubled_singleton, joinDoubled_singleton] at h
      rw [hp, hq, h]
    · rw [hp, joinDoubled_singleton, joinDoubled_cons q hq] at h
      exact absurd (h ▸ hps.1) (not_solid q _)
    · rw [hq, joinDoubled_singleton, joinDoubled_cons p hp] at h
      exact absurd (h ▸ hqs.1) (not_solid p _)
    · rw [joinDoubled_cons p hp, joinDoubled_cons q hq] at h
      obtain ⟨rfl, hrest⟩ := Solid.append_inj hps.1 hqs.1 h
      rw [ih hps.2 hqs.2 hp hq hrest]

end Text
