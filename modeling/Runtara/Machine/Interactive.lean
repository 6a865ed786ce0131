/-
  Systems that are driven by their surroundings.

  Each step of a system is made on an input: the turn of one of its parts, an answer of the
  host, a message, a stop. Steps emit events. `Run` is a run in which every input is admitted
  by a condition on the events so far, the state and the input; `play` makes the steps of a
  list of inputs, so that a run can be computed.
-/
import Mathlib.Data.List.Basic

namespace Interactive

/-- A system with states `σ`, inputs `ι` and events `ε`; an input may not be possible. -/
structure System (σ ι ε : Type) where
  step : σ → ι → Option (σ × List ε)

variable {σ ι ε : Type} {S : System σ ι ε} {ok ok' : List ε → σ → ι → Bool}
  {s t u : σ} {i : ι} {es tr : List ε}

namespace System

/-- A run whose inputs are all admitted by `ok`, with its events. -/
inductive Run (S : System σ ι ε) (ok : List ε → σ → ι → Bool) (s : σ) : List ε → σ → Prop
  | start : Run S ok s [] s
  | step {tr es : List ε} {t u : σ} {i : ι} (h : Run S ok s tr t) (hok : ok tr t i = true)
      (hstep : S.step t i = some (u, es)) : Run S ok s (tr ++ es) u

/-- **The invariant rule.** What holds at the start and is kept by every admitted step holds in
every run. -/
theorem Run.invariant {I : List ε → σ → Prop} (h : S.Run ok s tr t) (hstart : I [] s)
    (hstep : ∀ tr t i u es, I tr t → ok tr t i = true → S.step t i = some (u, es) →
      I (tr ++ es) u) : I tr t := by
  induction h with
  | start => exact hstart
  | step _ hok hs ih => exact hstep _ _ _ _ _ ih hok hs

/-- The steps of a list of inputs after the events `tr`. -/
def play (S : System σ ι ε) (ok : List ε → σ → ι → Bool) : List ε → σ → List ι →
    Option (List ε × σ)
  | tr, s, [] => some (tr, s)
  | tr, s, i :: is =>
    if ok tr s i then
      match S.step s i with
      | some (t, es) => play S ok (tr ++ es) t is
      | none => none
    else none

theorem Run.play {is : List ι} {tr' : List ε} (h : S.Run ok s tr t)
    (hplay : S.play ok tr t is = some (tr', u)) : S.Run ok s tr' u := by
  induction is generalizing tr t with
  | nil =>
    obtain ⟨rfl, rfl⟩ := Prod.mk.inj (Option.some.inj hplay)
    exact h
  | cons i is ih =>
    rw [System.play] at hplay
    split at hplay
    case isTrue hok =>
      cases hstep : S.step t i with
      | none => rw [hstep] at hplay; cases hplay
      | some p =>
        rw [hstep] at hplay
        exact ih (.step h hok hstep) hplay
    case isFalse => cases hplay

theorem run_of_play {is : List ι} (h : S.play ok [] s is = some (tr, t)) : S.Run ok s tr t :=
  Run.start.play h

end System

/-! ### Histories -/

/-- Every event of a trace satisfies `Q` with the events before it. -/
def Explained (Q : List ε → ε → Prop) (tr : List ε) : Prop :=
  ∀ pre e post, tr = pre ++ e :: post → Q pre e

variable {Q : List ε → ε → Prop} {e e' : ε}

theorem Explained.nil : Explained Q [] := by
  intro pre e post h
  cases pre <;> cases h

theorem Explained.snoc (h : Explained Q tr) (he : Q tr e) : Explained Q (tr ++ [e]) := by
  intro pre e' post heq
  rcases List.eq_nil_or_concat post with rfl | ⟨post, x, rfl⟩
  · obtain ⟨rfl, hlast⟩ := List.append_inj' heq rfl
    obtain ⟨rfl, -⟩ := List.cons.inj hlast
    exact he
  · have hsplit : tr ++ [e] = (pre ++ e' :: post) ++ [x] := by simpa using heq
    exact h pre e' post (List.append_inj' hsplit rfl).1

theorem Explained.snoc_two (h : Explained Q tr) (he : Q tr e) (he' : Q (tr ++ [e]) e') :
    Explained Q (tr ++ [e, e']) := by
  have h2 := (h.snoc he).snoc he'
  rwa [List.append_assoc] at h2

end Interactive
