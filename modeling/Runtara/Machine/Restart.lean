/-
  Machines that can be stopped at any point and started again.

  A machine makes deterministic steps, and between two steps it may be stopped and
  restarted: a restart keeps part of the state (what was written to disk) and loses the
  rest. Steps and stops emit events. `Run` is a run with any number of stops, `Steps` one
  without; the lemmas are the induction rule for the first and the progress rules for the
  second.
-/
import Mathlib.Data.List.Basic
import Mathlib.Logic.Function.Iterate

namespace Restart

/-- A machine with states `σ` and events `ε`. -/
structure Machine (σ ε : Type) where
  /-- One step; a finished state is its own successor. -/
  step : σ → σ
  /-- The events of the step made in a state. -/
  emits : σ → List ε
  /-- The events of a stop in a state. -/
  stops : σ → List ε
  /-- The states in which the machine may be started again after a stop. -/
  Restarts : σ → σ → Prop

variable {σ ε : Type} {M : Machine σ ε} {s t u : σ} {tr tr' : List ε}

namespace Machine

/-- A run without a stop, with its events. -/
inductive Steps (M : Machine σ ε) (s : σ) : List ε → σ → Prop
  | start : Steps M s [] s
  | step {tr : List ε} {t : σ} (h : Steps M s tr t) : Steps M s (tr ++ M.emits t) (M.step t)

/-- A run with any number of stops, with its events. -/
inductive Run (M : Machine σ ε) (s : σ) : List ε → σ → Prop
  | start : Run M s [] s
  | step {tr : List ε} {t : σ} (h : Run M s tr t) : Run M s (tr ++ M.emits t) (M.step t)
  | restart {tr : List ε} {t u : σ} (h : Run M s tr t) (hu : M.Restarts t u) :
      Run M s (tr ++ M.stops t) u

/-- **The invariant rule.** What holds at the start and is kept by steps and restarts holds
in every run. -/
theorem Run.invariant {I : List ε → σ → Prop} (h : M.Run s tr t) (hstart : I [] s)
    (hstep : ∀ tr t, I tr t → I (tr ++ M.emits t) (M.step t))
    (hrestart : ∀ tr t u, I tr t → M.Restarts t u → I (tr ++ M.stops t) u) : I tr t := by
  induction h with
  | start => exact hstart
  | step _ ih => exact hstep _ _ ih
  | restart _ hu ih => exact hrestart _ _ _ ih hu

theorem Steps.run (h : M.Steps s tr t) : M.Run s tr t := by
  induction h with
  | start => exact .start
  | step _ ih => exact .step ih

theorem Steps.single : M.Steps s (M.emits s) (M.step s) := .step .start

theorem Steps.trans (h : M.Steps s tr t) (h' : M.Steps t tr' u) : M.Steps s (tr ++ tr') u := by
  induction h' with
  | start => simpa using h
  | step _ ih =>
    rw [← List.append_assoc]
    exact .step ih

def trace (M : Machine σ ε) : ℕ → σ → List ε
  | 0, _ => []
  | n + 1, s => M.emits s ++ M.trace n (M.step s)

theorem Steps.iterate (n : ℕ) (s : σ) : M.Steps s (M.trace n s) (M.step^[n] s) := by
  induction n generalizing s with
  | zero => exact .start
  | succ n ih => exact Steps.single.trans (ih (M.step s))

theorem Run.steps (h : M.Run s tr t) (h' : M.Steps t tr' u) : M.Run s (tr ++ tr') u := by
  induction h' with
  | start => simpa using h
  | step _ ih =>
    rw [← List.append_assoc]
    exact .step ih

/-- Without a stop, the run with events `tr` that is now in `s` comes to a point where `P`
holds. -/
def Arrives (M : Machine σ ε) (P : List ε → σ → Prop) (tr : List ε) (s : σ) : Prop :=
  ∃ tr' t, M.Steps s tr' t ∧ P (tr ++ tr') t

variable {P Q : List ε → σ → Prop}

theorem Arrives.here (h : P tr s) : M.Arrives P tr s := ⟨[], s, .start, by simpa using h⟩

theorem Arrives.of_step (h : M.Arrives P (tr ++ M.emits s) (M.step s)) : M.Arrives P tr s := by
  obtain ⟨tr', t, hsteps, hP⟩ := h
  refine ⟨_, t, Steps.single.trans hsteps, ?_⟩
  rwa [← List.append_assoc]

theorem Arrives.of_step_eq {e : List ε} (hstep : M.step s = t) (hemits : M.emits s = e)
    (h : M.Arrives P (tr ++ e) t) : M.Arrives P tr s := by
  subst hstep hemits
  exact h.of_step

theorem Arrives.of_quiet_step (hstep : M.step s = t) (hemits : M.emits s = [])
    (h : M.Arrives P tr t) : M.Arrives P tr s :=
  .of_step_eq hstep hemits (by rwa [List.append_nil])

theorem Arrives.trans (h : M.Arrives P tr s) (h' : ∀ tr t, P tr t → M.Arrives Q tr t) :
    M.Arrives Q tr s := by
  obtain ⟨tr', t, hsteps, hP⟩ := h
  obtain ⟨tr'', u, hsteps', hQ⟩ := h' _ t hP
  refine ⟨_, u, hsteps.trans hsteps', ?_⟩
  rwa [← List.append_assoc]

end Machine

end Restart
