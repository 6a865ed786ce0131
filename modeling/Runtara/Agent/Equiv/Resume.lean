/-
  Where a replay ends.

  The invariant of `Agent.Equiv.Replay` says that a step is always somewhere on the sequence
  of its attempts. Here it is shown to move along it: from every point it comes to
  the head of its loop or to its end, and from one head to the next. The second part counts
  invocations: an outcome that is not lost by a stop is never asked for again. The main result,
  `durable_retries_resume`, puts both together.
-/
import Runtara.Agent.Equiv.Replay

namespace Runtara

open Restart

namespace DurableAgent

variable {a : DurableAgent} {i : ℕ} {tr : List AgentEvent} {store : Store} {l : RetryLocals}

/-! ### Progress -/

variable {n : ℕ} {result : AgentPoint}

section Reached

variable (a)

variable {m : ℕ}

theorem reached_of_le (h : m ≤ n) (hn : (a.reached n).isSome) : (a.reached m).isSome := by
  induction n with
  | zero =>
    obtain rfl : m = 0 := by omega
    exact hn
  | succ n ih =>
    by_cases hm : m = n + 1
    · subst hm
      exact hn
    · refine ih (by omega) ?_
      obtain ⟨pr, hpr⟩ := Option.isSome_iff_exists.mp hn
      obtain ⟨before, hbefore, -⟩ := Option.bind_eq_some_iff.mp hpr
      rw [hbefore]
      rfl

/-- The loop goes on after a failure that is accepted. -/
theorem accepts_of_reached_succ {i : ℕ} {pr : Progress} (h : a.reached i = some pr)
    (hnext : (a.reached (i + 1)).isSome) :
    ∃ info, a.outcome pr.attempt = .error info ∧
      a.policy.accepts pr.attempt pr.waited (a.failureOf info) = true := by
  rw [reached, h, Option.bind_some, next] at hnext
  cases hout : a.outcome pr.attempt with
  | ok output => rw [hout] at hnext; cases hnext
  | error info =>
    rw [hout] at hnext
    refine ⟨info, rfl, ?_⟩
    by_contra haccepts
    simp only [haccepts, if_false] at hnext
    cases hnext

theorem reached_succ_of_concludes (h : a.Concludes n result) : ¬ (a.reached (n + 1)).isSome := by
  obtain ⟨pr, hpr, hend⟩ := h
  intro hnext
  obtain ⟨info, hout, haccepts⟩ := a.accepts_of_reached_succ hpr hnext
  obtain ⟨output, hout', -⟩ | ⟨info', hout', hstop, -⟩ := hend
  · rw [hout] at hout'
    cases hout'
  · rw [hout] at hout'
    cases hout'
    rw [haccepts] at hstop
    cases hstop

theorem le_of_concludes (h : a.Concludes n result) (hm : (a.reached m).isSome) : m ≤ n := by
  by_contra hlt
  exact a.reached_succ_of_concludes h (a.reached_of_le (by omega) hm)

theorem Concludes.unique {r r' : AgentPoint} (h : a.Concludes m r) (h' : a.Concludes n r') :
    m = n ∧ r = r' := by
  have hsome {k : ℕ} {r : AgentPoint} (h : a.Concludes k r) : (a.reached k).isSome := by
    obtain ⟨pr, hpr, -⟩ := h
    rw [hpr]
    rfl
  obtain rfl : m = n := by
    have := a.le_of_concludes h (hsome h')
    have := a.le_of_concludes h' (hsome h)
    omega
  refine ⟨rfl, ?_⟩
  obtain ⟨pr, hpr, hend⟩ := h
  obtain ⟨pr', hpr', hend'⟩ := h'
  obtain rfl : pr = pr' := Option.some.inj (hpr.symm.trans hpr')
  obtain ⟨output, hout, rfl⟩ | ⟨info, hout, -, rfl⟩ := hend
  all_goals
    obtain ⟨output', hout', rfl⟩ | ⟨info', hout', -, rfl⟩ := hend'
    all_goals
      rw [hout] at hout'
      cases hout'
  · rfl
  · rfl

end Reached

/-- At the head of the loop after `i` retries. -/
def Head (a : DurableAgent) (i : ℕ) (tr : List AgentEvent) (s : AgentState) : Prop :=
  s.point = .attempt ∧ a.Sound i tr s

variable {s : AgentState}

section

variable (h : a.Head i tr s)

include h

theorem Head.reached : a.reached i = some ⟨s.locals.attempt, s.locals.rateLimitWaitTotal⟩ := by
  obtain ⟨store, l, point⟩ := s
  obtain ⟨rfl, -, hhere⟩ := h
  exact hhere.progress

/-- The retries before the attempt say what its locals are. -/
theorem Head.locals_eq {l : RetryLocals}
    (hl : a.reached i = some ⟨l.attempt, l.rateLimitWaitTotal⟩) :
    s.locals.attempt = l.attempt ∧ s.locals.rateLimitWaitTotal = l.rateLimitWaitTotal := by
  have hprogress := Option.some.inj (h.reached.symm.trans hl)
  exact ⟨congrArg Progress.attempt hprogress, congrArg Progress.waited hprogress⟩

/-- From the head of the loop, the attempt is known to have failed or comes to its outcome. -/
theorem arrives_outcome :
    a.machine.Arrives (fun tr t => a.Sound i tr t ∧ t.locals.attempt = s.locals.attempt ∧
      (t.point = .decide ∨ t.point = .invoked (a.outcome s.locals.attempt))) tr s := by
  obtain ⟨store, l, point⟩ := s
  obtain ⟨rfl, hsound⟩ := h
  obtain ⟨l', hstep, hsound'⟩ | ⟨l', hstep, hsound'⟩ := sound_attempt hsound
  all_goals
    have hattempt : l'.attempt = l.attempt :=
      (Here.attempt_eq hsound'.2.1).trans (Here.attempt_eq hsound.2).symm
    refine .of_quiet_step hstep rfl ?_
  · exact .here ⟨hsound', hattempt, .inl rfl⟩
  · exact .of_step_eq rfl rfl (.here ⟨sound_invoke hsound', hattempt,
      .inr (congrArg _ (congrArg _ hattempt))⟩)

/-- From the head of the loop, a failed attempt comes to its decision. -/
theorem arrives_decide {info : ErrorInfo} (hout : a.outcome s.locals.attempt = .error info) :
    a.machine.Arrives (fun tr t => t.point = .decide ∧ a.Sound i tr t) tr s := by
  refine (arrives_outcome h).trans ?_
  rintro tr' ⟨store, l, point⟩ ⟨hsound, hattempt, rfl | rfl⟩
  · exact .here ⟨rfl, hsound⟩
  · rw [hout] at hsound ⊢
    exact .of_quiet_step rfl rfl (.here ⟨rfl, sound_invoked_error hsound⟩)

/-- From the head of the loop, an accepted attempt comes to the next head. -/
theorem arrives_next (hnext : (a.reached (i + 1)).isSome) :
    a.machine.Arrives (a.Head (i + 1)) tr s := by
  obtain ⟨info, hout, haccepts⟩ := a.accepts_of_reached_succ h.reached hnext
  refine (arrives_decide h hout).trans ?_
  rintro tr' ⟨store, l, point⟩ ⟨rfl, hsound⟩
  obtain ⟨hattempt, hwaited⟩ := h.locals_eq hsound.2.1.progress
  rw [hattempt] at hout
  simp only [hattempt, hwaited] at haccepts
  obtain ⟨hemits, l', point, hpoint, hstep, hsound'⟩ := sound_decide_retry hsound hout haccepts
  refine .of_step_eq hstep hemits ?_
  obtain rfl | rfl := hpoint
  · exact .here ⟨rfl, hsound'⟩
  · exact .of_quiet_step rfl rfl (.here ⟨rfl, sound_backoff hsound'⟩)

/-- From the head of the loop, the last attempt comes to the end of the step. -/
theorem arrives_end (hend : a.Concludes i result) :
    a.machine.Arrives (fun tr t => t.point = result ∧ a.Sound i tr t ∧
      ((∃ output, result = .succeeded output) → lifeDecisions tr = retries i)) tr s := by
  obtain ⟨pr, hpr, hend⟩ := hend
  obtain rfl : pr = ⟨s.locals.attempt, s.locals.rateLimitWaitTotal⟩ :=
    Option.some.inj (hpr.symm.trans h.reached)
  obtain ⟨output, hout, rfl⟩ | ⟨info, hout, hstop, rfl⟩ := hend
  · refine (arrives_outcome h).trans ?_
    rintro tr' ⟨store, l, point⟩ ⟨hsound, hattempt, rfl | rfl⟩
    · -- a stored attempt has failed
      obtain ⟨info, hout', -⟩ := hsound.2.2
      rw [hattempt, hout] at hout'
      cases hout'
    · rw [hout] at hsound ⊢
      have hsave := sound_invoked_ok hsound
      refine .of_quiet_step rfl rfl (.of_quiet_step rfl rfl (.here ⟨rfl, sound_save hsave, ?_⟩))
      exact fun _ => hsave.2.1.decisions
  · refine (arrives_decide h hout).trans ?_
    rintro tr' ⟨store, l, point⟩ ⟨rfl, hsound⟩
    obtain ⟨hattempt, hwaited⟩ := h.locals_eq hsound.2.1.progress
    rw [hattempt] at hout
    simp only [hattempt, hwaited] at hstop
    obtain ⟨hemits, l', hstep, hsound'⟩ := sound_decide_stop hsound hout hstop
    refine .of_step_eq hstep hemits (.here ⟨rfl, hsound', ?_⟩)
    rintro ⟨output, hresult⟩
    cases hresult

/-- From one head of the loop to a later one, by induction on the retries between them. -/
theorem arrives_head (hle : i ≤ n) (hn : (a.reached n).isSome) :
    a.machine.Arrives (a.Head n) tr s := by
  induction n with
  | zero =>
    obtain rfl : i = 0 := by omega
    exact .here h
  | succ n ih =>
    by_cases hi : i = n + 1
    · subst hi
      exact .here h
    · refine (ih (by omega) (a.reached_of_le (Nat.le_succ n) hn)).trans fun tr t ht => ?_
      exact arrives_next ht hn

end

/-- A step is finished when it has succeeded or failed. -/
def Finished (s : AgentState) : Prop :=
  (∃ output, s.point = .succeeded output) ∨ ∃ error, s.point = .failed error

/-- The step is at the head of its loop or at its end. -/
abbrev HeadOrEnd (a : DurableAgent) (tr : List AgentEvent) (s : AgentState) : Prop :=
  ∃ j, a.Sound j tr s ∧ (s.point = .attempt ∨ Finished s)

theorem arrives_of_save {output : Bytes} (h : a.Sound i tr ⟨store, l, .save output⟩) :
    a.machine.Arrives a.HeadOrEnd tr ⟨store, l, .save output⟩ :=
  .of_quiet_step rfl rfl (.here ⟨i, sound_save h, .inr (.inl ⟨output, rfl⟩)⟩)

theorem arrives_of_decide (h : a.Sound i tr ⟨store, l, .decide⟩) :
    a.machine.Arrives a.HeadOrEnd tr ⟨store, l, .decide⟩ := by
  obtain ⟨-, -, info, hout, -⟩ := id h
  cases haccepts : a.policy.accepts l.attempt l.rateLimitWaitTotal (a.failureOf info) with
  | true =>
    obtain ⟨hemits, l', point, hpoint, hstep, hsound⟩ := sound_decide_retry h hout haccepts
    refine .of_step_eq hstep hemits ?_
    obtain rfl | rfl := hpoint
    · exact .here ⟨_, hsound, .inl rfl⟩
    · exact .of_quiet_step rfl rfl (.here ⟨_, sound_backoff hsound, .inl rfl⟩)
  | false =>
    obtain ⟨hemits, l', hstep, hsound⟩ := sound_decide_stop h hout haccepts
    exact .of_step_eq hstep hemits (.here ⟨_, hsound, .inr (.inr ⟨_, rfl⟩)⟩)

theorem arrives_of_invoked {result} (h : a.Sound i tr ⟨store, l, .invoked result⟩) :
    a.machine.Arrives a.HeadOrEnd tr ⟨store, l, .invoked result⟩ := by
  cases result with
  | ok output => exact .of_quiet_step rfl rfl (arrives_of_save (sound_invoked_ok h))
  | error info => exact .of_quiet_step rfl rfl (arrives_of_decide (sound_invoked_error h))

/-- From any point, the step comes to the head of its loop or to its end. -/
theorem arrives_head_or_end (h : a.Sound i tr s) : a.machine.Arrives a.HeadOrEnd tr s := by
  obtain ⟨store, l, point⟩ := s
  cases point with
  | lookup =>
    obtain ⟨output, j, -, hstep, hsound⟩ | ⟨-, hstep, hsound⟩ := sound_lookup h
    · exact .of_quiet_step hstep rfl (.here ⟨j, hsound, .inr (.inl ⟨output, rfl⟩)⟩)
    · exact .of_quiet_step hstep rfl (.here ⟨0, hsound, .inl rfl⟩)
  | attempt => exact .here ⟨i, h, .inl rfl⟩
  | invoke => exact .of_step_eq rfl rfl (arrives_of_invoked (sound_invoke h))
  | invoked result => exact arrives_of_invoked h
  | decide => exact arrives_of_decide h
  | backoff => exact .of_quiet_step rfl rfl (.here ⟨i, sound_backoff h, .inl rfl⟩)
  | save output => exact arrives_of_save h
  | succeeded output => exact .here ⟨i, h, .inr (.inl ⟨output, rfl⟩)⟩
  | failed error => exact .here ⟨i, h, .inr (.inr ⟨error, rfl⟩)⟩

theorem arrives_first (hs : a.Initial s) : a.machine.Arrives (a.Head 0) [] s := by
  obtain ⟨j, hsound⟩ := sound_run hs .start
  obtain ⟨store, l, point⟩ := s
  obtain ⟨rfl, -, habsent, -⟩ := hs
  obtain ⟨output, -, hlook, -⟩ | ⟨-, hstep, hsound⟩ := sound_lookup hsound
  · rw [show store.lookup a.cacheKey = none from habsent] at hlook
    cases hlook
  · exact .of_quiet_step hstep rfl (.here ⟨rfl, hsound⟩)

theorem arrives_result (hs : a.Initial s) (hend : a.Concludes n result) :
    a.machine.Arrives (fun tr t => t.point = result ∧ a.Sound n tr t ∧
      ((∃ output, result = .succeeded output) → lifeDecisions tr = retries n)) [] s := by
  have hn : (a.reached n).isSome := by
    obtain ⟨pr, hpr, -⟩ := hend
    rw [hpr]
    rfl
  refine (arrives_first hs).trans fun tr t ht => ?_
  exact (arrives_head ht (Nat.zero_le n) hn).trans fun tr' t' ht' => arrives_end ht' hend

theorem Finished.concludes (hfin : Finished s) (h : a.Sound i tr s) : a.Concludes i s.point := by
  obtain ⟨store, l, point⟩ := s
  obtain ⟨output, rfl⟩ | ⟨error, rfl⟩ := hfin
  · exact h.2.1
  · exact h.2.1

/-! ### Invocations -/

/-- The outcome of the attempt is stored, with the attempt or with the step. -/
def StoredFor (a : DurableAgent) (n : UInt32) (store : Store) : Prop :=
  (store.lookup (a.attemptKey n)).isSome ∨
    (store.lookup a.cacheKey).isSome ∧ ∃ output, a.outcome n = .ok output

/-- The attempt has been invoked and its outcome is not lost. -/
def Settled (a : DurableAgent) (n : UInt32) (s : AgentState) : Prop :=
  a.unstored s = some n ∨ a.StoredFor n s.store

theorem isSome_lookup_checkpoint {key : String} (key' : String) (state : Bytes)
    (h : (store.lookup key).isSome) : ((store.checkpoint key' state).lookup key).isSome := by
  by_cases heq : key = key'
  · subst heq
    simp [Store.checkpoint, h]
  · rw [Store.lookup_checkpoint_of_ne _ _ heq]
    exact h

theorem StoredFor.checkpoint {n : UInt32} (h : a.StoredFor n store) (key : String) (state : Bytes) :
    a.StoredFor n (store.checkpoint key state) :=
  h.imp (isSome_lookup_checkpoint key state) (And.imp_left (isSome_lookup_checkpoint key state))

theorem Settled.step {n : UInt32} (h : a.Settled n s) (hs : a.Sound i tr s) :
    a.Settled n (a.step s) := by
  obtain ⟨store, l, point⟩ := s
  cases point with
  | lookup =>
    obtain hunstored | hstored := h
    · cases hunstored
    obtain ⟨output, j, -, hstep, -⟩ | ⟨-, hstep, -⟩ := sound_lookup hs
    all_goals
      rw [hstep]
      exact .inr hstored
  | attempt =>
    obtain hunstored | hstored := h
    · cases hunstored
    obtain ⟨l', hstep, -⟩ | ⟨l', hstep, -⟩ := sound_attempt hs
    all_goals
      rw [hstep]
      exact .inr hstored
  | invoke =>
    obtain hunstored | hstored := h
    · cases hunstored
    · exact .inr hstored
  | invoked result =>
    obtain hunstored | hstored := h
    · obtain rfl : l.attempt = n := Option.some.inj hunstored
      cases result with
      | ok output => exact .inl rfl
      | error info =>
        refine .inr (.inl ?_)
        show ((store.checkpoint (a.attemptKey l.attempt) _).lookup _).isSome
        rw [Store.lookup_checkpoint_self _ _ (RetryLocals.envelope_ne_nil _)]
        rfl
    · cases result with
      | ok output => exact .inr hstored
      | error info => exact .inr (hstored.checkpoint _ _)
  | decide =>
    obtain hunstored | hstored := h
    · cases hunstored
    · refine .inr ?_
      simp only [DurableAgent.step]
      split <;> exact hstored
  | backoff =>
    obtain hunstored | hstored := h
    · cases hunstored
    · exact .inr hstored
  | save output =>
    obtain hunstored | hstored := h
    · obtain rfl : l.attempt = n := Option.some.inj hunstored
      cases hlook : (store.checkpoint a.cacheKey output).lookup a.cacheKey with
      | some output' =>
        refine .inr (.inr ⟨?_, output, hs.2.2⟩)
        show ((store.checkpoint a.cacheKey output).lookup a.cacheKey).isSome
        rw [hlook]
        rfl
      | none =>
        refine .inl ?_
        simp only [DurableAgent.step, unstored, hlook]
        rfl
    · exact .inr (hstored.checkpoint _ _)
  | succeeded | failed => exact h

/-- An attempt that is about to be invoked is not settled. -/
theorem not_settled_of_invoke (h : a.Sound i tr ⟨store, l, .invoke⟩) :
    ¬ a.Settled l.attempt ⟨store, l, .invoke⟩ := by
  obtain ⟨-, hhere, habsent⟩ := h
  rintro (hunstored | hattempt | ⟨hstep, -⟩)
  · cases hunstored
  · rw [show store.lookup (a.attemptKey l.attempt) = none from habsent] at hattempt
    cases hattempt
  · rw [show store.lookup a.cacheKey = none from hhere.absent] at hstep
    cases hstep

/-- Invocations are counted by the stops that lost their outcome, plus one that is settled. -/
def Counted (a : DurableAgent) (n : UInt32) (tr : List AgentEvent) (s : AgentState) : Prop :=
  tr.count (.invoked n) ≤ tr.count (.stopped (some n)) + 1 ∧
    (¬ a.Settled n s → tr.count (.invoked n) ≤ tr.count (.stopped (some n)))

theorem Counted.step {n : UInt32} (h : a.Counted n tr s) (hs : a.Sound i tr s) :
    a.Counted n (tr ++ a.emits s) (a.step s) := by
  have hkeep (h' : (tr ++ a.emits s).count (.invoked n) = tr.count (.invoked n)) :
      a.Counted n (tr ++ a.emits s) (a.step s) := by
    have hstopped : (tr ++ a.emits s).count (.stopped (some n)) = tr.count (.stopped (some n)) := by
      unfold emits
      cases s.point <;> simp
    refine ⟨by rw [h', hstopped]; exact h.1, fun hns => ?_⟩
    rw [h', hstopped]
    exact h.2 fun hsettled => hns (hsettled.step hs)
  obtain ⟨store, l, point⟩ := s
  cases point with
  | invoke =>
    by_cases hn : l.attempt = n
    · subst hn
      have hbefore := h.2 (not_settled_of_invoke hs)
      refine ⟨?_, fun hns => absurd (.inl rfl) hns⟩
      show (tr ++ [AgentEvent.invoked l.attempt]).count (AgentEvent.invoked l.attempt) ≤
        (tr ++ [AgentEvent.invoked l.attempt]).count (AgentEvent.stopped (some l.attempt)) + 1
      simpa using hbefore
    · refine hkeep ?_
      show (tr ++ [AgentEvent.invoked l.attempt]).count (AgentEvent.invoked n) = _
      simp [hn]
  | decide =>
    refine hkeep ?_
    show (tr ++ [AgentEvent.decided _ _]).count (AgentEvent.invoked n) = _
    simp
  | _ =>
    refine hkeep ?_
    show (tr ++ []).count (AgentEvent.invoked n) = _
    simp

variable {t : AgentState}

theorem Counted.restart {n : UInt32} (h : a.Counted n tr s) (hr : a.machine.Restarts s t) :
    a.Counted n (tr ++ a.machine.stops s) t := by
  obtain ⟨hstore, hpoint, -⟩ := hr
  show a.Counted n (tr ++ [.stopped (a.unstored s)]) t
  by_cases hlost : a.unstored s = some n
  · have hle := h.1
    refine ⟨?_, fun _ => ?_⟩
    all_goals
      rw [hlost]
      simp
      omega
  · have hcount : (tr ++ [AgentEvent.stopped (a.unstored s)]).count (.stopped (some n)) =
        tr.count (.stopped (some n)) := by
      simp [hlost]
    have hinvoked : (tr ++ [AgentEvent.stopped (a.unstored s)]).count (.invoked n) =
        tr.count (.invoked n) := by simp
    refine ⟨by rw [hcount, hinvoked]; exact h.1, fun hns => ?_⟩
    rw [hcount, hinvoked]
    refine h.2 fun hsettled => ?_
    obtain hunstored | hstored := hsettled
    · exact hlost hunstored
    · exact hns (.inr (by rw [hstore]; exact hstored))

/-- In every run, an attempt is invoked once and once more for each stop that lost its outcome. -/
theorem count_invoked_le (hs : a.Initial s) (h : a.machine.Run s tr t) (n : UInt32) :
    tr.count (.invoked n) ≤ 1 + tr.count (.stopped (some n)) := by
  have hrun : (∃ i, a.Sound i tr t) ∧ a.Counted n tr t := by
    refine h.invariant (I := fun tr t => (∃ i, a.Sound i tr t) ∧ a.Counted n tr t) ?_ ?_ ?_
    · exact ⟨sound_run hs .start, Nat.zero_le _, fun _ => Nat.zero_le _⟩
    · rintro tr t ⟨⟨i, hsound⟩, hcounted⟩
      exact ⟨sound_step hsound, hcounted.step hsound⟩
    · rintro tr t u ⟨⟨i, hsound⟩, hcounted⟩ hr
      exact ⟨sound_restart hsound hr, hcounted.restart hr⟩
  have hle := hrun.2.1
  omega

/-! ### Resumption -/

/-- The decisions since the last stop are those that the step makes without a stop. -/
theorem decisions_of_sound (hs : a.Initial s) (h : a.Sound i tr t) :
    a.machine.Arrives (fun tr' _ => lifeDecisions tr' = lifeDecisions tr) [] s := by
  have hnone (hlife : lifeDecisions tr = []) :
      a.machine.Arrives (fun tr' _ => lifeDecisions tr' = lifeDecisions tr) [] s :=
    .here hlife.symm
  have hretries (hi : (a.reached i).isSome) (hlife : lifeDecisions tr = retries i) :
      a.machine.Arrives (fun tr' _ => lifeDecisions tr' = lifeDecisions tr) [] s := by
    refine (arrives_first hs).trans fun _ _ hfirst => ?_
    refine (arrives_head hfirst (Nat.zero_le i) hi).trans ?_
    rintro tr' ⟨store, l, point⟩ ⟨rfl, hhead⟩
    exact .here (hhead.2.decisions.trans hlife.symm)
  have hhere (hhere : a.Here i tr t) :
      a.machine.Arrives (fun tr' _ => lifeDecisions tr' = lifeDecisions tr) [] s :=
    hretries (by rw [hhere.progress]; rfl) hhere.decisions
  obtain ⟨store, l, point⟩ := t
  cases point with
  | lookup => exact hnone h.2.2
  | attempt | backoff => exact hhere h.2
  | invoke | invoked | decide | save => exact hhere h.2.1
  | succeeded output =>
    obtain hlife | ⟨hlife, -⟩ := h.2.2
    · obtain ⟨pr, hpr, -⟩ := h.2.1
      exact hretries (by rw [hpr]; rfl) hlife
    · exact hnone hlife
  | failed error =>
    refine (arrives_result hs h.2.1).trans ?_
    rintro tr' ⟨store', l', point'⟩ ⟨rfl, hsound, -⟩
    exact .here (hsound.2.2.trans h.2.2.symm)

/-- A finished step has the result of the step without a stop, and made the same decisions
since the last stop, or took the result from the step checkpoint. -/
theorem result_of_sound (hs : a.Initial s) (h : a.Sound i tr t) (hfin : Finished t) :
    a.machine.Arrives (fun tr' t' => t'.point = t.point ∧
      (lifeDecisions tr' = lifeDecisions tr ∨
        ∃ output, t.store.lookup a.cacheKey = some output ∧ t.point = .succeeded output)) [] s := by
  refine (arrives_result hs (hfin.concludes h)).trans ?_
  rintro tr' t' ⟨hpoint, hsound, hlife⟩
  refine .here ⟨hpoint, ?_⟩
  obtain ⟨store, l, point⟩ := t
  obtain ⟨output, rfl⟩ | ⟨error, rfl⟩ := hfin
  · obtain hlife' | ⟨-, hlook⟩ := h.2.2
    · exact .inl ((hlife ⟨output, rfl⟩).trans hlife'.symm)
    · exact .inr ⟨output, hlook, rfl⟩
  · obtain ⟨store', l', point'⟩ := t'
    obtain rfl : point' = .failed error := hpoint
    exact .inl (hsound.2.2.trans h.2.2.symm)

/-- If the step ends when it is not stopped, then every replay ends, with the same result. -/
theorem arrives_same_result {t' : AgentState} {tr' : List AgentEvent} (hs : a.Initial s)
    (h : a.Sound i tr t) (hsteps : a.machine.Steps s tr' t') (hfin : Finished t') :
    a.machine.Arrives (fun _ u => u.point = t'.point) tr t := by
  obtain ⟨n, hsound⟩ := sound_run hs hsteps.run
  have hend := hfin.concludes hsound
  refine (arrives_head_or_end h).trans ?_
  rintro tr'' u ⟨j, hu, hpoint | hfin'⟩
  · have hhead : a.Head j tr'' u := ⟨hpoint, hu⟩
    have hle : j ≤ n := a.le_of_concludes hend (by rw [hhead.reached]; rfl)
    have hn : (a.reached n).isSome := by
      obtain ⟨pr, hpr, -⟩ := hend
      rw [hpr]
      rfl
    refine (arrives_head hhead hle hn).trans fun _ v hv => ?_
    exact (arrives_end hv hend).trans fun _ w hw => .here hw.1
  · exact .here (Concludes.unique a (hfin'.concludes hu) hend).2

/-- **A durable retry loop resumes where it left off.** In every run of the step, with any
number of stops and replays: the decisions since the last stop are those of the step
without a stop, up to some point; a result is the result without a stop; if the step ends
without a stop then so does every replay; and an attempt is invoked at most once, plus once
for each stop between its invocation and the checkpoint of its outcome. -/
theorem durable_retries_resume (a : DurableAgent) {s t : AgentState} {tr : List AgentEvent}
    (hs : a.Initial s) (hrun : a.machine.Run s tr t) :
    (∃ tr' t', a.machine.Steps s tr' t' ∧ lifeDecisions tr' = lifeDecisions tr) ∧
    (Finished t → ∃ tr' t', a.machine.Steps s tr' t' ∧ t'.point = t.point ∧
      (lifeDecisions tr' = lifeDecisions tr ∨
        ∃ output, t.store.lookup a.cacheKey = some output ∧ t.point = .succeeded output)) ∧
    (∀ tr' t', a.machine.Steps s tr' t' → Finished t' →
      ∃ tr'' u, a.machine.Steps t tr'' u ∧ u.point = t'.point) ∧
    ∀ n, tr.count (.invoked n) ≤ 1 + tr.count (.stopped (some n)) := by
  obtain ⟨i, hsound⟩ := sound_run hs hrun
  refine ⟨?_, fun hfin => ?_, fun tr' t' hsteps hfin => ?_, count_invoked_le hs hrun⟩
  · obtain ⟨tr', t', hsteps, hlife⟩ := decisions_of_sound hs hsound
    exact ⟨tr', t', hsteps, hlife⟩
  · obtain ⟨tr', t', hsteps, hresult⟩ := result_of_sound hs hsound hfin
    exact ⟨tr', t', hsteps, hresult⟩
  · obtain ⟨tr'', u, hsteps', hu⟩ := arrives_same_result hs hsound hsteps hfin
    exact ⟨tr'', u, hsteps', hu⟩

/-- An agent whose first attempt fails. -/
def flakyAgent : DurableAgent where
  policy := ⟨3, 1000, 60000, by decide⟩
  cacheKey := "agent::call"
  errorText _ := [1]
  outcome n := if n = 1 then .error ⟨"TIMEOUT", "", "transient", "", true, none, none⟩ else .ok [7]

/-- The step is entered for the first time. -/
def flakyStart : AgentState := ⟨[], RetryLocals.zero, .lookup⟩

/-- The step is stopped in the backoff after its first attempt, and started again. -/
def flakyReplay : AgentState :=
  ⟨(flakyAgent.machine.step^[5] flakyStart).store, RetryLocals.zero, .lookup⟩

/-- The replay runs to the end; it decides on the first attempt without invoking it. -/
theorem flaky_resumes :
    let tr : List AgentEvent :=
      [.invoked 1, .decided 1 true, .stopped none, .decided 1 true, .invoked 2]
    flakyAgent.Initial flakyStart ∧
      flakyAgent.machine.Run flakyStart tr (flakyAgent.machine.step^[7] flakyReplay) ∧
      (flakyAgent.machine.step^[7] flakyReplay).point = .succeeded [7] ∧
      tr.count (.invoked 1) ≤ 1 + tr.count (.stopped (some 1)) := by
  intro tr
  have hinitial : flakyAgent.Initial flakyStart := ⟨rfl, rfl, rfl, fun _ => rfl⟩
  have htr : flakyAgent.machine.trace 5 flakyStart ++
      flakyAgent.machine.stops (flakyAgent.machine.step^[5] flakyStart) ++
      flakyAgent.machine.trace 7 flakyReplay = tr := by
    decide +kernel
  have hrun : flakyAgent.machine.Run flakyStart tr (flakyAgent.machine.step^[7] flakyReplay) := by
    have hrestarts :
        flakyAgent.machine.Restarts (flakyAgent.machine.step^[5] flakyStart) flakyReplay :=
      ⟨rfl, rfl, rfl⟩
    rw [← htr]
    exact ((Machine.Steps.iterate 5 flakyStart).run.restart hrestarts).steps (.iterate 7 _)
  exact ⟨hinitial, hrun, by decide +kernel,
    (durable_retries_resume flakyAgent hinitial hrun).2.2.2 1⟩

end DurableAgent

end Runtara
