/-
  A durable retry loop resumes where it left off.

  What the loop would do if it were never stopped is a sequence of attempts with the wait
  accumulated before each (`reached`). Every stored checkpoint agrees with it (`Stored`): an
  attempt checkpoint decodes to the failure of that attempt, the step checkpoint is the
  output the sequence ends with. So a replay, which skips the stored attempts,
  is at every point somewhere on the same sequence (`At`), and if it is not stopped again
  it goes to the end of it.
-/
import Runtara.Agent.Equiv.Retry
import Runtara.Machine.NumberedKey

namespace Runtara

open Restart

/-! ### Keys and envelopes -/

namespace RetryLocals

theorem length_header (l : RetryLocals) :
    (LittleEndian.encode 8 l.sleepMs.toNat).length = 8 := LittleEndian.length_encode _ _

theorem envelope_ne_nil (l : RetryLocals) : l.envelope ≠ [] := List.cons_ne_nil _ _

/-- **Envelopes round-trip**: a decoded envelope describes the failure it was made from, and
is marked as a failure. -/
theorem attemptDecode_envelope (l l' : RetryLocals) :
    (l'.attemptDecode l.envelope).failure = l.failure ∧
      (l'.attemptDecode l.envelope).attemptErrFlag = true := by
  have hms : ((l.envelope.drop 4).take 8) = LittleEndian.encode 8 l.sleepMs.toNat := by
    show (LittleEndian.encode 8 l.sleepMs.toNat ++ l.error).take 8 = _
    exact List.take_left' l.length_header
  have hpayload : l.envelope.drop 12 = l.error := by
    show (LittleEndian.encode 8 l.sleepMs.toNat ++ l.error).drop 8 = _
    exact List.drop_left' l.length_header
  have hbool (b : Bool) : (b.toUInt8 != 0) = b := by cases b <;> rfl
  refine ⟨?_, rfl⟩
  unfold failure attemptDecode
  simp only [hms, hpayload, LittleEndian.decode_encode_uint64]
  show Failure.mk (l.retryable.toUInt8 != 0) (l.rateLimited.toUInt8 != 0)
    (if l.sleepTag.toUInt8 != 0 then some l.sleepMs else none) l.error = _
  rw [hbool, hbool, hbool]

end RetryLocals

/-! ### The sequence of attempts -/

/-- The state of the loop at its head, as far as decisions depend on it. -/
structure Progress where
  attempt : UInt32
  waited : UInt64

namespace DurableAgent

variable (a : DurableAgent)

def failureOf (info : ErrorInfo) : Failure := agentRetryErrorInfo a.errorText info

def next (pr : Progress) : Option Progress :=
  match a.outcome pr.attempt with
  | .ok _ => none
  | .error info =>
    if a.policy.accepts pr.attempt pr.waited (a.failureOf info) then
      some ⟨pr.attempt + 1, a.policy.charged pr.waited (a.failureOf info)⟩
    else none

/-- The loop after `i` retries. -/
def reached : ℕ → Option Progress
  | 0 => some ⟨1, 0⟩
  | i + 1 => (reached i).bind a.next

/-- After `i` retries the loop ends at the given point. -/
def Concludes (i : ℕ) (result : AgentPoint) : Prop :=
  ∃ pr, a.reached i = some pr ∧
    ((∃ output, a.outcome pr.attempt = .ok output ∧ result = .succeeded output) ∨
      ∃ info, a.outcome pr.attempt = .error info ∧
        a.policy.accepts pr.attempt pr.waited (a.failureOf info) = false ∧
        result = .failed (a.failureOf info).payload)

theorem attempt_of_reached {i : ℕ} {pr : Progress} (h : a.reached i = some pr) :
    pr.attempt = UInt32.ofNat (i + 1) := by
  induction i generalizing pr with
  | zero =>
    cases h
    rfl
  | succ i ih =>
    obtain ⟨before, hbefore, hnext⟩ := Option.bind_eq_some_iff.mp h
    unfold next at hnext
    cases hout : a.outcome before.attempt with
    | ok output => rw [hout] at hnext; cases hnext
    | error info =>
      rw [hout] at hnext
      simp only at hnext
      split at hnext
      · cases hnext
        show before.attempt + 1 = _
        rw [ih hbefore, UInt32.ofNat_add (i + 1) 1]
        rfl
      · cases hnext

theorem attemptKey_inj {m n : UInt32} (h : a.attemptKey m = a.attemptKey n) : m = n := by
  have hrepr := (String.append_right_inj _).mp ((String.append_right_inj _).mp h)
  exact UInt32.toNat_inj.mp (NumberedKey.repr_inj hrepr)

theorem attemptKey_ne_cacheKey (n : UInt32) : a.attemptKey n ≠ a.cacheKey := by
  intro h
  have hempty := String.append_eq_left_iff.mp h
  rw [String.append_eq_empty_iff] at hempty
  exact absurd hempty.1 (by decide)

/-! ### Decisions of a trace -/

/-- The decisions since the last stop. -/
def lifeDecisions (tr : List AgentEvent) : List (UInt32 × Bool) :=
  tr.foldl (fun ds e => match e with
    | .decided n retry => ds ++ [(n, retry)]
    | .stopped _ => []
    | .invoked _ => ds) []

@[simp] theorem lifeDecisions_invoked (tr : List AgentEvent) (n : UInt32) :
    lifeDecisions (tr ++ [.invoked n]) = lifeDecisions tr := by
  simp [lifeDecisions]

@[simp] theorem lifeDecisions_decided (tr : List AgentEvent) (n : UInt32) (retry : Bool) :
    lifeDecisions (tr ++ [.decided n retry]) = lifeDecisions tr ++ [(n, retry)] := by
  simp [lifeDecisions]

@[simp] theorem lifeDecisions_stopped (tr : List AgentEvent) (lost : Option UInt32) :
    lifeDecisions (tr ++ [.stopped lost]) = [] := by
  simp [lifeDecisions]

/-- The first `i` attempts, all retried. -/
def retries (i : ℕ) : List (UInt32 × Bool) :=
  (List.range i).map fun j => (UInt32.ofNat (j + 1), true)

theorem retries_succ (i : ℕ) : retries (i + 1) = retries i ++ [(UInt32.ofNat (i + 1), true)] := by
  rw [retries, List.range_succ, List.map_append]
  rfl

/-! ### The invariant -/

/-- The checkpoints of the step agree with the sequence of attempts. -/
structure Stored (store : Store) : Prop where
  attempts : ∀ n env, store.lookup (a.attemptKey n) = some env →
    ∃ info, a.outcome n = .error info ∧
      ∀ l : RetryLocals, (l.attemptDecode env).failure = a.failureOf info
  result : ∀ output, store.lookup a.cacheKey = some output → ∃ i, a.Concludes i (.succeeded output)

/-- The loop is at the attempt after `i` retries, and the step checkpoint is not written. -/
structure Here (i : ℕ) (tr : List AgentEvent) (s : AgentState) : Prop where
  progress : a.reached i = some ⟨s.locals.attempt, s.locals.rateLimitWaitTotal⟩
  decisions : lifeDecisions tr = retries i
  absent : s.store.lookup a.cacheKey = none

/-- Where the step is after `i` retries. -/
def At (i : ℕ) (tr : List AgentEvent) (s : AgentState) : Prop :=
  match s.point with
  | .lookup => s.locals.rateLimitWaitTotal = 0 ∧ lifeDecisions tr = []
  | .attempt | .backoff => a.Here i tr s
  | .invoke => a.Here i tr s ∧ s.store.lookup (a.attemptKey s.locals.attempt) = none
  | .invoked result => a.Here i tr s ∧ result = a.outcome s.locals.attempt
  | .decide => a.Here i tr s ∧
      ∃ info, a.outcome s.locals.attempt = .error info ∧ s.locals.failure = a.failureOf info
  | .save output => a.Here i tr s ∧ a.outcome s.locals.attempt = .ok output
  | .succeeded output => a.Concludes i (.succeeded output) ∧
      (lifeDecisions tr = retries i ∨
        lifeDecisions tr = [] ∧ s.store.lookup a.cacheKey = some output)
  | .failed error => a.Concludes i (.failed error) ∧
      lifeDecisions tr = retries i ++ [(UInt32.ofNat (i + 1), false)]

/-- The checkpoints are right, and the step is after `i` retries. -/
def Sound (i : ℕ) (tr : List AgentEvent) (s : AgentState) : Prop := a.Stored s.store ∧ a.At i tr s

variable {a} {i : ℕ} {tr : List AgentEvent} {store : Store} {l : RetryLocals}

variable {s : AgentState}

theorem Here.attempt_eq (h : a.Here i tr s) :
    s.locals.attempt = UInt32.ofNat (i + 1) := a.attempt_of_reached h.progress

/-- The lookup of the step checkpoint ends the step or enters the loop. -/
theorem sound_lookup (h : a.Sound i tr ⟨store, l, .lookup⟩) :
    (∃ output j, store.lookup a.cacheKey = some output ∧
      a.step ⟨store, l, .lookup⟩ = ⟨store, l, .succeeded output⟩ ∧
      a.Sound j tr ⟨store, l, .succeeded output⟩) ∨
    store.lookup a.cacheKey = none ∧
      a.step ⟨store, l, .lookup⟩ = ⟨store, { l with attempt := 1 }, .attempt⟩ ∧
      a.Sound 0 tr ⟨store, { l with attempt := 1 }, .attempt⟩ := by
  obtain ⟨hstored, hwaited, hlife⟩ := h
  cases hlook : store.lookup a.cacheKey with
  | some output =>
    obtain ⟨j, hj⟩ := hstored.result output hlook
    refine .inl ⟨output, j, rfl, ?_, hstored, hj, .inr ⟨hlife, hlook⟩⟩
    simp only [step, hlook]
  | none =>
    refine .inr ⟨rfl, ?_, hstored, ?_, hlife, hlook⟩
    · simp only [step, hlook]
    · show some _ = some _
      rw [show l.rateLimitWaitTotal = 0 from hwaited]

/-- At the head of the loop a stored attempt is decoded, any other is invoked. -/
theorem sound_attempt (h : a.Sound i tr ⟨store, l, .attempt⟩) :
    (∃ l', a.step ⟨store, l, .attempt⟩ = ⟨store, l', .decide⟩ ∧ a.Sound i tr ⟨store, l', .decide⟩) ∨
    ∃ l', a.step ⟨store, l, .attempt⟩ = ⟨store, l', .invoke⟩ ∧
      a.Sound i tr ⟨store, l', .invoke⟩ := by
  obtain ⟨hstored, hhere⟩ := h
  cases hlook : store.lookup (a.attemptKey l.attempt) with
  | some env =>
    obtain ⟨info, hout, hdecode⟩ := hstored.attempts _ env hlook
    refine .inl
      ⟨{ l.attemptDecode env with attemptHitFlag := true }, ?_, hstored, ?_, info, hout, ?_⟩
    · simp only [step, hlook]
    · exact ⟨hhere.progress, hhere.decisions, hhere.absent⟩
    · exact hdecode l
  | none =>
    refine .inr ⟨{ l with attemptHitFlag := false }, ?_, hstored, ?_, hlook⟩
    · simp only [step, hlook]
    · exact ⟨hhere.progress, hhere.decisions, hhere.absent⟩

theorem sound_invoke (h : a.Sound i tr ⟨store, l, .invoke⟩) :
    a.Sound i (tr ++ [.invoked l.attempt]) ⟨store, l, .invoked (a.outcome l.attempt)⟩ := by
  obtain ⟨hstored, hhere, -⟩ := h
  refine ⟨hstored, ⟨hhere.progress, ?_, hhere.absent⟩, rfl⟩
  rw [lifeDecisions_invoked, hhere.decisions]

theorem sound_invoked_ok {output : Bytes} (h : a.Sound i tr ⟨store, l, .invoked (.ok output)⟩) :
    a.Sound i tr ⟨store, { l with attemptErrFlag := false }, .save output⟩ := by
  obtain ⟨hstored, hhere, hout⟩ := h
  exact ⟨hstored, ⟨hhere.progress, hhere.decisions, hhere.absent⟩, hout.symm⟩

variable {info : ErrorInfo}

theorem Stored.attempt (h : a.Stored store) (hout : a.outcome l.attempt = .error info) :
    a.Stored (store.checkpoint (a.attemptKey l.attempt)
      (l.captureFailure a.errorText info).envelope) := by
  constructor
  · intro n env hlook
    by_cases hn : n = l.attempt
    · subst hn
      rw [Store.lookup_checkpoint_self _ _ (RetryLocals.envelope_ne_nil _)] at hlook
      cases hold : store.lookup (a.attemptKey l.attempt) with
      | some old =>
        rw [hold] at hlook
        cases hlook
        exact h.attempts _ _ hold
      | none =>
        rw [hold, Option.getD_none] at hlook
        cases hlook
        refine ⟨info, hout, fun l' => ?_⟩
        rw [(RetryLocals.attemptDecode_envelope _ l').1, RetryLocals.failure_captureFailure]
        rfl
    · rw [Store.lookup_checkpoint_of_ne _ _ fun heq => hn (a.attemptKey_inj heq)] at hlook
      exact h.attempts n env hlook
  · intro output hlook
    rw [Store.lookup_checkpoint_of_ne _ _ (a.attemptKey_ne_cacheKey _).symm] at hlook
    exact h.result output hlook

theorem sound_invoked_error (h : a.Sound i tr ⟨store, l, .invoked (.error info)⟩) :
    a.Sound i tr (a.step ⟨store, l, .invoked (.error info)⟩) := by
  obtain ⟨hstored, hhere, hout⟩ := h
  refine ⟨hstored.attempt hout.symm, ⟨hhere.progress, hhere.decisions, ?_⟩, info, hout.symm, ?_⟩
  · show (store.checkpoint _ _).lookup _ = none
    rw [Store.lookup_checkpoint_of_ne _ _ (a.attemptKey_ne_cacheKey _).symm]
    exact hhere.absent
  · exact RetryLocals.failure_captureFailure l info

/-- The decision made at an attempt is the one on its failure, fresh or decoded. -/
theorem retryCondition_at (h : a.At i tr ⟨store, l, .decide⟩)
    (hout : a.outcome l.attempt = .error info) :
    l.retryCondition a.policy = (a.policy.accepts l.attempt l.rateLimitWaitTotal (a.failureOf info),
      { l with rateLimitWaitTotal := a.policy.charged l.rateLimitWaitTotal (a.failureOf info) }) ∧
    l.error = (a.failureOf info).payload := by
  obtain ⟨-, info', hout', hfailure⟩ := h
  obtain rfl : info' = info := by
    rw [show a.outcome l.attempt = .error info' from hout'] at hout
    cases hout
    rfl
  refine ⟨?_, congrArg Failure.payload hfailure⟩
  rw [RetryLocals.retryCondition_eq, show l.failure = _ from hfailure]

/-- An accepted failure leads to the next attempt, over the backoff if it is fresh. -/
theorem sound_decide_retry (h : a.Sound i tr ⟨store, l, .decide⟩)
    (hout : a.outcome l.attempt = .error info)
    (haccepts : a.policy.accepts l.attempt l.rateLimitWaitTotal (a.failureOf info) = true) :
    a.emits ⟨store, l, .decide⟩ = [.decided l.attempt true] ∧
    ∃ l' point, (point = .attempt ∨ point = .backoff) ∧
      a.step ⟨store, l, .decide⟩ = ⟨store, l', point⟩ ∧
      a.Sound (i + 1) (tr ++ [.decided l.attempt true]) ⟨store, l', point⟩ := by
  obtain ⟨hdecision, -⟩ := retryCondition_at h.2 hout
  obtain ⟨hstored, hhere, -⟩ := h
  rw [haccepts] at hdecision
  have hnext : a.reached (i + 1) = some ⟨l.attempt + 1,
      a.policy.charged l.rateLimitWaitTotal (a.failureOf info)⟩ := by
    rw [reached, hhere.progress, Option.bind_some, next]
    simp only [hout, haccepts, if_true]
  have hlife : lifeDecisions (tr ++ [.decided l.attempt true]) = retries (i + 1) := by
    rw [lifeDecisions_decided, hhere.decisions, retries_succ]
    rw [show l.attempt = UInt32.ofNat (i + 1) from hhere.attempt_eq]
  refine ⟨by simp only [emits, hdecision], { l with
    attempt := l.attempt + 1
    rateLimitWaitTotal := a.policy.charged l.rateLimitWaitTotal (a.failureOf info) },
    if l.attemptHitFlag then .attempt else .backoff, ?_, ?_, hstored, ?_⟩
  · cases l.attemptHitFlag
    · exact .inr rfl
    · exact .inl rfl
  · simp only [step, hdecision, if_true, RetryLocals.advanceRetryAttempt]
  · cases l.attemptHitFlag
    all_goals exact ⟨hnext, hlife, hhere.absent⟩

theorem sound_decide_stop (h : a.Sound i tr ⟨store, l, .decide⟩)
    (hout : a.outcome l.attempt = .error info)
    (haccepts : a.policy.accepts l.attempt l.rateLimitWaitTotal (a.failureOf info) = false) :
    a.emits ⟨store, l, .decide⟩ = [.decided l.attempt false] ∧
    ∃ l', a.step ⟨store, l, .decide⟩ = ⟨store, l', .failed (a.failureOf info).payload⟩ ∧
      a.Sound i (tr ++ [.decided l.attempt false])
        ⟨store, l', .failed (a.failureOf info).payload⟩ := by
  obtain ⟨hdecision, herror⟩ := retryCondition_at h.2 hout
  obtain ⟨hstored, hhere, -⟩ := h
  rw [haccepts] at hdecision
  refine ⟨by simp only [emits, hdecision], { l with
    rateLimitWaitTotal := a.policy.charged l.rateLimitWaitTotal (a.failureOf info) }, ?_, hstored,
    ⟨_, hhere.progress, .inr ⟨info, hout, haccepts, rfl⟩⟩, ?_⟩
  · simp only [step, hdecision, Bool.false_eq_true, if_false, herror]
  · rw [lifeDecisions_decided, hhere.decisions]
    rw [show l.attempt = UInt32.ofNat (i + 1) from hhere.attempt_eq]

theorem sound_backoff (h : a.Sound i tr ⟨store, l, .backoff⟩) :
    a.Sound i tr ⟨store, a.backoff l, .attempt⟩ := by
  obtain ⟨hstored, hhere⟩ := h
  have hlocals : (a.backoff l).attempt = l.attempt ∧
      (a.backoff l).rateLimitWaitTotal = l.rateLimitWaitTotal := by
    unfold backoff
    simp only
    split <;> exact ⟨rfl, rfl⟩
  refine ⟨hstored, ?_, hhere.decisions, hhere.absent⟩
  show a.reached i = some ⟨(a.backoff l).attempt, (a.backoff l).rateLimitWaitTotal⟩
  rw [hlocals.1, hlocals.2]
  exact hhere.progress

theorem sound_save {output : Bytes} (h : a.Sound i tr ⟨store, l, .save output⟩) :
    a.Sound i tr ⟨store.checkpoint a.cacheKey output, l, .succeeded output⟩ := by
  obtain ⟨hstored, hhere, hout⟩ := h
  have hconcludes : a.Concludes i (.succeeded output) :=
    ⟨_, hhere.progress, .inl ⟨output, hout, rfl⟩⟩
  refine ⟨⟨?_, ?_⟩, hconcludes, .inl hhere.decisions⟩
  · intro n env hlook
    rw [Store.lookup_checkpoint_of_ne _ _ (a.attemptKey_ne_cacheKey n)] at hlook
    exact hstored.attempts n env hlook
  · intro output' hlook
    have habsent : store.lookup a.cacheKey = none := hhere.absent
    by_cases hempty : output = []
    · have hsame : store.checkpoint a.cacheKey output = store := by simp [Store.checkpoint, hempty]
      rw [hsame, habsent] at hlook
      cases hlook
    · rw [Store.lookup_checkpoint_self _ _ hempty, habsent, Option.getD_none] at hlook
      cases hlook
      exact ⟨i, hconcludes⟩

/-- **One step keeps the invariant.** -/
theorem sound_step (h : a.Sound i tr s) : ∃ j, a.Sound j (tr ++ a.emits s) (a.step s) := by
  obtain ⟨store, l, point⟩ := s
  have hquiet {s : AgentState} (hs : a.emits s = []) : tr ++ a.emits s = tr := by
    rw [hs, List.append_nil]
  cases point with
  | lookup =>
    rw [hquiet rfl]
    obtain ⟨output, j, -, hstep, hsound⟩ | ⟨-, hstep, hsound⟩ := sound_lookup h
    · exact ⟨j, by rw [hstep]; exact hsound⟩
    · exact ⟨0, by rw [hstep]; exact hsound⟩
  | attempt =>
    rw [hquiet rfl]
    obtain ⟨l', hstep, hsound⟩ | ⟨l', hstep, hsound⟩ := sound_attempt h
    all_goals exact ⟨i, by rw [hstep]; exact hsound⟩
  | invoke => exact ⟨i, sound_invoke h⟩
  | invoked result =>
    rw [hquiet rfl]
    cases result with
    | ok output => exact ⟨i, sound_invoked_ok h⟩
    | error info => exact ⟨i, sound_invoked_error h⟩
  | decide =>
    obtain ⟨-, -, info, hout, -⟩ := id h
    cases haccepts : a.policy.accepts l.attempt l.rateLimitWaitTotal (a.failureOf info) with
    | true =>
      obtain ⟨hemits, l', point, -, hstep, hsound⟩ := sound_decide_retry h hout haccepts
      exact ⟨i + 1, by rw [hemits, hstep]; exact hsound⟩
    | false =>
      obtain ⟨hemits, l', hstep, hsound⟩ := sound_decide_stop h hout haccepts
      exact ⟨i, by rw [hemits, hstep]; exact hsound⟩
  | backoff =>
    rw [hquiet rfl]
    exact ⟨i, sound_backoff h⟩
  | save output =>
    rw [hquiet rfl]
    exact ⟨i, sound_save h⟩
  | succeeded output | failed error =>
    rw [hquiet rfl]
    exact ⟨i, h⟩

theorem sound_restart {t : AgentState} (h : a.Sound i tr s) (hr : a.machine.Restarts s t) :
    ∃ j, a.Sound j (tr ++ a.machine.stops s) t := by
  obtain ⟨hstore, hpoint, hwaited⟩ := hr
  refine ⟨0, ?_, ?_⟩
  · rw [hstore]
    exact h.1
  · rw [At, hpoint]
    exact ⟨hwaited, lifeDecisions_stopped tr _⟩

/-- **Every run keeps the invariant**, with any number of stops. -/
theorem sound_run {t : AgentState} (hs : a.Initial s) (h : a.machine.Run s tr t) :
    ∃ i, a.Sound i tr t := by
  refine h.invariant (I := fun tr t => ∃ i, a.Sound i tr t) ⟨0, ⟨?_, ?_⟩, ?_⟩ ?_ ?_
  · intro n env hlook
    rw [hs.attempt_absent n] at hlook
    cases hlook
  · intro output hlook
    rw [hs.step_absent] at hlook
    cases hlook
  · rw [At, hs.point]
    exact ⟨hs.waited, rfl⟩
  · rintro tr t ⟨i, hsound⟩
    exact sound_step hsound
  · rintro tr t u ⟨i, hsound⟩ hr
    exact sound_restart hsound hr

end DurableAgent

end Runtara
