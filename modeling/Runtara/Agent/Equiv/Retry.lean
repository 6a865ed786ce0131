/-
  What the retry decisions of a step depend on.

  The loop reads two locals it has not written itself in the same attempt: the attempt
  number, which the step sets before the loop, and the accumulated rate-limit wait, which
  it does not. Two executions that agree on both make the same decisions
  (`retryLoop_congr`); conversely a single rate-limit error can tell two accumulated
  waits apart, unless the budget is unlimited (`exists_probe`).
-/
import Runtara.Agent.Retry
import Runtara.Plan.Build

namespace Runtara

variable {p : RetryPolicy} {errorText : ErrorInfo → Bytes} {l l' : RetryLocals}

/-! ### Decisions -/

/-- The wait after a failure: a retryable rate-limit error adds the time it asks for. -/
def RetryPolicy.charged (p : RetryPolicy) (waited : UInt64) (f : Failure) : UInt64 :=
  if f.retryable && f.rateLimited then waited + f.retryAfterMs.getD p.retryDelayMs else waited

/-- Is the attempt repeated after a failure? -/
def RetryPolicy.accepts (p : RetryPolicy) (attempt : UInt32) (waited : UInt64) (f : Failure) :
    Bool :=
  f.retryable &&
    if f.rateLimited then p.charged waited f ≤ p.rateLimitBudgetMs else attempt ≤ p.maxRetries

theorem le_unlimited {a b : UInt64} (h : b = UInt64.ofNat (2 ^ 64 - 1)) : a ≤ b := by
  have hlt := a.toNat_lt
  rw [UInt64.le_iff_toNat_le, h]
  show a.toNat ≤ 2 ^ 64 - 1
  omega

theorem RetryPolicy.accepts_of_unlimited (h : p.rateLimitBudgetMs = UInt64.ofNat (2 ^ 64 - 1))
    (attempt : UInt32) (waited waited' : UInt64) (f : Failure) :
    p.accepts attempt waited f = p.accepts attempt waited' f := by
  unfold accepts
  rw [decide_eq_true (le_unlimited h), decide_eq_true (le_unlimited h)]

namespace RetryLocals

/-- The decision reads the attempt number, the accumulated wait and the failure. -/
theorem retryCondition_eq (p : RetryPolicy) (l : RetryLocals) :
    l.retryCondition p = (p.accepts l.attempt l.rateLimitWaitTotal l.failure,
      { l with rateLimitWaitTotal := p.charged l.rateLimitWaitTotal l.failure }) := by
  obtain ⟨attempt, error, sleepTag, retryable, rateLimited, sleepMs, waited, errFlag, hitFlag⟩ := l
  cases retryable <;> cases rateLimited <;> cases sleepTag <;> rfl

theorem failure_captureFailure (l : RetryLocals) (info : ErrorInfo) :
    (l.captureFailure errorText info).failure = agentRetryErrorInfo errorText info := by
  have hsleep :
      (if info.retryAfterMs.isSome then some (info.retryAfterMs.getD l.sleepMs) else none) =
      info.retryAfterMs := by
    cases info.retryAfterMs <;> rfl
  unfold failure captureFailure retryErrorInfo captureRetrySleep agentRetryErrorInfo
  simp only [hsleep]

theorem retryCondition_captureFailure (p : RetryPolicy) (l : RetryLocals) (info : ErrorInfo) :
    (l.captureFailure errorText info).retryCondition p =
      (p.accepts l.attempt l.rateLimitWaitTotal (agentRetryErrorInfo errorText info),
        { l.captureFailure errorText info with
          rateLimitWaitTotal :=
            p.charged l.rateLimitWaitTotal (agentRetryErrorInfo errorText info) }) := by
  rw [retryCondition_eq, failure_captureFailure]
  rfl

/-- Two executions at the same attempt whose accumulated waits the policy cannot tell apart. -/
def Agree (p : RetryPolicy) (l l' : RetryLocals) : Prop :=
  l.attempt = l'.attempt ∧
    (l.rateLimitWaitTotal = l'.rateLimitWaitTotal ∨ p.rateLimitBudgetMs = UInt64.ofNat (2 ^ 64 - 1))

/-- One decision: executions that agree decide alike, and agree at the next attempt. -/
theorem Agree.retryCondition (h : Agree p l l') (errorText : ErrorInfo → Bytes) (info : ErrorInfo) :
    let d := (l.captureFailure errorText info).retryCondition p
    let d' := (l'.captureFailure errorText info).retryCondition p
    d.1 = d'.1 ∧ d.2.error = d'.2.error ∧
      Agree p (d.2.advanceRetryAttempt.retryDelay p) (d'.2.advanceRetryAttempt.retryDelay p) := by
  obtain ⟨hattempt, hwait⟩ := h
  have hnext : l.attempt + 1 = l'.attempt + 1 := by rw [hattempt]
  simp only [retryCondition_captureFailure, hattempt]
  refine ⟨?_, rfl, hnext, ?_⟩
  · obtain hwait | hmax := hwait
    · rw [hwait]
    · exact RetryPolicy.accepts_of_unlimited hmax _ _ _ _
  · refine hwait.imp_left fun hwait => ?_
    show p.charged l.rateLimitWaitTotal _ = p.charged l'.rateLimitWaitTotal _
    rw [hwait]

end RetryLocals

/-! ### Whole loops -/

/-- What a step shows of its loop: the number of invocations, and how it ends. -/
def LoopEnd.outcome (e : LoopEnd) : ℕ × Verdict := (e.invocations, e.verdict)

/-- The whole loop, by induction on the results: executions that agree end alike. -/
theorem retryLoop_congr (h : RetryLocals.Agree p l l') (results : List InvokeResult) :
    (retryLoop p errorText l results).outcome = (retryLoop p errorText l' results).outcome := by
  induction results generalizing l l' with
  | nil => rfl
  | cons r rest ih =>
    cases r with
    | ok output => rfl
    | error info =>
      obtain ⟨hdecision, herror, hagree⟩ := h.retryCondition errorText info
      simp only [retryLoop, hdecision]
      split
      · have hrest := ih hagree
        simp only [LoopEnd.outcome, Prod.mk.injEq] at hrest ⊢
        exact ⟨congrArg (· + 1) hrest.1, hrest.2⟩
      · simp only [LoopEnd.outcome, herror]

/-! ### Telling two waits apart -/

/-- A rate-limit error that asks to wait. -/
def rateLimitError (retryAfterMs : UInt64) : ErrorInfo :=
  ⟨"RATE_LIMITED", "", "transient", "", true, some retryAfterMs, none⟩

/-- A rate-limit error followed by a success is retried iff the wait is within the budget. -/
theorem agentRetries_rateLimitError (l : RetryLocals) (ms : UInt64) :
    (agentRetries p errorText l [.error (rateLimitError ms), .ok []]).invocations =
      if l.rateLimitWaitTotal + ms ≤ p.rateLimitBudgetMs then 2 else 1 := by
  have hcode : agentErrorCodeIsRateLimited "RATE_LIMITED" = true := by decide
  simp only [agentRetries, retryLoop, RetryLocals.retryCondition_captureFailure, rateLimitError,
    agentRetryErrorInfo, RetryPolicy.accepts, RetryPolicy.charged, hcode]
  by_cases h : l.rateLimitWaitTotal + ms ≤ p.rateLimitBudgetMs <;> simp [h]

/-- Within a limited budget, some waiting time tells an accumulated wait from none. -/
theorem exists_probe {waited budget : UInt64} (hwaited : waited ≠ 0)
    (hbudget : budget ≠ UInt64.ofNat (2 ^ 64 - 1)) :
    ∃ ms : UInt64, ms ≤ budget ∧ ¬ waited + ms ≤ budget := by
  have hpos : 0 < waited.toNat := by
    rw [Nat.pos_iff_ne_zero]
    exact fun h => hwaited (UInt64.toNat_inj.mp h)
  have hlt : budget.toNat < 2 ^ 64 - 1 := by
    have hne : budget.toNat ≠ 2 ^ 64 - 1 := by
      intro h
      apply hbudget
      rw [← h, UInt64.ofNat_toNat]
    have := budget.toNat_lt
    omega
  -- the wait that is one too many, or none at all if there are too many already
  by_cases h : waited.toNat ≤ budget.toNat + 1
  · refine ⟨UInt64.ofNat (budget.toNat + 1 - waited.toNat), ?_, ?_⟩
    · rw [UInt64.le_iff_toNat_le, UInt64.toNat_ofNat', Nat.mod_eq_of_lt (by omega)]
      omega
    · rw [UInt64.le_iff_toNat_le, UInt64.toNat_add, UInt64.toNat_ofNat',
        Nat.mod_eq_of_lt (a := _ - _) (by omega), Nat.mod_eq_of_lt (by omega)]
      omega
  · refine ⟨0, ?_, ?_⟩
    · rw [UInt64.le_iff_toNat_le]
      exact Nat.zero_le _
    · rw [UInt64.le_iff_toNat_le, UInt64.add_zero]
      omega

/-- **Retry decisions depend only on the step** exactly when the step is entered with no
accumulated rate-limit wait, or its budget is the largest there is. `before` is any sequence
of steps executed earlier in the run. -/
theorem agentRetries_independent_iff (p : RetryPolicy) (errorText : ErrorInfo → Bytes)
    (before : List Executed) :
    (∀ results, (agentRetries p errorText (localsAfter errorText before) results).outcome =
      (agentRetries p errorText RetryLocals.zero results).outcome) ↔
    (localsAfter errorText before).rateLimitWaitTotal = 0 ∨
      p.rateLimitBudgetMs = UInt64.ofNat (2 ^ 64 - 1) := by
  constructor
  · intro h
    by_contra hne
    rw [not_or] at hne
    obtain ⟨ms, hle, hnle⟩ := exists_probe hne.1 hne.2
    have hinvocations := congrArg Prod.fst (h [.error (rateLimitError ms), .ok []])
    simp only [LoopEnd.outcome, agentRetries_rateLimitError] at hinvocations
    rw [if_neg hnle, if_pos (by simpa [RetryLocals.zero] using hle)] at hinvocations
    cases hinvocations
  · intro h results
    have hagree : RetryLocals.Agree p { localsAfter errorText before with attempt := 1 }
        { RetryLocals.zero with attempt := 1 } := ⟨rfl, h⟩
    exact retryLoop_congr hagree results

/-! ### The delay before a retry -/

/-- The power of two in the delay before an attempt. -/
def backoffExponent (attempt total : UInt32) : ℕ := max (min attempt.toNat total.toNat) 2 - 2

theorem toNat_retryDelayMs (attempt total : UInt32) (base limit : UInt64) :
    (retryDelayMs attempt total base limit none).toNat
      = min (base.toNat * (2 ^ backoffExponent attempt total % 2 ^ 64)) limit.toNat := by
  have hmin : (min attempt total).toNat = min attempt.toNat total.toNat := by
    simp only [UInt32.min_def, UInt32.le_iff_toNat_le, apply_ite UInt32.toNat, Nat.min_def]
  have hexp : (min attempt total).toNat - 2 = backoffExponent attempt total := by
    unfold backoffExponent
    omega
  have hlimit := limit.toNat_lt
  unfold retryDelayMs
  simp only [hexp]
  generalize base.toNat * (2 ^ backoffExponent attempt total % 2 ^ 64) = product
  have hsaturated : (UInt64.ofNat (min product (2 ^ 64 - 1))).toNat = min product (2 ^ 64 - 1) := by
    rw [UInt64.toNat_ofNat', Nat.mod_eq_of_lt (by omega)]
  simp only [UInt64.min_def, UInt64.le_iff_toNat_le, apply_ite UInt64.toNat, hsaturated]
  split <;> omega

/-- The multiplier is the power of two, or nothing once the power has left the machine word. -/
theorem backoff_multiplier (exponent : ℕ) :
    2 ^ exponent % 2 ^ 64 = if exponent < 64 then 2 ^ exponent else 0 := by
  split
  · next h => exact Nat.mod_eq_of_lt (Nat.pow_lt_pow_right (by decide) h)
  · next h => exact Nat.mod_eq_zero_of_dvd (Nat.pow_dvd_pow 2 (Nat.le_of_not_lt h))

/-- **The delay before a retry** is the base delay doubled for every attempt after the second, up
to the limit, for the first 65 attempts; then the doubling leaves the machine word and the delay is
nothing. -/
theorem retry_backoff_iff (attempt total : UInt32) (base limit : UInt64) :
    (2 ^ backoffExponent attempt total < 2 ^ 64
        ∧ (retryDelayMs attempt total base limit none).toNat
          = min (base.toNat * 2 ^ backoffExponent attempt total) limit.toNat
        ∧ (∀ earlier ≤ attempt, retryDelayMs earlier total base limit none
          ≤ retryDelayMs attempt total base limit none)
      ↔ min attempt.toNat total.toNat < 66)
    ∧ ((retryDelayMs attempt total base limit none).toNat
          = min (base.toNat * 2 ^ backoffExponent attempt total) limit.toNat
      ↔ min attempt.toNat total.toNat < 66 ∨ base = 0 ∨ limit = 0)
    ∧ retryDelayMs attempt total base limit none ≤ limit := by
  have hexp : backoffExponent attempt total < 64 ↔ min attempt.toNat total.toNat < 66 := by
    unfold backoffExponent
    omega
  have hlimit : retryDelayMs attempt total base limit none ≤ limit := by
    rw [UInt64.le_iff_toNat_le, toNat_retryDelayMs]
    exact Nat.min_le_right _ _
  by_cases h : backoffExponent attempt total < 64
  · have hvalue := toNat_retryDelayMs attempt total base limit
    rw [backoff_multiplier, if_pos h] at hvalue
    refine ⟨iff_of_true ⟨Nat.pow_lt_pow_right (by decide) h, hvalue, fun earlier hle => ?_⟩
      (hexp.mp h), iff_of_true hvalue (Or.inl (hexp.mp h)), hlimit⟩
    -- an earlier attempt has a smaller power, which does not overflow either
    have hmono : backoffExponent earlier total ≤ backoffExponent attempt total := by
      rw [UInt32.le_iff_toNat_le] at hle
      unfold backoffExponent
      omega
    rw [UInt64.le_iff_toNat_le, hvalue, toNat_retryDelayMs, backoff_multiplier,
      if_pos (Nat.lt_of_le_of_lt hmono h)]
    exact min_le_min_right _ (Nat.mul_le_mul_left _ (Nat.pow_le_pow_right (by decide) hmono))
  · have hzero := toNat_retryDelayMs attempt total base limit
    rw [backoff_multiplier, if_neg h, Nat.mul_zero, Nat.zero_min] at hzero
    refine ⟨iff_of_false (fun hall => h ?_) (mt hexp.mpr h), ?_, hlimit⟩
    · exact (Nat.pow_lt_pow_iff_right (by decide)).mp hall.1
    · have htoNat : ∀ delay : UInt64, delay.toNat = 0 ↔ delay = 0 := fun delay =>
        UInt64.toNat_inj (b := 0)
      rw [hzero, or_iff_right (mt hexp.mpr h), eq_comm, Nat.min_eq_zero_iff, Nat.mul_eq_zero,
        or_iff_left (Nat.two_pow_pos _).ne', htoNat, htoNat]

/-- With a base delay of a millisecond and a limit of a second, the delay has reached the limit
before attempt 65, and before attempt 66 there is none. -/
theorem retry_backoff_wraps :
    retryDelayMs 65 66 1 1000 none = 1000 ∧ retryDelayMs 66 66 1 1000 none = 0
      ∧ min ((1 : UInt64).toNat * 2 ^ backoffExponent 66 66) (1000 : UInt64).toNat = 1000 := by
  decide

/-! ### Two agents in a row -/

/-- An agent followed by another one, with a budget of a minute. -/
def agentAfterAgentGraph : ExecutionGraph where
  entryPoint := "first"
  durable := some false
  rateLimitBudgetMs := 60000
  steps := [⟨"first", false, .agent ⟨"http", 0, none, none, none, none, true⟩⟩,
    ⟨"second", false, .agent ⟨"http", 1, none, none, none, none, true⟩⟩, ⟨"done", false, .finish⟩]
  executionPlan := [⟨"first", "second", none, false, none⟩, ⟨"second", "done", none, false, none⟩]

/-- The settings of the two steps. -/
def rateLimitedAgent (stepId : StepId) (agentId : ℕ) : AgentSettings :=
  ⟨stepId, agentId, "http", false, false, 5, 2000, 60000⟩

/-- The policy of both steps. -/
def rateLimitedPolicy : RetryPolicy := ⟨5, 2000, 60000, by decide⟩

/-- The first step waits 40 s for its rate limit and succeeds. The second one is then
failed by a rate limit of 30 s, which alone it would have waited for. -/
theorem agentAfterAgent_not_independent :
    directRunPlan 9 agentAfterAgentGraph [] = .ok (.agent (rateLimitedAgent "first" 0)
      (.agent (rateLimitedAgent "second" 1) (.finish "done" false) none) none) ∧
    (rateLimitedAgent "first" 0).retryPolicy? = some rateLimitedPolicy ∧
    (rateLimitedAgent "second" 1).retryPolicy? = some rateLimitedPolicy ∧
    (let first : Executed := .agent rateLimitedPolicy [.error (rateLimitError 40000), .ok [1]]
     let results : List InvokeResult := [.error (rateLimitError 30000), .ok [2]]
     (agentRetries rateLimitedPolicy (fun _ => []) RetryLocals.zero results).outcome =
        (2, .succeeded [2]) ∧
      (agentRetries rateLimitedPolicy (fun _ => [])
        (localsAfter (fun _ => []) [first]) results).outcome = (1, .failed [])) := by
  refine ⟨rfl, rfl, rfl, by decide, by decide⟩

/-- A signal wait with a deadline leaves the deadline in the place of the accumulated wait. -/
example :
    (agentRetries rateLimitedPolicy (fun _ => [])
      (localsAfter (fun _ => []) [.waitForSignal 1000 (some 1700000000000)])
      [.error (rateLimitError 1000), .ok []]).outcome = (1, .failed []) := by
  decide

end Runtara
