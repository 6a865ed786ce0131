/-
  How long the retry loops run.

  `Agent`, `Split` and `EmbedWorkflow` steps retry a failed attempt. The loops of the last two are
  alike; they differ from that of an `Agent` step in where the delay stands and in that they clear
  the accumulated wait. What a loop decides depends on the attempt number, a `u32`, and on the
  accumulated wait, a `u64`, and both wrap around.

  So a loop stops exactly if some failure is refused by these two (`retry_loops_stop_iff`), which is
  the case when every rate limit asks for a wait that fits (`exists_refused`): the wait then grows
  with every rate limit, and the attempt number passes every limit but the largest again and again.
-/
import Mathlib.Data.Nat.Count
import Runtara.Agent.Equiv.Retry
import Runtara.Failure.Payload

namespace Runtara

/-! ### The loops -/

/-- The steps that have a retry loop. -/
inductive RetryingStep where
  | agent (settings : AgentSettings)
  | split (maxRetries : UInt32) (retryDelayMs : UInt64)
  | embedWorkflow (maxRetries : UInt32) (retryDelayMs : UInt64)

namespace RetryingStep

def policy? : RetryingStep → Option RetryPolicy
  | .agent settings => settings.retryPolicy?
  | .split maxRetries retryDelayMs => workflowRetryPolicy? maxRetries retryDelayMs
  | .embedWorkflow maxRetries retryDelayMs => workflowRetryPolicy? maxRetries retryDelayMs

/-- The locals when the loop is entered. -/
def enter (l : RetryLocals) : RetryingStep → RetryLocals
  | .agent _ => { l with attempt := 1 }
  | _ => { l with attempt := 1, rateLimitWaitTotal := 0 }

/-- What a failed attempt leaves in the locals. -/
def capture (l : RetryLocals) (f : Failure) : RetryingStep → RetryLocals
  | .agent _ =>
    { l with
      sleepTag := f.retryAfterMs.isSome
      sleepMs := f.retryAfterMs.getD l.sleepMs
      error := f.payload
      retryable := f.retryable
      rateLimited := f.rateLimited
      attemptErrFlag := true }
  | _ =>
    { l.workflowErrorInfo ⟨f.retryable, f.rateLimited, f.retryAfterMs⟩ with error := f.payload }

/-- The delay before the next attempt; a `Split` or `EmbedWorkflow` step has it at the head of its
loop (`emit_split_retry_before_attempt`, `emit_embed_retry_before_attempt`). -/
def backoff (p : RetryPolicy) (l : RetryLocals) : RetryingStep → RetryLocals
  | .agent _ => l.retryDelay p
  | _ => if 1 < l.attempt then l.retryDelay p else l

/-- One failed attempt: the locals before the next one, or `none` if there is none. -/
def next (step : RetryingStep) (l : RetryLocals) (f : Failure) : Option RetryLocals :=
  step.policy?.bind fun p =>
    let decision := (step.capture l f).retryCondition p
    if decision.1 then some (step.backoff p decision.2.advanceRetryAttempt) else none

/-- The locals after `n` failed attempts, or `none` if not so many are made. -/
def localsAt (step : RetryingStep) (l : RetryLocals) (fs : ℕ → Failure) (n : ℕ) :
    Option RetryLocals :=
  ((List.range n).map fs).foldlM step.next (step.enter l)

/-- The loop of an `Agent` step is `agentRetries`. -/
theorem localsAt_agent {settings : AgentSettings} {p : RetryPolicy}
    (hp : settings.retryPolicy? = some p) (errorText : ErrorInfo → Bytes) (l : RetryLocals)
    (infos : ℕ → ErrorInfo) (n : ℕ) :
    ((agent settings).localsAt l (agentRetryErrorInfo errorText ∘ infos) n).isSome ↔
      (agentRetries p errorText l ((List.range n).map (.error ∘ infos))).verdict = .unfinished := by
  unfold localsAt agentRetries enter
  rw [← List.map_map, ← List.map_map]
  generalize (List.range n).map infos = infos
  generalize { l with attempt := 1 } = l
  induction infos generalizing l with
  | nil => exact ⟨fun _ => rfl, fun _ => rfl⟩
  | cons info infos ih =>
    have hnext : (agent settings).next l (agentRetryErrorInfo errorText info) =
        let decision := (l.captureFailure errorText info).retryCondition p
        if decision.1 then some (decision.2.advanceRetryAttempt.retryDelay p) else none := by
      rw [next, policy?, hp]
      rfl
    rw [List.map_cons, List.map_cons, List.foldlM_cons, hnext, retryLoop]
    dsimp only
    split
    · exact ih _
    · exact iff_of_false Bool.false_ne_true fun h => by cases h

/-! ### Decisions -/

variable {step : RetryingStep} {p : RetryPolicy} {l l' : RetryLocals} {f : Failure}

theorem next_eq (hp : step.policy? = some p) : step.next l f =
    if p.accepts l.attempt l.rateLimitWaitTotal f then
      some (step.backoff p { step.capture l f with
        attempt := l.attempt + 1, rateLimitWaitTotal := p.charged l.rateLimitWaitTotal f })
    else none := by
  have hfailure : (step.capture l f).failure = f ∧ (step.capture l f).attempt = l.attempt ∧
      (step.capture l f).rateLimitWaitTotal = l.rateLimitWaitTotal := by
    obtain ⟨retryable, rateLimited, after, payload⟩ := f
    cases step <;> cases after <;> exact ⟨rfl, rfl, rfl⟩
  simp only [next, hp, Option.bind_some, RetryLocals.retryCondition_eq, hfailure,
    RetryLocals.advanceRetryAttempt]

theorem backoff_state (p : RetryPolicy) (l : RetryLocals) :
    (step.backoff p l).attempt = l.attempt ∧
      (step.backoff p l).rateLimitWaitTotal = l.rateLimitWaitTotal := by
  cases step with
  | agent settings => exact ⟨rfl, rfl⟩
  | _ =>
    dsimp only [backoff]
    split <;> exact ⟨rfl, rfl⟩

end RetryingStep

/-- The wait accumulated over the first `n` failures: `waited` and the waits of the rate limits. -/
def RetryPolicy.waitedAt (p : RetryPolicy) (waited : UInt64) (fs : ℕ → Failure) : ℕ → UInt64
  | 0 => waited
  | n + 1 => p.charged (p.waitedAt waited fs n) (fs n)

namespace RetryingStep

variable {step : RetryingStep} {p : RetryPolicy} {l l' : RetryLocals} {fs : ℕ → Failure} {n : ℕ}

theorem localsAt_succ :
    step.localsAt l fs (n + 1) = (step.localsAt l fs n).bind (step.next · (fs n)) := by
  unfold localsAt
  rw [List.range_succ, List.map_append, List.foldlM_append]
  simp

theorem localsAt_state (hp : step.policy? = some p) (h : step.localsAt l fs n = some l') :
    l'.attempt = UInt32.ofNat (n + 1) ∧
      l'.rateLimitWaitTotal = p.waitedAt (step.enter l).rateLimitWaitTotal fs n := by
  induction n generalizing l' with
  | zero =>
    obtain rfl := Option.some.inj h
    cases step <;> exact ⟨rfl, rfl⟩
  | succ n ih =>
    rw [localsAt_succ] at h
    obtain ⟨before, hbefore, hnext⟩ := Option.bind_eq_some_iff.mp h
    obtain ⟨hattempt, hwaited⟩ := ih hbefore
    rw [next_eq hp] at hnext
    split at hnext
    · obtain rfl := Option.some.inj hnext
      rw [(backoff_state p _).1, (backoff_state p _).2]
      exact ⟨by rw [hattempt, UInt32.ofNat_add (n + 1)]; rfl, by rw [hwaited]; rfl⟩
    · cases hnext

theorem stops_iff (hp : step.policy? = some p) : (∃ n, step.localsAt l fs n = none) ↔
    ∃ n, p.accepts (UInt32.ofNat (n + 1)) (p.waitedAt (step.enter l).rateLimitWaitTotal fs n) (fs n)
      = false := by
  have hstep : ∀ n l', step.localsAt l fs n = some l' → (step.localsAt l fs (n + 1) = none ↔
      p.accepts (UInt32.ofNat (n + 1)) (p.waitedAt (step.enter l).rateLimitWaitTotal fs n) (fs n)
        = false) := by
    intro n l' h
    obtain ⟨hattempt, hwaited⟩ := localsAt_state hp h
    rw [localsAt_succ, h, Option.bind_some, next_eq hp, hattempt, hwaited]
    split <;> simp_all
  constructor
  · rintro ⟨n, hn⟩
    by_contra hall
    refine Option.isSome_iff_ne_none.mp ?_ hn
    clear hn
    induction n with
    | zero => rfl
    | succ n ih =>
      obtain ⟨l', hl'⟩ := Option.isSome_iff_exists.mp ih
      exact Option.isSome_iff_ne_none.mpr fun hnone => hall ⟨n, (hstep n l' hl').mp hnone⟩
  · rintro ⟨n, hn⟩
    cases h : step.localsAt l fs n with
    | none => exact ⟨n, h⟩
    | some l' => exact ⟨n + 1, (hstep n l' h).mpr hn⟩

end RetryingStep

/-! ### Failures that are refused -/

section Refused

variable {p : RetryPolicy} {waited : UInt64} {fs : ℕ → Failure}

theorem RetryPolicy.accepts_iff {attempt : UInt32} {f : Failure} :
    p.accepts attempt waited f = true ↔ f.retryable = true ∧
      (f.rateLimited = true → p.charged waited f ≤ p.rateLimitBudgetMs) ∧
      (f.rateLimited = false → attempt ≤ p.maxRetries) := by
  unfold accepts
  cases f.retryable <;> cases f.rateLimited <;> simp

/-- Every rate limit asks for a wait that is not zero and fits beside the budget. -/
def RetryPolicy.Fits (p : RetryPolicy) (fs : ℕ → Failure) : Prop :=
  ∀ n, (fs n).rateLimited = true → 0 < ((fs n).retryAfterMs.getD p.retryDelayMs).toNat ∧
    ((fs n).retryAfterMs.getD p.retryDelayMs).toNat + p.rateLimitBudgetMs.toNat < 2 ^ 64

/-- The number of rate limits among the first `n` failures. -/
def rateLimits (fs : ℕ → Failure) (n : ℕ) : ℕ := Nat.count (fun i => (fs i).rateLimited = true) n

theorem rateLimits_succ (fs : ℕ → Failure) (n : ℕ) :
    rateLimits fs (n + 1) = rateLimits fs n + if (fs n).rateLimited then 1 else 0 :=
  Nat.count_succ ..

/-- The rate limits so far are at most one more than the wait, which is within the budget. -/
theorem rateLimits_le (hfits : p.Fits fs)
    (hall : ∀ n, p.accepts (UInt32.ofNat (n + 1)) (p.waitedAt waited fs n) (fs n) = true) (n : ℕ) :
    rateLimits fs n ≤ (p.waitedAt waited fs n).toNat + 1 ∧
      (0 < rateLimits fs n → (p.waitedAt waited fs n).toNat ≤ p.rateLimitBudgetMs.toNat) := by
  induction n with
  | zero => exact ⟨Nat.zero_le _, fun h => absurd h (lt_irrefl _)⟩
  | succ n ih =>
    obtain ⟨hretryable, hbudget, -⟩ := RetryPolicy.accepts_iff.mp (hall n)
    rw [rateLimits_succ, RetryPolicy.waitedAt]
    cases hlimited : (fs n).rateLimited with
    | false =>
      have hsame : p.charged (p.waitedAt waited fs n) (fs n) = p.waitedAt waited fs n := by
        rw [RetryPolicy.charged, hlimited, Bool.and_false]
        rfl
      rw [hsame]
      exact ih
    | true =>
      have hbudget := UInt64.le_iff_toNat_le.mp (hbudget hlimited)
      have hadd : p.charged (p.waitedAt waited fs n) (fs n) =
          p.waitedAt waited fs n + (fs n).retryAfterMs.getD p.retryDelayMs := by
        rw [RetryPolicy.charged, hlimited, hretryable]
        rfl
      obtain ⟨hpos, hfits⟩ := hfits n hlimited
      refine ⟨?_, fun _ => hbudget⟩
      rw [if_pos rfl]
      rcases Nat.eq_zero_or_pos (rateLimits fs n) with hzero | hsome
      · omega
      · -- the wait has been within the budget, so it does not wrap around
        have hbefore := ih.2 hsome
        rw [hadd, UInt64.toNat_add, Nat.mod_eq_of_lt (by omega)]
        omega

/-- **Some failure is refused** if the waits fit and the number of retries is not the largest there
is. -/
theorem exists_refused (hmax : p.maxRetries.toNat < 2 ^ 32 - 1) (hfits : p.Fits fs) :
    ∃ n, p.accepts (UInt32.ofNat (n + 1)) (p.waitedAt waited fs n) (fs n) = false := by
  by_contra hnone
  have hall : ∀ n, p.accepts (UInt32.ofNat (n + 1)) (p.waitedAt waited fs n) (fs n) = true :=
    fun n => Bool.not_eq_false _ ▸ fun h => hnone ⟨n, h⟩
  -- at the largest attempt number only a rate limit is accepted, and that comes round for ever
  have hround : ∀ k, k ≤ rateLimits fs (2 ^ 32 * k) := by
    intro k
    induction k with
    | zero => exact Nat.zero_le _
    | succ k ih =>
      have hlimited : (fs (2 ^ 32 * k + (2 ^ 32 - 2))).rateLimited = true := by
        by_contra hother
        have hle := (RetryPolicy.accepts_iff.mp (hall _)).2.2 (Bool.not_eq_true _ ▸ hother)
        rw [UInt32.le_iff_toNat_le, UInt32.toNat_ofNat'] at hle
        omega
      have hstep := rateLimits_succ fs (2 ^ 32 * k + (2 ^ 32 - 2))
      have hbefore : rateLimits fs (2 ^ 32 * k) ≤ rateLimits fs (2 ^ 32 * k + (2 ^ 32 - 2)) :=
        Nat.count_monotone _ (by omega)
      have hafter : rateLimits fs (2 ^ 32 * k + (2 ^ 32 - 2) + 1) ≤
          rateLimits fs (2 ^ 32 * (k + 1)) :=
        Nat.count_monotone _ (by omega)
      rw [if_pos hlimited] at hstep
      omega
  have hmany := hround (p.rateLimitBudgetMs.toNat + 2)
  obtain ⟨hcount, hbudget⟩ := rateLimits_le hfits hall (2 ^ 32 * (p.rateLimitBudgetMs.toNat + 2))
  have hle := hbudget (by omega)
  omega

end Refused

/-- **When a retry loop stops.** It stops exactly if some failure is not retryable, is a rate limit
that takes the accumulated wait above the budget, or is no rate limit and comes after too many
attempts; the counters wrap around. In particular it stops if every rate limit asks for a wait that
is not zero and fits beside the budget, and the number of retries is not the largest there is. And
an attempt that is no rate limit is followed by another one only while its number is at most the
number of retries. -/
theorem retry_loops_stop_iff (step : RetryingStep) (l : RetryLocals) (fs : ℕ → Failure) :
    ((∃ n, step.localsAt l fs n = none) ↔ ∀ p, step.policy? = some p → ∃ n,
      (fs n).retryable = false ∨
      (fs n).rateLimited = true ∧
        p.rateLimitBudgetMs < p.waitedAt (step.enter l).rateLimitWaitTotal fs (n + 1) ∨
      (fs n).rateLimited = false ∧ p.maxRetries < UInt32.ofNat (n + 1)) ∧
    ((∀ p, step.policy? = some p → p.maxRetries.toNat < 2 ^ 32 - 1 ∧ p.Fits fs) →
      ∃ n, step.localsAt l fs n = none) ∧
    ∀ n l₁ l₂, step.localsAt l fs n = some l₁ → step.localsAt l fs (n + 1) = some l₂ →
      (fs n).rateLimited = false → ∃ p, step.policy? = some p ∧ l₁.attempt ≤ p.maxRetries := by
  cases hp : step.policy? with
  | none =>
    have hone : step.localsAt l fs 1 = none := by
      rw [RetryingStep.localsAt_succ]
      simp [RetryingStep.next, hp]
    refine ⟨⟨fun _ _ h => (Option.some_ne_none _ h.symm).elim, fun _ => ⟨1, hone⟩⟩,
      fun _ => ⟨1, hone⟩, ?_⟩
    intro n l₁ l₂ _ h₂
    rw [RetryingStep.localsAt_succ] at h₂
    simp [RetryingStep.next, hp] at h₂
  | some p =>
    have hstops : (∃ n, step.localsAt l fs n = none) ↔ _ := RetryingStep.stops_iff hp
    refine ⟨?_, fun h => hstops.mpr (exists_refused (h p rfl).1 (h p rfl).2), ?_⟩
    · rw [hstops]
      simp only [← Bool.not_eq_true, RetryPolicy.accepts_iff, Option.some.injEq, forall_eq',
        not_and_or, Classical.not_imp, UInt64.not_le, UInt32.not_le]
      rfl
    · intro n l₁ l₂ h₁ h₂ hother
      refine ⟨p, rfl, ?_⟩
      rw [RetryingStep.localsAt_succ, h₁, Option.bind_some, RetryingStep.next_eq hp] at h₂
      split at h₂
      · next haccepts => exact (RetryPolicy.accepts_iff.mp haccepts).2.2 hother
      · cases h₂

/-- A rate limit that may be retried at once. -/
def retryAtOnce : Failure := ⟨true, true, some 0, []⟩

/-- **Rate limits without a wait are retried for ever**, by each of the loops. -/
theorem retry_at_once_never_stops :
    (∀ n, (RetryingStep.agent ⟨"s", 0, "", false, false, 3, 1000, 60000⟩).localsAt .zero
      (fun _ => retryAtOnce) n ≠ none) ∧
    (∀ n, (RetryingStep.split 3 1000).localsAt .zero (fun _ => retryAtOnce) n ≠ none) ∧
    ∀ n, (RetryingStep.embedWorkflow 3 1000).localsAt .zero (fun _ => retryAtOnce) n ≠ none := by
  have hzero : ∀ (p : RetryPolicy) n, p.waitedAt 0 (fun _ => retryAtOnce) n = 0 := by
    intro p n
    induction n with
    | zero => rfl
    | succ n ih => rw [RetryPolicy.waitedAt, ih]; rfl
  have hnever : ∀ (step : RetryingStep) p, step.policy? = some p → p.rateLimitBudgetMs = 60000 →
      (step.enter .zero).rateLimitWaitTotal = 0 →
      ∀ n, step.localsAt .zero (fun _ => retryAtOnce) n ≠ none := by
    intro step p hp hbudget henter n hn
    obtain ⟨m, hm⟩ := (RetryingStep.stops_iff hp).mp ⟨n, hn⟩
    rw [henter, hzero, RetryPolicy.accepts, hbudget] at hm
    cases hm
  exact ⟨hnever _ _ rfl rfl rfl, hnever _ _ rfl rfl rfl, hnever _ _ rfl rfl rfl⟩

end Runtara
