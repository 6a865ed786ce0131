/-
  The retry loop of an `Agent` step.

  `emit_agent_plan` (`compile/agent.rs`) stitches the helpers of `compile/agent_retry.rs`
  into a loop: invoke, classify the error, decide, wait, try again. The state of the loop is
  in locals of the one emitted function, which all `Agent` steps share and which `Delay` and
  `WaitForSignal` use under other names (`RetryLocals`). Errors that are rate limits
  are retried within a budget of waiting time, other retryable errors within a number of
  attempts.

  A durable step also writes checkpoints: the result of the step under its cache key, and
  each failed attempt, encoded as an envelope, under a key of its own. `DurableAgent` is the
  loop with its checkpoints, step by step, so that it can be stopped between any two.
-/
import Mathlib.Data.List.Infix
import Runtara.Machine.LittleEndian
import Runtara.Machine.Restart
import Runtara.Plan.RunPlan

namespace Runtara

/-! ### Results of an invocation -/

/-- The `error-info` of the agent interface. -/
structure ErrorInfo where
  code : String
  message : String
  category : String
  severity : String
  retryable : Bool
  retryAfterMs : Option UInt64
  attributes : Option String
deriving DecidableEq, Repr

/-- What an invocation returns. -/
abbrev InvokeResult := Except ErrorInfo Bytes

def agentErrorCodeIsRateLimited (code : String) : Bool :=
  decide ("RATE_LIMITED".toList <:+: code.toList)

/-- How a failed attempt is classified: what the retry decision reads of it, and the error
payload it leaves. -/
structure Failure where
  retryable : Bool
  rateLimited : Bool
  retryAfterMs : Option UInt64
  payload : Bytes
deriving DecidableEq, Repr

/-- `agent_retry_error_info`, with the JSON text of the error as a parameter. -/
def agentRetryErrorInfo (errorText : ErrorInfo → Bytes) (info : ErrorInfo) : Failure where
  retryable := info.retryable && info.category != "permanent"
  rateLimited := agentErrorCodeIsRateLimited info.code
  retryAfterMs := info.retryAfterMs
  payload := errorText info

/-! ### Policy -/

/-- The retry settings of a step that has retries. -/
structure RetryPolicy where
  maxRetries : UInt32
  retryDelayMs : UInt64
  rateLimitBudgetMs : UInt64
  maxRetries_pos : 0 < maxRetries

/-- The policy of an `Agent` node; without retries there is no loop. -/
def AgentSettings.retryPolicy? (c : AgentSettings) : Option RetryPolicy :=
  if h : 0 < UInt32.ofNat c.maxRetries then
    some ⟨UInt32.ofNat c.maxRetries, UInt64.ofNat c.retryDelayMs,
      UInt64.ofNat c.rateLimitBudgetMs, h⟩
  else none

/-- `retry_delay_ms`, with the wrapping power and the saturating product of the source. -/
def retryDelayMs (attempt total : UInt32) (baseDelayMs maxDelayMs : UInt64)
    (retryAfterMs : Option UInt64) : UInt64 :=
  match retryAfterMs with
  | some ms => min ms maxDelayMs
  | none =>
    let multiplier := 2 ^ ((min attempt total).toNat - 2) % 2 ^ 64
    min (UInt64.ofNat (min (baseDelayMs.toNat * multiplier) (2 ^ 64 - 1))) maxDelayMs

/-! ### Locals -/

/-- The locals of the retry loop. `error` is the error payload (the source has its address
and length), `sleepTag` and `sleepMs` the captured retry-after. -/
structure RetryLocals where
  attempt : UInt32
  error : Bytes
  sleepTag : Bool
  retryable : Bool
  rateLimited : Bool
  sleepMs : UInt64
  rateLimitWaitTotal : UInt64
  attemptErrFlag : Bool
  attemptHitFlag : Bool
deriving DecidableEq, Repr

namespace RetryLocals

/-- Locals are zero when the function is entered. -/
def zero : RetryLocals := ⟨0, [], false, false, false, 0, 0, false, false⟩

/-- The failure the locals describe. -/
def failure (l : RetryLocals) : Failure :=
  ⟨l.retryable, l.rateLimited, if l.sleepTag then some l.sleepMs else none, l.error⟩

/-- `emit_agent_capture_retry_sleep`: the time is only written if there is one. -/
def captureRetrySleep (l : RetryLocals) (info : ErrorInfo) : RetryLocals :=
  { l with sleepTag := info.retryAfterMs.isSome, sleepMs := info.retryAfterMs.getD l.sleepMs }

/-- `emit_agent_retry_error_info`. -/
def retryErrorInfo (l : RetryLocals) (f : Failure) : RetryLocals :=
  { l with error := f.payload, retryable := f.retryable, rateLimited := f.rateLimited }

/-- What a fresh failure leaves in the locals. -/
def captureFailure (errorText : ErrorInfo → Bytes) (l : RetryLocals) (info : ErrorInfo) :
    RetryLocals :=
  { (l.captureRetrySleep info).retryErrorInfo (agentRetryErrorInfo errorText info) with
    attemptErrFlag := true }

/-- `emit_agent_retry_condition`: the decision, and the waiting time charged to the budget. -/
def retryCondition (p : RetryPolicy) (l : RetryLocals) : Bool × RetryLocals :=
  if l.retryable then
    if l.rateLimited then
      let wait := if l.sleepTag then l.sleepMs else p.retryDelayMs
      let l := { l with rateLimitWaitTotal := l.rateLimitWaitTotal + wait }
      (l.rateLimitWaitTotal ≤ p.rateLimitBudgetMs, l)
    else (l.attempt ≤ p.maxRetries, l)
  else (false, l)

/-- `emit_agent_advance_retry_attempt`. -/
def advanceRetryAttempt (l : RetryLocals) : RetryLocals := { l with attempt := l.attempt + 1 }

/-- `emit_agent_retry_delay`. -/
def retryDelay (p : RetryPolicy) (l : RetryLocals) : RetryLocals :=
  let retryAfterMs := if l.sleepTag then some l.sleepMs else none
  { l with
    sleepMs := retryDelayMs l.attempt (p.maxRetries + 1) p.retryDelayMs p.rateLimitBudgetMs
      retryAfterMs }

end RetryLocals

/-! ### The loop without checkpoints -/

/-- How a loop ends; `unfinished` if it waits for the result of a further invocation. -/
inductive Verdict where
  | succeeded (output : Bytes)
  | failed (error : Bytes)
  | unfinished
deriving DecidableEq, Repr

/-- A loop that has consumed `invocations` results. -/
structure LoopEnd where
  invocations : ℕ
  verdict : Verdict
  locals : RetryLocals

/-- The loop, from its head, on the results of its invocations. -/
def retryLoop (p : RetryPolicy) (errorText : ErrorInfo → Bytes) :
    RetryLocals → List InvokeResult → LoopEnd
  | l, [] => ⟨0, .unfinished, l⟩
  | l, .ok output :: _ => ⟨1, .succeeded output, { l with attemptErrFlag := false }⟩
  | l, .error info :: rest =>
    let decision := (l.captureFailure errorText info).retryCondition p
    if decision.1 then
      let e := retryLoop p errorText (decision.2.advanceRetryAttempt.retryDelay p) rest
      { e with invocations := e.invocations + 1 }
    else ⟨1, .failed decision.2.error, decision.2⟩

/-- The retry loop of `emit_agent_plan`: only the attempt number is set before it. -/
def agentRetries (p : RetryPolicy) (errorText : ErrorInfo → Bytes) (l : RetryLocals)
    (results : List InvokeResult) : LoopEnd :=
  retryLoop p errorText { l with attempt := 1 } results

/-- The executions of steps that write the locals of the retry loop. A `Delay` writes its
duration; when it suspends it also writes the deadline, but then the run ends. A
`WaitForSignal` writes its poll interval, whether it has a timeout, and the deadline. -/
inductive Executed where
  | agent (policy : RetryPolicy) (results : List InvokeResult)
  | delay (durationMs : UInt64)
  | waitForSignal (pollIntervalMs : UInt64) (deadlineMs : Option UInt64)

/-- The locals after the execution of a step. -/
def Executed.apply (errorText : ErrorInfo → Bytes) (l : RetryLocals) : Executed → RetryLocals
  | agent p results => (agentRetries p errorText l results).locals
  | delay durationMs => { l with sleepMs := durationMs }
  | waitForSignal pollIntervalMs deadlineMs =>
    { l with sleepTag := deadlineMs.isSome, rateLimitWaitTotal := deadlineMs.getD 0,
             sleepMs := pollIntervalMs }

/-- The locals after the steps executed so far in a run. -/
def localsAfter (errorText : ErrorInfo → Bytes) (before : List Executed) : RetryLocals :=
  before.foldl (Executed.apply errorText) RetryLocals.zero

/-! ### Checkpoints -/

abbrev Store := List (String × Bytes)

/-- `handle_checkpoint`: an existing checkpoint is kept, and an empty state is not saved. -/
def Store.checkpoint (store : Store) (key : String) (state : Bytes) : Store :=
  if (store.lookup key).isSome || state.isEmpty then store else (key, state) :: store

theorem Store.lookup_checkpoint_self (store : Store) (key : String) {state : Bytes}
    (h : state ≠ []) : (store.checkpoint key state).lookup key =
      some ((store.lookup key).getD state) := by
  unfold checkpoint
  cases hkey : store.lookup key with
  | some old => simp [hkey]
  | none => simp [h]

theorem Store.lookup_checkpoint_of_ne (store : Store) {key key' : String} (state : Bytes)
    (h : key' ≠ key) : (store.checkpoint key state).lookup key' = store.lookup key' := by
  unfold checkpoint
  split
  · rfl
  · have hne : (key' == key) = false := beq_eq_false_iff_ne.mpr h
    rw [List.lookup_cons, hne]

def agentAttemptResultKey (cacheKey : String) (attempt : UInt32) : String :=
  cacheKey ++ ("::attempt::" ++ attempt.toNat.repr)

def retrySleepKey (cacheKey : String) (attempt : UInt32) : String :=
  cacheKey ++ ("::retry_sleep::" ++ attempt.toNat.repr)

/-- `agent_attempt_envelope`: a header of twelve bytes, then the payload. -/
def agentAttemptEnvelope (tag : UInt8) (retryable rateLimited retryAfterTag : Bool)
    (retryAfterMs : UInt64) (payload : Bytes) : Bytes :=
  tag :: retryable.toUInt8 :: rateLimited.toUInt8 :: retryAfterTag.toUInt8 ::
    (LittleEndian.encode 8 retryAfterMs.toNat ++ payload)

namespace RetryLocals

/-- The envelope of the failure in the locals. -/
def envelope (l : RetryLocals) : Bytes :=
  agentAttemptEnvelope 1 l.retryable l.rateLimited l.sleepTag l.sleepMs l.error

/-- `emit_agent_attempt_decode`, with the loads at fixed offsets of the source. -/
def attemptDecode (l : RetryLocals) (env : Bytes) : RetryLocals :=
  let load8 (offset : ℕ) : Bool := env.getD offset 0 != 0
  { l with
    attemptErrFlag := load8 0
    retryable := load8 1
    rateLimited := load8 2
    sleepTag := load8 3
    sleepMs := UInt64.ofNat (LittleEndian.decode ((env.drop 4).take 8))
    error := env.drop 12 }

end RetryLocals

/-- A durable `Agent` step with retries, and what its invocations return: `outcome n` is the
result of attempt `n` whenever it is invoked. -/
structure DurableAgent where
  policy : RetryPolicy
  cacheKey : String
  errorText : ErrorInfo → Bytes
  outcome : UInt32 → InvokeResult

/-- Where the emitted code of the step is. -/
inductive AgentPoint where
  /-- before the lookup of the step checkpoint -/
  | lookup
  /-- at the head of the loop, before the lookup of the attempt checkpoint -/
  | attempt
  /-- before the invocation -/
  | invoke
  /-- after the invocation, with its result -/
  | invoked (result : InvokeResult)
  /-- before the retry decision -/
  | decide
  /-- before the backoff -/
  | backoff
  /-- before the step checkpoint -/
  | save (output : Bytes)
  | succeeded (output : Bytes)
  | failed (error : Bytes)
deriving DecidableEq, Repr

/-- The state of a durable step. Only the store survives a stop. -/
structure AgentState where
  store : Store
  locals : RetryLocals
  point : AgentPoint
deriving DecidableEq, Repr

/-- What can be seen of a step: invocations, decisions (`true` for a retry), and stops,
with the attempt whose outcome is lost by the stop. -/
inductive AgentEvent where
  | invoked (attempt : UInt32)
  | decided (attempt : UInt32) (retry : Bool)
  | stopped (lost : Option UInt32)
deriving DecidableEq, Repr

namespace DurableAgent

variable (a : DurableAgent)

def attemptKey (attempt : UInt32) : String := agentAttemptResultKey a.cacheKey attempt

/-- `emit_agent_retry_delay`, `emit_agent_retry_sleep` and `emit_agent_record_retry_attempt`. The
sleep key is built in the locals of the error. -/
def backoff (l : RetryLocals) : RetryLocals :=
  let l := l.retryDelay a.policy
  if l.sleepTag then
    { l with error := (retrySleepKey a.cacheKey l.attempt).toUTF8.data.toList }
  else l

/-- One step of the emitted code of the durable step. -/
def step (s : AgentState) : AgentState :=
  match s.point with
  | .lookup => match s.store.lookup a.cacheKey with
    | some output => { s with point := .succeeded output }
    | none => { s with locals := { s.locals with attempt := 1 }, point := .attempt }
  | .attempt => match s.store.lookup (a.attemptKey s.locals.attempt) with
    | some env =>
      { s with
        locals := { s.locals.attemptDecode env with attemptHitFlag := true }
        point := .decide }
    | none => { s with locals := { s.locals with attemptHitFlag := false }, point := .invoke }
  | .invoke => { s with point := .invoked (a.outcome s.locals.attempt) }
  | .invoked (.ok output) =>
    { s with locals := { s.locals with attemptErrFlag := false }, point := .save output }
  | .invoked (.error info) =>
    let l := s.locals.captureFailure a.errorText info
    { store := s.store.checkpoint (a.attemptKey l.attempt) l.envelope, locals := l,
      point := .decide }
  | .decide =>
    let decision := s.locals.retryCondition a.policy
    if decision.1 then
      let l := decision.2.advanceRetryAttempt
      -- a replayed attempt has waited before
      { s with locals := l, point := if l.attemptHitFlag then .attempt else .backoff }
    else { s with locals := decision.2, point := .failed decision.2.error }
  | .backoff => { s with locals := a.backoff s.locals, point := .attempt }
  | .save output =>
    { s with store := s.store.checkpoint a.cacheKey output, point := .succeeded output }
  | .succeeded _ | .failed _ => s

def emits (s : AgentState) : List AgentEvent :=
  match s.point with
  | .invoke => [.invoked s.locals.attempt]
  | .decide => [.decided s.locals.attempt (s.locals.retryCondition a.policy).1]
  | _ => []

/-- The attempt that has been invoked and whose outcome is not stored. -/
def unstored (s : AgentState) : Option UInt32 :=
  match s.point with
  | .invoked _ | .save _ => some s.locals.attempt
  | .succeeded _ => if (s.store.lookup a.cacheKey).isSome then none else some s.locals.attempt
  | _ => none

/-- The step as a machine: a stop keeps the store, and the replay begins with the lookup and
no accumulated wait. -/
def machine : Restart.Machine AgentState AgentEvent where
  step := a.step
  emits := a.emits
  stops s := [.stopped (a.unstored s)]
  Restarts s t := t.store = s.store ∧ t.point = .lookup ∧ t.locals.rateLimitWaitTotal = 0

/-- The step is entered for the first time: nothing of it is stored. -/
structure Initial (s : AgentState) : Prop where
  point : s.point = .lookup
  waited : s.locals.rateLimitWaitTotal = 0
  step_absent : s.store.lookup a.cacheKey = none
  attempt_absent : ∀ n, s.store.lookup (a.attemptKey n) = none

end DurableAgent

end Runtara
