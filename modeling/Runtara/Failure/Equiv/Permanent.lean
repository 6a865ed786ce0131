/-
  Retrying the permanent failure of an agent.

  The failure of an agent is a plain message, whatever its category: a retry loop around a
  workflow that receives it takes it for retryable. That happens at the retrying `Split` steps
  inside the first `EmbedWorkflow` step of the chain (`permanent_not_retried_iff`); at that step
  the run ends, so no loop further out sees the failure.
-/
import Runtara.Failure.Equiv.Wrap

namespace Runtara

open Json

variable {ν : Type} [SerdeNumber ν]

/-- An agent failure whose error info is of category `permanent`. -/
structure PermanentFailure where
  agent : AgentSite
  info : ErrorInfo
  permanent : info.category = "permanent"

/-- The text the failing step hands on. -/
def PermanentFailure.payload (ν : Type) [SerdeNumber ν] (f : PermanentFailure) : String :=
  agentErrorFromInfo f.agent (agentErrorInfoEnvelope f.info : Value ν).text

/-- The text is no JSON, although there is an envelope at its end. -/
theorem PermanentFailure.fromSlice_payload (f : PermanentFailure) :
    (fromSlice (f.payload ν) : Option (Value ν)) = none := by
  unfold payload
  exact fromSlice_agentErrorFromInfo _ _

/-- The loop that has received `error` takes it for not retryable and starts no further attempt,
whatever its locals are. -/
def NotRetried (ν : Type) [SerdeNumber ν] (autoRetryOn429 : Bool) (policy : RetryPolicy)
    (error : String) : Prop :=
  (workflowRetryInfo ν autoRetryOn429 error).retryable = false
    ∧ ∀ l : RetryLocals,
      ((l.workflowErrorInfo (workflowRetryInfo ν autoRetryOn429 error)).retryCondition policy).1
        = false

/-- The failure of a step inside the constructs passes the retry loop of a `Split` before it comes
to an `EmbedWorkflow` step or to a `Split` that tolerates it. -/
def reachesRetryingSplit : List Enclosing → Bool
  | .split false (some _) :: _ => true
  | .split false none :: outer => reachesRetryingSplit outer
  | .whileLoop :: outer => reachesRetryingSplit outer
  | _ => false

/-! ### Classification -/

theorem RetryLocals.retryCondition_of_not_retryable (l : RetryLocals) (p : RetryPolicy)
    {i : WorkflowRetryInfo} (h : i.retryable = false) :
    ((l.workflowErrorInfo i).retryCondition p).1 = false := by
  simp only [workflowErrorInfo, retryCondition, h, Bool.false_eq_true, if_false]

variable (autoRetryOn429 : Bool) (policy : RetryPolicy)

/-- Not being retryable is all that is needed. -/
theorem notRetried_iff (error : String) : NotRetried ν autoRetryOn429 policy error
      ↔ (workflowRetryInfo ν autoRetryOn429 error).retryable = false :=
  ⟨fun h => h.1, fun h => ⟨h, fun l => l.retryCondition_of_not_retryable policy h⟩⟩

variable {error : String}

section

variable (h : (fromSlice error : Option (Value ν)) = none)

include h

theorem workflowRetryInfo_message :
    workflowRetryInfo ν autoRetryOn429 error = ⟨true, false, none⟩ := by
  rw [workflowRetryInfo, h]

theorem not_notRetried_message : ¬NotRetried ν autoRetryOn429 policy error := by
  rw [notRetried_iff, workflowRetryInfo_message autoRetryOn429 h]
  exact Bool.noConfusion

/-! ### Propagation -/

variable {chain : List Enclosing}

/-- What the loops around a plain message receive: the message itself, up to the first
`EmbedWorkflow` step. -/
theorem eq_of_mem_retryReceipts {r : RetryPolicy × String} (hr : r ∈ retryReceipts ν chain error) :
    r.2 = error ∧ reachesRetryingSplit chain = true := by
  -- inwards to outwards: only a `Split` can be the first to receive it
  induction chain with
  | nil => exact absurd hr List.not_mem_nil
  | cons c outer ih =>
    cases c with
    | split dontStopOnFailed policy =>
      cases dontStopOnFailed with
      | true => exact absurd hr List.not_mem_nil
      | false =>
        cases policy with
        | none => exact ih hr
        | some p =>
          refine ⟨?_, rfl⟩
          rcases List.mem_cons.mp hr with rfl | hr
          · rfl
          · exact (ih hr).1
    | whileLoop => exact ih hr
    | embedWorkflow s policy =>
      have hwrap : embedWorkflowError ν s error = none := by
        rw [embedWorkflowError, h, Option.map_none]
      rw [retryReceipts, hwrap] at hr
      exact absurd hr List.not_mem_nil

end

theorem exists_mem_retryReceipts (error : String)
    (h : reachesRetryingSplit chain = true) : ∃ p, (p, error) ∈ retryReceipts ν chain error := by
  induction chain with
  | nil => cases h
  | cons c outer ih =>
    cases c with
    | split dontStopOnFailed policy =>
      cases dontStopOnFailed with
      | true => cases h
      | false =>
        cases policy with
        | none => exact ih h
        | some p => exact ⟨p, List.mem_cons_self⟩
    | whileLoop => exact ih h
    | embedWorkflow s policy => cases h

/-- A plain message is retried by no loop exactly when there is no retrying `Split` before the
first construct that stops it. -/
theorem message_not_retried_iff
    (hmessage : (fromSlice error : Option (Value ν)) = none) (chain : List Enclosing) :
    (∀ r ∈ retryReceipts ν chain error, NotRetried ν autoRetryOn429 r.1 r.2)
      ↔ reachesRetryingSplit chain = false := by
  rw [← Bool.not_eq_true]
  constructor
  · intro h hsplit
    obtain ⟨p, hp⟩ := exists_mem_retryReceipts (ν := ν) error hsplit
    exact not_notRetried_message autoRetryOn429 p hmessage (h (p, error) hp)
  · intro h r hr
    exact absurd (eq_of_mem_retryReceipts hmessage hr).2 h

/-- **A permanent failure of an agent is retried by no loop around it** exactly when there is no
retrying `Split` between it and the first construct that stops it. -/
theorem permanent_not_retried_iff (autoRetryOn429 : Bool) (f : PermanentFailure)
    (chain : List Enclosing) :
    (∀ r ∈ retryReceipts ν chain (f.payload ν), NotRetried ν autoRetryOn429 r.1 r.2)
      ↔ reachesRetryingSplit chain = false :=
  message_not_retried_iff autoRetryOn429 f.fromSlice_payload chain

/-- An agent failing for good. -/
def missingPage : PermanentFailure where
  agent := ⟨"fetch", "http", "get"⟩
  info := ⟨"HTTP_404", "not found", "permanent", "error", false, none, none⟩
  permanent := rfl

/-- In a `Split` with two retries the attempt that has failed for good is started again: the loop
finds the error retryable, and its condition holds after the first attempt. -/
theorem missingPage_retried :
    retryReceipts ℕ [.split false (workflowRetryPolicy? 2 1000)] (missingPage.payload ℕ)
        = [(⟨2, 1000, workflowRetryMaxDelayMs, by decide⟩, missingPage.payload ℕ)]
      ∧ (workflowRetryInfo ℕ true (missingPage.payload ℕ)).retryable = true
      ∧ ((RetryLocals.zero.advanceRetryAttempt.workflowErrorInfo
            (workflowRetryInfo ℕ true (missingPage.payload ℕ))).retryCondition
          ⟨2, 1000, workflowRetryMaxDelayMs, by decide⟩).1 = true := by
  rw [workflowRetryInfo_message true missingPage.fromSlice_payload]
  -- only that the text is no JSON has been used
  generalize missingPage.payload ℕ = text
  exact ⟨rfl, rfl, rfl⟩

end Runtara
