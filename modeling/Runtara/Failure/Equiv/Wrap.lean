/-
  Which errors of a child reach the error handling of an `EmbedWorkflow` step.

  The text of an error is read as a value exactly when it was raised with an envelope that is not
  nested too deep (`ChildError.isSome_fromSlice_payload`), so wrapping fails for every error raised
  as a plain message, among them every agent failure, and the run ends there
  (`embedAfterAttempt_continues_iff`).
-/
import Runtara.Failure.Payload

namespace Runtara

open Json List

variable {ν : Type}

/-! ### Envelopes are ordered maps -/

theorem sorted_optionString (s : Option String) : (optionString s : Value ν).Sorted := by
  cases s <;> trivial

theorem ErrorDetails.sorted_value (d : ErrorDetails ν) : d.value.Sorted :=
  Value.sorted_obj (by simp [Value.Sorted, d.context_sorted])

theorem MissingAgentInput.sorted_value (i : MissingAgentInput) : (i.value : Value ν).Sorted :=
  Value.sorted_obj (by simp [Value.Sorted, sorted_optionString])

theorem AgentInputValidationError.sorted_value (e : AgentInputValidationError) :
    (e.value : Value ν).Sorted := by
  have hinputs : Value.SortedItems (e.missingInputs.map (MissingAgentInput.value (ν := ν))) := by
    refine Value.sortedItems_iff.mpr fun v hv => ?_
    obtain ⟨i, -, rfl⟩ := mem_map.mp hv
    exact i.sorted_value
  exact Value.sorted_obj (by simp [Value.Sorted, sorted_optionString, hinputs])

variable (w : WaitTimeout)

theorem sorted_waitTimeoutErrorEnvelope : (waitTimeoutErrorEnvelope w : Value ν).Sorted :=
  Value.sorted_obj (by simp [Value.Sorted])

variable {v : Value ν}

theorem sorted_embedWorkflowErrorValue (s : EmbedSite) (hv : v.Sorted) :
    (embedWorkflowErrorValue s v).Sorted :=
  Value.sorted_obj (by simp [Value.Sorted, hv])

/-! ### Texts that are read back, and texts that are not -/

variable [SerdeNumber ν]

theorem fromSlice_message {text : String} (h : startsValue text.toList = false) :
    (fromSlice text : Option (Value ν)) = none := parse_eq_none recursionLimit h

theorem fromSlice_agentErrorFromInfo (a : AgentSite) (raw : String) :
    (fromSlice (agentErrorFromInfo a raw) : Option (Value ν)) = none := by
  apply fromSlice_message
  simp only [agentErrorFromInfo, String.toList_append, append_assoc]
  rfl

/-- No message of the standard library is a JSON text. -/
theorem fromSlice_host (opening : Opening) (rest : String) :
    (fromSlice (opening.text ++ rest) : Option (Value ν)) = none := by
  apply fromSlice_message
  rw [String.toList_append]
  cases opening <;> rfl

theorem fromSlice_waitTimeoutError :
    (fromSlice (waitTimeoutError w) : Option (Value ν)) = none := by
  apply fromSlice_message
  unfold waitTimeoutError
  simp only [String.toList_append, append_assoc]
  rfl

/-- Wrapping ends the run exactly when the error is no JSON text. -/
theorem embedAfterAttempt_eq_ended_iff (autoRetryOn429 : Bool) (s : EmbedSite)
    (policy : Option RetryPolicy) (l : RetryLocals) (childError : String) :
    embedAfterAttempt ν autoRetryOn429 s policy l childError = .ended
      ↔ (fromSlice childError : Option (Value ν)) = none := by
  unfold embedAfterAttempt embedWorkflowError
  cases hparse : (fromSlice childError : Option (Value ν)) with
  | none => simp only [Option.map_none]
  | some v =>
    simp only [Option.map_some, reduceCtorEq, iff_false]
    cases policy with
    | none => exact EmbedVerdict.noConfusion
    | some p =>
      simp only
      split <;> exact EmbedVerdict.noConfusion

variable [LawfulNumber ν]

theorem fromSlice_text (hv : v.Sorted) :
    fromSlice v.text = if v.depth ≤ recursionLimit then some v.reread else none :=
  parse_text recursionLimit hv

theorem isSome_fromSlice_text (hv : v.Sorted) :
    (fromSlice v.text : Option (Value ν)).isSome ↔ v.depth ≤ recursionLimit := by
  rw [fromSlice_text hv]
  split <;> simp_all

/-- The payload of a `While` that is out of time says what it should. -/
theorem fromSlice_whileTimeoutError :
    (fromSlice whileTimeoutError : Option (Value ν)) = some whileTimeoutValue := by
  have htext : whileTimeoutError = (Value.object [("code", .string "WHILE_TIMEOUT"),
      ("message", .string "While step exceeded its configured timeout"),
      ("category", .string "timeout"), ("severity", .string "error")] : Value ν).text := by
    unfold whileTimeoutError
    refine String.toList_inj.mp ?_
    rw [String.toList_append]
    simp [Value.text, Value.print, printEntries, printString, escape, commas]
  rw [htext]
  exact parse_text_object (by simp [Value.Sorted, Value.depth])

/-- **When the text of an error is read as a value**: if it has an envelope that is not nested
deeper than the reader goes. -/
theorem ChildError.isSome_fromSlice_payload {e : ChildError ν} {text : String}
    (h : e.payload = some text) :
    (fromSlice text : Option (Value ν)).isSome
      ↔ ∃ v, e.envelope = some v ∧ v.depth ≤ recursionLimit := by
  -- an error with an envelope is printed, so that only its depth counts
  have hprinted : ∀ v : Value ν, v.Sorted → e.envelope = some v → text = v.text →
      ((fromSlice text : Option (Value ν)).isSome
        ↔ ∃ v, e.envelope = some v ∧ v.depth ≤ recursionLimit) := by
    rintro v hv henv rfl
    simp only [isSome_fromSlice_text hv, henv, Option.some.injEq, exists_eq_left']
  -- a message is no text of a value
  have hmessage : (fromSlice text : Option (Value ν)) = none → e.envelope = none →
      ((fromSlice text : Option (Value ν)).isSome
        ↔ ∃ v, e.envelope = some v ∧ v.depth ≤ recursionLimit) := by
    intro hnone henv
    simp [hnone, henv]
  cases e with
  | errorStep d => exact hprinted d.value d.sorted_value rfl (Option.some.inj h).symm
  | agent a info =>
    obtain rfl := Option.some.inj h
    exact hmessage (fromSlice_agentErrorFromInfo a info) rfl
  | agentInput e => exact hprinted e.value e.sorted_value rfl (Option.some.inj h).symm
  | host opening rest =>
    obtain rfl := Option.some.inj h
    exact hmessage (fromSlice_host opening rest) rfl
  | waitTimeout hasErrorPlan w =>
    cases hasErrorPlan with
    | false =>
      obtain rfl := Option.some.inj h
      exact hmessage (fromSlice_waitTimeoutError w) rfl
    | true =>
      exact hprinted _ (sorted_waitTimeoutErrorEnvelope w) rfl (Option.some.inj h).symm
  | whileTimeout =>
    obtain rfl := Option.some.inj h
    rw [fromSlice_whileTimeoutError]
    exact iff_of_true rfl
      ⟨whileTimeoutValue, rfl, (parse_sorted fromSlice_whileTimeoutError).2⟩
  | runtime text =>
    obtain rfl := Option.some.inj h
    rw [Option.isSome_iff_exists]
    exact exists_congr fun v => ⟨fun hv => ⟨hv, (parse_sorted hv).2⟩, And.left⟩
  | embedded s e =>
    obtain ⟨inner, hinner, hwrap⟩ := Option.bind_eq_some_iff.mp h
    obtain ⟨v, hv, rfl⟩ := Option.map_eq_some_iff.mp hwrap
    refine hprinted _ (sorted_embedWorkflowErrorValue s (parse_sorted hv).1) ?_ rfl
    rw [envelope, hinner, Option.bind_some, hv, Option.map_some]

/-! ### After a failed attempt -/

/-- **The error of a child reaches the error handling of the `EmbedWorkflow` step** exactly when it
is raised with an envelope that is not nested too deep; any other error ends the run. -/
theorem embedAfterAttempt_continues_iff (autoRetryOn429 : Bool) (s : EmbedSite)
    (policy : Option RetryPolicy) (l : RetryLocals) (e : ChildError ν) (text : String)
    (h : e.payload = some text) :
    embedAfterAttempt ν autoRetryOn429 s policy l text ≠ .ended
      ↔ ∃ v, e.envelope = some v ∧ v.depth ≤ recursionLimit := by
  rw [Ne, embedAfterAttempt_eq_ended_iff, ← ChildError.isSome_fromSlice_payload h,
    Option.isSome_iff_ne_none]

/-- The step `call_child` embeds the workflow `child`. -/
def callChild : EmbedSite := ⟨"call_child", none, "child"⟩

/-- The error of the `Error` step `stop` of a child, with an empty context. -/
def stopDetails : ErrorDetails ℕ where
  stepId := "stop"
  name := none
  category := "permanent"
  code := "STOP"
  message := "stopped"
  severity := "error"
  context := .object []
  context_sorted := ⟨List.Pairwise.nil, trivial⟩

/-- The error of an `Error` step gets through, also when it comes from a child of the child. -/
theorem stop_continues :
    embedAfterAttempt ℕ true callChild none .zero (stopDetails.value.text) ≠ .ended :=
  (embedAfterAttempt_continues_iff true callChild none .zero (.errorStep stopDetails) _ rfl).mpr
    ⟨stopDetails.value, rfl, by decide⟩

/-- The failure of an agent in a child, here with a category that would not be retried, ends the
run instead of reaching the `EmbedWorkflow` step: neither its retries nor its `onError` route nor
an enclosing target see it. -/
theorem agentFailure_ends_run :
    (ChildError.agent (ν := ℕ) ⟨"fetch", "http", "get"⟩ "\x7b\"code\":\"HTTP_404\"\x7d").payload
        = some "Step fetch failed: Agent http::get: \x7b\"code\":\"HTTP_404\"\x7d"
      ∧ embedAfterAttempt ℕ true callChild none .zero
          "Step fetch failed: Agent http::get: \x7b\"code\":\"HTTP_404\"\x7d" = .ended := by
  refine ⟨rfl, ?_⟩
  rw [embedAfterAttempt_eq_ended_iff]
  exact fromSlice_message rfl

end Runtara
