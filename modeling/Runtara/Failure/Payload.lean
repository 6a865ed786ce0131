/-
  Error payloads and what the enclosing steps do with them.

  A failing step hands a text to the nearest failure target: an envelope, which is a JSON
  object, or a plain message (`ChildError.payload`). An `EmbedWorkflow` step reads the text of
  its child as JSON and wraps it (`embedWorkflowError`); when that fails the emitted function
  returns. A `Split` or `EmbedWorkflow` step with retries classifies the text it has
  (`workflowRetryInfo`) to decide on another attempt.
-/
import Runtara.Agent.Retry
import Runtara.Json.RoundTrip

namespace Runtara

open Json

/-- The numbers of `serde_json`, as far as error payloads have them. -/
class SerdeNumber (ν : Type) extends Json.Number ν where
  asU64 : ν → Option UInt64
  ofU64 : UInt64 → ν

/-- Natural numbers, of which those below `2 ^ 64` are a `u64`. -/
instance : SerdeNumber ℕ where
  asU64 n := if n < 2 ^ 64 then some (UInt64.ofNat n) else none
  ofU64 n := n.toNat

/-- A `u64` is a number of its own and is read back from its text. -/
class LawfulU64 (ν : Type) [SerdeNumber ν] : Prop where
  asU64_ofU64 : ∀ n : UInt64, SerdeNumber.asU64 (SerdeNumber.ofU64 n : ν) = some n
  reread_ofU64 : ∀ n : UInt64, Number.reread (SerdeNumber.ofU64 n : ν) = SerdeNumber.ofU64 n

instance : LawfulU64 ℕ where
  asU64_ofU64 n := by
    simp [SerdeNumber.asU64, SerdeNumber.ofU64, n.toNat_lt]
  reread_ofU64 _ := rfl

/-- `serde_json` gives up at the 128th array or object nested in each other. -/
def recursionLimit : ℕ := 127

def fromSlice {ν : Type} [SerdeNumber ν] (text : String) : Option (Value ν) :=
  parse recursionLimit text

/-! ### Envelopes -/

section Envelopes

variable {ν : Type} [SerdeNumber ν]

/-- The `DirectErrorResult` of an `Error` step with the step it is of. Objects are ordered maps. -/
structure ErrorDetails (ν : Type) where
  stepId : String
  name : Option String
  category : String
  code : String
  message : String
  severity : String
  context : Value ν
  context_sorted : context.Sorted

/-- The failure payload of an `Error` step (`error`). -/
def ErrorDetails.value (d : ErrorDetails ν) : Value ν :=
  .obj [("stepId", .string d.stepId), ("stepName", .string (d.name.getD "Unnamed")),
    ("category", .string d.category), ("code", .string d.code), ("message", .string d.message),
    ("severity", .string d.severity), ("context", d.context)]

/-- Why a required input is missing. -/
inductive AgentInputMissingReason where
  | notProvided
  | wasNull
deriving DecidableEq, Repr

namespace AgentInputMissingReason

def code : AgentInputMissingReason → String
  | .notProvided => "STEP_REQUIRED_INPUT_MISSING"
  | .wasNull => "STEP_REQUIRED_INPUT_NULL"

def text : AgentInputMissingReason → String
  | .notProvided => "not provided"
  | .wasNull => "was null"

end AgentInputMissingReason

/-- A missing or null required input. -/
structure MissingAgentInput where
  name : String
  fieldType : String
  description : Option String
  reason : AgentInputMissingReason

/-- The error of an agent step whose resolved inputs are incomplete. -/
structure AgentInputValidationError where
  stepId : String
  stepName : Option String
  agentId : String
  capabilityId : String
  missingInputs : List MissingAgentInput

def optionString : Option String → Value ν
  | some s => .string s
  | none => .null

def MissingAgentInput.line (i : MissingAgentInput) : String :=
  "  - " ++ i.name ++ " (" ++ i.fieldType ++ ")" ++ ((i.description.map (": " ++ ·)).getD "")
    ++ " [" ++ i.reason.text ++ "]\n"

def MissingAgentInput.value (i : MissingAgentInput) : Value ν :=
  .obj [("field", .string i.name), ("expectedType", .string i.fieldType),
    ("description", optionString i.description), ("reason", .string i.reason.text),
    ("code", .string i.reason.code)]

namespace AgentInputValidationError

def message (e : AgentInputValidationError) : String :=
  e.missingInputs.foldl (fun text i => text ++ i.line)
    ("Agent step '" ++ e.stepId ++ "' is missing required inputs for '" ++ e.agentId ++ ":"
      ++ e.capabilityId ++ "':\n")

/-- `to_json_string`. -/
def value (e : AgentInputValidationError) : Value ν :=
  .obj [("code", .string ((e.missingInputs.head?.map fun i => i.reason.code).getD
      "STEP_REQUIRED_INPUT_MISSING")),
    ("message", .string e.message), ("category", .string "permanent"),
    ("severity", .string "error"), ("stepId", .string e.stepId),
    ("stepName", optionString e.stepName), ("stepType", .string "Agent"),
    ("agentId", .string e.agentId), ("capabilityId", .string e.capabilityId),
    ("missingInputs", .array (e.missingInputs.map MissingAgentInput.value))]

end AgentInputValidationError

/-- A `WaitForSignal` step whose deadline has passed. -/
structure WaitTimeout where
  stepId : String
  signalId : String
  timeoutMs : UInt64

def waitTimeoutError (w : WaitTimeout) : String :=
  "WaitForSignal step '" ++ w.stepId ++ "' timed out after " ++ toString w.timeoutMs
    ++ "ms waiting for signal '" ++ w.signalId ++ "'"

def waitTimeoutErrorEnvelope (w : WaitTimeout) : Value ν :=
  .obj [("code", .string "WAIT_TIMEOUT"), ("message", .string (waitTimeoutError w)),
    ("category", .string "timeout"), ("severity", .string "error")]

/-- `DIRECT_WHILE_TIMEOUT_ERROR`, whose fields are not in key order. A `Split` that is out of time
has such a payload too, but ends the run with it. -/
def whileTimeoutError : String :=
  "\x7b\"code\":\"WHILE_TIMEOUT\",\"message\":\"While step exceeded its configured timeout\"," ++
    "\"category\":\"timeout\",\"severity\":\"error\"\x7d"

/-- What `whileTimeoutError` says. -/
def whileTimeoutValue : Value ν :=
  .obj [("code", .string "WHILE_TIMEOUT"),
    ("message", .string "While step exceeded its configured timeout"),
    ("category", .string "timeout"), ("severity", .string "error")]

/-! ### Messages -/

/-- The step an agent runs for. -/
structure AgentSite where
  stepId : String
  agentId : String
  capabilityId : String

/-- `agent_error_info_envelope`: attributes that are no JSON are left out. -/
def agentErrorInfoEnvelope (info : ErrorInfo) : Value ν :=
  .obj ([("code", .string info.code), ("message", .string info.message),
      ("category", .string info.category), ("severity", .string info.severity),
      ("retryable", .bool info.retryable)]
    ++ (info.retryAfterMs.map fun ms => ("retryAfterMs", .number (SerdeNumber.ofU64 ms))).toList
    ++ ((info.attributes.bind fromSlice).map fun v => ("attributes", v)).toList)

/-- `agent_error_from_info`, and `agent_error` once the envelope is built. -/
def agentErrorFromInfo (a : AgentSite) (raw : String) : String :=
  "Step " ++ a.stepId ++ " failed: Agent " ++ a.agentId ++ "::" ++ a.capabilityId ++ ": " ++ raw

/-- How the messages start that the functions of `direct_json.rs` fail with: parsing and
serialising, lookups, mappings, references, templates, conditions, settings of each step kind,
item schemas, child inputs and connections. -/
inductive Opening where
  | failedToParse | failedToSerialize | unknownDirect | directStep | manifest
  | inputMapping | mappingValue | reference | composite | templateValue | template
  | unsupported | condition | length | coercion
  | delayStep | embedWorkflowStep | errorStep | filterConfig | filterSource | groupByConfig
  | logStep | splitStep | splitSchema | switchCase | waitStep | whileStep
  | errorSteps | agentErrorInfo | connectionRef | connectionDescriptor
deriving DecidableEq, Repr

def Opening.text : Opening → String
  | .failedToParse => "failed to parse "
  | .failedToSerialize => "failed to serialize "
  | .unknownDirect => "unknown direct "
  | .directStep => "direct step '"
  | .manifest => "direct stdlib manifest was not initialized"
  | .inputMapping => "input mapping must be a JSON object"
  | .mappingValue => "mapping value "
  | .reference => "reference "
  | .composite => "composite mapping value must be an object or array"
  | .templateValue => "template mapping value must be a string"
  | .template => "Template "
  | .unsupported => "unsupported "
  | .condition => "condition operat"
  | .length => "LENGTH condition missing arguments"
  | .coercion => "value "
  | .delayStep => "Delay step '"
  | .embedWorkflowStep => "EmbedWorkflow step '"
  | .errorStep => "Error step missing "
  | .filterConfig => "Filter config missing "
  | .filterSource => "filter source must be a JSON object"
  | .groupByConfig => "GroupBy config missing "
  | .logStep => "Log step missing message"
  | .splitStep => "Split step '"
  | .splitSchema => "Split '"
  | .switchCase => "Switch case missing "
  | .waitStep => "WaitForSignal step '"
  | .whileStep => "While step '"
  | .errorSteps => "error steps context must be a JSON object"
  | .agentErrorInfo => "Agent error-info JSON was not UTF-8: "
  | .connectionRef => "connection_ref for Agent "
  | .connectionDescriptor => "resolved connection descriptor "

end Envelopes

/-! ### Wrapping the error of a child -/

/-- An `EmbedWorkflow` step and the workflow it embeds. -/
structure EmbedSite where
  stepId : String
  stepName : Option String
  workflowId : String

section Wrapping

variable {ν : Type} [SerdeNumber ν]

def embedWorkflowErrorValue (s : EmbedSite) (childError : Value ν) : Value ν :=
  .obj [("stepId", .string s.stepId), ("stepName", .string (s.stepName.getD "Unnamed")),
    ("stepType", .string "EmbedWorkflow"), ("code", .string "CHILD_WORKFLOW_FAILED"),
    ("message", .string ("Child workflow " ++ s.workflowId ++ " failed")),
    ("category", .string (((childError.get "category").bind Value.asStr).getD "transient")),
    ("severity", .string (((childError.get "severity").bind Value.asStr).getD "error")),
    ("childWorkflowId", .string s.workflowId), ("childError", childError)]

/-- `embed_workflow_error`, which fails when the error of the child is no JSON. -/
def embedWorkflowError (ν : Type) [SerdeNumber ν] (s : EmbedSite) (childError : String) :
    Option String :=
  (fromSlice childError).map fun v : Value ν => (embedWorkflowErrorValue s v).text

/-- The errors that reach the failure target of an `EmbedWorkflow` step, by the step of the child
that raises them. The steps between pass the payload on as it is; `embedded` is an
`EmbedWorkflow` step of the child whose own child has failed. -/
inductive ChildError (ν : Type) where
  | errorStep (d : ErrorDetails ν)
  | agent (a : AgentSite) (info : String)
  | agentInput (e : AgentInputValidationError)
  | host (opening : Opening) (rest : String)
  | waitTimeout (hasErrorPlan : Bool) (w : WaitTimeout)
  | whileTimeout
  /-- A failed call of the runtime, with the text the host gives: the clock, the cancellation test,
  the heartbeat and the signal test of a `While`, and the debug event of a `WaitForSignal`. -/
  | runtime (text : String)
  | embedded (s : EmbedSite) (e : ChildError ν)

/-- The text handed to the failure target. There is none when an inner `EmbedWorkflow` step has
returned from the function on the way. -/
def ChildError.payload : ChildError ν → Option String
  | .errorStep d => some d.value.text
  | .agent a info => some (agentErrorFromInfo a info)
  | .agentInput e => some (e.value (ν := ν)).text
  | .host opening rest => some (opening.text ++ rest)
  | .waitTimeout true w => some (waitTimeoutErrorEnvelope (ν := ν) w).text
  | .waitTimeout false w => some (waitTimeoutError w)
  | .whileTimeout => some whileTimeoutError
  | .runtime text => some text
  | .embedded s e => e.payload.bind (embedWorkflowError ν s)

/-- The envelope an error is raised with, if it is raised with one. An `EmbedWorkflow` step puts
into its envelope what it reads of the payload of its child. -/
def ChildError.envelope : ChildError ν → Option (Value ν)
  | .errorStep d => some d.value
  | .agentInput e => some e.value
  | .waitTimeout true w => some (waitTimeoutErrorEnvelope w)
  | .whileTimeout => some whileTimeoutValue
  | .runtime text => fromSlice text
  | .embedded s e => (e.payload.bind fromSlice).map (embedWorkflowErrorValue s)
  | _ => none

end Wrapping

/-! ### Retries of workflows -/

/-- What a retry loop around a workflow reads of an error. -/
structure WorkflowRetryInfo where
  retryable : Bool
  rateLimited : Bool
  retryAfterMs : Option UInt64
deriving DecidableEq, Repr

/-- `workflow_retry_info`; `autoRetryOn429` is the environment variable, true if unset. -/
def workflowRetryInfo (ν : Type) [SerdeNumber ν] (autoRetryOn429 : Bool) (error : String) :
    WorkflowRetryInfo :=
  match (fromSlice error : Option (Value ν)) with
  | none => ⟨true, false, none⟩
  | some parsed =>
    let category := (parsed.get "category").bind Value.asStr
    let code := ((parsed.get "code").bind Value.asStr).getD ""
    let rateLimited := agentErrorCodeIsRateLimited code || code == "HTTP_RATE_LIMITED"
    let retryAfterMs := match parsed.get "retryAfterMs" with
      | some (.number n) => SerdeNumber.asU64 n
      | _ => none
    ⟨category != some "permanent" && (!rateLimited || autoRetryOn429), rateLimited, retryAfterMs⟩

/-- `emit_split_retry_error_info` and `emit_embed_retry_error_info`: the time is only written if
there is one. -/
def RetryLocals.workflowErrorInfo (l : RetryLocals) (i : WorkflowRetryInfo) : RetryLocals :=
  { l with
    retryable := i.retryable
    rateLimited := i.rateLimited
    sleepTag := i.retryAfterMs.isSome
    sleepMs := i.retryAfterMs.getD l.sleepMs }

/-- `SPLIT_RETRY_MAX_DELAY_MS` and `EMBED_RETRY_MAX_DELAY_MS`. -/
def workflowRetryMaxDelayMs : UInt64 := 60000

/-- The retry settings of a `Split` or `EmbedWorkflow` step; without retries there is no loop. -/
def workflowRetryPolicy? (maxRetries : UInt32) (retryDelayMs : UInt64) : Option RetryPolicy :=
  if h : 0 < maxRetries then some ⟨maxRetries, retryDelayMs, workflowRetryMaxDelayMs, h⟩ else none

/-- What happens after a failed attempt of a child. -/
inductive EmbedVerdict where
  | ended
  | retry (locals : RetryLocals)
  | routed (error : String)

/-- The code of `emit_embed_workflow_plan` after a failed attempt: the error is wrapped, which ends
the run when it fails, and then either the attempt is repeated or the wrapped error goes to the
`onError` route or the enclosing failure target. -/
def embedAfterAttempt (ν : Type) [SerdeNumber ν] (autoRetryOn429 : Bool) (s : EmbedSite)
    (policy : Option RetryPolicy) (l : RetryLocals) (childError : String) : EmbedVerdict :=
  match embedWorkflowError ν s childError with
  | none => .ended
  | some wrapped =>
    match policy with
    | none => .routed wrapped
    | some p =>
      let (again, l) :=
        (l.workflowErrorInfo (workflowRetryInfo ν autoRetryOn429 wrapped)).retryCondition p
      if again then .retry l.advanceRetryAttempt else .routed wrapped

/-! ### Propagation -/

/-- A construct around a failing step. A tolerant `Split` records the failure of an item and goes
on; only then is its retry loop not reached. -/
inductive Enclosing where
  | split (dontStopOnFailed : Bool) (policy : Option RetryPolicy)
  | whileLoop
  | embedWorkflow (s : EmbedSite) (policy : Option RetryPolicy)

/-- The error as the retry loops around it receive it, from the inside out. -/
def retryReceipts (ν : Type) [SerdeNumber ν] : List Enclosing → String → List (RetryPolicy × String)
  | [], _ => []
  | .split true _ :: _, _ => []
  | .split false policy :: outer, error =>
    (policy.map (·, error)).toList ++ retryReceipts ν outer error
  | .whileLoop :: outer, error => retryReceipts ν outer error
  | .embedWorkflow s policy :: outer, error =>
    match embedWorkflowError ν s error with
    | none => []
    | some wrapped => (policy.map (·, wrapped)).toList ++ retryReceipts ν outer wrapped

end Runtara
