/-
  The tool loop of an `AiAgent` step, with crashes and replays.

  `emit_ai_agent_loop_plan` (`compile/ai_agent_loop.rs`) asks the model for a turn, dispatches the
  tool calls of its answer one after the other, and asks again with their results. A durable loop
  saves a snapshot of a turn when all its tool calls are done, and a replay takes the turns that
  have one from there. A `WaitForSignal` tool asks a person: it publishes a request under a signal
  id, which is made of the label of the tool and the number of tool calls so far, and polls the
  signal (`emit_ai_wait_tool_arm`).

  The answers of the model, of the other tools and of the person come from the surroundings. One
  execution of the loop is modelled, in one scope: the rest of the workflow comes to it again after
  every launch.
-/
import Runtara.Wait.Signal

namespace Runtara

/-! ### Turns -/

/-- A tool call of a turn: the tool it selects, by `ai_turn_tool_index`, and its arguments. An
index beyond the tools is an unknown tool. -/
structure ToolCall where
  toolIndex : ℕ
  arguments : Bytes
deriving DecidableEq, Repr

/-- What `chat-turn` returns, as far as the loop reads it; `body` is the rest. -/
structure TurnOut where
  complete : Bool
  toolCalls : List ToolCall
  body : Bytes
deriving DecidableEq, Repr

/-- A tool call with its place: the turn, the answer of the model it is part of, and the position
in it. -/
structure CallSite where
  turn : ℕ
  out : TurnOut
  position : ℕ
deriving DecidableEq, Repr

/-- `ai_turn_snapshot`. -/
structure TurnSnapshot where
  state : Option TurnOut
  pending : List (ToolCall × Bytes)
  toolCalls : UInt32
  complete : Bool
deriving DecidableEq, Repr

/-- The snapshots saved under their cache keys. -/
abbrev Snapshots := List (String × TurnSnapshot)

/-- `handle_checkpoint` for snapshots, which are never empty. -/
def Snapshots.checkpoint (saved : Snapshots) (key : String) (snapshot : TurnSnapshot) : Snapshots :=
  if (saved.lookup key).isSome then saved else (key, snapshot) :: saved

/-! ### The loop -/

/-- A loop in its scope. -/
structure AiLoop where
  settings : AiLoopSettings
  tools : List DirectAiToolPlan
  instanceId : String
  /-- `variables._workflow_id`, or `root` -/
  workflowId : String
  /-- `source_cache_key_prefix` -/
  cacheKeyPrefix : Option String
  /-- `wait_loop_indices_suffix` -/
  indicesSuffix : String
  /-- whether a waiting tool call gives up the memory of the instance -/
  storeFreeing : Bool
  /-- `ai_wait_tool_result`, which fails on a payload that is not JSON -/
  aiWaitToolResult : Bytes → Option Bytes

namespace AiLoop

/-- A key of the scope: the prefix of an embedding workflow comes first. -/
def scopedKey (loop : AiLoop) (key : String) : String :=
  match loop.cacheKeyPrefix with
  | some p => p ++ "::" ++ key
  | none => key

def aiTurnCacheKey (loop : AiLoop) (iteration : ℕ) : String :=
  loop.scopedKey (loop.settings.stepId ++ ".turn" ++ "." ++ iteration.repr ++ loop.indicesSuffix)

def aiWaitToolSignalId (loop : AiLoop) (label : String) (callCounter : UInt32) : String :=
  loop.instanceId ++ "/" ++ loop.workflowId ++ "/" ++ loop.scopedKey loop.settings.stepId ++
    ".tool."
    ++ label ++ "." ++ callCounter.toNat.repr ++ loop.indicesSuffix

end AiLoop

/-- The locals of the loop: the turns begun, the tool calls so far, the last answer of the model and
the results of its tool calls. -/
structure AiLocals where
  iter : ℕ
  toolCallCounter : UInt32
  state : Option TurnOut
  pending : List (ToolCall × Bytes)
deriving DecidableEq, Repr

def AiLocals.initial : AiLocals := ⟨0, 0, none, []⟩

/-- Where the code is. -/
inductive AiPoint where
  | stopped
  /-- at the head of the loop -/
  | turn (l : AiLocals)
  /-- before `chat-turn` -/
  | chat (l : AiLocals)
  /-- after `chat-turn` -/
  | turned (l : AiLocals) (out : TurnOut)
  /-- before the tool call at a position -/
  | tools (l : AiLocals) (out : TurnOut) (idx : ℕ)
  /-- in the invocation of a tool -/
  | calling (l : AiLocals) (out : TurnOut) (idx : ℕ) (call : ToolCall)
  /-- in the poll loop of a waiting tool -/
  | waiting (l : AiLocals) (out : TurnOut) (idx : ℕ) (call : ToolCall) (signalId : String)
  /-- after the loop -/
  | left
  /-- the run has failed -/
  | failed
deriving DecidableEq, Repr

/-- The instance: what is stored for it, and the code. -/
structure AiState where
  signals : SignalRows
  snapshots : Snapshots
  point : AiPoint
deriving DecidableEq, Repr

/-- What can happen next: the code makes a step of its own; `chat-turn` returns, or fails; a tool
returns; the instance stops or is launched; a signal is sent. -/
inductive AiInput where
  | code
  | chatTurn (out : Option TurnOut)
  | toolResult (result : Bytes)
  | stop
  | launch
  | send (signalId : String) (payload : Bytes)
deriving DecidableEq, Repr

/-- What can be seen of the loop. -/
inductive AiEvent where
  /-- the model answers, with the tool calls counted so far -/
  | chatted (turn : ℕ) (counter : UInt32) (out : TurnOut)
  | dispatched (call : CallSite)
  /-- the external input is requested -/
  | requested (signalId : String) (call : CallSite)
  | sent (signalId : String) (payload : Bytes)
  /-- the payload stored under the id becomes the result of the call -/
  | answered (signalId : String) (call : CallSite) (payload : Bytes)
  | completed (call : CallSite)
deriving DecidableEq, Repr

/-- The result of an unknown tool, `split_empty_results`: the text of an empty list. -/
def emptyToolResult : Bytes := [91, 93]

namespace AiLoop

variable (loop : AiLoop)

/-- `ai_turn_add_result`, and the counters. -/
def addResult (l : AiLocals) (out : TurnOut) (idx : ℕ) (call : ToolCall) (result : Bytes) :
    AiPoint :=
  .tools { l with
    toolCallCounter := l.toolCallCounter + 1
    pending := l.pending ++ [(call, result)] } out (idx + 1)

/-- The snapshot of the turn in the locals. -/
def snapshot (l : AiLocals) (complete : Bool) : TurnSnapshot :=
  ⟨l.state, l.pending, l.toolCallCounter, complete⟩

/-- Save the turn, if the loop is durable. -/
def save (saved : Snapshots) (l : AiLocals) (complete : Bool) : Snapshots :=
  if loop.settings.durableCheckpoint then
    saved.checkpoint (loop.aiTurnCacheKey l.iter) (snapshot l complete)
  else saved

/-- The snapshot of a turn, if the loop is durable. -/
def restore (saved : Snapshots) (iteration : ℕ) : Option TurnSnapshot :=
  if loop.settings.durableCheckpoint then saved.lookup (loop.aiTurnCacheKey iteration) else none

/-- One step of the code between answers of the host. -/
def code (st : AiState) : Option (AiState × List AiEvent) :=
  match st.point with
  | .turn l =>
    if loop.settings.maxIterations ≤ l.iter then some ({ st with point := .left }, [])
    else
      match loop.restore st.snapshots (l.iter + 1) with
      | some s =>
        if s.complete then some ({ st with point := .left }, [])
        else some ({ st with point := .turn ⟨l.iter + 1, s.toolCalls, s.state, s.pending⟩ }, [])
      | none => some ({ st with point := .chat { l with iter := l.iter + 1 } }, [])
  | .turned l out =>
    if out.complete then
      some ({ st with snapshots := loop.save st.snapshots l true, point := .left }, [])
    else some ({ st with point := .tools l out 0 }, [])
  | .tools l out idx =>
    match out.toolCalls[idx]? with
    | none => some ({ st with snapshots := loop.save st.snapshots l false, point := .turn l }, [])
    | some call =>
      match loop.tools[call.toolIndex]? with
      | some (.wait _ label) =>
        let signalId := loop.aiWaitToolSignalId label l.toolCallCounter
        some ({ st with point := .waiting l out idx call signalId },
          [.dispatched ⟨l.iter, out, idx⟩, .requested signalId ⟨l.iter, out, idx⟩])
      | some _ =>
        some ({ st with point := .calling l out idx call }, [.dispatched ⟨l.iter, out, idx⟩])
      | none => some ({ st with point := addResult l out idx call emptyToolResult },
          [.completed ⟨l.iter, out, idx⟩])
  | .waiting l out idx call signalId =>
    match st.signals.lookup signalId with
    | some payload =>
      match loop.aiWaitToolResult payload with
      | some result => some ({ st with point := addResult l out idx call result },
          [.answered signalId ⟨l.iter, out, idx⟩ payload, .completed ⟨l.iter, out, idx⟩])
      | none => some ({ st with point := .failed }, [])
    | none => if loop.storeFreeing then some ({ st with point := .stopped }, []) else some (st, [])
  | _ => none

/-- One step of the instance and its surroundings. -/
def step (st : AiState) : AiInput → Option (AiState × List AiEvent)
  | .code => loop.code st
  | .chatTurn answer =>
    match st.point, answer with
    | .chat l, some out =>
      some ({ st with point := .turned { l with state := some out, pending := [] } out },
        [.chatted l.iter l.toolCallCounter out])
    | .chat _, none => some ({ st with point := .left }, [])
    | _, _ => none
  | .toolResult result =>
    match st.point with
    | .calling l out idx call => some ({ st with point := addResult l out idx call result },
        [.completed ⟨l.iter, out, idx⟩])
    | _ => none
  | .stop =>
    match st.point with
    | .failed => none
    | _ => some ({ st with point := .stopped }, [])
  | .launch =>
    match st.point with
    | .stopped => some ({ st with point := .turn .initial }, [])
    | _ => none
  | .send signalId payload =>
    some ({ st with signals := insertCustomSignal st.signals signalId payload },
      [.sent signalId payload])

/-- The instance with its surroundings. -/
def system : Interactive.System AiState AiInput AiEvent := ⟨loop.step⟩

/-- Before the first launch nothing is stored. -/
def start : AiState := ⟨[], [], .stopped⟩

end AiLoop

end Runtara
