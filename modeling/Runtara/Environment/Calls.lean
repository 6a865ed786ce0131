/-
  The calls of the Environment's tasks, and what Core does for a guest.

  Everything that runs for an instance, be it a request handler, a background poll, a monitor or
  the run of the guest, is a program of calls: statements of the database (`Sql`) and calls of the
  runner of its process. A guest is a program of requests, and `handle` is the program that Core's
  `instance_handlers` make of each of them.
-/
import Runtara.Environment.Database
import Runtara.Machine.Tasks

namespace Runtara.Environment

open Tasks (Prog)

/-- `RunnerHandle`. -/
structure Handle where
  handleId : String
  /-- not a field: which launch of the instance the handle is of -/
  launch : ℕ
deriving DecidableEq, Repr

/-- The calls. -/
inductive Op where
  | sql (q : Sql)
  /-- `Runner::launch_detached`: the handle, or why there is none -/
  | launchDetached
  /-- `spawn_container_monitor` with the handle that the task has got -/
  | spawnContainerMonitor
  /-- `Runner::stop` -/
  | stop
  /-- the `select!` of a monitor: the run has ended (`true`), or its time is over -/
  | awaitExit
  /-- the run's `finished` flag is set -/
  | setFinished
  /-- the run removes the entry of the instance from the runner's task registry -/
  | removeTask
  /-- the watchdog has dropped the future of the run -/
  | dropped
  | isDraining
  | setDraining
  | now
  /-- a look into tables or files that are not modelled: images, artifacts, limits, batch bounds -/
  | lookup
deriving DecidableEq, Repr

@[reducible] def Op.Ret : Op → Type
  | .sql q => q.Ret
  | .launchDetached => Option Handle
  | .spawnContainerMonitor => Unit
  | .stop => Unit
  | .awaitExit => Bool
  | .setFinished => Unit
  | .removeTask => Unit
  | .dropped => Bool
  | .isDraining => Bool
  | .setDraining => Unit
  | .now => Time
  | .lookup => Bool

/-- A program of calls. -/
abbrev Calls := Prog Op Op.Ret

/-- A statement as a program. -/
def sql (q : Sql) : Calls q.Ret := Prog.ask (Op.sql q)

/-- A call as a program. -/
def ask (op : Op) : Calls op.Ret := Prog.ask op

@[simp] theorem sql_bind {α : Type} (q : Sql) (f : q.Ret → Calls α) :
    (sql q >>= f) = Prog.call (Op.sql q) f := rfl

@[simp] theorem ask_bind {α : Type} (op : Op) (f : op.Ret → Calls α) :
    (ask op >>= f) = Prog.call op f := rfl

/-! ### Requests of a guest -/

/-- The payload of a `suspended` event, as `handle_instance_event` reads it. -/
inductive Suspension where
  /-- no payload, no checkpoint, or a payload that `parse_sleep_payload` refuses -/
  | plain
  /-- a sleep: the wake time is missing if it is out of range -/
  | sleep (checkpointId : String) (wakeAt : Option Time) (state : Bytes)
deriving DecidableEq, Repr

/-- `InstanceEvent`. -/
inductive Event where
  | heartbeat
  | completed (payload : Bytes)
  | failed
  | suspended (suspension : Suspension)
  | custom
deriving DecidableEq, Repr

/-- The requests of a guest to Core. -/
inductive Request where
  | register (checkpointId : Option String)
  | checkpoint (checkpointId : String) (state : Bytes)
  | getCheckpoint (checkpointId : String)
  | sleep (checkpointId : String) (state : Bytes)
  | event (e : Event)
  | signalAck (signalType : SignalType) (acknowledged : Bool)
  | pollSignals (checkpointId : Option String)
deriving DecidableEq, Repr

structure CheckpointResponse where
  found : Bool
  state : Bytes
  pendingSignal : Option PendingSignal
  customSignal : Option Bytes
deriving DecidableEq, Repr

structure PollSignalsResponse where
  signal : Option PendingSignal
  customSignal : Option Bytes
deriving DecidableEq, Repr

/-- The answer to a request; a checkpoint is refused when the instance is not running. -/
@[reducible] def Request.Answer : Request → Type
  | .register _ => Bool
  | .checkpoint _ _ => Option CheckpointResponse
  | .getCheckpoint _ => Option Bytes
  | .sleep _ _ => Unit
  | .event _ => Unit
  | .signalAck _ _ => Unit
  | .pollSignals _ => PollSignalsResponse

/-- A guest, or a part of one. -/
abbrev Guest := Prog Request Request.Answer

def handleRegisterInstance (checkpointId : Option String) : Calls Bool := do
  let existing ← sql .getInstance
  let found ← match checkpointId with
    | some id => do
      let checkpoint ← sql (.loadCheckpoint id)
      pure checkpoint.isSome
    | none => pure true
  if !found then pure false
  else do
    let refused ← if existing.isNone then ask .lookup else pure false
    if refused then pure false
    else do
      let created ← if existing.isNone then sql .registerInstance else pure true
      if !created then pure false
      else do
        sql (.updateInstanceStatus .running true)
        sql .insertEvent
        pure true

/-- The signal of the instance that has not been acknowledged. -/
def pendingSignal (handed : Bool) : Calls (Option PendingSignal) := sql (.getPendingSignal handed)

def handleCheckpoint (checkpointId : String) (state : Bytes) :
    Calls (Option CheckpointResponse) := do
  match ← sql .getInstance with
  | none => pure none
  | some r =>
    if r.status ≠ .running then pure none
    else do
      match ← sql (.loadCheckpoint checkpointId) with
      | some existing => do
        let signal ← pendingSignal false
        let custom ← sql (.takePendingCustomSignal checkpointId signal)
        pure (some ⟨true, existing, signal, custom⟩)
      | none =>
        -- an empty state is a read-only probe
        if state.isEmpty then do
          let signal ← pendingSignal true
          pure (some ⟨false, [], signal, none⟩)
        else do
          sql (.saveCheckpoint checkpointId state)
          sql (.updateInstanceCheckpoint checkpointId)
          let signal ← pendingSignal false
          let custom ← sql (.takePendingCustomSignal checkpointId signal)
          pure (some ⟨false, [], signal, custom⟩)

def handleGetCheckpoint (checkpointId : String) : Calls (Option Bytes) := do
  match ← sql .getInstance with
  | none => pure none
  | some _ => sql (.loadCheckpoint checkpointId)

/-- `handle_sleep`: the sleep itself is in the process. -/
def handleSleep (checkpointId : String) (state : Bytes) : Calls Unit :=
  if checkpointId.isEmpty then pure ()
  else do
    sql (.saveCheckpoint checkpointId state)
    sql (.updateInstanceCheckpoint checkpointId)

def handleInstanceEvent (e : Event) : Calls Unit := do
  sql .insertEvent
  match e with
  | .heartbeat => pure ()
  | .completed payload => do
    let output := if payload.isEmpty then none else some payload
    let _ ← sql (.completeInstance { status := .completed, guard := .onlyRunning, output })
    pure ()
  | .failed => do
    let _ ← sql (.completeInstance { status := .failed, guard := .onlyRunning })
    pure ()
  | .suspended .plain => do
    let _ ← sql (.completeInstance { status := .suspended, guard := .onlyRunning })
    pure ()
  | .suspended (.sleep checkpointId wakeAt state) => do
    sql (.saveCheckpoint checkpointId state)
    sql (.updateInstanceCheckpoint checkpointId)
    match wakeAt with
    | some t => sql (.setInstanceSleep (.time t))
    | none => pure ()
    let _ ← sql (.completeInstance
      { status := .suspended, guard := .onlyRunning, terminationReason := some .sleeping,
        checkpointId := some checkpointId })
    pure ()
  | .custom => pure ()

def handleSignalAck (signalType : SignalType) (acknowledged : Bool) : Calls Unit :=
  if !acknowledged then pure ()
  else do
    sql .acknowledgeSignal
    match signalType with
    | .cancel => do
      let _ ← sql (.completeInstance { status := .cancelled })
      pure ()
    | .pause => sql (.updateInstanceStatus .suspended false)
    | .resume => pure ()
    | .shutdown => do
      let _ ← sql (.completeInstance
        { status := .suspended, terminationReason := some .shutdownRequested })
      sql (.setInstanceSleep .now)

/-- `handle_poll_signals`; a poll for a custom signal drops the other one that it is answered with
(`poll_custom_signal`). -/
def handlePollSignals (checkpointId : Option String) : Calls PollSignalsResponse := do
  let signal ← pendingSignal checkpointId.isNone
  let custom ← match checkpointId with
    | some id => sql (.takePendingCustomSignal id none)
    | none => pure none
  pure ⟨signal, custom⟩

/-- What Core does for a request. -/
def handle : (request : Request) → Calls request.Answer
  | .register checkpointId => handleRegisterInstance checkpointId
  | .checkpoint checkpointId state => handleCheckpoint checkpointId state
  | .getCheckpoint checkpointId => handleGetCheckpoint checkpointId
  | .sleep checkpointId state => handleSleep checkpointId state
  | .event e => handleInstanceEvent e
  | .signalAck signalType acknowledged => handleSignalAck signalType acknowledged
  | .pollSignals checkpointId => handlePollSignals checkpointId

/-! ### The native runtime of a guest -/

namespace RuntimeHost

/-- A request as a part of a guest. -/
def request (r : Request) : Guest r.Answer := Prog.ask r

def breakpointPause : Guest Unit := do
  request (.signalAck .pause true)
  request (.event (.suspended .plain))

/-- `poll_lifecycle_signal`: within the poll interval nothing is asked. -/
def pollLifecycleSignal (limited : Bool) : Guest (Option PendingSignal) :=
  if limited then pure none
  else do
    let response ← request (.pollSignals none)
    pure response.signal

/-- `is_cancelled`, with the local flag: only a cancel is acknowledged. -/
def isCancelled (cancelled limited : Bool) : Guest Bool :=
  if cancelled then pure true
  else do
    match ← pollLifecycleSignal limited with
    | none => pure false
    | some signal =>
      if signal.signalType = .cancel then do
        request (.signalAck .cancel true)
        pure true
      else pure false

def checkSignals (limited : Bool) : Guest Bool := do
  match ← pollLifecycleSignal limited with
  | none => pure false
  | some signal =>
    match signal.signalType with
    | .cancel => do
      request (.signalAck .cancel true)
      pure true
    | .pause => do
      request (.signalAck .pause true)
      request (.event (.suspended .plain))
      pure true
    | .shutdown => do
      request (.signalAck .shutdown true)
      request (.event (.suspended .plain))
      pure true
    | .resume => pure false

def pollCustomSignal (checkpointId : String) : Guest (Option Bytes) := do
  let response ← request (.pollSignals (some checkpointId))
  pure response.customSignal

end RuntimeHost

end Runtara.Environment
