/-
  The tasks of an Environment process for one instance.

  Requests (`handle_start_instance`, `handle_stop_instance`, `handle_resume_instance` and the two
  kinds of signals), background polls (the wake scheduler, the heartbeat monitor, the drain and the
  recovery at startup), the monitor of a launched run, and the run itself. Each is the sequence of
  calls its source makes, with the branches it takes on their answers.
-/
import Runtara.Environment.Calls

namespace Runtara.Environment

open Tasks (Prog)

/-- What is fixed for an instance and its Environment. -/
structure Settings where
  instanceId : String
  /-- `DateTime::from_timestamp_millis`, which refuses times that are out of range -/
  fromTimestampMillis : ℕ → Option Time
  /-- `RUNTARA_MAX_AUTO_RESTARTS` -/
  maxAutoRestarts : Int32
  /-- `RUNTARA_AUTO_RECOVER` -/
  autoRecover : Bool
  heartbeatTimeout : Time

variable (cfg : Settings)

/-- The id that `launch_detached` gives every run of the instance. -/
def Settings.handleId : String := "wasm_" ++ cfg.instanceId

/-! ### The run of a guest -/

inductive WorkflowWake where
  | time (ms : ℕ)
  | onSignal (checkpointId : String) (deadlineMs : Option ℕ)
  | onResume
deriving DecidableEq, Repr

inductive InvokeExit where
  | completed
  | suspended (wakes : List WorkflowWake)
  | failed
  | trapped
  | cancelled
deriving DecidableEq, Repr

/-- What the artifact of an image turns out to be when it is loaded. -/
inductive Artifact where
  /-- the component cannot be loaded -/
  | broken
  /-- the in-band entry -/
  | invoke (guest : Guest InvokeExit)
  /-- the entry of older artifacts -/
  | run (guest : Guest Unit)

def WorkflowWake.deadline : WorkflowWake → Option ℕ
  | .time ms => some ms
  | .onSignal _ deadlineMs => deadlineMs
  | .onResume => none

def earliestWakeDeadlineMs (wakes : List WorkflowWake) : Option ℕ :=
  (wakes.filterMap WorkflowWake.deadline).min?

def hasOnSignalWake (wakes : List WorkflowWake) : Bool :=
  wakes.any fun
    | .onSignal _ _ => true
    | _ => false

def parkInvokeSuspend (wakes : List WorkflowWake) : Calls Unit :=
  let deadlineMs := earliestWakeDeadlineMs wakes
  if deadlineMs.isNone && !hasOnSignalWake wakes then pure ()
  else do
    let marker := if hasOnSignalWake wakes then TerminationReason.waitingSignal else .sleeping
    let applied ← sql (.completeInstance
      { status := .suspended, guard := .onlyRunning, terminationReason := some marker })
    if !applied then pure ()
    else
      match deadlineMs.bind cfg.fromTimestampMillis with
      | some deadline => sql (.setInstanceSleep (.time deadline))
      | none => pure ()

/-- A guest whose future the watchdog may drop between any two calls. -/
def execute {α : Type} (guest : Guest α) : Calls (Option α) :=
  (guest.interp handle).droppable .dropped fun dropped => dropped

/-- The end of the task of a run, after the guest. -/
def settleRun (exit : Option InvokeExit) : Calls Unit := do
  match exit with
  | some (.suspended wakes) => parkInvokeSuspend cfg wakes
  | _ => pure ()
  ask .setFinished
  ask .removeTask

/-- The task that `launch_detached` spawns. -/
def runTask : Artifact → Calls Unit
  | .broken => settleRun cfg none
  | .invoke guest => do
    let _ ← sql .getInstance
    sql (.updateInstanceStatus .running false)
    let exit ← execute guest
    settleRun cfg exit
  | .run guest => do
    let _ ← execute guest
    settleRun cfg none

/-! ### The monitor of a run -/

def detectStaleMonitor (handleId : String) : Calls Bool := do
  match ← sql .registryGet with
  | some current => pure (current.containerId ≠ handleId)
  | none => pure true

/-- The branch of a monitor whose run has ended. -/
def monitorExit (handleId : String) : Calls Unit := do
  if ← detectStaleMonitor handleId then pure ()
  else do
    let current ← sql .getInstance
    if current.any fun r => r.status.stopped then pure ()
    else do
      let draining ← ask .isDraining
      let applied ← sql (.completeInstance
        (if draining then
          { status := .suspended, guard := .onlyRunning,
            terminationReason := some .shutdownRequested }
        else
          { status := .failed, guard := .onlyRunning, terminationReason := some .crashed }))
      if !applied then pure ()
      else do
        if ← ask .isDraining then sql (.setInstanceSleep .now) else pure ()
  sql .registryCleanup

/-- The branch of a monitor whose time is over. -/
def monitorTimeout : Calls Unit := do
  ask .stop
  let _ ← sql (.completeInstance
    { status := .failed, guard := .onlyRunning, terminationReason := some .timeout })
  sql .registryCleanup

/-- The task that `spawn_container_monitor` spawns. -/
def containerMonitor (handleId : String) : Calls Unit := do
  if ← ask .awaitExit then monitorExit handleId else monitorTimeout

/-! ### Requests -/

def handleStartInstance : Calls Unit := do
  if !(← ask .lookup) then pure ()
  else do
    match ← sql .getInstance with
    | some _ => pure ()
    | none => do
      if !(← ask .lookup) then pure ()
      else do
        if !(← sql .registerInstance) then do
          let _ ← sql .getInstance
          pure ()
        else do
          if !(← ask .lookup) then pure ()
          else do
            match ← ask .launchDetached with
            | some handle => do
              sql (.registryRegister handle.handleId handle.launch)
              sql (.updateInstanceStatus .running true)
              ask .spawnContainerMonitor
            | none => do
              let _ ← sql (.completeInstance { status := .failed })
              pure ()

def handleStopInstance : Calls Unit := do
  match ← sql .registryGet with
  | none => pure ()
  | some _ => do
    ask .stop
    let _ ← sql (.completeInstance { status := .cancelled })
    sql .registryCleanup

/-- The statuses that a resume request accepts. -/
def Status.resumable : Status → Bool
  | .suspended | .failed | .cancelled => true
  | .pending | .running | .completed => false

/-- The resume point is written back to the row, if there is one. -/
def restoreCheckpoint : Option String → Calls Unit
  | some id => sql (.updateInstanceCheckpoint id)
  | none => pure ()

/-- `handle_resume_instance`, from the point where it has the checkpoint to resume from. -/
def relaunch (checkpointId : Option String) : Calls Unit := do
  if !(← ask .lookup) then pure ()
  else do
    sql .registryCleanup
    sql (.updateInstanceStatus .running true)
    restoreCheckpoint checkpointId
    sql .clearInstanceSleep
    match ← ask .launchDetached with
    | some handle => do
      sql (.registryRegister handle.handleId handle.launch)
      ask .spawnContainerMonitor
    | none => pure ()

def handleResumeInstance : Calls Unit := do
  match ← sql .dbGetInstance with
  | none => pure ()
  | some inst =>
    if !inst.status.resumable then pure ()
    else
      match inst.checkpointId with
      | some id => relaunch (some id)
      | none => do
        let latest ← sql .loadLatestCheckpoint
        relaunch latest

def handleSendSignal (signalType : SignalType) (payload : Bytes) : Calls Unit := do
  match ← sql .getInstance with
  | none => pure ()
  | some inst =>
    match inst.status with
    | .running | .suspended | .pending => sql (.insertSignal signalType payload)
    | _ => pure ()

def wakeSuspendedOnSignal : Calls Unit := do
  match ← sql .getInstance with
  | none => pure ()
  | some inst =>
    if inst.status = .suspended ∧ inst.terminationReason = some .waitingSignal then
      sql (.setInstanceSleep .now)
    else pure ()

def handleSendCustomSignal (checkpointId : String) (payload : Bytes) : Calls Unit := do
  match ← sql .getInstance with
  | none => pure ()
  | some _ =>
    if checkpointId.isEmpty then pure ()
    else do
      sql (.insertCustomSignal checkpointId payload)
      wakeSuspendedOnSignal

/-! ### Background polls -/

def wakeInstance : Calls Unit := do
  if !(← ask .lookup) then pure ()
  else do
    if !(← sql .claimSleepingInstance) then pure ()
    else do
      match ← ask .launchDetached with
      | some handle => do
        sql (.registryRegister handle.handleId handle.launch)
        ask .spawnContainerMonitor
      | none => sql (.setInstanceSleep .now)

/-- `process_pending_wakes`; the instance may be beyond the batch. -/
def processPendingWakes : Calls Unit := do
  if ← ask .isDraining then pure ()
  else do
    match ← sql .getSleepingInstancesDue with
    | none => pure ()
    | some _ => do
      if !(← ask .lookup) then pure ()
      else wakeInstance

inductive Decision where
  | recover (attempt : Int32)
  | fail
deriving DecidableEq, Repr

/-- `decide`; the counter wraps around. -/
def decideRecovery (prevAttempts : Int32) (prevMarker : Option ℕ) (progress : ℕ) (cap : Int32)
    (autoRecover : Bool) : Decision :=
  let madeProgress := match prevMarker with
    | some p => decide (p < progress)
    | none => true
  let attempt := if madeProgress then 1 else prevAttempts + 1
  if !autoRecover then .fail
  else if cap < attempt then .fail
  else .recover attempt

inductive RecoveryOutcome where
  | recovered
  | failed
deriving DecidableEq, Repr

def recoverOrFail : Calls RecoveryOutcome := do
  let progress ← sql .countCheckpoints
  let inst ← sql .getInstance
  let prevAttempts := inst.elim 0 Row.recoveryAttempts
  let prevMarker := inst.bind Row.recoveryMarker
  match decideRecovery prevAttempts prevMarker progress cfg.maxAutoRestarts cfg.autoRecover with
  | .fail => do
    let _ ← sql (.completeInstance
      { status := .failed, guard := .onlyRunning, terminationReason := some .environmentRestart })
    pure .failed
  | .recover attempt => do
    sql (.markForRecovery attempt progress)
    pure .recovered

def failStaleInstance : Calls Unit := do
  ask .stop
  let _ ← sql (.completeInstance
    { status := .failed, guard := .onlyRunning, terminationReason := some .heartbeatTimeout })
  sql .registryCleanup

/-- `get_orphaned_running_instances`: whether the instance is one of them. -/
def getOrphanedRunningInstance (cutoff : Time) : Calls Bool := do
  match ← sql .listRunningInstances with
  | none => pure false
  | some inst => do
    let tracked ← sql .registryGet
    pure (tracked.isNone && (inst.startedAt.getD inst.createdAt) < cutoff)

/-- One scan of the heartbeat monitor: `check_stale_instances`. -/
def checkStaleInstances : Calls Unit := do
  if ← ask .isDraining then pure ()
  else do
    let now ← ask .now
    let cutoff := now - cfg.heartbeatTimeout
    let stale ← sql (.getStaleContainers cutoff)
    let orphaned ← getOrphanedRunningInstance cutoff
    if stale.isSome then failStaleInstance else pure ()
    if orphaned then discard (recoverOrFail cfg) else pure ()

/-- The polls of a drain: whether the instance is still active after `n` of them. -/
def filterNonTerminal : ℕ → Calls Bool
  | 0 => pure true
  | n + 1 => do
    match ← sql .getInstance with
    | none => pure false
    | some inst => if inst.status.stopped then pure false else filterNonTerminal n

/-- The end of `drain`, after it has sent the signal. -/
def forceStop (polls : ℕ) : Calls Unit := do
  if !(← filterNonTerminal polls) then pure ()
  else do
    ask .stop
    let applied ← sql (.completeInstance
      { status := .suspended, guard := .onlyRunning, terminationReason := some .shutdownRequested })
    if applied then sql (.setInstanceSleep .now) else pure ()

/-- `drain`, whose grace period is over after `polls` polls. -/
def drain (polls : ℕ) : Calls Unit := do
  ask .setDraining
  match ← sql .registryGet with
  | none => pure ()
  | some _ => do
    sql (.insertSignal .shutdown [])
    forceStop polls

/-- `recover_orphaned_containers`, at the start of a process. A run of the embedded runner has no
process of its own, so every entry of the registry is of a run that is gone. -/
def recoverOrphanedContainers : Calls Unit := do
  match ← sql .registryGet with
  | none => pure ()
  | some _ => do
    match ← sql .getInstance with
    | some inst => do
      if inst.status.stopped then pure () else discard (recoverOrFail cfg)
      sql .registryCleanup
    | none => sql .registryCleanup

end Runtara.Environment
