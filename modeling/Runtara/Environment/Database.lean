/-
  The database rows of one instance, and the statements on them.

  Core's persistence layer (`persistence/common/ops`, with the Postgres dialect) and the container
  registry are a set of SQL statements; each is atomic, and `Sql.exec` is what it does to the rows
  of the instance and what it returns. Statements do not fail. Left out are the columns that no
  statement or handler below reads (`input`, `error`, `stderr`, `exit_code`, the metrics, the
  tenant, the cancellation tokens).
-/
import Runtara.Wait.Signal

namespace Runtara.Environment

/-- Milliseconds since the epoch. -/
abbrev Time := ℕ

/-- `instance_status`. -/
inductive Status where
  | pending
  | running
  | suspended
  | completed
  | failed
  | cancelled
deriving DecidableEq, Repr

/-- The statuses of an instance that is over. -/
def Status.terminal : Status → Bool
  | .completed | .failed | .cancelled => true
  | .pending | .running | .suspended => false

/-- The statuses with which a run is over. -/
def Status.stopped : Status → Bool
  | .completed | .failed | .cancelled | .suspended => true
  | .pending | .running => false

/-- The values of `termination_reason` that are written. -/
inductive TerminationReason where
  | crashed
  | timeout
  | heartbeatTimeout
  | sleeping
  | shutdownRequested
  | environmentRestart
  | waitingSignal
deriving DecidableEq, Repr

inductive SignalType where
  | cancel
  | pause
  | resume
  | shutdown
deriving DecidableEq, Repr

/-- The row of `instances`. -/
structure Row where
  status : Status
  terminationReason : Option TerminationReason
  checkpointId : Option String
  createdAt : Time
  startedAt : Option Time
  finishedAt : Option Time
  output : Option Bytes
  sleepUntil : Option Time
  recoveryAttempts : Int32
  /-- the number of checkpoints at the last recovery -/
  recoveryMarker : Option ℕ
  /-- not a column: the reason given by the statement that last set `status` to `suspended` -/
  suspendedBy : Option TerminationReason
deriving DecidableEq, Repr

/-- The row of `pending_signals`. -/
structure PendingSignal where
  signalType : SignalType
  payload : Bytes
  acknowledged : Bool
deriving DecidableEq, Repr

/-- The row of `container_registry`. -/
structure Container where
  containerId : String
  startedAt : Time
  /-- not a column: which launch of the instance the entry was written for -/
  launch : ℕ
deriving DecidableEq, Repr

/-- All rows of the instance. -/
structure Db where
  row : Option Row
  signal : Option PendingSignal
  customSignals : SignalRows
  checkpoints : List (String × Bytes)
  /-- the time of the last event -/
  lastEvent : Option Time
  registry : Option Container
deriving DecidableEq, Repr

/-- `CompleteInstanceGuard`. -/
inductive Guard where
  | any
  | onlyRunning
deriving DecidableEq, Repr

/-- `CompleteInstanceParams`. -/
structure CompleteParams where
  status : Status
  guard : Guard := .any
  terminationReason : Option TerminationReason := none
  output : Option Bytes := none
  checkpointId : Option String := none
deriving DecidableEq, Repr

/-- A wake time: `Utc::now()` or a given one. -/
inductive WakeAt where
  | now
  | time (t : Time)
deriving DecidableEq, Repr

def WakeAt.toTime (now : Time) : WakeAt → Time
  | .now => now
  | .time t => t

/-- The statements. -/
inductive Sql where
  | registerInstance
  | getInstance
  /-- `db::get_instance`, which only the resume request uses -/
  | dbGetInstance
  /-- `started` says that a start time is given -/
  | updateInstanceStatus (status : Status) (started : Bool)
  | updateInstanceCheckpoint (checkpointId : String)
  | completeInstance (params : CompleteParams)
  | markForRecovery (attempt : Int32) (marker : ℕ)
  | setInstanceSleep (wakeAt : WakeAt)
  | clearInstanceSleep
  | claimSleepingInstance
  | getSleepingInstancesDue
  /-- `list_instances` of the running ones -/
  | listRunningInstances
  | countCheckpoints
  | saveCheckpoint (checkpointId : String) (state : Bytes)
  | loadCheckpoint (checkpointId : String)
  | loadLatestCheckpoint
  | insertEvent
  | insertSignal (signalType : SignalType) (payload : Bytes)
  /-- `handed` is not part of it: the guest looks at the signal it is answered with -/
  | getPendingSignal (handed : Bool)
  | acknowledgeSignal
  | insertCustomSignal (checkpointId : String) (payload : Bytes)
  /-- `signal` is not part of it: the lifecycle signal that the guest is handed along with it -/
  | takePendingCustomSignal (checkpointId : String) (signal : Option PendingSignal)
  | registryRegister (containerId : String) (launch : ℕ)
  /-- `get`, `list_all_registered` and the list of tracked ids -/
  | registryGet
  | registryCleanup
  /-- `get_stale_containers` -/
  | getStaleContainers (cutoff : Time)
deriving DecidableEq, Repr

@[reducible] def Sql.Ret : Sql → Type
  | .registerInstance => Bool
  | .getInstance => Option Row
  | .dbGetInstance => Option Row
  | .updateInstanceStatus _ _ => Unit
  | .updateInstanceCheckpoint _ => Unit
  | .completeInstance _ => Bool
  | .markForRecovery _ _ => Unit
  | .setInstanceSleep _ => Unit
  | .clearInstanceSleep => Unit
  | .claimSleepingInstance => Bool
  | .getSleepingInstancesDue => Option Row
  | .listRunningInstances => Option Row
  | .countCheckpoints => ℕ
  | .saveCheckpoint _ _ => Unit
  | .loadCheckpoint _ => Option Bytes
  | .loadLatestCheckpoint => Option String
  | .insertEvent => Unit
  | .insertSignal _ _ => Unit
  | .getPendingSignal _ => Option PendingSignal
  | .acknowledgeSignal => Unit
  | .insertCustomSignal _ _ => Unit
  | .takePendingCustomSignal _ _ => Option Bytes
  | .registryRegister _ _ => Unit
  | .registryGet => Option Container
  | .registryCleanup => Unit
  | .getStaleContainers _ => Option Container

namespace Row

/-- The row that `op_register_instance` inserts. -/
def registered (now : Time) : Row where
  status := .pending
  terminationReason := none
  checkpointId := none
  createdAt := now
  startedAt := none
  finishedAt := none
  output := none
  sleepUntil := none
  recoveryAttempts := 0
  recoveryMarker := none
  suspendedBy := none

/-- `op_update_instance_status`: a start time also clears what the last stop has left. -/
def updateStatus (r : Row) (now : Time) (status : Status) (started : Bool) : Row :=
  let suspendedBy := if status = .suspended then none else r.suspendedBy
  if started then
    { r with
      status, suspendedBy, startedAt := some now, finishedAt := none, terminationReason := none }
  else { r with status, suspendedBy }

/-- `op_complete_instance_unified` on a row that it applies to: the output is overwritten, the
reason and the checkpoint only when they are given. -/
def complete (r : Row) (now : Time) (p : CompleteParams) : Row :=
  { r with
    status := p.status
    finishedAt := if p.status.stopped then some now else r.finishedAt
    terminationReason := p.terminationReason.or r.terminationReason
    output := p.output
    checkpointId := p.checkpointId.or r.checkpointId
    suspendedBy := if p.status = .suspended then p.terminationReason else r.suspendedBy }

/-- The `WHERE` clause of `op_complete_instance_unified`. -/
def accepts (r : Row) (p : CompleteParams) : Bool := p.guard = .any ∨ r.status = .running

/-- `op_mark_for_recovery`. -/
def markForRecovery (r : Row) (now : Time) (attempt : Int32) (marker : ℕ) : Row :=
  { r with
    status := .suspended
    terminationReason := some .environmentRestart
    sleepUntil := some now
    recoveryAttempts := attempt
    recoveryMarker := some marker
    suspendedBy := some .environmentRestart }

/-- The `WHERE` clause of `op_claim_sleeping_instance`. -/
def claimable (r : Row) : Bool := r.sleepUntil.isSome ∧ r.status = .suspended

/-- The `WHERE` clause of `op_get_sleeping_instances_due`. -/
def due (r : Row) (now : Time) : Bool := r.sleepUntil.any (· ≤ now) ∧ r.status = .suspended

end Row

/-- Replaces the row of a key, or adds it: `ON CONFLICT DO UPDATE`. -/
def upsert (rows : List (String × Bytes)) (key : String) (value : Bytes) : List (String × Bytes) :=
  (key, value) :: rows.filter fun row => row.1 ≠ key

namespace Db

/-- An update of the row of the instance. -/
def updateRow (db : Db) (f : Row → Row) : Db := { db with row := db.row.map f }

/-- `get_stale_containers`: the entry of the registry, if its last event, or without one its start,
is older than the cutoff. -/
def staleContainer (db : Db) (cutoff : Time) : Option Container :=
  db.registry.filter fun c => (db.lastEvent.getD c.startedAt) < cutoff

end Db

/-- One statement. -/
def Sql.exec (now : Time) : (q : Sql) → Db → q.Ret × Db
  | .registerInstance, db =>
    match db.row with
    | some _ => (false, db)
    | none => (true, { db with row := some (.registered now) })
  | .getInstance, db => (db.row, db)
  | .dbGetInstance, db => (db.row, db)
  | .updateInstanceStatus status started, db =>
    ((), db.updateRow fun r => r.updateStatus now status started)
  | .updateInstanceCheckpoint id, db =>
    ((), db.updateRow fun r => { r with checkpointId := some id })
  | .completeInstance p, db =>
    match db.row with
    | some r =>
      if r.accepts p then (true, { db with row := some (r.complete now p) }) else (false, db)
    | none => (false, db)
  | .markForRecovery attempt marker, db =>
    ((), db.updateRow fun r => r.markForRecovery now attempt marker)
  | .setInstanceSleep wakeAt, db =>
    ((), db.updateRow fun r => { r with sleepUntil := some (wakeAt.toTime now) })
  | .clearInstanceSleep, db => ((), db.updateRow fun r => { r with sleepUntil := none })
  | .claimSleepingInstance, db =>
    match db.row with
    | some r =>
      if r.claimable then (true, { db with row := some { r with sleepUntil := none } })
      else (false, db)
    | none => (false, db)
  | .getSleepingInstancesDue, db => (db.row.filter fun r => r.due now, db)
  | .listRunningInstances, db => (db.row.filter fun r => r.status = .running, db)
  | .countCheckpoints, db => (db.checkpoints.length, db)
  | .saveCheckpoint id state, db => ((), { db with checkpoints := upsert db.checkpoints id state })
  | .loadCheckpoint id, db => (db.checkpoints.lookup id, db)
  | .loadLatestCheckpoint, db => (db.checkpoints.head?.map Prod.fst, db)
  | .insertEvent, db => ((), { db with lastEvent := some now })
  | .insertSignal signalType payload, db =>
    ((), { db with signal := some ⟨signalType, payload, false⟩ })
  | .getPendingSignal _, db => (db.signal.filter fun s => !s.acknowledged, db)
  | .acknowledgeSignal, db =>
    ((), { db with signal := db.signal.map fun s => { s with acknowledged := true } })
  | .insertCustomSignal id payload, db =>
    ((), { db with customSignals := Runtara.insertCustomSignal db.customSignals id payload })
  | .takePendingCustomSignal id _, db => (db.customSignals.lookup id, db)
  | .registryRegister containerId launch, db =>
    ((), { db with registry := some ⟨containerId, now, launch⟩ })
  | .registryGet, db => (db.registry, db)
  | .registryCleanup, db => ((), { db with registry := none })
  | .getStaleContainers cutoff, db => (db.staleContainer cutoff, db)

end Runtara.Environment
