/-
  Checkpoints as memo cells.

  The requests of any number of runs of an instance that read or write its `checkpoints` rows, each
  the program that Core's handlers make of it, followed by its reply. The rest of what happens to
  the instance may change its other rows at any time.

  The world records which states have been reported as stored (`reported`), a tag what had been
  reported when its request arrived and what the request has read and written since. They serve to
  state properties; no call depends on them.
-/
import Runtara.Environment.Calls

namespace Runtara.Environment

open Tasks (Prog)

/-- The requests that read or write checkpoints. -/
inductive CellRequest where
  | checkpoint (checkpointId : String) (state : Bytes)
  | getCheckpoint (checkpointId : String)
  | sleep (checkpointId : String) (state : Bytes)
  /-- a `suspended` event with a sleep -/
  | suspend (checkpointId : String) (wakeAt : Option Time) (state : Bytes)
  | retryAttempt (checkpointId : String) (attemptNumber : ℤ)
deriving DecidableEq, Repr

/-- What a request is answered with. -/
inductive Reply where
  /-- a checkpoint is refused when the instance is not running -/
  | checkpoint (response : Option CheckpointResponse)
  | getCheckpoint (state : Option Bytes)
  | done
deriving DecidableEq, Repr

/-- The calls: those of Core's handlers, the record of a retry attempt, and the reply. -/
inductive CellOp where
  | core (op : Op)
  | saveRetryAttempt (checkpointId : String) (attemptNumber : ℤ)
  | reply (r : Reply)
deriving DecidableEq, Repr

@[reducible] def CellOp.Ret : CellOp → Type
  | .core op => op.Ret
  | .saveRetryAttempt _ _ => Unit
  | .reply _ => Unit

/-- A program of Core's handlers. -/
def core {α : Type} (p : Calls α) : Prog CellOp CellOp.Ret α :=
  p.interp fun op => Prog.ask (CellOp.core op)

def reply (r : Reply) : Prog CellOp CellOp.Ret Unit := Prog.ask (CellOp.reply r)

namespace CellRequest

def program : CellRequest → Prog CellOp CellOp.Ret Unit
  | checkpoint id state => do
    let response ← core (handle (.checkpoint id state))
    reply (.checkpoint response)
  | getCheckpoint id => do
    let found ← core (handle (.getCheckpoint id))
    reply (.getCheckpoint found)
  | sleep id state => do
    core (handle (.sleep id state))
    reply .done
  | suspend id wakeAt state => do
    core (handle (.event (.suspended (.sleep id wakeAt state))))
    reply .done
  | retryAttempt id attemptNumber => do
    Prog.ask (CellOp.saveRetryAttempt id attemptNumber)
    reply .done

/-- The key and the state that the request may save. -/
def writes : CellRequest → Option (String × Bytes)
  | checkpoint id state => if state.isEmpty then none else some (id, state)
  | getCheckpoint _ => none
  | sleep id state => if id.isEmpty then none else some (id, state)
  | suspend id _ state => some (id, state)
  | retryAttempt _ _ => none

/-- The request saves without a look at what is stored. -/
def unconditional : CellRequest → Bool
  | checkpoint _ _ => false
  | _ => true

def reads : CellRequest → Option String
  | checkpoint id _ => some id
  | getCheckpoint id => some id
  | _ => none

/-- What the reply reports as stored: the state of a checkpoint request that has found none. -/
def reports : CellRequest → Reply → Option (String × Bytes)
  | checkpoint id state, .checkpoint (some response) =>
    if response.found || state.isEmpty then none else some (id, state)
  | _, _ => none

end CellRequest

/-- The reply gives the state of a checkpoint. A refusal gives none, and is no answer. -/
def Reply.gives (state : Bytes) : Reply → Bool
  | .checkpoint (some response) => response.found ∧ response.state = state
  | .checkpoint none => true
  | .getCheckpoint found => found = some state
  | .done => true

/-- What a request has done so far: the last state it has loaded, and whether it has saved its
own. -/
structure CellPhase where
  loaded : Option (Option Bytes) := none
  saved : Bool := false
deriving DecidableEq, Repr

def CellPhase.after (p : CellPhase) : (op : CellOp) → op.Ret → CellPhase
  | .core (.sql (.loadCheckpoint _)), found => { p with loaded := some found }
  | .core (.sql (.saveCheckpoint _ _)), _ => { p with saved := true }
  | _, _ => p

/-- What is known of a request. -/
structure CellTag where
  request : CellRequest
  /-- what had been reported as stored when the request arrived -/
  reported : List (String × Bytes)
  phase : CellPhase := {}
deriving DecidableEq, Repr

/-- What the requests share. -/
structure CellWorld where
  db : Db
  now : Time
  reported : List (String × Bytes)
deriving DecidableEq, Repr

/-- The key of the row of a retry attempt. -/
def retryCheckpointId (checkpointId : String) (attemptNumber : ℤ) : String :=
  checkpointId ++ "::retry::" ++ toString attemptNumber

/-- `save_retry_attempt`: on a conflict the state of the row stays. -/
def saveRetryAttempt (rows : List (String × Bytes)) (checkpointId : String) (attemptNumber : ℤ) :
    List (String × Bytes) :=
  let key := retryCheckpointId checkpointId attemptNumber
  if (rows.lookup key).isSome then rows else (key, []) :: rows

abbrev CellTask := Tasks.Task CellOp CellOp.Ret CellTag

/-- A call of a request. The handlers of these requests call nothing but statements. -/
def cellExec (tag : CellTag) : (op : CellOp) → Unit → CellWorld →
    Option (op.Ret × CellTag × CellWorld × List CellTask)
  | .core (.sql q), _, w =>
    let res := q.exec w.now w.db
    some (res.1, { tag with phase := tag.phase.after (.core (.sql q)) res.1 },
      { w with db := res.2 }, [])
  | .core _, _, _ => none
  | .saveRetryAttempt id attemptNumber, _, w =>
    some ((), tag,
      { w with db := { w.db with
        checkpoints := Environment.saveRetryAttempt w.db.checkpoints id attemptNumber } }, [])
  | .reply r, _, w =>
    some ((), tag, { w with reported := (tag.request.reports r).toList ++ w.reported }, [])

/-- What happens besides. -/
inductive CellOutside where
  | arrive (request : CellRequest)
  /-- anything else changes the row of the instance or its signals -/
  | elsewhere (row : Row) (signal : Option PendingSignal) (customSignals : SignalRows)
  | tick (d : ℕ)
deriving DecidableEq, Repr

def cellOutside : CellOutside → CellWorld → List CellTask → Option (CellWorld × List CellTask)
  | .arrive request, w, ts => some (w, ts ++ [⟨⟨request, w.reported, {}⟩, request.program⟩])
  | .elsewhere row signal customSignals, w, ts =>
    some ({ w with db := { w.db with row := some row, signal, customSignals } }, ts)
  | .tick d, w, ts => some ({ w with now := w.now + d }, ts)

@[reducible] def checkpointCells : Tasks.System CellOp CellOp.Ret where
  World := CellWorld
  Tag := CellTag
  Choice := Unit
  Outside := CellOutside
  exec := cellExec
  outside := cellOutside

abbrev CellConfig := checkpointCells.Config

abbrev CellMove := checkpointCells.Move

/-- The checkpoints of an instance without requests in flight. -/
def restingCells (db : Db) : CellConfig := ⟨⟨db, 0, []⟩, []⟩

namespace CellMove

/-- If the move is a reply to a request that reads a key whose state had been reported when the
request arrived, it gives that state. -/
def honest (m : CellMove) : Bool :=
  match m.caller with
  | some (tag, .reply r) => tag.reported.all fun cell =>
    tag.request.reads ≠ some cell.1 ∨ r.gives cell.2
  | _ => true

end CellMove

end Runtara.Environment
