/-
  The Environment processes of one instance, as a system of tasks.

  Any number of processes share the database. A request or a poll arrives in a process as a task; a
  launch starts a run in the process of the launching task, and a run gets a monitor. A process may
  stop at any point, and with it all its tasks.

  A tag also records where its task is in the life of the instance: whether it has passed the check
  that lets it launch a run (`launching`), which handle it holds (`handle`), and whether it has
  taken the wake time off the row, or suspended the row without one, and has not made up for it
  (`owes`). The first and the last serve to state properties; no call depends on them.
-/
import Runtara.Environment.Handlers
import Mathlib.Logic.Function.Basic

namespace Runtara.Environment

open Tasks (Prog)
open Tasks.System (calls)

/-- What a task is. -/
inductive Kind where
  | start
  | stop
  | resume
  | signal
  | customSignal
  | wake
  | heartbeat
  | drain
  | recovery
  | run (launch : ℕ)
  | monitor (launch : ℕ)
deriving DecidableEq, Repr

/-- What is known of a task. -/
structure Tag where
  proc : ℕ
  kind : Kind
  launching : Bool := false
  handle : Option Handle := none
  owes : Bool := false
deriving DecidableEq, Repr

abbrev Task := Tasks.Task Op Op.Ret Tag

/-- A process: its drain flag, and the run that its runner's task registry has for the instance. -/
structure Process where
  draining : Bool
  task : Option ℕ
deriving DecidableEq, Repr

/-- What the tasks share. -/
structure World where
  db : Db
  now : Time
  processes : ℕ → Process
  /-- the number of runs launched so far -/
  launches : ℕ
  /-- the `cancel` flags of the runs -/
  cancel : ℕ → Bool
  /-- the `finished` flags of the runs -/
  finished : ℕ → Bool

/-- The outcome of a call that depends on the surroundings. -/
inductive Choice where
  | yes
  | no
  | launch (artifact : Artifact)

/-- The suspensions that the wake scheduler ends. -/
def TerminationReason.timed : TerminationReason → Bool
  | .sleeping | .shutdownRequested | .environmentRestart => true
  | .crashed | .timeout | .heartbeatTimeout | .waitingSignal => false

/-- A wake time is missing: the last suspension of the row is one that the wake scheduler ends, and
the row has no wake time. -/
def Row.stranded (r : Row) : Bool :=
  r.status = .suspended ∧ r.suspendedBy.any TerminationReason.timed ∧ r.sleepUntil = none

namespace Tag

/-- Where a task is after a statement, given what it has returned and the rows it has left. -/
def afterSql (tag : Tag) : (q : Sql) → q.Ret → Db → Tag
  | .registerInstance, created, _ => { tag with launching := created }
  | .dbGetInstance, r, _ => { tag with launching := r.any fun r => r.status.resumable }
  | .claimSleepingInstance, claimed, _ =>
    if claimed then { tag with launching := true, owes := true } else tag
  | .completeInstance _, applied, db =>
    { tag with owes := tag.owes || (applied && db.row.any Row.stranded) }
  | .setInstanceSleep _, _, _ => { tag with owes := false }
  | .updateInstanceStatus .running _, _, _ => { tag with owes := false }
  | _, _, _ => tag

end Tag

variable (cfg : Settings)

def exec (tag : Tag) : (op : Op) → Choice → World → Option (op.Ret × Tag × World × List Task)
  | .sql q, _, w =>
    let res := q.exec w.now w.db
    some (res.1, tag.afterSql q res.1 res.2, { w with db := res.2 }, [])
  | .launchDetached, .launch artifact, w =>
    let handle : Handle := ⟨cfg.handleId, w.launches⟩
    some (some handle, { tag with launching := false, handle := some handle, owes := false },
      { w with
        launches := w.launches + 1
        processes := Function.update w.processes tag.proc
          { w.processes tag.proc with task := some w.launches } },
      [⟨{ proc := tag.proc, kind := .run w.launches, owes := tag.owes }, runTask cfg artifact⟩])
  | .launchDetached, _, w => some (none, { tag with launching := false }, w, [])
  | .spawnContainerMonitor, _, w =>
    some ((), { tag with handle := none }, w,
      match tag.handle with
      | some handle =>
        [⟨{ proc := tag.proc, kind := .monitor handle.launch }, containerMonitor handle.handleId⟩]
      | none => [])
  | .stop, _, w =>
    match (w.processes tag.proc).task with
    | some l => some ((), tag, { w with cancel := Function.update w.cancel l true }, [])
    | none => some ((), tag, w, [])
  | .awaitExit, .no, w => some (false, tag, w, [])
  | .awaitExit, _, w =>
    if (w.processes tag.proc).task.all w.finished then some (true, tag, w, []) else none
  | .setFinished, _, w =>
    match tag.kind with
    | .run l => some ((), tag, { w with finished := Function.update w.finished l true }, [])
    | _ => some ((), tag, w, [])
  | .removeTask, _, w =>
    some ((), tag, { w with
      processes := Function.update w.processes tag.proc
        { w.processes tag.proc with task := none } }, [])
  | .dropped, .yes, w =>
    match tag.kind with
    | .run l => if w.cancel l then some (true, tag, w, []) else none
    | _ => none
  | .dropped, _, w => some (false, tag, w, [])
  | .isDraining, _, w => some ((w.processes tag.proc).draining, tag, w, [])
  | .setDraining, _, w =>
    some ((), tag, { w with
      processes := Function.update w.processes tag.proc
        { w.processes tag.proc with draining := true } }, [])
  | .now, _, w => some (w.now, tag, w, [])
  | .lookup, .yes, w => some (true, tag, w, [])
  | .lookup, _, w => some (false, tag, w, [])

/-- What arrives in a process. -/
inductive Arrival where
  | start
  | stop
  | resume
  | signal (signalType : SignalType) (payload : Bytes)
  | customSignal (checkpointId : String) (payload : Bytes)
  | wake
  | heartbeat
  | drain (polls : ℕ)
  | recovery
deriving DecidableEq, Repr

def Arrival.kind : Arrival → Kind
  | .start => .start
  | .stop => .stop
  | .resume => .resume
  | .signal _ _ => .signal
  | .customSignal _ _ => .customSignal
  | .wake => .wake
  | .heartbeat => .heartbeat
  | .drain _ => .drain
  | .recovery => .recovery

def Arrival.program : Arrival → Calls Unit
  | .start => handleStartInstance
  | .stop => handleStopInstance
  | .resume => handleResumeInstance
  | .signal signalType payload => handleSendSignal signalType payload
  | .customSignal checkpointId payload => handleSendCustomSignal checkpointId payload
  | .wake => processPendingWakes
  | .heartbeat => checkStaleInstances cfg
  | .drain polls => Environment.drain polls
  | .recovery => recoverOrphanedContainers cfg

/-- What happens outside the tasks. -/
inductive Outside where
  | arrive (proc : ℕ) (arrival : Arrival)
  | tick (d : ℕ)
  /-- a process stops -/
  | halt (proc : ℕ)
deriving DecidableEq, Repr

def outside : Outside → World → List Task → Option (World × List Task)
  | .arrive proc arrival, w, ts =>
    some (w, ts ++ [⟨{ proc := proc, kind := arrival.kind }, arrival.program cfg⟩])
  | .tick d, w, ts => some ({ w with now := w.now + d }, ts)
  | .halt proc, w, ts =>
    some ({ w with processes := Function.update w.processes proc ⟨false, none⟩ },
      ts.filter fun t => t.tag.proc ≠ proc)

@[reducible] def environment : Tasks.System Op Op.Ret where
  World := World
  Tag := Tag
  Choice := Choice
  Outside := Outside
  exec := exec cfg
  outside := outside cfg

abbrev Config := (environment cfg).Config

abbrev Move := (environment cfg).Move

/-- No row, no run and no task. -/
def World.initial : World where
  db := ⟨none, none, [], [], none, none⟩
  now := 0
  processes _ := ⟨false, none⟩
  launches := 0
  cancel _ := false
  finished _ := false

def initial : Config cfg := ⟨.initial, []⟩

/-- The settings of an Environment that is not configured. -/
def Settings.default (instanceId : String) : Settings where
  instanceId := instanceId
  fromTimestampMillis ms := some ms
  maxAutoRestarts := 5
  autoRecover := true
  heartbeatTimeout := 120000

/-- A guest that sleeps until the time 0. -/
def sleepingGuest : Guest InvokeExit := pure (.suspended [.time 0])

/-- The inputs of a start request that launches a run of the guest. -/
def startInputs (guest : Guest InvokeExit) : List (environment (.default "i")).Input :=
  List.flatten [[.outside (.arrive 0 .start)], calls 5 0 .yes, [.task 0 (.launch (.invoke guest))],
    calls 3 0 .yes]

/-- The inputs of the next `n` requests of a guest whose run is not dropped. -/
def requestInputs (n i : ℕ) : List (environment (.default "i")).Input :=
  (List.replicate n [.task i .no, .task i .yes]).flatten

/-- The inputs of a start request whose guest sleeps, up to the end of the run. -/
def sleepInputs : List (Tasks.System.Input (environment (.default "i"))) :=
  List.flatten [startInputs sleepingGuest, calls 6 1 .yes]

/-- A guest that pauses at a breakpoint. -/
def pausingGuest : Guest InvokeExit := do
  RuntimeHost.breakpointPause
  pure (.suspended [.onResume])

/-- The inputs of a start request whose guest pauses, up to the end of the run. -/
def pauseInputs : List (environment (.default "i")).Input :=
  List.flatten [startInputs pausingGuest, calls 2 1 .yes, requestInputs 4 1, calls 2 1 .yes]

/-- The inputs of a wake by the task `i`, up to the launch of a run of the guest. -/
def wakeInputs (i : ℕ) (guest : Guest InvokeExit) : List (environment (.default "i")).Input :=
  List.flatten [[.outside (.arrive 0 .wake)], calls 5 i .yes, [.task i (.launch (.invoke guest))]]

end Runtara.Environment
