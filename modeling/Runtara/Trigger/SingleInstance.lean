/-
  Triggers with `single_instance`.

  Any number of trigger workers, each with an execution engine of its own, process the events of a
  workflow: they ask whether an instance is running, and start one if not. An engine keeps in memory
  whether it is starting the workflow, until some time after the start; whether an instance is
  running is asked of the Environment, which registers an instance as pending before it runs.
  Lookups succeed, and all triggers of the workflow have `single_instance` enabled.

  A tag records how far its event has come (`Phase`); no call depends on it.
-/
import Runtara.Machine.Tasks
import Mathlib.Logic.Function.Basic

namespace Runtara.Trigger

open Tasks (Prog)

/-- The status of an instance, as far as it matters here. -/
inductive Status where
  | pending
  | running
  | suspended
  /-- completed, failed or cancelled -/
  | terminal
deriving DecidableEq, Repr

/-- What the lookups before a start come to: the version, the time limit, the compilation and the
image. -/
inductive Prepared where
  | ready
  | notCompiled
  | notRunnable
  | failed
deriving DecidableEq, Repr

/-- What the Environment answers when the row is to be inserted. -/
inductive Registered where
  | created
  | deduplicated
  | imageNotFound
  | refused
deriving DecidableEq, Repr

inductive ProcessResult where
  | success
  | deduplicated
  | retryLater
  | notRunnable
  | permanentFailure
deriving DecidableEq, Repr

/-- The calls. -/
inductive Op where
  | getTriggerSingleInstance
  /-- whether `starting_workflows` has the workflow -/
  | startingContains
  /-- whether the Environment lists a running instance of the workflow -/
  | listRunningInstances
  | insertStarting
  | prepare
  /-- `start_instance`, up to the insertion of the row -/
  | registerInstance
  /-- the rest of `start_instance` -/
  | launch
  /-- the task that ends the grace period is spawned -/
  | spawnGrace
  | removeStarting
  | acknowledge (result : ProcessResult)
deriving DecidableEq, Repr

@[reducible] def Op.Ret : Op → Type
  | .getTriggerSingleInstance => Option Bool
  | .startingContains => Bool
  | .listRunningInstances => Bool
  | .insertStarting => Unit
  | .prepare => Prepared
  | .registerInstance => Registered
  | .launch => Bool
  | .spawnGrace => Unit
  | .removeStarting => Unit
  | .acknowledge _ => Unit

abbrev Calls := Prog Op Op.Ret

def ask (op : Op) : Calls op.Ret := Prog.ask op

def hasRunningInstance : Calls Bool := do
  if ← ask .startingContains then pure true else ask .listRunningInstances

/-- `start_instance`, and what becomes of its result. -/
def startInstance : Calls ProcessResult := do
  match ← ask .registerInstance with
  | .created => do
    if ← ask .launch then pure .success else pure .permanentFailure
  | .deduplicated => pure .deduplicated
  -- the image is compiled again
  | .imageNotFound => pure .retryLater
  | .refused => pure .permanentFailure

/-- `execute_detached_inner`, with what `process_trigger_event` makes of its result. -/
def executeDetachedInner : Calls ProcessResult := do
  match ← ask .prepare with
  | .ready => startInstance
  | .notCompiled => pure .retryLater
  | .notRunnable => pure .notRunnable
  | .failed => pure .permanentFailure

def executeDetached : Calls ProcessResult := do
  ask .insertStarting
  let result ← executeDetachedInner
  ask .spawnGrace
  pure result

def processTriggerEvent : Calls ProcessResult := do
  match ← ask .getTriggerSingleInstance with
  | some true => do
    if ← hasRunningInstance then pure .success else executeDetached
  | _ => executeDetached

/-- The processing of an event. -/
def program : Calls Unit := do
  let result ← processTriggerEvent
  ask (.acknowledge result)

/-- The end of the grace period. -/
def graceProgram : Calls Unit := ask .removeStarting

/-! ### The system -/

/-- How far an event has come. -/
inductive Phase where
  | checking
  /-- it has found no running instance -/
  | passed
  /-- it has created an instance, or will not -/
  | settled
deriving DecidableEq, Repr

def Phase.after (p : Phase) : (op : Op) → op.Ret → Phase
  | .getTriggerSingleInstance, single => if single = some true then p else .passed
  | .listRunningInstances, found => if found then p else .passed
  | .prepare, prepared => if prepared = .ready then p else .settled
  | .registerInstance, _ => .settled
  | _, _ => p

/-- What is known of an event. -/
structure Tag where
  proc : ℕ
  instanceId : String
  phase : Phase
deriving DecidableEq, Repr

abbrev Task := Tasks.Task Op Op.Ret Tag

structure World where
  /-- the instances of the workflow -/
  instances : List (String × Status)
  /-- the engine of a process has the workflow in `starting_workflows` -/
  starting : ℕ → Bool

namespace World

/-- The status of an instance changes. -/
def setStatus (w : World) (id : String) (f : Status → Status) : World :=
  { w with instances := w.instances.map fun i => if i.1 = id then (i.1, f i.2) else i }

def running (w : World) : Bool := w.instances.any fun i => i.2 = .running

/-- The number of instances that are not terminal. -/
def live (w : World) : ℕ := w.instances.countP fun i => i.2 ≠ .terminal

end World

/-- What the surroundings decide. -/
inductive Choice where
  | yes
  | no
  | prepared (p : Prepared)
  | refuse (r : Registered)

/-- The row is inserted, unless the id is taken or the Environment refuses. -/
def World.register (w : World) (id : String) : Choice → Registered × World
  | .refuse .imageNotFound => (.imageNotFound, w)
  | .refuse .refused => (.refused, w)
  | _ =>
    if w.instances.any fun i => i.1 = id then (.deduplicated, w)
    else (.created, { w with instances := (id, .pending) :: w.instances })

/-- A launched instance is running, and one that cannot be launched has failed. -/
def Status.launched (ok : Bool) : Status → Status
  | .pending => if ok then .running else .terminal
  | status => status

/-- What a call returns, and what it does to the instances and the engines. -/
def call (proc : ℕ) (id : String) : (op : Op) → Choice → World → op.Ret × World
  | .getTriggerSingleInstance, _, w => (some true, w)
  | .startingContains, _, w => (w.starting proc, w)
  | .listRunningInstances, _, w => (w.running, w)
  | .insertStarting, _, w => ((), { w with starting := Function.update w.starting proc true })
  | .prepare, .prepared p, w => (p, w)
  | .prepare, _, w => (.ready, w)
  | .registerInstance, choice, w => w.register id choice
  | .launch, .no, w => (false, w.setStatus id (Status.launched false))
  | .launch, _, w => (true, w.setStatus id (Status.launched true))
  | .spawnGrace, _, w => ((), w)
  | .removeStarting, _, w => ((), { w with starting := Function.update w.starting proc false })
  | .acknowledge _, _, w => ((), w)

def exec (tag : Tag) (op : Op) (choice : Choice) (w : World) :
    Option (op.Ret × Tag × World × List Task) :=
  let res := call tag.proc tag.instanceId op choice w
  let started := if op = .spawnGrace then [⟨{ tag with phase := .settled }, graceProgram⟩] else []
  some (res.1, { tag with phase := tag.phase.after op res.1 }, res.2, started)

/-- What happens besides. -/
inductive Outside where
  /-- an event is delivered to a process -/
  | deliver (proc : ℕ) (instanceId : String)
  | suspend (id : String)
  | resume (id : String)
  | finish (id : String)
deriving DecidableEq, Repr

def Status.suspend : Status → Status
  | .running => .suspended
  | status => status

def Status.resume : Status → Status
  | .suspended => .running
  | status => status

def outside : Outside → World → List Task → Option (World × List Task)
  | .deliver proc instanceId, w, ts => some (w, ts ++ [⟨⟨proc, instanceId, .checking⟩, program⟩])
  | .suspend id, w, ts => some (w.setStatus id Status.suspend, ts)
  | .resume id, w, ts => some (w.setStatus id Status.resume, ts)
  | .finish id, w, ts => some (w.setStatus id fun _ => .terminal, ts)

/-- The trigger workers of a workflow. -/
@[reducible] def triggers : Tasks.System Op Op.Ret where
  World := World
  Tag := Tag
  Choice := Choice
  Outside := Outside
  exec := exec
  outside := outside

abbrev Config := triggers.Config

abbrev Move := triggers.Move

def initial : Config := ⟨⟨[], fun _ => false⟩, []⟩

/-- The event has passed its check, and may still create an instance. -/
def Task.mayCreate (t : Task) : Bool := t.tag.phase = .passed && !t.prog.isDone

/-- The instances that are not terminal, and the events that may still create one. -/
def occupants (c : Config) : ℕ := c.world.live + c.tasks.countP Task.mayCreate

namespace Move

/-- The check that the move makes lets its event be skipped. -/
def skips (m : Move) : Bool :=
  match m.caller with
  | some (tag, .startingContains) => m.before.world.starting tag.proc
  | some (_, .listRunningInstances) => m.before.world.running
  | _ => false

def creates (m : Move) (id : String) : Bool :=
  (m.caller.any fun call => call.1.instanceId = id ∧ call.2 = .registerInstance) ∧
    m.before.world.instances.length < m.after.world.instances.length

end Move

/-- At no time are two instances non-terminal; and an event is skipped only if at the time of its
check there is a non-terminal instance, or a start is in progress that goes on to create one. -/
structure Exact (ms : List Move) : Prop where
  single : ∀ m ∈ ms, m.after.world.live ≤ 1
  skipped : ∀ earlier m later, ms = earlier ++ m :: later → Move.skips m = true →
    0 < m.before.world.live ∨ ∃ t ∈ m.before.tasks, Task.mayCreate t = true ∧
      ∃ m' ∈ later, Move.creates m' t.tag.instanceId = true

end Runtara.Trigger
