/-
  Waiting for a signal, with crashes and replays.

  A `WaitForSignal` step (`emit_wait_for_signal_plan`) saves its deadline as a checkpoint under
  its signal id, then polls the custom signal stored under that id and compares the clock. Signals
  are rows that a later request for the same id overwrites (`insert_custom_signal`). Nothing of
  the outcome is stored: after a stop the workflow runs from its start again, and the step polls
  again.

  The rest of the workflow is a parameter (`WaitWorkflow`): what it does next may depend in any
  way on the answers of the other steps and on the outcomes of the waits.
-/
import Runtara.Agent.Retry
import Runtara.Machine.Interactive

namespace Runtara

/-- A wait as it is reached: its signal id, and the timeout if it has one. -/
structure WaitSite where
  signalId : String
  timeoutMs : Option UInt64
deriving DecidableEq, Repr

/-- What a workflow does next. -/
inductive WaitAction where
  | wait (site : WaitSite)
  | other
  | finished
deriving DecidableEq, Repr

/-- A workflow with waits. The answer of another step is whatever the host returns, be it from a
checkpoint or not. -/
structure WaitWorkflow where
  Local : Type
  start : Local
  next : Local → WaitAction
  afterOther : Local → Bytes → Local
  afterSignal : Local → Bytes → Local
  /-- the `onError` route of the wait, or the failure of the run -/
  afterTimeout : Local → Local
  /-- whether a poll without success gives up the memory of the instance -/
  storeFreeing : Bool

/-- The rows of `pending_checkpoint_signals` of the instance. -/
abbrev SignalRows := List (String × Bytes)

/-- `insert_custom_signal`: the row of the id is replaced if there is one. -/
def insertCustomSignal (rows : SignalRows) (signalId : String) (payload : Bytes) : SignalRows :=
  (signalId, payload) :: rows.filter fun row => row.1 ≠ signalId

theorem lookup_filter_ne {rows : SignalRows} {key k : String} (h : k ≠ key) :
    (rows.filter fun row => row.1 ≠ key).lookup k = rows.lookup k := by
  induction rows with
  | nil => rfl
  | cons row rows ih =>
    by_cases hrow : row.1 = key
    · have hkey : (k == row.1) = false := by simpa [hrow] using h
      rw [List.filter_cons_of_neg (by simpa using hrow), ih, List.lookup_cons, hkey]
    · rw [List.filter_cons_of_pos (by simpa using hrow), List.lookup_cons, List.lookup_cons, ih]

theorem lookup_insertCustomSignal (rows : SignalRows) (signalId : String) (payload : Bytes)
    (k : String) : (insertCustomSignal rows signalId payload).lookup k =
      if k = signalId then some payload else rows.lookup k := by
  rw [insertCustomSignal, List.lookup_cons]
  by_cases hk : k = signalId
  · simp [hk]
  · have hkey : (k == signalId) = false := by simpa using hk
    rw [hkey, if_neg hk]
    exact lookup_filter_ne hk

/-- Where the code of the instance is. -/
inductive WaitPoint (σ : Type) where
  | stopped
  | running (s : σ)
  /-- at the head of the poll loop -/
  | poll (s : σ) (site : WaitSite) (deadline : UInt64)
  /-- after a poll that has found no signal -/
  | check (s : σ) (site : WaitSite) (deadline : UInt64)

/-- The state of an instance: the signals and checkpoints stored for it, the clock of the host and
the code. -/
structure WaitState (σ : Type) where
  signals : SignalRows
  checkpoints : Store
  now : UInt64
  point : WaitPoint σ

/-- What can happen next: the code makes a step, with the answer of the host if it is another
step's; the instance stops, by a crash, a pause or a suspension; it is launched; a signal is
sent; the clock changes. -/
inductive WaitInput where
  | code (answer : Bytes)
  | stop
  | launch
  | send (signalId : String) (payload : Bytes)
  | clock (now : UInt64)
deriving DecidableEq, Repr

/-- How execution continues after a wait. -/
inductive WaitOutcome where
  | signal (payload : Bytes)
  | timeout
deriving DecidableEq, Repr

/-- What can be seen of the waits. -/
inductive WaitEvent where
  | sent (signalId : String) (payload : Bytes)
  | decided (signalId : String) (outcome : WaitOutcome)
deriving DecidableEq, Repr

namespace WaitWorkflow

variable (w : WaitWorkflow)

/-- The deadline of a wait: the saved one, or a new one, which is saved. -/
def arm (site : WaitSite) (st : WaitState w.Local) : UInt64 × Store :=
  match site.timeoutMs with
  | none => (0, st.checkpoints)
  | some timeout =>
    match st.checkpoints.lookup site.signalId with
    | some bytes => (UInt64.ofNat (LittleEndian.decode (bytes.take 8)), st.checkpoints)
    | none =>
      let deadline := st.now + timeout
      (deadline, st.checkpoints.checkpoint site.signalId (LittleEndian.encode 8 deadline.toNat))

/-- The timeout branch is taken: there is a timeout and its deadline has come. -/
def timesOut (site : WaitSite) (deadline now : UInt64) : Bool :=
  site.timeoutMs.isSome && deadline ≤ now

/-- One step of the code. -/
def code (st : WaitState w.Local) (answer : Bytes) : Option (WaitState w.Local × List WaitEvent) :=
  match st.point with
  | .stopped => none
  | .running s =>
    match w.next s with
    | .finished => none
    | .other => some ({ st with point := .running (w.afterOther s answer) }, [])
    | .wait site =>
      let (deadline, checkpoints) := w.arm site st
      some ({ st with checkpoints := checkpoints, point := .poll s site deadline }, [])
  | .poll s site deadline =>
    match st.signals.lookup site.signalId with
    | some payload =>
      some ({ st with point := .running (w.afterSignal s payload) },
        [.decided site.signalId (.signal payload)])
    | none => some ({ st with point := .check s site deadline }, [])
  | .check s site deadline =>
    if timesOut site deadline st.now then
      some ({ st with point := .running (w.afterTimeout s) }, [.decided site.signalId .timeout])
    else if w.storeFreeing then some ({ st with point := .stopped }, [])
    else some ({ st with point := .poll s site deadline }, [])

/-- One step of the instance and its surroundings. -/
def step (st : WaitState w.Local) : WaitInput → Option (WaitState w.Local × List WaitEvent)
  | .code answer => w.code st answer
  | .stop => some ({ st with point := .stopped }, [])
  | .launch =>
    match st.point with
    | .stopped => some ({ st with point := .running w.start }, [])
    | _ => none
  | .send signalId payload =>
    some ({ st with signals := insertCustomSignal st.signals signalId payload },
      [.sent signalId payload])
  | .clock now => some ({ st with now := now }, [])

/-- The instance with its surroundings. -/
def system : Interactive.System (WaitState w.Local) WaitInput WaitEvent := ⟨w.step⟩

end WaitWorkflow

end Runtara
