/-
  The tasks in flight.

  What a task may still do depends on what it has read. It has read nothing yet when its request has
  just arrived, when its monitor has just been spawned, and when the guest of its run is between two
  requests (`Standing`). Together with `Prog.Rest` this says how far a task has come, in terms of
  the request or the guest that it runs for. Some programs are harmless to the status and to the
  signal slot wherever they are (`Tame`).
-/
import Runtara.Environment.Equiv.Step

namespace Runtara.Environment

open Tasks (Prog Protocol)

/-- The program of a task that has read nothing yet: a request among `requests`, a monitor, or a run
whose guest meets `guests` from its next request on. -/
inductive Standing (cfg : Settings) (requests : Arrival → Prop)
    (guests : ∀ α : Type, Guest α → Prop) : Calls Unit → Prop
  | request (a : Arrival) (h : requests a) : Standing cfg requests guests (a.program cfg)
  | monitor (handleId : String) : Standing cfg requests guests (containerMonitor handleId)
  | invoke (guest : Guest InvokeExit) (h : guests InvokeExit guest) :
    Standing cfg requests guests (execute guest >>= settleRun cfg)
  | run (guest : Guest Unit) (h : guests Unit guest) :
    Standing cfg requests guests (execute guest >>= fun _ => settleRun cfg none)

section Standing

variable {cfg : Settings} {requests : Arrival → Prop} {guests : ∀ α : Type, Guest α → Prop}
  {P : Protocol Op Op.Ret Unit} {α : Type}

theorem follows_execute {guest : Guest α} (hcut : P.allowed () .dropped)
    (h : (guest.interp handle).Follows P (fun _ _ => True) ()) :
    (execute guest).Follows P (fun _ _ => True) () :=
  h.droppable (I := fun _ => True) (fun _ _ => hcut) (fun _ _ _ _ => rfl)
    (fun _ _ _ _ _ _ => trivial) (fun _ _ => trivial) trivial

/-- A task keeps to a protocol if the requests, the monitors, the requests of the guests and the
ends of the runs do. -/
theorem Standing.follows (hcut : P.allowed () .dropped)
    (hrequest : ∀ a, requests a → (a.program cfg).Follows P (fun _ _ => True) ())
    (hmonitor : ∀ handleId, (containerMonitor handleId).Follows P (fun _ _ => True) ())
    (hguest : ∀ α (guest : Guest α), guests α guest →
      (guest.interp handle).Follows P (fun _ _ => True) ())
    (hsettle : ∀ exit, (settleRun cfg exit).Follows P (fun _ _ => True) ()) {p : Calls Unit}
    (h : Standing cfg requests guests p) : p.Follows P (fun _ _ => True) () := by
  cases h with
  | request a h => exact hrequest a h
  | monitor handleId => exact hmonitor handleId
  | invoke guest h =>
    exact ((follows_execute hcut (hguest _ guest h)).mono fun _ exit _ => hsettle exit).bind
  | run guest h =>
    exact ((follows_execute hcut (hguest _ guest h)).mono fun _ _ _ => hsettle none).bind

theorem Standing.only {ok : Op → Prop} (hcut : ok .dropped)
    (hrequest : ∀ a, requests a → (a.program cfg).Only ok)
    (hmonitor : ∀ handleId, (containerMonitor handleId).Only ok)
    (hguest : ∀ α (guest : Guest α), guests α guest → (guest.interp handle).Only ok)
    (hsettle : ∀ exit, (settleRun cfg exit).Only ok) {p : Calls Unit}
    (h : Standing cfg requests guests p) : p.Only ok := by
  cases h with
  | request a h => exact hrequest a h
  | monitor handleId => exact hmonitor handleId
  | invoke guest h => exact ((hguest _ guest h).droppable hcut).bind hsettle
  | run guest h => exact ((hguest _ guest h).droppable hcut).bind fun _ => hsettle none

end Standing

/-- What a launch starts is the run of the artifact that it finds. -/
theorem exec_launch {cfg : Settings} {tag tag' : Tag} {choice : Choice} {w w' : World}
    {r : Option Handle} {started : List Task} {t : Task}
    (h : exec cfg tag .launchDetached choice w = some (r, tag', w', started)) (ht : t ∈ started) :
    ∃ artifact, choice = .launch artifact ∧ t.prog = runTask cfg artifact := by
  cases choice with
  | launch artifact =>
    cases h
    obtain rfl := List.mem_singleton.mp ht
    exact ⟨artifact, rfl, rfl⟩
  | yes | no =>
    cases h
    cases ht

/-! ### Tame programs -/

/-- The call launches nothing, writes a status only if the row is running, and leaves the signal
slot as it is. -/
def Op.tame : Op → Bool
  | .sql (.updateInstanceStatus _ _) | .sql (.markForRecovery _ _) | .sql (.insertSignal _ _)
  | .sql .acknowledgeSignal | .launchDetached => false
  | .sql (.completeInstance p) => p.guard = .onlyRunning
  | _ => true

abbrev Tame {α : Type} (p : Calls α) : Prop := p.Only fun op => op.tame = true

def Request.tame : Request → Bool
  | .register _ => false
  | .signalAck _ acknowledged => !acknowledged
  | _ => true

theorem handle_tame (request : Request) (h : request.tame = true) : Tame (handle request) := by
  cases request with
  | register => cases h
  | signalAck signalType acknowledged =>
    obtain rfl : acknowledged = false := Bool.not_eq_true' _ ▸ h
    trivial
  | _ =>
    dsimp only [handle, handleCheckpoint, handleGetCheckpoint, handleSleep, handleInstanceEvent,
      handlePollSignals, pendingSignal]
    repeat' first
      | trivial
      | exact only_sql rfl
      | refine Prog.Only.bind ?_ fun _ => ?_
      | split

theorem settleRun_tame (cfg : Settings) (exit : Option InvokeExit) : Tame (settleRun cfg exit) := by
  dsimp only [settleRun, parkInvokeSuspend]
  repeat' first
    | trivial
    | exact only_sql rfl
    | exact only_ask rfl
    | refine Prog.Only.bind ?_ fun _ => ?_
    | split

theorem containerMonitor_tame (handleId : String) : Tame (containerMonitor handleId) := by
  unfold containerMonitor monitorExit monitorTimeout detectStaleMonitor
  repeat' first
    | trivial
    | exact only_sql rfl
    | exact only_sql (by split <;> rfl)
    | exact only_ask rfl
    | refine Prog.Only.bind ?_ fun _ => ?_
    | split

theorem filterNonTerminal_tame (polls : ℕ) : Tame (filterNonTerminal polls) := by
  induction polls with
  | zero => trivial
  | succ n ih =>
    refine Prog.Only.bind (p := sql .getInstance) (only_sql rfl) fun r => ?_
    split
    · trivial
    · split
      · trivial
      · exact ih

theorem forceStop_tame (polls : ℕ) : Tame (forceStop polls) := by
  refine (filterNonTerminal_tame polls).bind fun _ => ?_
  repeat' first
    | trivial
    | exact only_sql rfl
    | exact only_ask rfl
    | refine Prog.Only.bind ?_ fun _ => ?_
    | split

theorem handleSendCustomSignal_tame (checkpointId : String) (payload : Bytes) :
    Tame (handleSendCustomSignal checkpointId payload) := by
  unfold handleSendCustomSignal wakeSuspendedOnSignal
  repeat' first
    | trivial
    | exact only_sql rfl
    | refine Prog.Only.bind ?_ fun _ => ?_
    | split

end Runtara.Environment
