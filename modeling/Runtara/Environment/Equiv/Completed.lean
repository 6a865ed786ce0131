/-
  A completed row, and the writers that do not look at the status.

  Most writers of the row are guarded by `status = 'running'`. Those that are not are
  `update_instance_status`, `complete_instance` without `if_running`, and `mark_for_recovery`, and a
  launched run sets the status to `running`. They belong to a start request that has inserted the
  row, a stop request, a resume request, a poll or a scan that has read the row before it was
  completed, and to the registration and the acknowledgements of a guest. If none of these is in
  flight a completed row stays so until a stop request arrives (`completed_stays`); a start request
  whose guest is faster than it is one (`completed_run_set_running`).
-/
import Runtara.Environment.Equiv.Idle

namespace Runtara.Environment

open Tasks (Prog)
open Tasks.System (calls plays exists_path)

variable {cfg : Settings} {s : Status} {o : Option Bytes}

/-- The row has the status `s` and the output `o`. -/
def Row.endedAs (s : Status) (o : Option Bytes) (r : Row) : Bool := r.status = s ∧ r.output = o

def Db.endedAs (s : Status) (o : Option Bytes) (db : Db) : Bool := db.row.any (Row.endedAs s o)

/-- The statement writes a status without regard to the one of the row, and what it writes is not
the status `s` with the output `o`. -/
def Sql.relabels (s : Status) (o : Option Bytes) : Sql → Bool
  | .updateInstanceStatus status _ => status ≠ s
  | .completeInstance p => p.guard = .any ∧ ¬ (p.status = s ∧ p.output = o)
  | .markForRecovery _ _ => true
  | _ => false

/-! ### One statement -/

theorem updateRow_endedAs {db : Db} {r : Row} (h : db.row = some r) (f : Row → Row) :
    (db.updateRow f).endedAs s o = (f r).endedAs s o := by
  rw [Db.endedAs, Db.updateRow, h]
  rfl

/-- The row of an ended instance keeps status and output by every statement but those that relabel
it. -/
theorem exec_endedAs (hs : s.terminal = true) {db : Db} {now : Time} (q : Sql)
    (hq : q.relabels s o = false) (h : db.endedAs s o = true) :
    (q.exec now db).2.endedAs s o = true := by
  obtain ⟨r, hr, hdone⟩ := (Option.any_eq_true _ _).mp h
  obtain ⟨rfl, rfl⟩ : r.status = s ∧ r.output = o := of_decide_eq_true hdone
  have hrunning : r.status ≠ .running := fun hstatus => by rw [hstatus] at hs; cases hs
  have hsuspended : r.status ≠ .suspended := fun hstatus => by rw [hstatus] at hs; cases hs
  cases q with
  | updateInstanceStatus status started =>
    have hstatus : status = r.status := of_not_not (of_decide_eq_false hq)
    rw [Sql.exec, updateRow_endedAs hr]
    cases started <;> simp [Row.updateStatus, Row.endedAs, hstatus]
  | completeInstance p =>
    rw [Sql.exec, hr]
    dsimp only
    cases hguard : p.guard with
    | any =>
      have hp : p.status = r.status ∧ p.output = r.output := by
        simpa [Sql.relabels, hguard] using hq
      simp [Row.accepts, hguard, Db.endedAs, Row.endedAs, Row.complete, hp]
    | onlyRunning => simp [Row.accepts, hguard, hrunning, h]
  | markForRecovery attempt marker => cases hq
  | updateInstanceCheckpoint | setInstanceSleep | clearInstanceSleep =>
    rw [Sql.exec, updateRow_endedAs hr]
    exact hdone
  | claimSleepingInstance =>
    rw [Sql.exec, hr]
    simp [Row.claimable, hsuspended, h]
  | registerInstance =>
    rw [Sql.exec, hr]
    exact h
  | _ => exact h

theorem idle_of_endedAs (hs : s.terminal = true) {db : Db} (h : db.endedAs s o = true) :
    db.row.any Row.idle = true := by
  obtain ⟨r, hr, hdone⟩ := (Option.any_eq_true _ _).mp h
  have hstatus : r.status = s := (of_decide_eq_true hdone).1
  rw [hr, Option.any_some]
  cases s with
  | completed | failed | cancelled => simp [Row.idle, hstatus, Status.stopped]
  | pending | running | suspended => cases hs

theorem Sql.relabels_eq_false_of_calm (q : Sql) (h : q.calm = true) : q.relabels s o = false := by
  cases q with
  | completeInstance p =>
    have hguard : p.guard = .onlyRunning := of_decide_eq_true h
    simp [Sql.relabels, hguard]
  | updateInstanceStatus | markForRecovery => cases h
  | _ => rfl

/-! ### What may be in flight -/

/-- Core writes no status for the request without a look at the one of the row. -/
def Request.guarded : Request → Bool
  | .register _ => false
  | .signalAck .resume _ => true
  | .signalAck _ acknowledged => !acknowledged
  | _ => true

/-- What arrives writes no status without a look at the one of the row, and launches nothing. -/
def Arrival.guarded : Arrival → Bool
  | .signal _ _ | .customSignal _ _ | .drain _ => true
  | _ => false

/-- The task in flight will not relabel a completed row. It has not read the row yet, and is no stop
request; or it is a signal, a drain, a monitor or a run whose guest makes guarded requests only, at
any point; or it has nothing left but to register its container and to start its monitor. -/
def Settled (cfg : Settings) (p : Calls Unit) : Prop :=
  p.Rest (fun op => op.readsRow = false) (Standing cfg (fun a => a ≠ .stop) fun _ _ => False) ∨
    p.Rest (fun _ => True) (Standing cfg (fun a => a.guarded = true)
      fun _ guest => guest.Only fun request => request.guarded = true) ∨
    p.Only fun op => op.registers = true

/-- The call is no launch, and no statement that relabels. -/
def Op.spares (s : Status) (o : Option Bytes) : Op → Bool
  | .sql q => !q.relabels s o
  | .launchDetached => false
  | _ => true

theorem Op.within_of_spares {op : Op} (h : op.spares s o = true) :
    op.within fun q => q.relabels s o = false := by
  refine ⟨?_, ?_⟩
  · rintro rfl
    cases h
  · rintro q rfl
    exact Bool.not_eq_true' _ ▸ h

theorem Op.spares_of_tame (op : Op) (h : op.tame = true) : op.spares s o = true := by
  cases op with
  | sql q =>
    cases q with
    | updateInstanceStatus | markForRecovery => cases h
    | completeInstance p =>
      have hguard : p.guard = .onlyRunning := of_decide_eq_true h
      simp [Op.spares, Sql.relabels, hguard]
    | _ => rfl
  | launchDetached => cases h
  | _ => rfl

theorem handle_spares (request : Request) (h : request.guarded = true) :
    (handle request).Only fun op => op.spares s o = true := by
  by_cases hresume : ∃ acknowledged, request = .signalAck .resume acknowledged
  · obtain ⟨acknowledged, rfl⟩ := hresume
    cases acknowledged with
    | false => trivial
    | true => exact ⟨rfl, fun _ => trivial⟩
  · refine (handle_tame request ?_).mono Op.spares_of_tame
    cases request with
    | signalAck signalType acknowledged =>
      cases signalType with
      | resume => exact absurd ⟨acknowledged, rfl⟩ hresume
      | _ => exact h
    | register => cases h
    | _ => rfl

theorem Arrival.spares (a : Arrival) (h : a.guarded = true) :
    (a.program cfg).Only fun op => op.spares s o = true := by
  cases a with
  | signal signalType payload =>
    dsimp only [Arrival.program, handleSendSignal]
    repeat' first
      | trivial
      | exact only_sql rfl
      | refine Prog.Only.bind ?_ fun _ => ?_
      | split
  | customSignal checkpointId payload =>
    exact (handleSendCustomSignal_tame checkpointId payload).mono Op.spares_of_tame
  | drain polls =>
    refine ⟨rfl, fun _ => ⟨rfl, fun registered => ?_⟩⟩
    dsimp only
    cases registered with
    | none => trivial
    | some _ => exact ⟨rfl, fun _ => (forceStop_tame polls).mono Op.spares_of_tame⟩
  | _ => cases h

/-- A completed instance is not resumed. -/
theorem completed_not_resumable {db : Db} (h : db.endedAs .completed o = true) :
    db.row.all (fun r => !r.status.resumable) = true := by
  obtain ⟨r, hr, hdone⟩ := (Option.any_eq_true _ _).mp h
  have hstatus : r.status = .completed := (of_decide_eq_true hdone).1
  rw [hr, Option.all_some, hstatus]
  rfl

/-- While the row is completed, a task that is settled makes no call that relabels it. -/
theorem Settled.relies {p : Calls Unit} (h : Settled cfg p) :
    Relies (fun db => db.endedAs .completed o = true)
      (Op.within fun q => q.relabels .completed o = false) p := by
  have hidle : ∀ db : Db, db.endedAs .completed o = true → db.row.any Row.idle = true :=
    fun _ => idle_of_endedAs rfl
  have hcalm := Op.within_of_calm (Sql.relabels_eq_false_of_calm (s := .completed) (o := o))
  have honly {α : Type} {p : Calls α} (hp : p.Only fun op => op.spares .completed o = true) :
      Relies (fun db => db.endedAs .completed o = true)
        (Op.within fun q => q.relabels .completed o = false) p :=
    hp.follows (fun _ _ => Op.within_of_spares) fun _ _ => trivial
  rcases h with hunread | hguarded | hregisters
  · refine hunread.follows (fun p hp => ?_) fun op r hop => answeredIn_of_not_readsRow r hop
    have hcut : Op.dropped.within fun q => q.relabels .completed o = false := hcalm _ rfl
    refine hp.follows hcut (fun a ha => ?_) (containerMonitor_calm hidle hcalm)
      (fun _ _ => False.elim) fun exit => honly ((settleRun_tame cfg exit).mono Op.spares_of_tame)
    exact a.calm hidle hcalm (fun _ _ => completed_not_resumable) fun hstop => absurd hstop ha
  · refine honly (hguarded.only fun p hp => ?_)
    have hcut : Op.dropped.spares .completed o = true := rfl
    exact hp.only hcut Arrival.spares
      (fun handleId => (containerMonitor_tame handleId).mono Op.spares_of_tame)
      (fun _ _ hguest => hguest.interp handle_spares)
      fun exit => (settleRun_tame cfg exit).mono Op.spares_of_tame
  · exact registers_calm hcalm hregisters

/-! ### Whole runs -/

section Runs

variable {c c' : Config cfg} {ms : List (Move cfg)}

theorem endedAs_stable (hs : s.terminal = true) (h : (environment cfg).Path c ms c')
    (hc : c.world.db.endedAs s o = true)
    (hts : ∀ t ∈ c.tasks, Relies (fun db => db.endedAs s o = true)
      (Op.within fun q => q.relabels s o = false) t.prog)
    (hresume : ∀ m ∈ ms, m.brings .resume = true → s = .completed)
    (hstop : ∀ m ∈ ms, m.brings .stop = false) :
    ∀ m ∈ ms, m.after.world.db.endedAs s o = true ∧
      ∀ tag op, m.caller = some (tag, op) → op.within fun q => q.relabels s o = false := by
  intro m hm
  refine (idle_stable (I := fun db => db.endedAs s o = true) (fun _ => idle_of_endedAs hs)
    Sql.relabels_eq_false_of_calm (fun q _ _ => exec_endedAs hs q) h hc hts ?_ ?_ m hm).2
  · intro m hm hbrings db hdb
    obtain rfl := hresume m hm hbrings
    exact completed_not_resumable hdb
  · intro m hm hbrings
    rw [hstop m hm] at hbrings
    cases hbrings

/-- **A completed instance stays completed, with its output.** When it is completed, every task in
flight is settled; then, whatever arrives but a stop request, the row is completed with the same
output after every step. -/
theorem completed_stays (h : (environment cfg).Path c ms c')
    (hc : c.world.db.endedAs .completed o = true) (hts : ∀ t ∈ c.tasks, Settled cfg t.prog)
    (hstop : ∀ m ∈ ms, m.brings .stop = false) :
    ∀ m ∈ ms, m.after.world.db.endedAs .completed o = true := by
  intro m hm
  exact (endedAs_stable rfl h hc (fun t ht => (hts t ht).relies) (fun _ _ _ => rfl) hstop m hm).1

/-- **An ended instance stays as it has ended and is not launched again** while the tasks in flight
are harmless, whatever arrives but a stop request and, unless it is completed, a resume request. -/
theorem ended_stays_of_harmless (hs : s.terminal = true) (h : (environment cfg).Path c ms c')
    (hc : c.world.db.endedAs s o = true)
    (hts : ∀ t ∈ c.tasks, Relies (fun db => db.endedAs s o = true)
      (Op.within fun q => q.relabels s o = false) t.prog)
    (hresume : ∀ m ∈ ms, m.brings .resume = true → s = .completed)
    (hstop : ∀ m ∈ ms, m.brings .stop = false) :
    ∀ m ∈ ms, m.after.world.db.endedAs s o = true ∧ m.launches = false := by
  intro m hm
  obtain ⟨hended, hcall⟩ := endedAs_stable hs h hc hts hresume hstop m hm
  exact ⟨hended, Move.launches_of_within hcall⟩

end Runs

/-- A guest that reports its output and returns. -/
def completingGuest (output : Bytes) : Guest InvokeExit := do
  RuntimeHost.request (.event (.completed output))
  pure .completed

/-- **A start request sets a completed row to running.** The guest reports its output before the
request has registered the container; the late `update_instance_status` then hides the
completion. -/
theorem completed_run_set_running :
    ∃ ms ms' c c',
      (environment (.default "i")).Path (initial _) ms c ∧
      c.world.db.endedAs .completed (some [1]) = true ∧
      (environment (.default "i")).Path c ms' c' ∧
      c'.world.db.row.any (fun r => r.status = .running) = true := by
  obtain ⟨ms, c, hpath, hdone, hplay⟩ :
      ∃ ms c, (environment (.default "i")).Path (initial _) ms c ∧
        c.world.db.endedAs .completed (some [1]) = true ∧
        plays (fun _ (c' : Config _) => c'.world.db.row.any (fun r => r.status = .running) = true) c
          [calls 2 0 .yes] = true :=
    -- the request up to the launch, and the run up to the completion
    exists_path _ [(startInputs (completingGuest [1])).take 7, calls 2 1 .yes, requestInputs 2 1]
      (by decide +kernel)
  obtain ⟨ms', c', hpath', hc'⟩ := exists_path _ _ hplay
  exact ⟨ms, ms', c, c', hpath, hdone, hpath', hc'⟩

/-- The row of an instance that is over, with a wake time that is left over. -/
def endedRow (s : Status) : Row :=
  { Row.registered 0 with status := s, output := some [1], sleepUntil := some 0 }

/-- The world after a run: the container is still in the registry. -/
def endedWorld (s : Status) : World where
  db := { World.initial.db with row := some (endedRow s), registry := some ⟨"wasm_i", 0, 0⟩ }
  now := 0
  processes _ := ⟨false, none⟩
  launches := 1
  cancel _ := false
  finished _ := false

/-- **The end of a run that has reported its output.** The guest has nothing left to do; the start
request has still to spawn the monitor, and a scan of the heartbeat monitor and a poll of the wake
scheduler have not read the row. They all go on, a resume request arrives, and the row stays as it
is. -/
theorem completed_stays_to_the_end :
    ∃ (ms : List (Move (.default "i"))) (c c' : Config (.default "i")),
      (environment (.default "i")).Path c ms c' ∧ c.tasks.length = 4 ∧
      (∃ m ∈ ms, m.brings .resume = true) ∧ c'.tasks.all (fun t => t.prog.isDone) = true ∧
      ∀ m ∈ ms, m.after.world.db.endedAs .completed (some [1]) = true := by
  let cfg : Settings := .default "i"
  let handle : Handle := ⟨cfg.handleId, 0⟩
  let start : Task := ⟨{ proc := 0, kind := .start, handle := some handle },
    ask .spawnContainerMonitor⟩
  let run : Task := ⟨{ proc := 0, kind := .run 0 }, execute (pure .completed) >>= settleRun cfg⟩
  let scan : Task := ⟨{ proc := 0, kind := .heartbeat }, checkStaleInstances cfg⟩
  let poll : Task := ⟨{ proc := 0, kind := .wake }, processPendingWakes⟩
  let c : Config cfg := ⟨endedWorld .completed, [start, run, scan, poll]⟩
  have hts : ∀ t ∈ c.tasks, Settled cfg t.prog := by
    simp only [c, List.forall_mem_cons]
    refine ⟨Or.inr (Or.inr ⟨rfl, fun _ => trivial⟩), Or.inr (Or.inl (.start (.invoke _ trivial))),
      Or.inl (.start (.request .heartbeat (by decide))),
      Or.inl (.start (.request .wake (by decide))), nofun⟩
  obtain ⟨ms, c', hpath, hresume, hstop, hdone⟩ :
      ∃ ms c', (environment cfg).Path c ms c' ∧ (∃ m ∈ ms, Move.brings m .resume = true) ∧
        (∀ m ∈ ms, Move.brings m .stop = false) ∧
        c'.tasks.all (fun t => t.prog.isDone) = true :=
    exists_path _ [calls 1 0 .yes, [.outside (.arrive 0 .resume)], calls 4 2 .yes, calls 2 1 .yes,
      calls 2 3 .yes, calls 1 5 .yes, calls 4 4 .yes] (by decide +kernel)
  exact ⟨ms, c, c', hpath, rfl, hresume, hdone, completed_stays hpath rfl hts hstop⟩

/-- **A failed instance.** A monitor that has not looked yet and a recovery scan, with a wake poll
that arrives later. -/
theorem ended_stays_of_harmless_failed :
    ∃ (ms : List (Move (.default "i"))) (c c' : Config (.default "i")),
      (environment (.default "i")).Path c ms c' ∧ c.tasks.length = 2 ∧
      c'.tasks.all (fun t => t.prog.isDone) = true ∧
      ∀ m ∈ ms, m.after.world.db.endedAs .failed (some [1]) = true ∧ m.launches = false := by
  let cfg : Settings := .default "i"
  let monitor : Task := ⟨{ proc := 0, kind := .monitor 0 }, containerMonitor cfg.handleId⟩
  let recovery : Task := ⟨{ proc := 0, kind := .recovery }, recoverOrphanedContainers cfg⟩
  let c : Config cfg := ⟨endedWorld .failed, [monitor, recovery]⟩
  have hidle : ∀ db : Db, db.endedAs .failed (some [1]) = true → db.row.any Row.idle = true :=
    fun _ => idle_of_endedAs rfl
  have hcalm := Op.within_of_calm (Sql.relabels_eq_false_of_calm (s := .failed) (o := some [1]))
  obtain ⟨ms, c', hpath, hresume, hstop, hdone⟩ :
      ∃ ms c', (environment cfg).Path c ms c' ∧ (∀ m ∈ ms, Move.brings m .resume = false) ∧
        (∀ m ∈ ms, Move.brings m .stop = false) ∧
        c'.tasks.all (fun t => t.prog.isDone) = true :=
    exists_path _ [calls 2 0 .yes, calls 3 1 .yes, calls 2 0 .yes, [.outside (.arrive 0 .wake)],
      calls 2 2 .yes] (by decide +kernel)
  refine ⟨ms, c, c', hpath, rfl, hdone, ended_stays_of_harmless rfl hpath rfl ?_ ?_ hstop⟩
  · simp only [c, List.forall_mem_cons]
    exact ⟨containerMonitor_calm hidle hcalm _, recoverOrphanedContainers_calm hidle hcalm, nofun⟩
  · intro m hm hbrings
    rw [hresume m hm] at hbrings
    cases hbrings

end Runtara.Environment
