/-
  A paused row, and the columns that earlier suspensions have left.

  The acknowledgement of a pause sets the status to `suspended` and writes nothing else. Whether the
  wake scheduler and the custom signals leave the row alone from then on depends on the wake time
  and the marker `waiting_signal` that are still there (`pause_stays_iff`). A launch sets the status
  to `running` and keeps the marker of the wait that it ends, so that a run that was woken by a
  signal and then paused is relaunched by the next signal (`paused_row_claimed`).
-/
import Runtara.Environment.Equiv.Idle

namespace Runtara.Environment

open Tasks (Prog)
open Tasks.System (calls plays exists_path)

/-- The run is over, and neither a wake time nor the marker of a signal wait is left. -/
def Row.atRest (r : Row) : Bool :=
  r.status.stopped ∧ r.sleepUntil = none ∧ r.terminationReason ≠ some .waitingSignal

/-- The statement keeps a row at rest. -/
def Sql.keepsRest : Sql → Bool
  | .updateInstanceStatus status _ => status.stopped
  | .completeInstance p =>
    p.guard = .onlyRunning ∨ p.status.stopped ∧ p.terminationReason ≠ some .waitingSignal
  | .markForRecovery _ _ => false
  | .setInstanceSleep _ => false
  | _ => true

theorem Sql.keepsRest_of_calm (q : Sql) (h : q.calm = true) : q.keepsRest = true := by
  cases q with
  | completeInstance p => exact decide_eq_true (Or.inl (of_decide_eq_true h))
  | updateInstanceStatus | markForRecovery | setInstanceSleep => cases h
  | _ => rfl

variable {r : Row}

theorem Row.idle_of_atRest (h : r.atRest = true) : r.idle = true := by
  obtain ⟨hstopped, hsleep, hreason⟩ := of_decide_eq_true h
  exact decide_eq_true ⟨hstopped, fun _ => ⟨hsleep, hreason⟩⟩

theorem Db.idle_of_atRest {db : Db} (h : db.row.any Row.atRest = true) :
    db.row.any Row.idle = true := by
  obtain ⟨r, hr, hrest⟩ := (Option.any_eq_true _ _).mp h
  rw [hr, Option.any_some]
  exact Row.idle_of_atRest hrest

theorem Row.complete_atRest {now : Time} {p : CompleteParams} (h : r.atRest = true)
    (hstopped : p.status.stopped = true) (hreason : p.terminationReason ≠ some .waitingSignal) :
    (r.complete now p).atRest = true := by
  obtain ⟨-, hsleep, hr⟩ := of_decide_eq_true h
  refine decide_eq_true ⟨hstopped, hsleep, ?_⟩
  cases hp : p.terminationReason with
  | none => simpa [Row.complete, hp] using hr
  | some reason => simpa [Row.complete, hp] using hreason

/-- A row at rest is kept so by every statement that is meant to. -/
theorem exec_atRest (q : Sql) (now : Time) (db : Db) (hq : q.keepsRest = true)
    (h : db.row.any Row.atRest = true) : (q.exec now db).2.row.any Row.atRest = true := by
  obtain ⟨r, hr, hrest⟩ := (Option.any_eq_true _ _).mp h
  obtain ⟨hstopped, hsleep, hreason⟩ := of_decide_eq_true hrest
  cases q with
  | registerInstance => simp [Sql.exec, hr, hrest]
  | updateInstanceStatus status started =>
    have hstatus : status.stopped = true := hq
    cases started <;>
      simp [Sql.exec, Db.updateRow, hr, Row.updateStatus, Row.atRest, hstatus, hsleep, hreason]
  | updateInstanceCheckpoint id =>
    simp [Sql.exec, Db.updateRow, hr, Row.atRest, hstopped, hsleep, hreason]
  | completeInstance p =>
    cases haccepts : r.accepts p with
    | false => simpa [Sql.exec, hr, haccepts] using hrest
    | true =>
      simp only [Sql.exec, hr, haccepts, ↓reduceIte, Option.any_some]
      rcases of_decide_eq_true hq with hguard | ⟨hp, hp'⟩
      · exact absurd (of_decide_eq_true haccepts)
          (by simp [hguard, Row.status_ne_running_of_idle (Row.idle_of_atRest hrest)])
      · exact Row.complete_atRest hrest hp hp'
  | markForRecovery | setInstanceSleep => cases hq
  | clearInstanceSleep => simp [Sql.exec, Db.updateRow, hr, Row.atRest, hstopped, hreason]
  | claimSleepingInstance =>
    simpa [Sql.exec, hr, Row.not_claimable_of_idle (Row.idle_of_atRest hrest)] using hrest
  | _ => exact h

/-! ### Tasks in flight -/

/-- The requests that a guest may make after a pause. -/
def Request.restful : Request → Bool
  | .register _ => false
  | .event (.suspended (.sleep _ (some _) _)) => false
  | .signalAck .shutdown true => false
  | _ => true

variable {q : Sql}

section Guests

variable {cfg : Settings}

theorem within_keepsRest (h : q.keepsRest = true) :
    (Op.sql q).within fun q => q.keepsRest = true := by
  refine ⟨by simp, ?_⟩
  intro q' hq'
  rw [← Op.sql.inj hq']
  exact h

/-- While the row is at rest, the program keeps it so and launches nothing. -/
abbrev AtRest {α : Type} (p : Calls α) : Prop :=
  Relies (fun db => db.row.any Row.atRest = true) (Op.within fun q => q.keepsRest = true) p

theorem at_rest_bind {α : Type} {f : q.Ret → Calls α} (hq : q.keepsRest = true)
    (h : ∀ r, AtRest (f r)) : AtRest (sql q >>= f) := follows_ask_bind (within_keepsRest hq) h

theorem at_rest_last (hq : q.keepsRest = true) : AtRest (sql q) :=
  follows_ask (within_keepsRest hq) fun _ => trivial

/-- At rest a look at the row does not find it running. -/
theorem getInstance_at_rest {α : Type} {f : Option Row → Calls α}
    (h : ∀ r : Row, r.status ≠ .running → AtRest (f (some r))) :
    AtRest (sql .getInstance >>= f) :=
  follows_getInstance_bind (fun _ hdb => Db.idle_of_atRest hdb) (within_keepsRest rfl)
    fun r hidle => h r (Row.status_ne_running_of_idle hidle)

theorem handleInstanceEvent_at_rest (e : Event) (h : (Request.event e).restful = true) :
    AtRest (handleInstanceEvent e) := by
  refine at_rest_bind rfl fun _ => ?_
  cases e with
  | suspended s =>
    cases s with
    | plain => exact at_rest_bind rfl fun _ => trivial
    | sleep id wakeAt state =>
      cases wakeAt with
      | none =>
        refine at_rest_bind rfl fun _ => ?_
        refine at_rest_bind rfl fun _ => ?_
        exact at_rest_bind rfl fun _ => trivial
      | some t => cases h
  | completed | failed => exact at_rest_bind rfl fun _ => trivial
  | heartbeat | custom => trivial

theorem handleSignalAck_at_rest (signalType : SignalType) (acknowledged : Bool)
    (h : (Request.signalAck signalType acknowledged).restful = true) :
    AtRest (handleSignalAck signalType acknowledged) := by
  cases acknowledged with
  | false => trivial
  | true =>
    refine at_rest_bind rfl fun _ => ?_
    cases signalType with
    | cancel => exact at_rest_bind rfl fun _ => trivial
    | pause => exact at_rest_last rfl
    | resume => trivial
    | shutdown => cases h

theorem handle_at_rest (request : Request) (h : request.restful = true) :
    AtRest (handle request) := by
  cases request with
  | register checkpointId => cases h
  | checkpoint checkpointId state =>
    refine getInstance_at_rest fun r hr => ?_
    simp only [ne_eq, hr, not_false_eq_true, ↓reduceIte]
    trivial
  | getCheckpoint checkpointId =>
    exact getInstance_at_rest fun r _ => at_rest_last rfl
  | sleep checkpointId state =>
    show (handleSleep checkpointId state).Follows _ _ _
    unfold handleSleep
    split
    · trivial
    · exact at_rest_bind rfl fun _ => at_rest_last rfl
  | event e => exact handleInstanceEvent_at_rest e h
  | signalAck signalType acknowledged => exact handleSignalAck_at_rest signalType acknowledged h
  | pollSignals checkpointId =>
    refine at_rest_bind rfl fun _ => ?_
    cases checkpointId with
    | none => trivial
    | some id => exact at_rest_bind rfl fun _ => trivial

theorem parkInvokeSuspend_at_rest (wakes : List WorkflowWake) :
    AtRest (parkInvokeSuspend cfg wakes) := by
  unfold parkInvokeSuspend
  dsimp only
  split
  · trivial
  · exact follows_completeInstance_bind (fun _ hw => Db.idle_of_atRest hw) rfl
      (within_keepsRest rfl) trivial

theorem settleRun_at_rest (exit : Option InvokeExit) : AtRest (settleRun cfg exit) := by
  have hend : AtRest (ask .setFinished >>= fun _ => ask .removeTask) := by
    refine follows_ask_bind ⟨by decide, by simp⟩ fun _ => ?_
    exact follows_ask ⟨by decide, by simp⟩ fun _ => trivial
  unfold settleRun
  dsimp only
  split
  · exact ((parkInvokeSuspend_at_rest _).mono fun _ _ _ => hend).bind
  · exact hend

/-- The task in flight leaves a row at rest alone. It is no resume request and has not read the row
since it arrived or, if it is a run, since the last request of its guest, which makes no other
requests than those that may follow a pause; or it has nothing left but to register its container
and to start its monitor. -/
def Resting (cfg : Settings) (p : Calls Unit) : Prop :=
  p.Rest (fun op => op.readsRow = false) (Standing cfg (fun a => a ≠ .resume)
    fun _ guest => guest.Only fun request => request.restful = true) ∨
    p.Only fun op => op.registers = true

theorem Resting.at_rest {p : Calls Unit} (h : Resting cfg p) : AtRest p := by
  have hidle : ∀ db : Db, db.row.any Row.atRest = true → db.row.any Row.idle = true :=
    fun _ => Db.idle_of_atRest
  have hcalm := Op.within_of_calm Sql.keepsRest_of_calm
  rcases h with hunread | hregisters
  · refine hunread.follows (fun p hp => ?_) fun op r hop => answeredIn_of_not_readsRow r hop
    have hcut : Op.dropped.within fun q => q.keepsRest = true := hcalm _ rfl
    refine hp.follows hcut (fun a ha => ?_) (containerMonitor_calm hidle hcalm)
      (fun _ _ hguest => ?_) settleRun_at_rest
    · exact a.calm hidle hcalm (fun hresume => absurd hresume ha) fun _ => within_keepsRest rfl
    · exact Prog.Follows.interp (fun request _ hr _ => handle_at_rest request hr) hguest trivial
  · exact registers_calm hcalm hregisters

end Guests

/-! ### Whole runs -/

section Moves

variable {cfg : Settings}

theorem Move.quiet_of_atRest {m : Move cfg} (h : m.before.world.db.row.any Row.atRest = true)
    (hcall : ∀ tag op, m.caller = some (tag, op) → op.within fun q => q.keepsRest = true) :
    m.claims = false ∧ m.stamps = false ∧ m.launches = false := by
  refine ⟨?_, ?_, ?_⟩
  · refine decide_eq_false fun ⟨_, hclaim⟩ => ?_
    obtain ⟨r, hr, hrest⟩ := (Option.any_eq_true _ _).mp h
    rw [hr, Option.any_some, Row.not_claimable_of_idle (Row.idle_of_atRest hrest)] at hclaim
    cases hclaim
  · rw [Move.stamps, Option.any_eq_false]
    intro q hq
    obtain ⟨tag, hcaller⟩ := Move.executes_iff.mp hq
    have hkeeps := (hcall tag _ hcaller).2 q rfl
    cases q with
    | setInstanceSleep wakeAt => cases hkeeps
    | _ => rfl
  · exact Move.launches_of_within hcall

variable {c : Config cfg}

/-- The statement that a task comes to which arrives and runs alone, on a path without a resume
request. -/
theorem exists_path_of_arrival {a : Arrival} {tag : Tag} {next : q.Ret → Calls Unit} {w : World}
    (ha : a ≠ .resume)
    (h : (environment cfg).Solo { proc := 0, kind := a.kind } c.world (a.program cfg) tag w
      (.call (.sql q) next)) :
    ∃ (ms : List (Move cfg)) (m : Move cfg) (c' : Config cfg), (environment cfg).Path c ms c' ∧
      (∀ m ∈ ms, m.brings .resume = false) ∧ m ∈ ms ∧ m.executes q ∧ m.before.world = w := by
  obtain ⟨ms, m, c', hpath, htask, hm, hcaller, hw⟩ := h.exists_move c.tasks Choice.yes rfl
  refine ⟨⟨c, .outside (.arrive 0 a), _⟩ :: ms, m, c', .cons rfl hpath, ?_,
    List.mem_cons_of_mem _ hm, Move.executes_iff.mpr ⟨tag, hcaller⟩, hw⟩
  intro m hm
  rcases List.mem_cons.mp hm with rfl | hm
  · exact decide_eq_false fun h => ha h.symm
  · obtain ⟨i, choice, hinput⟩ := htask m hm
    rw [Move.brings, hinput]

theorem solo_sql {tag tag' : Tag} {r : q.Ret} {w w' : World} {next : q.Ret → Calls Unit}
    {p : Calls Unit} (db : Db) (h : q.exec w.now w.db = (r, db))
    (rest : (environment cfg).Solo (tag.afterSql q r db) { w with db } (next r) tag' w' p) :
    (environment cfg).Solo tag w (.call (.sql q) next) tag' w' p := by
  refine .call Choice.yes ?_ rest
  show some (_, _, _, _) = _
  rw [h]

/-- A custom signal stamps a suspended row that has the marker of a signal wait. -/
theorem exists_stamp (hr : c.world.db.row = some r) (hstatus : r.status = .suspended)
    (hreason : r.terminationReason = some .waitingSignal) :
    ∃ (ms : List (Move cfg)) (m : Move cfg) (c' : Config cfg), (environment cfg).Path c ms c' ∧
      (∀ m ∈ ms, m.brings .resume = false) ∧ m ∈ ms ∧ m.stamps = true := by
  -- the request looks at the row, stores the signal, and looks at the row again
  let db : Db := { c.world.db with
    customSignals := Runtara.insertCustomSignal c.world.db.customSignals "s" [] }
  have hsolo : (environment cfg).Solo { proc := 0, kind := .customSignal } c.world
      (handleSendCustomSignal "s" []) { proc := 0, kind := .customSignal } { c.world with db }
      (.call (.sql (.setInstanceSleep .now)) .done) := by
    refine solo_sql (r := some r) c.world.db (by rw [← hr]; rfl) ?_
    refine solo_sql db rfl ?_
    refine solo_sql (r := some r) db (by rw [← hr]; rfl) ?_
    show (environment cfg).Solo _ _ (if _ then _ else _) _ _ _
    rw [if_pos ⟨hstatus, hreason⟩]
    exact .refl _ _ _
  obtain ⟨ms, m, c', hpath, hresume, hm, hq, -⟩ :=
    exists_path_of_arrival (a := .customSignal "s" []) (by decide) hsolo
  refine ⟨ms, m, c', hpath, hresume, hm, ?_⟩
  rw [Move.stamps, hq]
  rfl

/-- A poll of the wake scheduler claims a suspended row that has a wake time, once it has come; a
process that has just started is not draining. -/
theorem exists_claim {t : Time} (hr : c.world.db.row = some r) (hstatus : r.status = .suspended)
    (hsleep : r.sleepUntil = some t) :
    ∃ (ms : List (Move cfg)) (m : Move cfg) (c' : Config cfg), (environment cfg).Path c ms c' ∧
      (∀ m ∈ ms, m.brings .resume = false) ∧ m ∈ ms ∧ m.claims = true := by
  let w : World := { c.world with
    processes := Function.update c.world.processes 0 ⟨false, none⟩, now := c.world.now + t }
  let ts : List Task := c.tasks.filter fun t => t.tag.proc ≠ 0
  have hdue : r.due (c.world.now + t) = true := by simp [Row.due, hsleep, hstatus]
  have hfound : Sql.getSleepingInstancesDue.exec w.now w.db = (some r, w.db) := by
    show (c.world.db.row.filter _, _) = _
    rw [hr, Option.filter_some, if_pos hdue]
  -- not draining, the row is due, it is in the batch, the image is there
  have hsolo : ∃ next, (environment cfg).Solo { proc := 0, kind := .wake } w processPendingWakes
      { proc := 0, kind := .wake } w (.call (.sql .claimSleepingInstance) next) :=
    ⟨_, .call Choice.yes rfl <| solo_sql w.db hfound <| .call Choice.yes rfl <|
      .call Choice.yes rfl <| .refl _ _ _⟩
  obtain ⟨next, hsolo⟩ := hsolo
  obtain ⟨ms, m, c', hpath, hresume, hm, hq, hw⟩ :=
    exists_path_of_arrival (c := ⟨w, ts⟩) (a := .wake) (by decide) hsolo
  refine ⟨⟨c, .outside (.halt 0), ⟨_, ts⟩⟩ :: ⟨_, .outside (.tick t), ⟨w, ts⟩⟩ :: ms, m, c',
    .cons rfl (.cons rfl hpath), ?_, ?_, ?_⟩
  · intro m hm
    rcases List.mem_cons.mp hm with rfl | hm
    · rfl
    · rcases List.mem_cons.mp hm with rfl | hm
      · rfl
      · exact hresume m hm
  · exact List.mem_cons_of_mem _ (List.mem_cons_of_mem _ hm)
  · refine decide_eq_true ⟨hq, ?_⟩
    rw [hw]
    show c.world.db.row.any Row.claimable = true
    rw [hr, Option.any_some]
    simp [Row.claimable, hsleep, hstatus]

/-- **A paused row is left alone until it is resumed, exactly if it was paused without a wake time
and without the marker of a signal wait.** What is in flight at the pause has not read the row; what
arrives later is arbitrary, a resume request apart. -/
theorem pause_stays_iff {m₀ : Move cfg} {r : Row} (hm₀ : m₀.Valid)
    (hpause : m₀.executes (.updateInstanceStatus .suspended false))
    (hr : m₀.before.world.db.row = some r) (hts : ∀ t ∈ m₀.after.tasks, Resting cfg t.prog) :
    (∀ (ms : List (Move cfg)) (c' : Config cfg), (environment cfg).Path m₀.after ms c' →
      (∀ m ∈ ms, m.brings .resume = false) →
        ∀ m ∈ ms, m.claims = false ∧ m.stamps = false ∧ m.launches = false) ↔
      r.sleepUntil = none ∧ r.terminationReason ≠ some .waitingSignal := by
  have hafter :
      m₀.after.world.db.row = some { r with status := .suspended, suspendedBy := none } := by
    rcases Move.db_cases hm₀ with ⟨q, hq, hdb⟩ | ⟨hnone, -⟩
    · obtain rfl := Move.executes_unique hq hpause
      rw [hdb, Sql.exec, Db.updateRow, hr]
      rfl
    · exact absurd hpause (hnone _)
  constructor
  · intro h
    constructor
    · rw [Option.eq_none_iff_forall_ne_some]
      intro t ht
      obtain ⟨ms, m, c', hpath, hresume, hm, hclaim⟩ := exists_claim hafter rfl ht
      rw [(h ms c' hpath hresume m hm).1] at hclaim
      cases hclaim
    · intro hreason
      obtain ⟨ms, m, c', hpath, hresume, hm, hstamp⟩ := exists_stamp hafter rfl hreason
      rw [(h ms c' hpath hresume m hm).2.1] at hstamp
      cases hstamp
  · rintro ⟨hsleep, hreason⟩ ms c' hpath hresume m hm
    have hrest : m₀.after.world.db.row.any Row.atRest = true := by
      rw [hafter, Option.any_some]
      exact decide_eq_true ⟨rfl, hsleep, hreason⟩
    obtain ⟨hbefore, -, hcall⟩ := idle_stable (I := fun db => db.row.any Row.atRest = true)
      (fun _ => Db.idle_of_atRest) Sql.keepsRest_of_calm exec_atRest hpath hrest
      (fun t ht => (hts t ht).at_rest)
      (fun m hm hbrings => absurd hbrings (Bool.eq_false_iff.mp (hresume m hm)))
      (fun _ _ _ => rfl) m hm
    exact Move.quiet_of_atRest hbefore hcall

end Moves

/-- A guest at a wait for the custom signal `k`, which looks for lifecycle signals first. -/
def waitingGuest (k : String) : Guest InvokeExit := do
  if ← RuntimeHost.checkSignals false then pure (.suspended [.onResume])
  else do
    match ← RuntimeHost.pollCustomSignal k with
    | none => pure (.suspended [.onSignal k none])
    | some _ => pure .completed

/-- **A paused instance is stamped by a custom signal, claimed and relaunched.** The instance is
started and parks on a wait for a signal; the signal wakes it, and a pause is acknowledged by the
second run before it looks at the signal again. The next custom signal finds the marker of the first
wait. -/
theorem paused_row_claimed :
    ∃ (ms ms' : List (Move (.default "i"))) (c c' : Config (.default "i")),
      (environment (.default "i")).Path (initial _) ms c ∧
      ms.getLast?.any
        (fun m => m.statement = some (.updateInstanceStatus .suspended false)) = true ∧
      (environment (.default "i")).Path c ms' c' ∧ (∀ m ∈ ms', m.brings .resume = false) ∧
      (∃ m ∈ ms', m.stamps = true) ∧ (∃ m ∈ ms', m.claims = true) ∧
      ∃ m ∈ ms', m.launches = true := by
  obtain ⟨ms, c, hpath, hpause, hplay⟩ :
      ∃ ms c, (environment (.default "i")).Path (initial _) ms c ∧
        ms.getLast?.any
          (fun m => Move.statement m = some (.updateInstanceStatus .suspended false)) = true ∧
        plays (fun ms' _ => (∀ m ∈ ms', Move.brings m .resume = false) ∧
            (∃ m ∈ ms', Move.stamps m = true) ∧ (∃ m ∈ ms', Move.claims m = true) ∧
            ∃ m ∈ ms', Move.launches m = true) c
          -- the second run and its monitor end, and a signal arrives before the wake
          [requestInputs 2 6, calls 2 6 .yes, calls 4 7 .yes,
            [.outside (.arrive 0 (.customSignal "k" [2]))], calls 4 8 .yes,
            wakeInputs 9 (waitingGuest "k")] = true :=
    -- the first run parks on the signal and its monitor ends, the signal and a pause arrive, and
    -- the second run acknowledges the pause
    exists_path _ [startInputs (waitingGuest "k"), calls 2 1 .yes, requestInputs 3 1,
      calls 3 1 .yes, calls 4 2 .yes, [.outside (.arrive 0 (.customSignal "k" [1]))],
      calls 4 3 .yes, [.outside (.arrive 0 (.signal .pause []))], calls 2 4 .yes,
      wakeInputs 5 (waitingGuest "k"), calls 2 5 .yes, calls 2 6 .yes, requestInputs 3 6]
      (by decide +kernel)
  obtain ⟨ms', c', hpath', hc'⟩ := exists_path _ _ hplay
  exact ⟨ms, ms', c, c', hpath, hpause, hpath', hc'⟩

/-- **A pause on a row without leftovers.** The run that acknowledges it goes on with the rest of
its guest, its monitor waits, and a custom signal and a poll of the wake scheduler have arrived. -/
theorem pause_stays_iff_clean_row :
    ∃ m₀ : Move (.default "i"), m₀.Valid ∧ m₀.executes (.updateInstanceStatus .suspended false) ∧
      m₀.after.tasks.length = 4 ∧
      ∀ (ms : List (Move (.default "i"))) (c' : Config (.default "i")),
        (environment (.default "i")).Path m₀.after ms c' → (∀ m ∈ ms, m.brings .resume = false) →
          ∀ m ∈ ms, m.claims = false ∧ m.stamps = false ∧ m.launches = false := by
  let cfg : Settings := .default "i"
  let r : Row := { Row.registered 0 with status := .running }
  let guest : Guest InvokeExit := do
    RuntimeHost.request (.event (.suspended .plain))
    pure (.suspended [.onResume])
  let rest : Calls Unit := execute guest >>= settleRun cfg
  let tag : Tag := { proc := 0, kind := .run 0 }
  let others : List Task :=
    [⟨{ proc := 0, kind := .monitor 0 }, containerMonitor cfg.handleId⟩,
      ⟨{ proc := 0, kind := .customSignal }, handleSendCustomSignal "k" []⟩,
      ⟨{ proc := 0, kind := .wake }, processPendingWakes⟩]
  let w (r : Row) : World := { World.initial with db := { World.initial.db with row := some r } }
  let pause : Calls Unit := .call (.sql (.updateInstanceStatus .suspended false)) fun _ => rest
  let m₀ : Move cfg := ⟨⟨w r, ⟨tag, pause⟩ :: others⟩, .task 0 .yes,
    ⟨w { r with status := .suspended }, ⟨tag, rest⟩ :: others⟩⟩
  have hm₀ : m₀.Valid := rfl
  have hts : ∀ t ∈ m₀.after.tasks, Resting cfg t.prog := by
    simp only [m₀, others, List.forall_mem_cons]
    exact ⟨Or.inl (.start (.invoke _ ⟨rfl, fun _ => trivial⟩)), Or.inl (.start (.monitor _)),
      Or.inl (.start (.request (.customSignal "k" []) (by decide))),
      Or.inl (.start (.request .wake (by decide))), nofun⟩
  exact ⟨m₀, hm₀, rfl, rfl, (pause_stays_iff (r := r) hm₀ rfl rfl hts).mpr ⟨rfl, by decide⟩⟩

end Runtara.Environment
