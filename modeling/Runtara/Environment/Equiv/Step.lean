/-
  What one call of a task does.

  A call other than a statement leaves the database alone, and so does everything outside the
  tasks; a statement leaves everything else alone. Only a launch and the start of a monitor start
  tasks, and a program that does not launch a run itself makes routine calls only (`Routine`).
-/
import Runtara.Environment.System

namespace Runtara.Environment

open Tasks (Prog)

variable {cfg : Settings} {tag tag' : Tag} {op : Op} {choice : Choice} {w w' : World}
  {started : List Task}

/-! ### Statements and other calls -/

/-- What a call can do: the outcomes of `exec`, one by one. -/
inductive Executes (cfg : Settings) (tag : Tag) (w : World) :
    (op : Op) → op.Ret → Tag → World → List Task → Prop
  | sql (q : Sql) : Executes cfg tag w (.sql q) (q.exec w.now w.db).1
      (tag.afterSql q (q.exec w.now w.db).1 (q.exec w.now w.db).2)
      { w with db := (q.exec w.now w.db).2 } []
  | launched (artifact : Artifact) : Executes cfg tag w .launchDetached
      (some ⟨cfg.handleId, w.launches⟩)
      { tag with launching := false, handle := some ⟨cfg.handleId, w.launches⟩, owes := false }
      { w with
        launches := w.launches + 1
        processes := Function.update w.processes tag.proc
          { w.processes tag.proc with task := some w.launches } }
      [⟨{ proc := tag.proc, kind := .run w.launches, owes := tag.owes }, runTask cfg artifact⟩]
  | notLaunched : Executes cfg tag w .launchDetached none { tag with launching := false } w []
  | monitored (handle : Handle) (h : tag.handle = some handle) :
    Executes cfg tag w .spawnContainerMonitor () { tag with handle := none } w
      [⟨{ proc := tag.proc, kind := .monitor handle.launch }, containerMonitor handle.handleId⟩]
  | notMonitored (h : tag.handle = none) :
    Executes cfg tag w .spawnContainerMonitor () { tag with handle := none } w []
  | stopped (l : ℕ) (h : (w.processes tag.proc).task = some l) :
    Executes cfg tag w .stop () tag { w with cancel := Function.update w.cancel l true } []
  | notStopped (h : (w.processes tag.proc).task = none) : Executes cfg tag w .stop () tag w []
  | timedOut : Executes cfg tag w .awaitExit false tag w []
  | exited (h : (w.processes tag.proc).task.all w.finished = true) :
    Executes cfg tag w .awaitExit true tag w []
  | finished (l : ℕ) (h : tag.kind = .run l) : Executes cfg tag w .setFinished () tag
      { w with finished := Function.update w.finished l true } []
  | notFinished (h : ∀ l, tag.kind ≠ .run l) : Executes cfg tag w .setFinished () tag w []
  | removed : Executes cfg tag w .removeTask () tag
      { w with
        processes := Function.update w.processes tag.proc
          { w.processes tag.proc with task := none } } []
  | dropped (l : ℕ) (hkind : tag.kind = .run l) (hcancel : w.cancel l = true) :
    Executes cfg tag w .dropped true tag w []
  | notDropped : Executes cfg tag w .dropped false tag w []
  | isDraining : Executes cfg tag w .isDraining (w.processes tag.proc).draining tag w []
  | draining : Executes cfg tag w .setDraining () tag
      { w with
        processes := Function.update w.processes tag.proc
          { w.processes tag.proc with draining := true } } []
  | now : Executes cfg tag w .now w.now tag w []
  | lookup (found : Bool) : Executes cfg tag w .lookup found tag w []

variable {r : op.Ret}

theorem executes_of_exec (h : exec cfg tag op choice w = some (r, tag', w', started)) :
    Executes cfg tag w op r tag' w' started := by
  cases op with
  | sql q => cases h; exact .sql q
  | launchDetached =>
    cases choice with
    | launch artifact => cases h; exact .launched artifact
    | _ => cases h; exact .notLaunched
  | spawnContainerMonitor =>
    dsimp only [exec] at h
    split at h
    case h_1 handle hhandle => cases h; exact .monitored handle hhandle
    case h_2 hnone => cases h; exact .notMonitored hnone
  | stop =>
    dsimp only [exec] at h
    split at h
    case h_1 l hl => cases h; exact .stopped l hl
    case h_2 hnone => cases h; exact .notStopped hnone
  | awaitExit =>
    cases choice <;> dsimp only [exec] at h
    case no => cases h; exact .timedOut
    all_goals
      split at h
      · cases h; exact .exited ‹_›
      · cases h
  | setFinished =>
    dsimp only [exec] at h
    split at h
    case h_1 l hl => cases h; exact .finished l hl
    case h_2 hne => cases h; exact .notFinished hne
  | removeTask => cases h; exact .removed
  | dropped =>
    cases choice <;> dsimp only [exec] at h
    case yes =>
      split at h
      · split at h
        · cases h; exact .dropped _ ‹_› ‹_›
        · cases h
      · cases h
    all_goals cases h; exact .notDropped
  | isDraining => cases h; exact .isDraining
  | setDraining => cases h; exact .draining
  | now => cases h; exact .now
  | lookup => cases choice <;> cases h <;> exact .lookup _

variable {q : Sql}

theorem exec_sql (cfg : Settings) (choice : Choice) {r : q.Ret}
    (h : exec cfg tag (.sql q) choice w = some (r, tag', w', started)) :
    r = (q.exec w.now w.db).1 ∧ tag' = tag.afterSql q r (q.exec w.now w.db).2 ∧
      w' = { w with db := (q.exec w.now w.db).2 } ∧ started = [] := by
  cases h
  exact ⟨rfl, rfl, rfl, rfl⟩

theorem exec_db (hop : ∀ q, op ≠ .sql q)
    (h : exec cfg tag op choice w = some (r, tag', w', started)) : w'.db = w.db := by
  cases executes_of_exec h with
  | sql q => exact absurd rfl (hop q)
  | _ => rfl

theorem Tag.afterSql_kind (tag : Tag) (q : Sql) (r : q.Ret) (db : Db) :
    (tag.afterSql q r db).kind = tag.kind := by
  unfold Tag.afterSql
  split <;> first | rfl | (split <;> rfl)

theorem exec_kind (h : exec cfg tag op choice w = some (r, tag', w', started)) :
    tag'.kind = tag.kind := by
  cases executes_of_exec h with
  | sql q => exact Tag.afterSql_kind tag q _ _
  | _ => rfl

theorem Tag.afterSql_handle (tag : Tag) (q : Sql) (r : q.Ret) (db : Db) :
    (tag.afterSql q r db).handle = tag.handle ∧ (tag.afterSql q r db).proc = tag.proc := by
  unfold Tag.afterSql
  split <;> first | exact ⟨rfl, rfl⟩ | (split <;> exact ⟨rfl, rfl⟩)

theorem exec_proc (h : exec cfg tag op choice w = some (r, tag', w', started)) :
    tag'.proc = tag.proc := by
  cases executes_of_exec h with
  | sql q => exact (Tag.afterSql_handle tag q _ _).2
  | _ => rfl

/-- A call other than a launch starts nothing but a monitor. -/
theorem exec_started (hop : op ≠ .launchDetached)
    (h : exec cfg tag op choice w = some (r, tag', w', started)) :
    ∀ t ∈ started, ∃ handle : Handle, tag.handle = some handle ∧
      t = ⟨{ proc := tag.proc, kind := .monitor handle.launch },
        containerMonitor handle.handleId⟩ := by
  intro t ht
  cases executes_of_exec h with
  | launched => exact absurd rfl hop
  | monitored handle hhandle => exact ⟨handle, hhandle, List.mem_singleton.mp ht⟩
  | _ => cases ht

theorem exec_row_isSome (q : Sql) (now : Time) {db : Db} (h : db.row.isSome = true) :
    (q.exec now db).2.row.isSome = true := by
  obtain ⟨r, hr⟩ := Option.isSome_iff_exists.mp h
  cases q with
  | registerInstance => simp [Sql.exec, hr]
  | completeInstance | claimSleepingInstance =>
    rw [Sql.exec, hr]
    dsimp only
    split
    · rfl
    · exact h
  | updateInstanceStatus | updateInstanceCheckpoint | markForRecovery | setInstanceSleep
  | clearInstanceSleep => simp [Sql.exec, Db.updateRow, hr]
  | _ => exact h

theorem exec_row (h : exec cfg tag op choice w = some (r, tag', w', started))
    (hrow : w.db.row.isSome = true) : w'.db.row.isSome = true := by
  cases executes_of_exec h with
  | sql q => exact exec_row_isSome q w.now hrow
  | _ => exact hrow

theorem outside_db {o : Outside} {ts ts' : List Task} (h : outside cfg o w ts = some (w', ts')) :
    w'.db = w.db := by
  cases o <;> cases h <;> rfl

/-! ### Routine calls -/

/-- The statuses that the statement may write: `complete_instance` stops a run, and
`update_instance_status` does not end one. -/
def Sql.lifecycle : Sql → Bool
  | .completeInstance p => p.status.stopped
  | .updateInstanceStatus status _ => !status.terminal
  | _ => true

/-- The call launches no run and registers none, and it writes no other statuses. -/
def Op.routine : Op → Bool
  | .sql (.registryRegister _ _) => false
  | .sql q => q.lifecycle
  | .launchDetached => false
  | _ => true

abbrev Routine {α : Type} (p : Calls α) : Prop := p.Only fun op => op.routine = true

theorem only_sql {ok : Op → Prop} (h : ok (.sql q)) : (sql q).Only ok := ⟨h, fun _ => trivial⟩

theorem only_ask {ok : Op → Prop} (h : ok op) : (ask op).Only ok := ⟨h, fun _ => trivial⟩

theorem handle_routine (request : Request) : Routine (handle request) := by
  cases request <;>
    dsimp only [handle, handleRegisterInstance, handleCheckpoint, handleGetCheckpoint, handleSleep,
      handleInstanceEvent, handleSignalAck, handlePollSignals, pendingSignal]
  -- along the calls and the branches
  all_goals
    repeat' first
      | trivial
      | exact only_sql rfl
      | exact only_ask rfl
      | refine Prog.Only.bind ?_ fun _ => ?_
      | split

theorem settleRun_routine (cfg : Settings) (exit : Option InvokeExit) :
    Routine (settleRun cfg exit) := by
  dsimp only [settleRun, parkInvokeSuspend]
  repeat' first
    | trivial
    | exact only_sql rfl
    | exact only_ask rfl
    | refine Prog.Only.bind ?_ fun _ => ?_
    | split

theorem execute_routine {α : Type} (guest : Guest α) : Routine (execute guest) :=
  ((Prog.only_true guest).interp fun request _ => handle_routine request).droppable rfl

theorem runTask_routine (artifact : Artifact) : Routine (runTask cfg artifact) := by
  cases artifact with
  | broken => exact settleRun_routine cfg none
  | invoke guest =>
    refine ⟨rfl, fun _ => ⟨rfl, fun _ => ?_⟩⟩
    exact (execute_routine guest).bind (settleRun_routine cfg)
  | run guest => exact (execute_routine guest).bind fun _ => settleRun_routine cfg none

theorem containerMonitor_routine (handleId : String) : Routine (containerMonitor handleId) := by
  unfold containerMonitor monitorExit monitorTimeout detectStaleMonitor
  repeat' first
    | trivial
    | exact only_sql rfl
    | exact only_sql (by split <;> rfl)
    | exact only_ask rfl
    | refine Prog.Only.bind ?_ fun _ => ?_
    | split

theorem started_routine (h : exec cfg tag op choice w = some (r, tag', w', started)) :
    ∀ t ∈ started, Routine t.prog := by
  intro t ht
  cases executes_of_exec h with
  | launched artifact =>
    obtain rfl := List.mem_singleton.mp ht
    exact runTask_routine artifact
  | monitored handle _ =>
    obtain rfl := List.mem_singleton.mp ht
    exact containerMonitor_routine handle.handleId
  | _ => cases ht

theorem filterNonTerminal_routine (polls : ℕ) : Routine (filterNonTerminal polls) := by
  induction polls with
  | zero => trivial
  | succ n ih =>
    refine Prog.Only.bind (p := sql .getInstance) (only_sql rfl) fun r => ?_
    split
    · trivial
    · split
      · trivial
      · exact ih

/-- Only a start request, a resume request and the wake scheduler launch runs. -/
theorem Arrival.routine {a : Arrival} (h : a ∉ [.start, .resume, .wake]) :
    Routine (a.program cfg) := by
  cases a with
  | start | resume | wake => exact absurd (by decide) h
  | _ =>
    dsimp only [Arrival.program, handleStopInstance, handleSendSignal, handleSendCustomSignal,
      wakeSuspendedOnSignal, checkStaleInstances, getOrphanedRunningInstance, failStaleInstance,
      recoverOrFail, Environment.drain, forceStop, recoverOrphanedContainers]
    repeat' first
      | trivial
      | exact only_sql rfl
      | exact only_ask rfl
      | exact filterNonTerminal_routine _
      | refine Prog.Only.bind ?_ fun _ => ?_
      | split

/-! ### Moves -/

def Op.statement : Op → Option Sql
  | .sql q => some q
  | _ => none

theorem Op.eq_sql_of_statement {op : Op} (h : op.statement = some q) : op = .sql q := by
  cases op with
  | sql q' => rw [Option.some.inj h]
  | _ => cases h

def Move.statement (m : Move cfg) : Option Sql := m.caller.bind fun call => call.2.statement

/-- The move executes the statement `q`. -/
abbrev Move.executes (m : Move cfg) (q : Sql) : Prop := m.statement = some q

variable {m : Move cfg}

theorem Move.executes_unique {q' : Sql} (h : m.executes q) (h' : m.executes q') : q = q' :=
  Option.some.inj (h.symm.trans h')

theorem Move.executes_iff : m.executes q ↔ ∃ tag, m.caller = some (tag, .sql q) := by
  constructor
  · intro h
    obtain ⟨⟨tag, op⟩, hcaller, hop⟩ := Option.bind_eq_some_iff.mp h
    obtain rfl : op = .sql q := Op.eq_sql_of_statement hop
    exact ⟨tag, hcaller⟩
  · rintro ⟨tag, hcaller⟩
    show m.caller.bind _ = _
    rw [hcaller]
    rfl

/-- The request arrives, in some process. -/
def Outside.brings (a : Arrival) : Outside → Bool
  | .arrive _ b => a = b
  | _ => false

def Move.brings (m : Move cfg) (a : Arrival) : Bool :=
  match m.input with
  | .outside o => o.brings a
  | .task _ _ => false

/-- The wake scheduler claims the row. -/
def Move.claims (m : Move cfg) : Bool :=
  m.statement = some .claimSleepingInstance ∧ m.before.world.db.row.any Row.claimable

def Move.stamps (m : Move cfg) : Bool :=
  m.statement.any fun
    | .setInstanceSleep _ => true
    | _ => false

def Move.launches (m : Move cfg) : Bool := m.caller.any fun call => call.2 = .launchDetached

/-- A move executes one statement, or it leaves the rows alone. -/
theorem Move.db_cases (hm : m.Valid) : (∃ q, m.executes q ∧
      m.after.world.db = (q.exec m.before.world.now m.before.world.db).2) ∨
    (∀ q, ¬ m.executes q) ∧ m.after.world.db = m.before.world.db := by
  rcases hm.cases with ⟨i, choice, tag, op, next, r, tag', w, started, hcaller, -, hexec,
      -, hafter⟩ | ⟨o, w, ts, hcaller, -, hout, hafter⟩
  · by_cases hop : ∃ q, op = .sql q
    · obtain ⟨q, rfl⟩ := hop
      obtain ⟨-, -, rfl, -⟩ := exec_sql cfg choice hexec
      exact Or.inl ⟨q, Move.executes_iff.mpr ⟨tag, hcaller⟩, by rw [hafter]⟩
    · refine Or.inr ⟨fun q hq => hop ⟨q, ?_⟩, ?_⟩
      · obtain ⟨tag'', hq⟩ := Move.executes_iff.mp hq
        exact (Prod.mk.inj (Option.some.inj (hcaller.symm.trans hq))).2
      · rw [hafter]
        exact exec_db (fun q hq => hop ⟨q, hq⟩) hexec
  · refine Or.inr ⟨fun q hq => ?_, ?_⟩
    · obtain ⟨tag, hq⟩ := Move.executes_iff.mp hq
      rw [hcaller] at hq
      cases hq
    · rw [hafter]
      exact outside_db hout

end Runtara.Environment
