/-
  What tasks do while the row is idle.

  A row is idle (`Row.idle`) when its run is over and, if it is suspended, no wake time and no
  signal wait will bring it back. On such a row most of the branches of the tasks are closed: a
  request or a poll that has not read the row yet executes only statements that are calm
  (`Sql.calm`), and so does a monitor. A resume request is the one way on, unless it finds a status
  that it refuses, and a stop request writes its status without a look at the one of the row.
-/
import Runtara.Environment.Equiv.InFlight

namespace Runtara.Environment

open Tasks (Prog Protocol)

/-- The run is over, and a suspension has neither a wake time nor a signal to wait for. -/
def Row.idle (r : Row) : Bool :=
  r.status.stopped ∧
    (r.status = .suspended → r.sleepUntil = none ∧ r.terminationReason ≠ some .waitingSignal)

/-- The statement sets no wake time, and it writes no status unless the row is running. -/
def Sql.calm : Sql → Bool
  | .updateInstanceStatus _ _ => false
  | .completeInstance p => p.guard = .onlyRunning
  | .markForRecovery _ _ => false
  | .setInstanceSleep _ => false
  | _ => true

/-- The call is no launch, and no statement that is not calm. -/
def Op.calm : Op → Bool
  | .sql q => q.calm
  | .launchDetached => false
  | _ => true

namespace Row

variable {r : Row}

section

variable (h : r.idle = true)

include h

theorem stopped_of_idle : r.status.stopped = true := (of_decide_eq_true h).1

theorem status_ne_running_of_idle : r.status ≠ .running := by
  intro hstatus
  have hstopped := stopped_of_idle h
  rw [hstatus] at hstopped
  cases hstopped

theorem not_due_of_idle (now : Time) : r.due now = false := by
  refine decide_eq_false fun ⟨hsleep, hstatus⟩ => ?_
  rw [((of_decide_eq_true h).2 hstatus).1] at hsleep
  cases hsleep

theorem not_claimable_of_idle : r.claimable = false := by
  refine decide_eq_false fun ⟨hsleep, hstatus⟩ => ?_
  rw [((of_decide_eq_true h).2 hstatus).1] at hsleep
  cases hsleep

theorem not_waiting_of_idle :
    ¬ (r.status = .suspended ∧ r.terminationReason = some .waitingSignal) :=
  fun ⟨hstatus, hreason⟩ => ((of_decide_eq_true h).2 hstatus).2 hreason

end

end Row

/-! ### Programs that rely on an idle row -/

/-- The answer to the statement depends on the row of the instance. -/
def Sql.readsRow : Sql → Bool
  | .registerInstance | .getInstance | .dbGetInstance | .completeInstance _
  | .claimSleepingInstance | .getSleepingInstancesDue | .listRunningInstances => true
  | _ => false

def Op.readsRow : Op → Bool
  | .sql q => q.readsRow
  | _ => false

/-- The call is about the container registry and the monitor of a run. -/
def Op.registers : Op → Bool
  | .sql (.registryRegister _ _) | .sql .registryCleanup | .spawnContainerMonitor => true
  | _ => false

/-- The answer, if it depends on the row, can come from rows with `I`. -/
def Op.answeredIn (I : Db → Prop) : (op : Op) → op.Ret → Prop
  | .sql q, r => q.readsRow = true → ∃ now db, I db ∧ (q.exec now db).1 = r
  | _, _ => True

/-- The protocol of a task that relies on `I` and calls only what is safe. -/
def rowProtocol (I : Db → Prop) (safe : Op → Prop) : Protocol Op Op.Ret Unit where
  allowed _ op := safe op
  next _ op r _ := op.answeredIn I r

theorem answeredIn_of_exec {cfg : Settings} {I : Db → Prop} {tag tag' : Tag} {op : Op}
    {choice : Choice} {w w' : World} {r : op.Ret} {started : List Task} (hw : I w.db)
    (h : exec cfg tag op choice w = some (r, tag', w', started)) : op.answeredIn I r := by
  cases op with
  | sql q =>
    obtain ⟨rfl, -⟩ := exec_sql cfg choice h
    exact fun _ => ⟨w.now, w.db, hw, rfl⟩
  | _ => trivial

theorem answeredIn_of_not_readsRow {I : Db → Prop} {op : Op} (r : op.Ret)
    (h : op.readsRow = false) : op.answeredIn I r := by
  cases op with
  | sql q =>
    intro hq
    rw [show q.readsRow = false from h] at hq
    cases hq
  | _ => trivial

section Programs

variable {cfg : Settings} {I : Db → Prop} {safe : Op → Prop} {α : Type} {post : Unit → α → Prop}

theorem follows_ask_bind {op : Op} {f : op.Ret → Calls α} (hsafe : safe op)
    (h : ∀ r, (f r).Follows (rowProtocol I safe) post ()) :
    (ask op >>= f).Follows (rowProtocol I safe) post () :=
  ⟨hsafe, fun r _ _ => h r⟩

theorem follows_ask {op : Op} {post : Unit → op.Ret → Prop} (hsafe : safe op)
    (h : ∀ r, post () r) : (ask op).Follows (rowProtocol I safe) post () :=
  ⟨hsafe, fun r _ _ => h r⟩

/-- The rule for a statement that reads the row: it is answered from rows with `I`. -/
theorem follows_sql_bind {q : Sql} {f : q.Ret → Calls α} (hsafe : safe (.sql q))
    (hq : q.readsRow = true)
    (h : ∀ now db, I db → (f (q.exec now db).1).Follows (rowProtocol I safe) post ()) :
    (sql q >>= f).Follows (rowProtocol I safe) post () := by
  refine ⟨hsafe, fun r _ hr => ?_⟩
  obtain ⟨now, db, hdb, rfl⟩ := hr hq
  exact h now db hdb

variable (I safe) in
/-- While `I` holds, the program makes safe calls only. -/
abbrev Relies (p : Calls α) : Prop := p.Follows (rowProtocol I safe) (fun _ _ => True) ()

variable (hI : ∀ db, I db → db.row.any Row.idle = true) (hcalm : ∀ op, op.calm = true → safe op)

include hI

theorem exists_idle {db : Db} (hdb : I db) : ∃ r, db.row = some r ∧ r.idle = true :=
  (Option.any_eq_true _ _).mp (hI db hdb)

theorem follows_getInstance_bind {f : Option Row → Calls α} (hsafe : safe (.sql .getInstance))
    (h : ∀ r : Row, r.idle = true → (f (some r)).Follows (rowProtocol I safe) post ()) :
    (sql .getInstance >>= f).Follows (rowProtocol I safe) post () := by
  refine follows_sql_bind hsafe rfl fun now db hdb => ?_
  obtain ⟨r, hr, hidle⟩ := exists_idle hI hdb
  show (f db.row).Follows _ _ _
  rw [hr]
  exact h r hidle

theorem follows_completeInstance_bind {p : CompleteParams} {f : Bool → Calls α}
    (hguard : p.guard = .onlyRunning) (hsafe : safe (.sql (.completeInstance p)))
    (h : (f false).Follows (rowProtocol I safe) post ()) :
    (sql (.completeInstance p) >>= f).Follows (rowProtocol I safe) post () := by
  refine follows_sql_bind hsafe rfl fun now db hdb => ?_
  obtain ⟨r, hr, hidle⟩ := exists_idle hI hdb
  have haccepts : r.accepts p = false := by
    simp [Row.accepts, hguard, Row.status_ne_running_of_idle hidle]
  have hfalse : ((Sql.completeInstance p).exec now db).1 = false := by
    simp [Sql.exec, hr, haccepts]
  rw [hfalse]
  exact h

include hcalm

omit hI in
theorem detectStaleMonitor_calm (handleId : String) :
    Relies I safe (detectStaleMonitor handleId) := by
  refine follows_ask_bind (hcalm _ rfl) fun registered => ?_
  split <;> trivial

theorem containerMonitor_calm (handleId : String) :
    Relies I safe (containerMonitor handleId) := by
  refine follows_ask_bind (hcalm _ rfl) fun exited => ?_
  have hcleanup : Relies I safe (sql Sql.registryCleanup) :=
    follows_ask (hcalm _ rfl) fun _ => trivial
  split
  · refine ((detectStaleMonitor_calm hcalm handleId).mono fun _ stale _ => ?_).bind
    dsimp only
    split
    · exact hcleanup
    · refine follows_getInstance_bind hI (hcalm _ rfl) fun r hidle => ?_
      simp only [Option.any_some, Row.stopped_of_idle hidle, ↓reduceIte]
      exact hcleanup
  · refine follows_ask_bind (hcalm _ rfl) fun _ => ?_
    exact follows_completeInstance_bind hI rfl (hcalm _ rfl) hcleanup

theorem handleStartInstance_calm : Relies I safe handleStartInstance := by
  refine follows_ask_bind (hcalm _ rfl) fun found => ?_
  split
  · trivial
  · exact follows_getInstance_bind hI (hcalm _ rfl) fun r _ => trivial

omit hI in
theorem handleStopInstance_calm (hstop : safe (.sql (.completeInstance { status := .cancelled }))) :
    Relies I safe handleStopInstance := by
  refine follows_ask_bind (hcalm _ rfl) fun registered => ?_
  split
  · trivial
  · refine follows_ask_bind (hcalm _ rfl) fun _ => ?_
    refine follows_ask_bind hstop fun _ => ?_
    exact follows_ask (hcalm _ rfl) fun _ => trivial

/-- A resume request that finds a status it refuses. -/
theorem handleResumeInstance_calm
    (hresume : ∀ db, I db → db.row.all (fun r => !r.status.resumable) = true) :
    Relies I safe handleResumeInstance := by
  refine follows_sql_bind (hcalm _ rfl) rfl fun now db hdb => ?_
  obtain ⟨r, hr, -⟩ := exists_idle hI hdb
  have hrefused : r.status.resumable = false := by simpa [hr] using hresume db hdb
  show (match db.row with | none => _ | some inst => _ : Calls Unit).Follows _ _ _
  simp only [hr, hrefused, Bool.not_false, ↓reduceIte]
  trivial

theorem handleSendSignal_calm (signalType : SignalType) (payload : Bytes) :
    Relies I safe (handleSendSignal signalType payload) := by
  refine follows_getInstance_bind hI (hcalm _ rfl) fun r _ => ?_
  dsimp only
  split <;> first
    | trivial
    | exact follows_ask (hcalm _ rfl) fun _ => trivial

theorem handleSendCustomSignal_calm (checkpointId : String) (payload : Bytes) :
    Relies I safe (handleSendCustomSignal checkpointId payload) := by
  refine follows_getInstance_bind hI (hcalm _ rfl) fun r _ => ?_
  dsimp only
  split
  · trivial
  · refine follows_ask_bind (hcalm _ rfl) fun _ => ?_
    refine follows_getInstance_bind hI (hcalm _ rfl) fun r hidle => ?_
    simp only [Row.not_waiting_of_idle hidle, ↓reduceIte]
    trivial

theorem processPendingWakes_calm : Relies I safe processPendingWakes := by
  refine follows_ask_bind (hcalm _ rfl) fun draining => ?_
  split
  · trivial
  · refine follows_sql_bind (hcalm _ rfl) rfl fun now db hdb => ?_
    obtain ⟨r, hr, hidle⟩ := exists_idle hI hdb
    have hdue : (Sql.getSleepingInstancesDue.exec now db).1 = none := by
      simp [Sql.exec, hr, Row.not_due_of_idle hidle]
    rw [hdue]
    trivial

theorem failStaleInstance_calm : Relies I safe failStaleInstance := by
  refine follows_ask_bind (hcalm _ rfl) fun _ => ?_
  refine follows_completeInstance_bind hI rfl (hcalm _ rfl) ?_
  exact follows_ask (hcalm _ rfl) fun _ => trivial

theorem getOrphanedRunningInstance_calm (cutoff : Time) :
    (getOrphanedRunningInstance cutoff).Follows (rowProtocol I safe)
      (fun _ orphaned => orphaned = false) () := by
  refine follows_sql_bind (hcalm _ rfl) rfl fun now db hdb => ?_
  obtain ⟨r, hr, hidle⟩ := exists_idle hI hdb
  have hnone : (Sql.listRunningInstances.exec now db).1 = none := by
    simp [Sql.exec, hr, Row.status_ne_running_of_idle hidle]
  rw [hnone]
  rfl

theorem checkStaleInstances_calm : Relies I safe (checkStaleInstances cfg) := by
  refine follows_ask_bind (hcalm _ rfl) fun draining => ?_
  split
  · trivial
  · refine follows_ask_bind (hcalm _ rfl) fun now => ?_
    refine follows_ask_bind (hcalm _ rfl) fun stale => ?_
    refine ((getOrphanedRunningInstance_calm hI hcalm _).mono fun _ orphaned horphaned => ?_).bind
    rw [horphaned]
    dsimp only
    split
    · exact ((failStaleInstance_calm hI hcalm).mono fun _ _ _ => trivial).bind
    · trivial

theorem filterNonTerminal_calm (polls : ℕ) : Relies I safe (filterNonTerminal polls) := by
  cases polls with
  | zero => trivial
  | succ n =>
    refine follows_getInstance_bind hI (hcalm _ rfl) fun r hidle => ?_
    simp only [Row.stopped_of_idle hidle, ↓reduceIte]
    trivial

theorem drain_calm (polls : ℕ) : Relies I safe (drain polls) := by
  refine follows_ask_bind (hcalm _ rfl) fun _ => ?_
  refine follows_ask_bind (hcalm _ rfl) fun registered => ?_
  split
  · trivial
  · refine follows_ask_bind (hcalm _ rfl) fun _ => ?_
    refine ((filterNonTerminal_calm hI hcalm polls).mono fun _ active _ => ?_).bind
    split
    · trivial
    · refine follows_ask_bind (hcalm _ rfl) fun _ => ?_
      exact follows_completeInstance_bind hI rfl (hcalm _ rfl) trivial

theorem recoverOrphanedContainers_calm : Relies I safe (recoverOrphanedContainers cfg) := by
  refine follows_ask_bind (hcalm _ rfl) fun registered => ?_
  split
  · trivial
  · refine follows_getInstance_bind hI (hcalm _ rfl) fun r hidle => ?_
    simp only [Row.stopped_of_idle hidle, ↓reduceIte]
    exact follows_ask (hcalm _ rfl) fun _ => trivial

omit hI in
/-- What touches only the container registry and the monitors. -/
theorem registers_calm {p : Calls α} (h : p.Only fun op => op.registers = true) :
    Relies I safe p := by
  refine h.follows (fun _ op hop => hcalm op ?_) fun _ _ => trivial
  cases op with
  | sql q =>
    cases q with
    | registryRegister | registryCleanup => rfl
    | _ => cases hop
  | spawnContainerMonitor => rfl
  | _ => cases hop

/-- **On an idle row everything that arrives is calm**, apart from a resume request that is not
refused and from the write of a stop request. -/
theorem Arrival.calm (a : Arrival)
    (hresume : a = .resume → ∀ db, I db → db.row.all (fun r => !r.status.resumable) = true)
    (hstop : a = .stop → safe (.sql (.completeInstance { status := .cancelled }))) :
    Relies I safe (a.program cfg) := by
  cases a with
  | start => exact handleStartInstance_calm hI hcalm
  | stop => exact handleStopInstance_calm hcalm (hstop rfl)
  | resume => exact handleResumeInstance_calm hI hcalm (hresume rfl)
  | signal signalType payload => exact handleSendSignal_calm hI hcalm signalType payload
  | customSignal checkpointId payload =>
    exact handleSendCustomSignal_calm hI hcalm checkpointId payload
  | wake => exact processPendingWakes_calm hI hcalm
  | heartbeat => exact checkStaleInstances_calm hI hcalm
  | drain polls => exact drain_calm hI hcalm polls
  | recovery => exact recoverOrphanedContainers_calm hI hcalm

end Programs

/-! ### Whole runs -/

/-- The call is no launch, and if it is a statement, a safe one. -/
def Op.within (safe : Sql → Prop) (op : Op) : Prop :=
  op ≠ .launchDetached ∧ ∀ q, op = .sql q → safe q

theorem Op.within_of_calm {safe : Sql → Prop} (hcalm : ∀ q : Sql, q.calm = true → safe q) (op : Op)
    (h : op.calm = true) : op.within safe := by
  refine ⟨?_, ?_⟩
  · rintro rfl
    cases h
  · rintro q rfl
    exact hcalm q h

theorem Move.launches_of_within {cfg : Settings} {m : Move cfg} {safe : Sql → Prop}
    (h : ∀ tag op, m.caller = some (tag, op) → op.within safe) : m.launches = false := by
  rw [Move.launches, Option.any_eq_false]
  intro call hcaller
  simpa using (h call.1 call.2 hcaller).1

section Runs

variable {cfg : Settings} {c c' : Config cfg} {ms : List (Move cfg)} {I : Db → Prop}
  {safe : Sql → Prop}

/-- **What is idle stays so until it is resumed.** A property of the rows that implies idleness and
is kept by the safe statements, the calm ones among them, is kept by tasks that rely on it and by
all that arrives apart from a resume request that is not refused, and no run is launched. -/
theorem idle_stable (hidle : ∀ db, I db → db.row.any Row.idle = true)
    (hcalm : ∀ q : Sql, q.calm = true → safe q)
    (hkeep : ∀ (q : Sql) now db, safe q → I db → I (q.exec now db).2)
    (h : (environment cfg).Path c ms c') (hI : I c.world.db)
    (hts : ∀ t ∈ c.tasks, Relies I (Op.within safe) t.prog)
    (hresume : ∀ m ∈ ms, m.brings .resume = true →
      ∀ db, I db → db.row.all (fun r => !r.status.resumable) = true)
    (hstop : ∀ m ∈ ms, m.brings .stop = true →
      safe (.completeInstance { status := .cancelled })) :
    ∀ m ∈ ms, I m.before.world.db ∧ I m.after.world.db ∧
      ∀ tag op, m.caller = some (tag, op) → op.within safe := by
  have hwithin := Op.within_of_calm hcalm
  refine h.stable (P := rowProtocol I (Op.within safe)) (I := fun w : World => I w.db) ?_ ?_ hI hts
  · intro m hm i choice tag op r tag' w started _ _ hop hw hexec
    refine ⟨answeredIn_of_exec hw hexec, ?_, fun t ht => ?_⟩
    · by_cases hsql : ∃ q, op = .sql q
      · obtain ⟨q, rfl⟩ := hsql
        obtain ⟨-, -, rfl, -⟩ := exec_sql cfg choice hexec
        exact hkeep q _ _ (hop.2 q rfl) hw
      · rw [exec_db (fun q hq => hsql ⟨q, hq⟩) hexec]
        exact hw
    · obtain ⟨handle, -, rfl⟩ := exec_started hop.1 hexec t ht
      exact containerMonitor_calm hidle hwithin handle.handleId
  · intro m hm o w ts hinput hw hout
    refine ⟨by rw [outside_db hout]; exact hw, fun t ht => ?_⟩
    cases o with
    | arrive proc a =>
      cases hout
      rcases List.mem_append.mp ht with ht | ht
      · exact Or.inl ht
      · obtain rfl := List.mem_singleton.mp ht
        have hbrings : Move.brings m a = true := by
          rw [Move.brings, hinput]
          exact decide_eq_true rfl
        refine Or.inr (a.calm hidle hwithin (fun ha => hresume m hm (ha ▸ hbrings)) fun ha => ?_)
        refine ⟨by decide, ?_⟩
        rintro q hq
        rw [← Op.sql.inj hq]
        exact hstop m hm (ha ▸ hbrings)
    | tick d =>
      cases hout
      exact Or.inl ht
    | halt proc =>
      cases hout
      exact Or.inl (List.mem_of_mem_filter ht)

end Runs

end Runtara.Environment
