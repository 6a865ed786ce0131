/-
  What a stop leaves on the row, and the running rows that still have it.

  A stop stamps `finished_at` and a reason, and a status write that is given a start time clears
  both. Every write of `running` but one is given a start time: the task that the embedded runner
  spawns for an in-band guest is not. So a running row is tidy exactly as long as that task finds a
  row with nothing on it (`tidy_iff`); after a launch by the wake scheduler it does not
  (`woken_row_keeps_leftovers`). The other half needs no condition: what ends a run stamps
  `finished_at` with a time that is not before the start (`path_inOrder`).
-/
import Runtara.Environment.Equiv.Step

namespace Runtara.Environment

open Tasks (Prog)
open Tasks.System (calls exists_path)

variable {cfg : Settings}

/-- Nothing on the row tells of a stop. -/
def Row.unstopped (r : Row) : Bool := r.finishedAt = none ∧ r.terminationReason = none

/-- The row of an ended run has an end, and not before the start. -/
def Row.settled (r : Row) : Bool :=
  !r.status.terminal ||
    r.finishedAt.any fun finished => r.startedAt.all fun started => started ≤ finished

/-- A running row has nothing of an earlier stop. -/
def Row.cleared (r : Row) : Bool := r.status ≠ .running ∨ r.unstopped

/-- Nothing of an earlier stop on a running row, and an end on an ended one. -/
def Row.tidy (r : Row) : Bool := r.cleared && r.settled

/-- The start is not in the future. -/
def Row.startedBy (now : Time) (r : Row) : Bool := r.startedAt.all fun started => started ≤ now

/-! ### The statuses that tasks write -/

/-- The statements of the program write no other statuses. -/
abbrev Lifecycle {α : Type} (p : Calls α) : Prop :=
  p.Only fun op => ∀ q, op = .sql q → q.lifecycle = true

variable {q : Sql}

theorem lifecycle_sql (h : q.lifecycle = true) : Lifecycle (sql q) := by
  refine ⟨?_, fun _ => trivial⟩
  rintro _ ⟨⟩
  exact h

theorem lifecycle_ask {op : Op} (h : op.statement = none) : Lifecycle (ask op) := by
  refine ⟨?_, fun _ => trivial⟩
  rintro q rfl
  cases h

theorem Routine.lifecycle {α : Type} {p : Calls α} (h : Routine p) : Lifecycle p := by
  refine h.mono ?_
  rintro _ hop q rfl
  cases q with
  | registryRegister => cases hop
  | _ => exact hop

theorem restoreCheckpoint_lifecycle (checkpointId : Option String) :
    Lifecycle (restoreCheckpoint checkpointId) := by
  cases checkpointId with
  | none => trivial
  | some id => exact lifecycle_sql rfl

theorem Arrival.lifecycle (a : Arrival) : Lifecycle (a.program cfg) := by
  cases a with
  | start | resume | wake =>
    dsimp only [Arrival.program, handleStartInstance, handleResumeInstance, relaunch,
      processPendingWakes, wakeInstance]
    -- along the calls and the branches
    repeat' first
      | trivial
      | exact lifecycle_sql rfl
      | exact lifecycle_ask rfl
      | exact restoreCheckpoint_lifecycle _
      | refine Prog.Only.bind ?_ fun _ => ?_
      | split
  | _ => exact Routine.lifecycle (Arrival.routine (by simp))

/-! ### One statement -/

section Statement

variable {now : Time} {db : Db} {r : Row}

/-- What a statement leaves of the row keeps what the four writers of the status keep. -/
theorem exec_row_all {p : Row → Bool} (hregister : p (.registered now) = true)
    (hstatus : ∀ status started, q = .updateInstanceStatus status started →
      db.row.all (fun r => p (r.updateStatus now status started)) = true)
    (hcomplete : ∀ params, q = .completeInstance params →
      db.row.all (fun r => p (r.complete now params)) = true)
    (hrecover : ∀ attempt marker, q = .markForRecovery attempt marker →
      db.row.all (fun r => p (r.markForRecovery now attempt marker)) = true)
    (hother : ∀ r r' : Row, r'.status = r.status → r'.startedAt = r.startedAt →
      r'.finishedAt = r.finishedAt → r'.terminationReason = r.terminationReason → p r' = p r)
    (h : db.row.all p = true) : (q.exec now db).2.row.all p = true := by
  cases hrow : db.row with
  | none =>
    cases q with
    | registerInstance => simpa [Sql.exec, hrow] using hregister
    | _ => simp [Sql.exec, Db.updateRow, hrow]
  | some r =>
    rw [hrow] at h
    have hr : p r = true := h
    cases q with
    | updateInstanceStatus status started =>
      have := hstatus status started rfl
      simpa [Sql.exec, Db.updateRow, hrow] using this
    | completeInstance params =>
      have := hcomplete params rfl
      rw [hrow] at this
      rw [Sql.exec, hrow]
      dsimp only
      split
      · exact this
      · rw [hrow]
        exact hr
    | markForRecovery attempt marker =>
      have := hrecover attempt marker rfl
      simpa [Sql.exec, Db.updateRow, hrow] using this
    | updateInstanceCheckpoint id =>
      have := hother r { r with checkpointId := some id } rfl rfl rfl rfl
      simpa [Sql.exec, Db.updateRow, hrow, this] using hr
    | setInstanceSleep wakeAt =>
      have := hother r { r with sleepUntil := some (wakeAt.toTime now) } rfl rfl rfl rfl
      simpa [Sql.exec, Db.updateRow, hrow, this] using hr
    | clearInstanceSleep =>
      have := hother r { r with sleepUntil := none } rfl rfl rfl rfl
      simpa [Sql.exec, Db.updateRow, hrow, this] using hr
    | claimSleepingInstance =>
      rw [Sql.exec, hrow]
      dsimp only
      split
      · have := hother r { r with sleepUntil := none } rfl rfl rfl rfl
        simpa [this] using hr
      · rw [hrow]
        exact hr
    | _ => simpa [Sql.exec, hrow] using hr

/-- No statement writes a start in the future. -/
theorem exec_startedBy (q : Sql) (h : db.row.all (Row.startedBy now) = true) :
    (q.exec now db).2.row.all (Row.startedBy now) = true := by
  refine exec_row_all rfl ?_ ?_ ?_ ?_ h
  · intro status started _
    cases hrow : db.row with
    | none => rfl
    | some r =>
      rw [hrow] at h
      cases started with
      | false => exact h
      | true => simp [Row.updateStatus, Row.startedBy]
  · intro _ _
    exact h
  · intro _ _ _
    exact h
  · intro r r' _ hstarted _ _
    simp [Row.startedBy, hstarted]

/-- The row of an ended run keeps its end, unless the run is started again. -/
theorem exec_settled (hq : q.lifecycle = true) (hstarted : db.row.all (Row.startedBy now) = true)
    (h : db.row.all Row.settled = true) : (q.exec now db).2.row.all Row.settled = true := by
  refine exec_row_all rfl ?_ ?_ ?_ ?_ h
  · rintro status started rfl
    cases hrow : db.row with
    | none => rfl
    | some r =>
      have hstatus : status.terminal = false := by simpa [Sql.lifecycle] using hq
      cases started <;> simp [Row.updateStatus, Row.settled, hstatus]
  · rintro params rfl
    have hstopped : params.status.stopped = true := hq
    cases hrow : db.row with
    | none => rfl
    | some r =>
      rw [hrow] at hstarted
      have hstart : r.startedAt.all (fun started => decide (started ≤ now)) = true := hstarted
      simp [Row.complete, Row.settled, hstopped, hstart]
  · intro _ _ _
    cases db.row <;> rfl
  · intro r r' hstatus hstarted hfinished _
    simp [Row.settled, hstatus, hstarted, hfinished]

/-- Only a write of `running` without a start time puts what a stop has left on a running row. -/
theorem exec_cleared_iff (hq : q.lifecycle = true) (h : db.row.all Row.cleared = true) :
    (q.exec now db).2.row.all Row.cleared = true ↔
      (q = .updateInstanceStatus .running false → db.row.all Row.unstopped = true) := by
  constructor
  · rintro hafter rfl
    cases hrow : db.row with
    | none => rfl
    | some r =>
      simpa [Sql.exec, Db.updateRow, hrow, Row.updateStatus, Row.cleared, Row.unstopped] using
        hafter
  · intro hq'
    refine exec_row_all rfl ?_ ?_ ?_ ?_ h
    · rintro status started rfl
      cases hrow : db.row with
      | none => rfl
      | some r =>
        cases started with
        | true => simp [Row.updateStatus, Row.cleared, Row.unstopped]
        | false =>
          by_cases hrunning : status = .running
          · rw [hrunning, hrow] at hq'
            simpa [Row.updateStatus, Row.cleared, Row.unstopped] using Or.inr (hq' rfl)
          · simp [Row.updateStatus, Row.cleared, hrunning]
    · rintro params rfl
      have hrunning : params.status ≠ .running := by
        intro hrunning
        rw [Sql.lifecycle, hrunning] at hq
        cases hq
      cases db.row <;> simp [Row.complete, Row.cleared, hrunning]
    · intro _ _ _
      cases db.row <;> rfl
    · intro r r' hstatus _ hfinished hreason
      simp [Row.cleared, Row.unstopped, hstatus, hfinished, hreason]

end Statement

/-! ### Whole runs -/

/-- What holds at all times: tasks write only the statuses of the lifecycle, no start is in the
future, and an ended run has an end. -/
structure InOrder (c : Config cfg) : Prop where
  tasks : ∀ t ∈ c.tasks, Lifecycle t.prog
  started : c.world.db.row.all (Row.startedBy c.world.now) = true
  settled : c.world.db.row.all Row.settled = true

theorem initial_inOrder : InOrder (initial cfg) := ⟨nofun, rfl, rfl⟩

theorem exec_lifecycle {tag tag' : Tag} {op : Op} {choice : Choice} {w w' : World} {r : op.Ret}
    {started : List Task} (h : exec cfg tag op choice w = some (r, tag', w', started)) :
    w'.now = w.now ∧ ∀ t ∈ started, Lifecycle t.prog := by
  refine ⟨?_, fun t ht => (started_routine h t ht).lifecycle⟩
  cases executes_of_exec h <;> rfl

theorem outside_lifecycle {o : Outside} {w w' : World} {ts ts' : List Task}
    (h : outside cfg o w ts = some (w', ts')) (hts : ∀ t ∈ ts, Lifecycle t.prog) :
    w.now ≤ w'.now ∧ ∀ t ∈ ts', Lifecycle t.prog := by
  cases o with
  | arrive proc a =>
    cases h
    refine ⟨le_rfl, fun t ht => ?_⟩
    rcases List.mem_append.mp ht with ht | ht
    · exact hts t ht
    · obtain rfl := List.mem_singleton.mp ht
      exact a.lifecycle
  | tick d =>
    cases h
    exact ⟨Nat.le_add_right _ _, hts⟩
  | halt proc =>
    cases h
    exact ⟨le_rfl, fun t ht => hts t (List.mem_filter.mp ht).1⟩

theorem Row.startedBy_mono {now now' : Time} (h : now ≤ now') {row : Option Row}
    (hrow : row.all (Row.startedBy now) = true) : row.all (Row.startedBy now') = true := by
  cases row with
  | none => rfl
  | some r =>
    show r.startedAt.all _ = true
    have hstart : r.startedAt.all (fun started => decide (started ≤ now)) = true := hrow
    cases hs : r.startedAt with
    | none => rfl
    | some s =>
      rw [hs] at hstart
      exact decide_eq_true ((of_decide_eq_true hstart).trans h)

variable {m : Move cfg}

theorem Move.lifecycle_of_executes (hm : InOrder m.before) (hq : m.executes q) :
    q.lifecycle = true := by
  obtain ⟨tag, hcaller⟩ := Move.executes_iff.mp hq
  obtain ⟨next, ht⟩ := Tasks.System.Move.exists_mem_of_caller hcaller
  exact (hm.tasks _ ht).1 q rfl

theorem Move.inOrder (hm : m.Valid) (h : InOrder m.before) : InOrder m.after := by
  have hrows : m.after.world.db.row.all (Row.startedBy m.before.world.now) = true ∧
      m.after.world.db.row.all Row.settled = true := by
    rcases Move.db_cases hm with ⟨q, hq, hdb⟩ | ⟨-, hdb⟩
    · rw [hdb]
      exact ⟨exec_startedBy q h.started,
        exec_settled (Move.lifecycle_of_executes h hq) h.started h.settled⟩
    · rw [hdb]
      exact ⟨h.started, h.settled⟩
  rcases hm.cases with ⟨i, choice, tag, op, next, r, tag', w, started, -, htask, hexec,
      -, hafter⟩ | ⟨o, w, ts, -, -, hout, hafter⟩
  · rw [hafter] at hrows ⊢
    obtain ⟨hnow, hstarted⟩ := exec_lifecycle hexec
    have hprog := h.tasks _ (List.mem_of_getElem? htask)
    refine ⟨Tasks.System.forall_mem_set_append h.tasks (hprog.2 r) hstarted, ?_, hrows.2⟩
    rw [hnow]
    exact hrows.1
  · rw [hafter] at hrows ⊢
    obtain ⟨hnow, htasks⟩ := outside_lifecycle hout h.tasks
    exact ⟨htasks, Row.startedBy_mono hnow hrows.1, hrows.2⟩

/-- An ended run has an end, in every state of every run of the system. -/
theorem path_inOrder {c : Config cfg} {ms : List (Move cfg)}
    (h : (environment cfg).Path (initial cfg) ms c) :
    ∀ m ∈ ms, InOrder m.before ∧ InOrder m.after :=
  (h.always initial_inOrder fun _ hm hbefore => Move.inOrder hm hbefore).2

theorem Move.cleared_iff (hm : m.Valid) (h : InOrder m.before)
    (hbefore : m.before.world.db.row.all Row.cleared = true) :
    m.after.world.db.row.all Row.cleared = true ↔
      (m.executes (.updateInstanceStatus .running false) →
        m.before.world.db.row.all Row.unstopped = true) := by
  rcases Move.db_cases hm with ⟨q, hq, hdb⟩ | ⟨hnone, hdb⟩
  · rw [hdb, exec_cleared_iff (Move.lifecycle_of_executes h hq) hbefore]
    refine imp_congr_left ⟨?_, fun hq' => Move.executes_unique hq hq'⟩
    rintro rfl
    exact hq
  · rw [hdb]
    exact iff_of_true hbefore fun hq => absurd hq (hnone _)

/-- Along a run, running rows stay cleared exactly as long as the in-band guests' tasks find
cleared ones. -/
theorem path_cleared_iff {c c' : Config cfg} {ms : List (Move cfg)}
    (h : (environment cfg).Path c ms c') (hc : InOrder c)
    (hrow : c.world.db.row.all Row.cleared = true) :
    (∀ m ∈ ms, m.after.world.db.row.all Row.cleared = true) ↔
      ∀ m ∈ ms, m.executes (.updateInstanceStatus .running false) →
        m.before.world.db.row.all Row.unstopped = true := by
  induction h with
  | nil => simp
  | cons hstep _ ih =>
    have hfirst := Move.cleared_iff (m := ⟨_, _, _⟩) hstep hc hrow
    have hnext := Move.inOrder (m := ⟨_, _, _⟩) hstep hc
    rw [List.forall_mem_cons, List.forall_mem_cons, ← hfirst]
    exact and_congr_right fun hafter => ih hnext hafter

theorem Row.all_tidy_iff {row : Option Row} (h : row.all Row.settled = true) :
    row.all Row.tidy = true ↔ row.all Row.cleared = true := by
  cases row with
  | none => rfl
  | some r =>
    have hsettled : r.settled = true := h
    show (r.cleared && r.settled) = true ↔ r.cleared = true
    rw [hsettled, Bool.and_true]

/-- **Rows are tidy in every state of a run exactly when each task of an in-band guest that sets
its row to running, which it does without a start time, finds a row that tells of no stop.** -/
theorem tidy_iff {c : Config cfg} {ms : List (Move cfg)}
    (h : (environment cfg).Path (initial cfg) ms c) :
    (∀ m ∈ ms, m.after.world.db.row.all Row.tidy = true) ↔
      ∀ m ∈ ms, m.executes (.updateInstanceStatus .running false) →
        m.before.world.db.row.all Row.unstopped = true := by
  rw [← path_cleared_iff h initial_inOrder rfl]
  exact forall₂_congr fun m hm => Row.all_tidy_iff (path_inOrder h m hm).2.settled

/-- A start request whose guest sleeps. -/
theorem tidy_iff_sleep :
    ∃ ms c, ms.length = 16 ∧ (environment (.default "i")).Path (initial _) ms c ∧
      c.world.db.row.any (fun r => r.status = .suspended) = true ∧
      ((∀ m ∈ ms, m.after.world.db.row.all Row.tidy = true) ↔
        ∀ m ∈ ms, Move.executes m (.updateInstanceStatus .running false) →
          m.before.world.db.row.all Row.unstopped = true) := by
  obtain ⟨ms, c, hpath, hlength, hrow⟩ :
      ∃ ms c, (environment (.default "i")).Path (initial _) ms c ∧ ms.length = 16 ∧
        c.world.db.row.any (fun r => r.status = .suspended) = true :=
    exists_path _ [sleepInputs] (by decide +kernel)
  exact ⟨ms, c, hlength, hpath, hrow, tidy_iff hpath⟩

/-- **A row that the wake scheduler has brought back is running and still tells of its sleep.** -/
theorem woken_row_keeps_leftovers :
    ∃ ms c, (environment (.default "i")).Path (initial _) ms c ∧
      c.world.db.row.any (fun r => r.status = .running ∧ r.finishedAt = some 0 ∧
        r.terminationReason = some .sleeping) = true ∧
      c.world.db.row.all Row.tidy = false := by
  exact exists_path _ [sleepInputs, wakeInputs 3 sleepingGuest, calls 2 4 .yes] (by decide +kernel)

end Runtara.Environment
