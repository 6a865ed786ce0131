/-
  At most one live run.

  A run is launched by a request that has passed a check: a start request has inserted the row, a
  resume request has read a row that can be resumed, a poll of the wake scheduler has claimed the
  wake time. The checks of the last two do not exclude each other, and neither asks whether a run is
  still alive. Counting the requests between check and launch together with the live runs
  (`occupants`) says what they would have to ask for: as long as every check is passed in a
  configuration without occupants there is at most one (`one_live_run`). Two resume requests that
  read the row before either writes it are let in both (`two_resumes_two_runs`).
-/
import Runtara.Environment.Equiv.Step

namespace Runtara.Environment

open List

open Tasks (Prog Protocol)
open Tasks.System (calls exists_path)

/-- The task has passed the check of its request, and its launch is still to come. -/
def launchesNext (t : Task) : Bool := t.tag.launching && !t.prog.isDone

/-- The task is a run that has not ended. -/
def isLive (w : World) (t : Task) : Bool :=
  match t.tag.kind with
  | .run l => !w.finished l
  | _ => false

variable {cfg : Settings}

def liveRuns (c : Config cfg) : ℕ := c.tasks.countP (isLive c.world)

/-- The number of live runs, and of requests that are about to launch one. -/
def occupants (c : Config cfg) : ℕ := c.tasks.countP launchesNext + liveRuns c

/-- The move passes the check of a resume request or of the wake scheduler. -/
def Move.passesCheck (m : Move cfg) : Bool :=
  (m.statement = some .dbGetInstance ∧
    m.before.world.db.row.any fun r => r.status.resumable) ∨ m.claims

/-! ### Launches keep to the checks -/

/-- Whether a task may launch after a call, if it may before. -/
def mayLaunch (s : Bool) : (op : Op) → op.Ret → Bool
  | .sql .registerInstance, created => created
  | .sql .dbGetInstance, r => r.any fun r => r.status.resumable
  | .sql .claimSleepingInstance, claimed => claimed || s
  | .launchDetached, _ => false
  | _, _ => s

/-- A run is launched only after a check, and once. -/
def launchProtocol : Protocol Op Op.Ret Bool where
  allowed s op := op = .launchDetached → s = true
  next s op r s' := s' = mayLaunch s op r

theorem exec_launching {tag tag' : Tag} {op : Op} {choice : Choice} {r : op.Ret} {w w' : World}
    {started : List Task} (h : exec cfg tag op choice w = some (r, tag', w', started)) :
    tag'.launching = mayLaunch tag.launching op r := by
  cases executes_of_exec h with
  | sql q =>
    cases q with
    | claimSleepingInstance =>
      dsimp only [Tag.afterSql, mayLaunch]
      split
      · rename_i hclaimed
        rw [hclaimed]
        rfl
      · rename_i hclaimed
        rw [Bool.not_eq_true] at hclaimed
        rw [hclaimed]
        rfl
    | updateInstanceStatus status started =>
      cases status <;> rfl
    | _ => rfl
  | _ => rfl

theorem follows_of_no_launch {p : Calls Unit} {s : Bool}
    (h : p.Only fun op => op ≠ .launchDetached) :
    p.Follows launchProtocol (fun _ _ => True) s :=
  h.follows (fun _ _ hop hlaunch => absurd hlaunch hop) fun _ _ => trivial

theorem Routine.follows {p : Calls Unit} {s : Bool} (h : Routine p) :
    p.Follows launchProtocol (fun _ _ => True) s := by
  refine follows_of_no_launch (h.mono ?_)
  rintro _ hop rfl
  cases hop

section Follows

variable {s : Bool}

theorem follows_ask_launch {op : Op} {f : op.Ret → Calls Unit}
    (hop : op = .launchDetached → s = true)
    (h : ∀ r, (f r).Follows launchProtocol (fun _ _ => True) (mayLaunch s op r)) :
    (ask op >>= f).Follows launchProtocol (fun _ _ => True) s := by
  refine ⟨hop, ?_⟩
  rintro r _ rfl
  exact h r

theorem handleStartInstance_follows :
    handleStartInstance.Follows launchProtocol (fun _ _ => True) false := by
  refine follows_ask_launch nofun fun found => ?_
  split
  · trivial
  refine follows_ask_launch nofun fun inst => ?_
  split
  · trivial
  refine follows_ask_launch nofun fun found => ?_
  split
  · trivial
  refine follows_ask_launch nofun fun created => ?_
  cases created with
  | false => exact Routine.follows ⟨rfl, fun _ => trivial⟩
  | true =>
    refine follows_ask_launch nofun fun found => ?_
    split
    · trivial
    · -- the row has been inserted by this request
      refine follows_ask_launch (fun _ => rfl) fun handle => ?_
      split
      · exact follows_of_no_launch ⟨nofun, fun _ => ⟨nofun, fun _ => only_ask nofun⟩⟩
      · exact Routine.follows ⟨rfl, fun _ => trivial⟩

theorem restoreCheckpoint_follows (checkpointId : Option String) :
    (restoreCheckpoint checkpointId).Follows launchProtocol (fun s _ => s = true) true := by
  cases checkpointId with
  | none => exact rfl
  | some id =>
    refine ⟨nofun, ?_⟩
    rintro _ _ rfl
    rfl

theorem relaunch_follows (checkpointId : Option String) :
    (relaunch checkpointId).Follows launchProtocol (fun _ _ => True) true := by
  refine follows_ask_launch (fun h => by cases h) fun found => ?_
  split
  · trivial
  · refine follows_ask_launch nofun fun _ => follows_ask_launch nofun fun _ => ?_
    refine ((restoreCheckpoint_follows checkpointId).mono fun s _ hs => ?_).bind
    obtain rfl := hs
    refine follows_ask_launch nofun fun _ => follows_ask_launch (fun _ => rfl) fun handle => ?_
    cases handle with
    | some handle => exact follows_of_no_launch ⟨nofun, fun _ => only_ask nofun⟩
    | none => trivial

theorem handleResumeInstance_follows :
    handleResumeInstance.Follows launchProtocol (fun _ _ => True) false := by
  refine follows_ask_launch (by simp) fun inst => ?_
  split
  · trivial
  · rename_i r
    show Prog.Follows _ _ r.status.resumable _
    cases hresumable : r.status.resumable with
    | false => trivial
    | true =>
      rw [if_neg (by decide)]
      split
      · exact relaunch_follows _
      · exact follows_ask_launch (by simp) fun latest => relaunch_follows latest

theorem processPendingWakes_follows :
    processPendingWakes.Follows launchProtocol (fun _ _ => True) false := by
  refine follows_ask_launch nofun fun draining => ?_
  split
  · trivial
  refine follows_ask_launch nofun fun due => ?_
  split
  · trivial
  refine follows_ask_launch nofun fun inBatch => ?_
  split
  · trivial
  refine follows_ask_launch nofun fun found => ?_
  split
  · trivial
  refine follows_ask_launch nofun fun claimed => ?_
  cases claimed with
  | false => trivial
  | true =>
    refine follows_ask_launch (fun _ => rfl) fun handle => ?_
    split
    · exact follows_of_no_launch ⟨nofun, fun _ => only_ask nofun⟩
    · exact Routine.follows (only_sql rfl)

theorem Arrival.follows (a : Arrival) :
    (a.program cfg).Follows launchProtocol (fun _ _ => True) false := by
  cases a with
  | start => exact handleStartInstance_follows
  | resume => exact handleResumeInstance_follows
  | wake => exact processPendingWakes_follows
  | _ => exact Routine.follows (Arrival.routine (by simp))

end Follows

/-! ### Occupants -/

/-- Tasks keep to the checks, and there is at most one occupant; there is none without a row. -/
structure Orderly (c : Config cfg) : Prop where
  follows : ∀ t ∈ c.tasks, t.prog.Follows launchProtocol (fun _ _ => True) t.tag.launching
  absent : c.world.db.row = none → occupants c = 0
  one : occupants c ≤ 1

section Step

variable {m : Move cfg} {i : ℕ} {tag tag' : Tag} {op : Op} {choice : Choice} {r : op.Ret}
  {w w' : World} {next : op.Ret → Calls Unit} {started : List Task}

/-- A task that becomes one that may launch has passed a check, or has inserted the row. -/
theorem check_of_launching (hcaller : m.caller = some (tag, op))
    (hexec : exec cfg tag op choice m.before.world = some (r, tag', w, started))
    (hold : tag.launching = false) (hnew : tag'.launching = true) :
    m.passesCheck = true ∨ m.before.world.db.row = none ∧ w.db.row.isSome = true := by
  rw [exec_launching hexec, hold] at hnew
  cases op with
  | sql q =>
    have hstatement : m.statement = some q := Move.executes_iff.mpr ⟨tag, hcaller⟩
    obtain ⟨rfl, -, rfl, -⟩ := exec_sql cfg choice hexec
    cases q with
    | registerInstance =>
      right
      cases hr : m.before.world.db.row with
      | none => simp [Sql.exec, hr]
      | some r => simp [mayLaunch, Sql.exec, hr] at hnew
    | dbGetInstance => exact Or.inl (decide_eq_true (Or.inl ⟨hstatement, hnew⟩))
    | claimSleepingInstance =>
      refine Or.inl (decide_eq_true (Or.inr (decide_eq_true ⟨hstatement, ?_⟩)))
      cases hr : m.before.world.db.row with
      | none => simp [mayLaunch, Sql.exec, hr] at hnew
      | some r =>
        rw [Option.any_some]
        by_contra hclaimable
        simp [mayLaunch, Sql.exec, hr, hclaimable] at hnew
    | _ => cases hnew
  | _ => cases hnew

theorem row_isSome_of_passesCheck (h : m.passesCheck = true) :
    m.before.world.db.row.isSome = true := by
  rcases of_decide_eq_true h with ⟨-, hrow⟩ | hclaims
  · obtain ⟨r, hr, -⟩ := (Option.any_eq_true _ _).mp hrow
    rw [hr]
    rfl
  · obtain ⟨r, hr, -⟩ := (Option.any_eq_true _ _).mp (of_decide_eq_true hclaims).2
    rw [hr]
    rfl

/-- A call takes nothing back from the runs that have ended. -/
theorem exec_finished {l : ℕ}
    (h : exec cfg tag op choice w = some (r, tag', w', started)) (hl : w.finished l = true) :
    w'.finished l = true := by
  cases executes_of_exec h with
  | finished l' hkind =>
    show Function.update w.finished l' true l = true
    by_cases hll : l = l'
    · rw [hll, Function.update_self]
    · rw [Function.update_of_ne hll]
      exact hl
  | _ => exact hl

theorem isLive_of_exec (h : exec cfg tag op choice w = some (r, tag', w', started))
    (t : Task) (ht : isLive w' t = true) : isLive w t = true := by
  unfold isLive at ht ⊢
  split at ht
  · rename_i l _
    rw [Bool.not_eq_true'] at ht ⊢
    by_contra hfinished
    rw [exec_finished h (Bool.not_eq_false _ ▸ hfinished)] at ht
    cases ht
  · cases ht

/-- What is started is about to launch nothing; a live run is started by a task that could launch,
and that no longer can. -/
theorem started_occupants (hlaunch : op = .launchDetached → tag.launching = true)
    (h : exec cfg tag op choice w = some (r, tag', w', started)) :
    started.countP launchesNext = 0 ∧ (started.countP (isLive w') = 0 ∨
      started.countP (isLive w') ≤ 1 ∧ tag.launching = true ∧ tag'.launching = false) := by
  cases executes_of_exec h with
  | launched artifact =>
    refine ⟨rfl, Or.inr ⟨?_, hlaunch rfl, rfl⟩⟩
    exact countP_le_length
  | _ => exact ⟨rfl, Or.inl rfl⟩

/-- After a call there are no more occupants than before, or the caller has passed a check and is
the only one. -/
theorem occupants_call (hfollows : op = .launchDetached → tag.launching = true)
    (hcaller : m.caller = some (tag, op))
    (htask : m.before.tasks[i]? = some ⟨tag, .call op next⟩)
    (hexec : exec cfg tag op choice m.before.world = some (r, tag', w, started))
    (hafter : m.after = ⟨w, m.before.tasks.set i ⟨tag', next r⟩ ++ started⟩)
    (hcheck : m.passesCheck = true → occupants m.before = 0)
    (habsent : m.before.world.db.row = none → occupants m.before = 0) :
    occupants m.after ≤ occupants m.before ∨
      occupants m.after ≤ 1 ∧ m.after.world.db.row.isSome = true := by
  obtain ⟨hstarted, hlive⟩ := started_occupants hfollows hexec
  have hlaunching := Tasks.countP_set_add (p := launchesNext) (b := ⟨tag', next r⟩) htask
  -- the tasks that were there are the same runs, and no more of them are live
  have hruns : (m.before.tasks.set i ⟨tag', next r⟩).countP (isLive w) ≤
      m.before.tasks.countP (isLive m.before.world) := by
    have hset := Tasks.countP_set_add (p := isLive w) (b := ⟨tag', next r⟩) htask
    have hsame : isLive w ⟨tag', next r⟩ = isLive w ⟨tag, .call op next⟩ := by
      unfold isLive
      rw [exec_kind hexec]
    rw [hsame] at hset
    have hmono := countP_mono_left (l := m.before.tasks) (p := isLive w)
      (q := isLive m.before.world) fun t _ => isLive_of_exec hexec t
    omega
  have hcount : occupants m.after = (m.before.tasks.set i ⟨tag', next r⟩).countP launchesNext +
      ((m.before.tasks.set i ⟨tag', next r⟩).countP (isLive w) + started.countP (isLive w)) := by
    rw [occupants, liveRuns, hafter, countP_append, countP_append, hstarted, Nat.add_zero]
  have hold : launchesNext ⟨tag, .call op next⟩ = tag.launching := Bool.and_true _
  have hnew : launchesNext ⟨tag', next r⟩ = true → tag'.launching = true := by
    intro h
    exact (Bool.and_eq_true_iff.mp h).1
  have hbefore : occupants m.before = m.before.tasks.countP launchesNext +
      m.before.tasks.countP (isLive m.before.world) := rfl
  rw [hold] at hlaunching
  by_cases hnewly : tag.launching = false ∧ launchesNext ⟨tag', next r⟩ = true
  · -- the caller is a new occupant, and it starts nothing
    right
    obtain ⟨hwas, his⟩ := hnewly
    rw [hwas, his] at hlaunching
    simp only [Bool.false_eq_true, ↓reduceIte] at hlaunching
    have hnone : started.countP (isLive w) = 0 := by
      refine hlive.resolve_right fun h => ?_
      rw [hwas] at h
      cases h.2.1
    rcases check_of_launching hcaller hexec hwas (hnew his) with hpass | ⟨hrow, hrow'⟩
    · have hzero := hcheck hpass
      refine ⟨by omega, ?_⟩
      rw [hafter]
      exact exec_row hexec (row_isSome_of_passesCheck hpass)
    · have hzero := habsent hrow
      refine ⟨by omega, ?_⟩
      rw [hafter]
      exact hrow'
  · left
    cases hwas : tag.launching with
    | true =>
      rcases hlive with hnone | ⟨hone, -, his⟩
      · rw [hwas, if_pos rfl] at hlaunching
        split at hlaunching <;> omega
      · have hno : launchesNext ⟨tag', next r⟩ = false := by
          rw [launchesNext, his]
          rfl
        rw [hwas, hno] at hlaunching
        simp only [↓reduceIte, Bool.false_eq_true] at hlaunching
        omega
    | false =>
      have hno : launchesNext ⟨tag', next r⟩ = false :=
        Bool.eq_false_iff.mpr fun h => hnewly ⟨hwas, h⟩
      have hnone : started.countP (isLive w) = 0 := by
        refine hlive.resolve_right fun h => ?_
        rw [hwas] at h
        cases h.2.1
      rw [hwas, hno] at hlaunching
      omega

theorem Orderly.call (hc : Orderly m.before) (hcaller : m.caller = some (tag, op))
    (htask : m.before.tasks[i]? = some ⟨tag, .call op next⟩)
    (hexec : exec cfg tag op choice m.before.world = some (r, tag', w, started))
    (hafter : m.after = ⟨w, m.before.tasks.set i ⟨tag', next r⟩ ++ started⟩)
    (hcheck : m.passesCheck = true → occupants m.before = 0) : Orderly m.after := by
  have hfollows := hc.follows _ (mem_of_getElem? htask)
  have hoccupants := occupants_call hfollows.1 hcaller htask hexec hafter hcheck hc.absent
  have hone := hc.one
  refine ⟨?_, ?_, by omega⟩
  · rw [hafter]
    exact Tasks.System.forall_mem_set_append hc.follows
      (hfollows.2 r _ (exec_launching hexec)) fun t ht => (started_routine hexec t ht).follows
  · intro hrow
    have hbefore : m.before.world.db.row = none := by
      rw [← Option.not_isSome_iff_eq_none] at hrow ⊢
      rw [hafter] at hrow
      exact fun hsome => hrow (exec_row hexec hsome)
    rw [hrow] at hoccupants
    have hzero := hc.absent hbefore
    simp only [Option.isSome_none, Bool.false_eq_true, and_false, or_false] at hoccupants
    omega

end Step

theorem Orderly.move {m : Move cfg} (hm : m.Valid)
    (hcheck : m.passesCheck = true → occupants m.before = 0) (hc : Orderly m.before) :
    Orderly m.after := by
  rcases hm.cases with ⟨i, choice, tag, op, next, r, tag', w, started, hcaller, htask, hexec,
      -, hafter⟩ | ⟨o, w, ts, -, -, hout, hafter⟩
  · exact hc.call hcaller htask hexec hafter hcheck
  · obtain ⟨hfollows, habsent, hone⟩ := hc
    rw [hafter]
    cases o with
    | arrive proc a =>
      cases hout
      have hsame : occupants (⟨m.before.world, m.before.tasks ++
          [⟨{ proc := proc, kind := a.kind }, a.program cfg⟩]⟩ : Config cfg) =
            occupants m.before := by
        have hidle : isLive m.before.world ⟨{ proc := proc, kind := a.kind }, a.program cfg⟩ =
            false := by
          cases a <;> rfl
        rw [occupants, liveRuns, countP_append, countP_append, countP_singleton,
          countP_singleton, hidle]
        rfl
      exact ⟨Tasks.forall_mem_concat hfollows a.follows, fun hrow => hsame ▸ habsent hrow,
        hsame ▸ hone⟩
    | tick d =>
      cases hout
      exact ⟨hfollows, habsent, hone⟩
    | halt proc =>
      cases hout
      have hle : occupants (⟨{ m.before.world with
          processes := Function.update m.before.world.processes proc ⟨false, none⟩ },
          m.before.tasks.filter fun t => t.tag.proc ≠ proc⟩ : Config cfg) ≤ occupants m.before :=
        Nat.add_le_add (filter_sublist.countP_le) (filter_sublist.countP_le)
      exact ⟨fun t ht => hfollows t (mem_of_mem_filter ht),
        fun hrow => Nat.le_zero.mp (habsent hrow ▸ hle), hle.trans hone⟩

theorem orderly_initial : Orderly (initial cfg) := ⟨nofun, fun _ => rfl, Nat.zero_le _⟩

/-- **At most one live run.** In every run in which resume requests and the wake scheduler pass
their checks only in configurations without an occupant, a run is launched only when none is live,
and at no time are two live. -/
theorem one_live_run {c' : Config cfg} {ms : List (Move cfg)}
    (h : (environment cfg).Path (initial cfg) ms c')
    (hcheck : ∀ m ∈ ms, m.passesCheck = true → occupants m.before = 0) :
    ∀ m ∈ ms, (m.launches = true → liveRuns m.before = 0) ∧ liveRuns m.after ≤ 1 := by
  intro m hm
  obtain ⟨hbefore, hafter⟩ := (h.invariant hcheck orderly_initial
    fun m hm hcheck => Orderly.move hm hcheck).2 m hm
  have hlive : liveRuns m.after ≤ occupants m.after := Nat.le_add_left _ _
  refine ⟨fun hlaunch => ?_, hlive.trans hafter.one⟩
  -- the caller is the one occupant
  obtain ⟨⟨tag, op⟩, hcaller, hop⟩ := (Option.any_eq_true _ _).mp hlaunch
  obtain rfl : op = .launchDetached := of_decide_eq_true hop
  obtain ⟨next, ht⟩ := Tasks.System.Move.exists_mem_of_caller hcaller
  have hlaunching : tag.launching = true := (hbefore.follows _ ht).1 rfl
  have hpos : 0 < m.before.tasks.countP launchesNext :=
    countP_pos_iff.mpr ⟨_, ht, by rw [launchesNext, hlaunching]; rfl⟩
  have hone := hbefore.one
  rw [occupants] at hone
  omega

/-- From outside come nothing but start and resume requests. -/
def Move.startsOrResumes (m : Move cfg) : Bool :=
  match m.input with
  | .outside o => o.brings .start || o.brings .resume
  | .task _ _ => true

/-- **Two resume requests launch two runs.** The instance is started and pauses; both requests read
the suspended row before either of them writes it. -/
theorem two_resumes_two_runs :
    ∃ (ms : List (Move (.default "i"))) (c' : Config (.default "i")),
      (environment (.default "i")).Path (initial _) ms c' ∧
      (∀ m ∈ ms, m.startsOrResumes = true) ∧ ms.countP (fun m => m.brings .start) = 1 ∧
      liveRuns c' = 2 := by
    -- both requests read the row, and launch
  exact exists_path _ [pauseInputs, calls 4 2 .yes,
    [.outside (.arrive 0 .resume), .outside (.arrive 1 .resume), .task 3 .yes, .task 4 .yes],
    calls 5 3 .yes, [.task 3 (.launch (.invoke pausingGuest))], calls 5 4 .yes,
    [.task 4 (.launch (.invoke pausingGuest))]] (by decide +kernel)

/-- A pause, and one resume request after the run has ended. -/
theorem one_live_run_resumed :
    ∃ (ms : List (Move (.default "i"))) (c' : Config (.default "i")),
      (environment (.default "i")).Path (initial _) ms c' ∧
      (∃ m ∈ ms, m.passesCheck = true) ∧ liveRuns c' = 1 ∧
      ∀ m ∈ ms, (m.launches = true → liveRuns m.before = 0) ∧ liveRuns m.after ≤ 1 := by
  obtain ⟨ms, c', hpath, hpasses, hlive, hcheck⟩ :
      ∃ ms c', (environment (.default "i")).Path (initial _) ms c' ∧
        (∃ m ∈ ms, Move.passesCheck m = true) ∧ liveRuns c' = 1 ∧
        ∀ m ∈ ms, Move.passesCheck m = true → occupants m.before = 0 :=
    exists_path _ [pauseInputs, [.outside (.arrive 0 .resume)], calls 6 3 .yes,
      [.task 3 (.launch (.invoke pausingGuest))]] (by decide +kernel)
  exact ⟨ms, c', hpath, hpasses, hlive, one_live_run hpath hcheck⟩

end Runtara.Environment
