/-
  Monitors and runs of earlier launches.

  All launches of an instance share one handle id, one row in the container registry and, within a
  process, one entry in the runner's task registry. A monitor therefore cannot tell its own run from
  a later one: it stops whichever run the process has, writes the status of the row and deletes the
  row of the registry (`old_monitor_hits_new_run`), and a run that ends removes the entry of
  whichever run is there.

  A monitor may wait while later runs start and end, and it may even act while one of them is
  running: then it has to leave by the exit branch and find the registry empty, which is what makes
  it stale, and no container may be registered before it has cleaned up (`Move.keepsApart`). Under
  this condition nothing of the above happens (`old_launches_spare_new_runs`).
-/
import Runtara.Environment.Equiv.Step

namespace Runtara.Environment

open Tasks (Prog Protocol)
open Tasks.System (calls exists_path)

variable {cfg : Settings}

/-! ### What a move does to a run -/

def isRunning (c : Config cfg) (j : ℕ) : Bool :=
  c.tasks.any fun t => t.tag.kind = .run j ∧ t.prog.isDone = false

def Move.stopsRun (m : Move cfg) (j : ℕ) : Bool :=
  m.caller.any fun call => call.2 = .stop ∧ (m.before.world.processes call.1.proc).task = some j

/-- The move writes a status, and the write takes effect. -/
def Move.writesStatus (m : Move cfg) : Bool :=
  match m.statement with
  | some (.completeInstance p) => m.before.world.db.row.any fun r => r.accepts p
  | some (.updateInstanceStatus _ _) => true
  | some (.markForRecovery _ _) => true
  | _ => false

/-- The move deletes the row that the container registry has for run `j`. -/
def Move.deletesContainer (m : Move cfg) (j : ℕ) : Bool :=
  m.statement = some .registryCleanup ∧ m.before.world.db.registry.any fun c => c.launch = j

/-- The move removes the entry that the task registry has for run `j`. -/
def Move.removesTask (m : Move cfg) (j : ℕ) : Bool :=
  m.caller.any fun call =>
    call.2 = .removeTask ∧ (m.before.world.processes call.1.proc).task = some j

/-- The move is made by a task of the given kind. -/
def Move.madeBy (m : Move cfg) (kind : Kind) : Bool := m.caller.any fun call => call.1.kind = kind

/-! ### Old monitors that keep apart -/

/-- The task is a monitor that has left its `select!`, and has not returned. -/
def acts (t : Task) : Bool :=
  match t.tag.kind, t.prog with
  | .monitor _, .call op _ => op ≠ .awaitExit
  | _, _ => false

/-- The next call deletes the row of the container registry. -/
def cleansUp : Calls Unit → Bool
  | .call op _ => op = .sql .registryCleanup
  | .done _ => false

/-- A run that was launched after launch `k` is running. -/
def newerRuns (c : Config cfg) (k : ℕ) : Bool :=
  c.tasks.any fun t => !t.prog.isDone && match t.tag.kind with
    | .run j => k < j
    | _ => false

/-- If the move launches a run, the process has no other, and every monitor waits in its `select!`,
has nothing left but its cleanup, or has returned. -/
def Move.launchesApart (m : Move cfg) : Bool :=
  m.after.world.launches ≤ m.before.world.launches ∨
    m.caller.all fun call => m.before.tasks.all fun t => t.prog.isDone || match t.tag.kind with
      | .run _ => t.tag.proc ≠ call.1.proc
      | .monitor _ => !acts t || cleansUp t.prog
      | _ => true

/-- If the move registers a container, no monitor is between its `select!` and its end. -/
def Move.registersApart (m : Move cfg) : Bool :=
  match m.statement with
  | some (.registryRegister _ _) => m.before.tasks.all fun t => !acts t
  | _ => true

/-- If a monitor leaves its `select!` while a run of a later launch is running, it is by the exit
branch, and the container registry is empty. -/
def Move.leavesApart (m : Move cfg) : Bool :=
  m.caller.all fun call => match call.1.kind, call.2 with
    | .monitor k, .awaitExit => !newerRuns m.before k ||
      (m.before.world.db.registry.isNone && match m.input with
        | .task _ .no => false
        | _ => true)
    | _, _ => true

def Move.keepsApart (m : Move cfg) : Bool :=
  m.launchesApart && m.registersApart && m.leavesApart

/-! ### Registered containers are of launches -/

/-- A handle that a task has got is of an earlier launch than the `n`-th. -/
def Op.gets : (op : Op) → op.Ret → ℕ → Prop
  | .launchDetached, some handle, n => handle.launch < n
  | _, _, _ => True

/-- After `n` launches a task registers only containers of these. -/
def registerProtocol : Protocol Op Op.Ret ℕ where
  allowed n op := ∀ id l, op = .sql (.registryRegister id l) → l < n
  next n op r n' := n ≤ n' ∧ op.gets r n'

abbrev Registers (n : ℕ) (p : Calls Unit) : Prop :=
  p.Follows registerProtocol (fun _ _ => True) n

section Registers

variable {n : ℕ} {p : Calls Unit}

theorem Registers.mono {n' : ℕ} (h : Registers n p) (hle : n ≤ n') : Registers n' p := by
  cases p with
  | done a => trivial
  | call op next =>
    refine ⟨fun id l hop => (h.1 id l hop).trans_le hle, fun r n'' hnext => ?_⟩
    exact h.2 r n'' ⟨hle.trans hnext.1, hnext.2⟩

theorem Routine.registers (h : Routine p) : Registers n p := by
  refine Prog.Only.follows h ?_ fun _ _ => trivial
  rintro _ _ hop id l rfl
  cases hop

theorem registers_bind {op : Op} {f : op.Ret → Calls Unit}
    (hop : ∀ id l, op ≠ .sql (.registryRegister id l))
    (h : ∀ r n', op.gets r n' → Registers n' (f r)) : Registers n (ask op >>= f) :=
  ⟨fun id l h => absurd h (hop id l), fun r n' hnext => h r n' hnext.2⟩

/-- The container that is registered is that of the launch. -/
theorem registers_handle {handle : Handle} {f : Unit → Calls Unit} (hn : handle.launch < n)
    (h : ∀ n', Registers n' (f ())) :
    Registers n (sql (.registryRegister handle.handleId handle.launch) >>= f) := by
  refine ⟨?_, fun _ n' _ => h n'⟩
  rintro id l ⟨⟩
  exact hn

/-- A launch gives a handle of its own, or none. -/
theorem registers_launch {f : Option Handle → Calls Unit}
    (hsome : ∀ n handle, handle.launch < n → Registers n (f (some handle)))
    (hnone : ∀ n, Registers n (f none)) : Registers n (ask .launchDetached >>= f) := by
  refine registers_bind (by simp) fun handle n hn => ?_
  cases handle with
  | some handle => exact hsome n handle hn
  | none => exact hnone n

theorem handleStartInstance_registers : Registers n handleStartInstance := by
  refine registers_bind (by simp) fun found _ _ => ?_
  split
  · trivial
  refine registers_bind (by simp) fun inst _ _ => ?_
  split
  · trivial
  refine registers_bind (by simp) fun found _ _ => ?_
  split
  · trivial
  refine registers_bind (by simp) fun created _ _ => ?_
  split
  · exact Routine.registers ⟨rfl, fun _ => trivial⟩
  refine registers_bind (by simp) fun found _ _ => ?_
  split
  · trivial
  exact registers_launch (fun n handle hn =>
    registers_handle hn fun n => Routine.registers ⟨rfl, fun _ => only_ask rfl⟩)
    fun n => Routine.registers ⟨rfl, fun _ => trivial⟩

theorem relaunch_registers (checkpointId : Option String) :
    Registers n (relaunch checkpointId) := by
  refine registers_bind (by simp) fun found _ _ => ?_
  split
  · trivial
  refine registers_bind (by simp) fun _ _ _ => registers_bind (by simp) fun _ n _ => ?_
  have hstarted (n : ℕ) (handle : Handle) (hn : handle.launch < n) : Registers n
      (sql (.registryRegister handle.handleId handle.launch) >>= fun _ =>
        ask .spawnContainerMonitor) :=
    registers_handle hn fun n => Routine.registers (only_ask rfl)
  cases checkpointId with
  | none => exact registers_bind (by simp) fun _ n _ => registers_launch hstarted fun _ => trivial
  | some id =>
    exact registers_bind (by simp) fun _ n _ =>
      registers_bind (by simp) fun _ n _ => registers_launch hstarted fun _ => trivial

theorem handleResumeInstance_registers : Registers n handleResumeInstance := by
  refine registers_bind (by simp) fun inst _ _ => ?_
  split
  · trivial
  split
  · trivial
  split
  · exact relaunch_registers _
  · exact registers_bind (by simp) fun latest _ _ => relaunch_registers latest

theorem processPendingWakes_registers : Registers n processPendingWakes := by
  refine registers_bind (by simp) fun draining _ _ => ?_
  split
  · trivial
  refine registers_bind (by simp) fun due _ _ => ?_
  split
  · trivial
  refine registers_bind (by simp) fun inBatch _ _ => ?_
  split
  · trivial
  refine registers_bind (by simp) fun found _ _ => ?_
  split
  · trivial
  refine registers_bind (by simp) fun claimed _ _ => ?_
  split
  · trivial
  exact registers_launch (fun n handle hn =>
    registers_handle hn fun n => Routine.registers (only_ask rfl))
    fun n => Routine.registers (only_sql rfl)

theorem Arrival.registers (a : Arrival) : Registers n (a.program cfg) := by
  cases a with
  | start => exact handleStartInstance_registers
  | resume => exact handleResumeInstance_registers
  | wake => exact processPendingWakes_registers
  | _ => exact Routine.registers (Arrival.routine (by simp))

end Registers

/-! ### Monitors that have left their `select!` -/

/-- A monitor that has left its `select!` does not come back to it, and makes routine calls of which
the cleanup is the last. -/
def closingProtocol : Protocol Op Op.Ret Bool where
  allowed cleaned op := cleaned = false ∧ op.routine = true ∧ op ≠ .awaitExit
  next _ op _ cleaned := cleaned = decide (op = .sql .registryCleanup)

abbrev Closing (p : Calls Unit) : Prop := p.Follows closingProtocol (fun _ _ => True) false

theorem closing_bind {α : Type} {post : Bool → α → Prop} {op : Op} {f : op.Ret → Calls α}
    (hop : op.routine = true) (hawait : op ≠ .awaitExit) (hcleanup : op ≠ .sql .registryCleanup)
    (h : ∀ r, (f r).Follows closingProtocol post false) :
    (ask op >>= f).Follows closingProtocol post false := by
  refine ⟨⟨rfl, hop, hawait⟩, ?_⟩
  rintro r _ rfl
  rw [decide_eq_false hcleanup]
  exact h r

theorem closing_cleanup : Closing (sql .registryCleanup) :=
  ⟨⟨rfl, rfl, nofun⟩, fun _ _ _ => trivial⟩

theorem monitorTimeout_closing : Closing monitorTimeout :=
  closing_bind rfl nofun nofun fun _ => closing_bind rfl nofun nofun fun _ => closing_cleanup

theorem detectStaleMonitor_closing (handleId : String) :
    (detectStaleMonitor handleId).Follows closingProtocol (fun s _ => s = false) false := by
  refine closing_bind rfl nofun nofun fun registered => ?_
  split <;> rfl

theorem monitorExit_closing (handleId : String) : Closing (monitorExit handleId) := by
  refine ((detectStaleMonitor_closing handleId).mono fun s stale hs => ?_).bind
  obtain rfl := hs
  split
  · exact closing_cleanup
  refine closing_bind rfl nofun nofun fun row => ?_
  split
  · exact closing_cleanup
  refine closing_bind rfl nofun nofun fun draining => ?_
  refine closing_bind (by split <;> rfl) nofun nofun fun applied => ?_
  split
  · exact closing_cleanup
  refine closing_bind rfl nofun nofun fun draining => ?_
  split
  · exact closing_bind rfl nofun nofun fun _ => closing_cleanup
  · exact closing_cleanup

/-- After its cleanup the monitor has returned. -/
theorem Closing.isDone {next : Unit → Calls Unit}
    (h : Closing (.call (.sql .registryCleanup) next)) : (next ()).isDone = true := by
  have hnext := h.2 () true rfl
  cases hprog : next () with
  | done a => rfl
  | call op next' =>
    rw [hprog] at hnext
    cases hnext.1.1

theorem Closing.next {op : Op} {next : op.Ret → Calls Unit} (h : Closing (.call op next))
    (hop : op ≠ .sql .registryCleanup) (r : op.Ret) : Closing (next r) := by
  exact h.2 r false (decide_eq_false hop).symm

/-! ### Who is of which launch -/

/-- A run of a process is not older than the entry of the task registry. -/
def Latest (w : World) (t : Task) : Prop :=
  ∀ k, t.tag.kind = .run k →
    k < w.launches ∧ ∀ l, (w.processes t.tag.proc).task = some l → l ≤ k

/-- A monitor of launch `k` that has left its `select!` meets no later run: the row of the registry
is not of one, and as long as one is running the monitor has only its cleanup left, or will find the
registry empty. -/
structure Apart (c : Config cfg) (k : ℕ) (p : Calls Unit) : Prop where
  registry : ∀ e, c.world.db.registry = some e → k < e.launch → isRunning c e.launch = false
  newer : ∀ j, k < j → isRunning c j = true →
    cleansUp p = true ∨ (∃ handleId, p = monitorExit handleId) ∧ c.world.db.registry = none

/-- Where a monitor of launch `k` can be. -/
def Attends (c : Config cfg) (k : ℕ) (p : Calls Unit) : Prop :=
  (∃ handleId, p = containerMonitor handleId) ∨ p.isDone = true ∨ Closing p ∧ Apart c k p

structure Succession (c : Config cfg) : Prop where
  entries : ∀ p l, (c.world.processes p).task = some l → l < c.world.launches
  containers : ∀ e, c.world.db.registry = some e → e.launch < c.world.launches
  registers : ∀ t ∈ c.tasks, Registers c.world.launches t.prog
  latest : ∀ t ∈ c.tasks, t.prog.isDone = false → Latest c.world t
  monitors : ∀ t ∈ c.tasks, ∀ k, t.tag.kind = .monitor k → Attends c k t.prog

theorem succession_initial : Succession (initial cfg) := ⟨nofun, nofun, nofun, nofun, nofun⟩

/-! ### One call -/

section Step

variable {m : Move cfg} {i : ℕ} {tag tag' : Tag} {op : Op} {choice : Choice} {r : op.Ret}
  {w w' : World} {next : op.Ret → Calls Unit} {started : List Task} {t : Task}

theorem isRunning_iff {c : Config cfg} {j : ℕ} :
    isRunning c j = true ↔ ∃ t ∈ c.tasks, t.tag.kind = .run j ∧ t.prog.isDone = false := by
  simp [isRunning]

theorem newerRuns_of_isRunning {c : Config cfg} {j k : ℕ} (hkj : k < j)
    (h : isRunning c j = true) : newerRuns c k = true := by
  obtain ⟨t, ht, hkind, hdone⟩ := isRunning_iff.mp h
  refine List.any_eq_true.mpr ⟨t, ht, ?_⟩
  rw [hdone, hkind]
  simpa using hkj

/-- A run that is running after a call was so before, or it has just been launched. -/
theorem isRunning_of_call {j : ℕ}
    (htask : m.before.tasks[i]? = some ⟨tag, .call op next⟩)
    (hexec : exec cfg tag op choice m.before.world = some (r, tag', w, started))
    (hafter : m.after = ⟨w, m.before.tasks.set i ⟨tag', next r⟩ ++ started⟩)
    (h : isRunning m.after j = true) : isRunning m.before j = true ∨
      j = m.before.world.launches ∧ m.before.world.launches < m.after.world.launches := by
  obtain ⟨t, ht, hkind, hdone⟩ := isRunning_iff.mp h
  rw [hafter] at ht ⊢
  rcases List.mem_append.mp ht with hset | hnew
  · left
    rcases List.mem_or_eq_of_mem_set hset with ht | rfl
    · exact isRunning_iff.mpr ⟨t, ht, hkind, hdone⟩
    · exact isRunning_iff.mpr
        ⟨_, List.mem_of_getElem? htask, (exec_kind hexec).symm.trans hkind, rfl⟩
  · right
    clear ht hafter
    cases executes_of_exec hexec with
    | launched artifact =>
      obtain rfl := List.mem_singleton.mp hnew
      exact ⟨(Kind.run.inj hkind).symm, Nat.lt_succ_self _⟩
    | monitored handle _ =>
      obtain rfl := List.mem_singleton.mp hnew
      cases hkind
    | _ => cases hnew

theorem isRunning_of_call_other {j : ℕ}
    (htask : m.before.tasks[i]? = some ⟨tag, .call op next⟩) (hop : op ≠ .launchDetached)
    (hexec : exec cfg tag op choice m.before.world = some (r, tag', w, started))
    (hafter : m.after = ⟨w, m.before.tasks.set i ⟨tag', next r⟩ ++ started⟩)
    (h : isRunning m.after j = true) : isRunning m.before j = true := by
  refine (isRunning_of_call htask hexec hafter h).resolve_right fun ⟨_, hlt⟩ => ?_
  rw [hafter] at hlt
  cases executes_of_exec hexec with
  | launched => exact hop rfl
  | _ => exact lt_irrefl _ hlt

/-- Only a registration puts a row into the container registry. -/
theorem exec_registry (h : exec cfg tag op choice w = some (r, tag', w', started)) :
    w'.db.registry = w.db.registry ∨ w'.db.registry = none ∨
      ∃ id l, op = .sql (.registryRegister id l) ∧ w'.db.registry = some ⟨id, w.now, l⟩ := by
  cases executes_of_exec h with
  | sql q =>
    cases q with
    | registryRegister id l => exact Or.inr (Or.inr ⟨id, l, rfl, rfl⟩)
    | registryCleanup => exact Or.inr (Or.inl rfl)
    | registerInstance => left; dsimp only [Sql.exec]; split <;> rfl
    | completeInstance | claimSleepingInstance =>
      left
      dsimp only [Sql.exec]
      split
      · split <;> rfl
      · rfl
    | _ => exact Or.inl rfl
  | _ => exact Or.inl rfl

theorem acts_of_closing {k : ℕ} {p : Calls Unit} (h : Closing p) (hdone : p.isDone = false)
    (hkind : tag.kind = .monitor k) : acts ⟨tag, p⟩ = true := by
  cases p with
  | done a => cases hdone
  | call op next =>
    rw [acts, hkind]
    exact decide_eq_true h.1.2.2

/-- A monitor leaves its `select!` because its time is over, or because the run has ended. -/
theorem exec_awaitExit {r : Bool}
    (h : exec cfg tag .awaitExit choice w = some (r, tag', w', started)) :
    w' = w ∧ (r = false → choice = .no) := by
  cases choice with
  | no => cases h; exact ⟨rfl, fun _ => rfl⟩
  | yes | launch =>
    dsimp only [exec] at h
    split at h
    · cases h
      exact ⟨rfl, nofun⟩
    · cases h

/-- A monitor that finds the registry empty has only its cleanup left. -/
theorem monitorExit_stale (handleId : String) : ∃ f, monitorExit handleId =
    .call (.sql .registryGet) f ∧ f none = sql .registryCleanup := ⟨_, rfl, rfl⟩

theorem started_monitor (h : exec cfg tag op choice w = some (r, tag', w', started))
    (ht : t ∈ started)
    {k : ℕ} (hk : t.tag.kind = .monitor k) : ∃ handleId, t.prog = containerMonitor handleId := by
  cases executes_of_exec h with
  | launched artifact =>
    obtain rfl := List.mem_singleton.mp ht
    cases hk
  | monitored handle _ =>
    obtain rfl := List.mem_singleton.mp ht
    exact ⟨_, rfl⟩
  | _ => cases ht

theorem entries_of_update {processes : ℕ → Process} {p : ℕ} {process : Process}
    (h : ∀ l, process.task = some l → (processes p).task = some l) (q l : ℕ)
    (hl : (Function.update processes p process q).task = some l) :
    (processes q).task = some l := by
  by_cases hq : q = p
  · rw [hq, Function.update_self] at hl
    rw [hq]
    exact h l hl
  · rwa [Function.update_of_ne hq] at hl

/-- Of a call only the launch touches the number of launches, and only it adds to a task
registry. -/
theorem exec_entries (hop : op ≠ .launchDetached)
    (h : exec cfg tag op choice w = some (r, tag', w', started)) :
    w'.launches = w.launches ∧
      ∀ p l, (w'.processes p).task = some l → (w.processes p).task = some l := by
  cases executes_of_exec h with
  | launched => exact absurd rfl hop
  | removed => exact ⟨rfl, entries_of_update fun _ hl => by cases hl⟩
  | draining => exact ⟨rfl, entries_of_update fun _ hl => hl⟩
  | _ => exact ⟨rfl, fun _ _ hl => hl⟩

/-- The launches so far, the handle that is returned and the entries of the task registries. -/
theorem exec_launches (h : exec cfg tag op choice w = some (r, tag', w', started))
    (hentries : ∀ p l, (w.processes p).task = some l → l < w.launches) :
    w.launches ≤ w'.launches ∧ op.gets r w'.launches ∧
      ∀ p l, (w'.processes p).task = some l → l < w'.launches := by
  by_cases hop : op = .launchDetached
  · subst hop
    cases executes_of_exec h with
    | notLaunched => exact ⟨le_rfl, trivial, hentries⟩
    | launched artifact =>
      refine ⟨Nat.le_succ _, Nat.lt_succ_self _, fun p l hl => ?_⟩
      dsimp only at hl ⊢
      by_cases hp : p = tag.proc
      · rw [hp, Function.update_self] at hl
        rw [← Option.some.inj hl]
        exact Nat.lt_succ_self _
      · rw [Function.update_of_ne hp] at hl
        exact Nat.lt_succ_of_lt (hentries p l hl)
  · obtain ⟨hlaunches, hsame⟩ := exec_entries hop h
    rw [hlaunches]
    refine ⟨le_rfl, ?_, fun p l hl => hentries p l (hsame p l hl)⟩
    cases op with
    | launchDetached => exact absurd rfl hop
    | _ => trivial

section Call

variable (htask : m.before.tasks[i]? = some ⟨tag, .call op next⟩)
  (hexec : exec cfg tag op choice m.before.world = some (r, tag', w, started))
  (hcaller : m.caller = some (tag, op)) (hinput : m.input = .task i choice)
  (hafter : m.after = ⟨w, m.before.tasks.set i ⟨tag', next r⟩ ++ started⟩)
  (hapart : m.keepsApart = true)

include htask hexec hcaller hafter hapart

/-- The calls of others leave a monitor apart that has left its `select!`. -/
theorem Apart.of_call (hc : Succession m.before) {u : Task} (hu : u ∈ m.before.tasks) {k : ℕ}
    (hkind : u.tag.kind = .monitor k) (hdone : u.prog.isDone = false) (hclosing : Closing u.prog)
    (h : Apart m.before k u.prog) : Apart m.after k u.prog := by
  obtain ⟨⟨hlaunch, hregister⟩, -⟩ : (m.launchesApart = true ∧ m.registersApart = true) ∧
      m.leavesApart = true := by simpa [Move.keepsApart] using hapart
  have hacts : acts u = true := acts_of_closing hclosing hdone hkind
  -- a registration would have found the monitor at work
  have hregistry : m.after.world.db.registry = m.before.world.db.registry ∨
      m.after.world.db.registry = none := by
    rw [hafter]
    rcases exec_registry hexec with hsame | hnone | ⟨id, l, rfl, -⟩
    · exact Or.inl hsame
    · exact Or.inr hnone
    · rw [Move.registersApart, Move.executes_iff.mpr ⟨tag, hcaller⟩] at hregister
      have := List.all_eq_true.mp hregister u hu
      rw [hacts] at this
      cases this
  refine ⟨fun e he hke => ?_, fun j hkj hrunning => ?_⟩
  · rw [Bool.eq_false_iff]
    intro hrunning
    have hbefore : m.before.world.db.registry = some e := by
      rcases hregistry with hsame | hnone
      · exact hsame ▸ he
      · rw [hnone] at he
        cases he
    rcases isRunning_of_call htask hexec hafter hrunning with hrun | ⟨hnew, -⟩
    · rw [h.registry e hbefore hke] at hrun
      cases hrun
    · exact absurd hnew (hc.containers e hbefore).ne
  · rcases isRunning_of_call htask hexec hafter hrunning with hrun | ⟨-, hlt⟩
    · rcases h.newer j hkj hrun with hclean | ⟨hexit, hnone⟩
      · exact Or.inl hclean
      · refine Or.inr ⟨hexit, ?_⟩
        rcases hregistry with hsame | hnone'
        · rw [hsame, hnone]
        · exact hnone'
    · left
      have hgone := (of_decide_eq_true hlaunch).resolve_left hlt.not_ge
      rw [hcaller, Option.all_some] at hgone
      have := List.all_eq_true.mp hgone u hu
      simpa [hdone, hkind, hacts] using this

include hinput in
/-- A monitor that leaves its `select!` is apart from the later runs. -/
theorem Attends.leave {k : ℕ} {handleId : String} (hkind : tag.kind = .monitor k)
    (hprog : Prog.call op next = containerMonitor handleId) : Attends m.after k (next r) := by
  obtain ⟨rfl, hnext⟩ := Prog.call.inj hprog
  obtain rfl := eq_of_heq hnext
  obtain ⟨rfl, htimeout⟩ := exec_awaitExit hexec
  have hworld : m.after.world = m.before.world := by rw [hafter]
  have hleaves : m.leavesApart = true := (Bool.and_eq_true _ _ ▸ hapart).2
  rw [Move.leavesApart, hcaller, Option.all_some, hkind] at hleaves
  -- if a later run is running, the registry is empty, and the run has ended
  have hnewer : ∀ j, k < j → isRunning m.after j = true →
      m.before.world.db.registry = none ∧ r = true := by
    intro j hkj hj
    have hbefore := isRunning_of_call_other htask nofun hexec hafter hj
    simp only [newerRuns_of_isRunning hkj hbefore, Bool.not_true, Bool.false_or,
      Bool.and_eq_true, Option.isNone_iff_eq_none] at hleaves
    refine ⟨hleaves.1, ?_⟩
    cases r with
    | true => rfl
    | false =>
      rw [hinput, htimeout rfl] at hleaves
      cases hleaves.2
  refine Or.inr (Or.inr ⟨?_, fun e he hke => ?_, fun j hkj hj => ?_⟩)
  · cases r with
    | true => exact monitorExit_closing handleId
    | false => exact monitorTimeout_closing
  · rw [Bool.eq_false_iff]
    intro hj
    rw [hworld, (hnewer _ hke hj).1] at he
    cases he
  · obtain ⟨hnone, rfl⟩ := hnewer j hkj hj
    exact Or.inr ⟨⟨handleId, rfl⟩, by rw [hworld, hnone]⟩

omit hcaller hapart in
/-- A monitor that has left its `select!` stays apart by its own calls. -/
theorem Attends.act {k : ℕ} (hclosing : Closing (.call op next))
    (h : Apart m.before k (.call op next)) : Attends m.after k (next r) := by
  by_cases hcleanup : op = .sql .registryCleanup
  · subst hcleanup
    exact Or.inr (Or.inl hclosing.isDone)
  refine Or.inr (Or.inr ⟨hclosing.next hcleanup r, ?_⟩)
  have hop : op ≠ .launchDetached := by
    rintro rfl
    cases hclosing.1.2.1
  have hrunning : ∀ j, isRunning m.after j = true → isRunning m.before j = true :=
    fun j => isRunning_of_call_other htask hop hexec hafter
  by_cases hnewer : ∃ j, k < j ∧ isRunning m.before j = true
  · -- a later run is running: the monitor finds the registry empty
    obtain ⟨j, hkj, hj⟩ := hnewer
    rcases h.newer j hkj hj with hclean | ⟨⟨handleId, hexit⟩, hnone⟩
    · exact absurd (of_decide_eq_true hclean) hcleanup
    · obtain ⟨f, hf, hstale⟩ := monitorExit_stale handleId
      obtain ⟨rfl, hnext⟩ := Prog.call.inj (hexit.trans hf)
      obtain rfl := eq_of_heq hnext
      obtain ⟨rfl, -, rfl, -⟩ := exec_sql cfg choice hexec
      have hregistry : m.after.world.db.registry = none := by
        rw [hafter]
        exact hnone
      refine ⟨fun e he => ?_, fun _ _ _ => Or.inl ?_⟩
      · rw [hregistry] at he
        cases he
      · show cleansUp (next m.before.world.db.registry) = true
        rw [hnone, hstale]
        rfl
  · have hnone : ∀ j, k < j → isRunning m.after j = false := fun j hkj =>
      Bool.eq_false_iff.mpr fun hj => hnewer ⟨j, hkj, hrunning j hj⟩
    refine ⟨fun e _ hke => hnone _ hke, fun j hkj hj => ?_⟩
    rw [hnone j hkj] at hj
    cases hj

include hinput in
theorem monitors_of_call (hc : Succession m.before) :
    ∀ t ∈ m.after.tasks, ∀ k, t.tag.kind = .monitor k → Attends m.after k t.prog := by
  have hall : ∀ t ∈ m.before.tasks.set i ⟨tag', next r⟩ ++ started, ∀ k, t.tag.kind = .monitor k →
      Attends m.after k t.prog := by
    refine Tasks.System.forall_mem_set_append (fun u hu k hk => ?_) (fun k hk => ?_)
      fun u hu k hk => Or.inl (started_monitor hexec hu hk)
    · rcases hc.monitors u hu k hk with hwaits | hdone | ⟨hclosing, happart⟩
      · exact Or.inl hwaits
      · exact Or.inr (Or.inl hdone)
      · cases hdone : u.prog.isDone with
        | true => exact Or.inr (Or.inl hdone)
        | false =>
          exact Or.inr (Or.inr ⟨hclosing,
            Apart.of_call htask hexec hcaller hafter hapart hc hu hk hdone hclosing happart⟩)
    · have hkind : tag.kind = .monitor k := (exec_kind hexec).symm.trans hk
      rcases hc.monitors _ (List.mem_of_getElem? htask) k hkind with
        ⟨handleId, hwaits⟩ | hdone | ⟨hclosing, happart⟩
      · exact Attends.leave htask hexec hcaller hinput hafter hapart hkind hwaits
      · cases hdone
      · exact Attends.act htask hexec hafter hclosing happart
  intro t ht
  rw [hafter] at ht
  exact hall t ht

/-- After a call the runs of a process are still not older than its entry. -/
theorem latest_of_call (hc : Succession m.before) :
    ∀ t ∈ m.after.tasks, t.prog.isDone = false → Latest m.after.world t := by
  obtain ⟨⟨hlaunch, -⟩, -⟩ : (m.launchesApart = true ∧ m.registersApart = true) ∧
      m.leavesApart = true := by simpa [Move.keepsApart] using hapart
  have hmem := List.mem_of_getElem? htask
  by_cases hop : op = .launchDetached
  · subst hop
    cases executes_of_exec hexec with
    | notLaunched =>
      have hcaller := hc.latest _ hmem rfl
      rw [hafter]
      exact Tasks.System.forall_mem_set_append hc.latest (fun _ k hk => hcaller k hk) nofun
    | launched artifact =>
      -- no run of the process is left
      have hgone : ∀ t ∈ m.before.tasks, t.prog.isDone = false → ∀ k, t.tag.kind = .run k →
          t.tag.proc ≠ tag.proc := by
        intro t ht hdone k hk
        have hlt : m.before.world.launches < m.after.world.launches := by
          rw [hafter]
          exact Nat.lt_succ_self _
        have hgone := (of_decide_eq_true hlaunch).resolve_left hlt.not_ge
        rw [hcaller, Option.all_some] at hgone
        simpa [hdone, hk] using List.all_eq_true.mp hgone t ht
      rw [hafter]
      refine Tasks.System.forall_mem_set_append (fun t ht hdone k hk => ?_) (fun _ k hk => ?_)
        fun t ht _ k hk => ?_
      · obtain ⟨hlt, hle⟩ := hc.latest t ht hdone k hk
        refine ⟨Nat.lt_succ_of_lt hlt, fun l hl => hle l ?_⟩
        dsimp only at hl
        rwa [Function.update_of_ne (hgone t ht hdone k hk)] at hl
      · exact absurd rfl (hgone _ hmem rfl k hk)
      · obtain rfl := List.mem_singleton.mp ht
        obtain rfl : m.before.world.launches = k := Kind.run.inj hk
        refine ⟨Nat.lt_succ_self _, fun l hl => ?_⟩
        dsimp only at hl
        rw [Function.update_self] at hl
        exact (Option.some.inj hl).ge
  · obtain ⟨hlaunches, hsame⟩ := exec_entries hop hexec
    have hkeeps {u : Task} (hu : Latest m.before.world u) : Latest w u := by
      intro k hk
      obtain ⟨hlt, hle⟩ := hu k hk
      rw [hlaunches]
      exact ⟨hlt, fun l hl => hle l (hsame _ l hl)⟩
    rw [hafter]
    refine Tasks.System.forall_mem_set_append (fun t ht hdone => hkeeps (hc.latest t ht hdone))
      (fun _ k hk => ?_) fun t ht _ => ?_
    · have hcaller := hkeeps (hc.latest _ hmem rfl) k ((exec_kind hexec).symm.trans hk)
      dsimp only at hcaller ⊢
      rwa [exec_proc hexec]
    · obtain ⟨handle, -, rfl⟩ := exec_started hop hexec t ht
      exact nofun

theorem Succession.call (hinput : m.input = .task i choice) (hc : Succession m.before) :
    Succession m.after := by
  have hmonitors := monitors_of_call htask hexec hcaller hinput hafter hapart hc
  have hlatest := latest_of_call htask hexec hcaller hafter hapart hc
  obtain ⟨hle, hgets, hentries⟩ := exec_launches hexec hc.entries
  have hfollows := hc.registers _ (List.mem_of_getElem? htask)
  rw [hafter] at hmonitors hlatest ⊢
  refine ⟨hentries, fun e he => ?_, ?_, hlatest, hmonitors⟩
  · rcases exec_registry hexec with hsame | hnone | ⟨id, l, rfl, hnew⟩
    · exact (hc.containers e (hsame ▸ he)).trans_le hle
    · rw [hnone] at he
      cases he
    · rw [hnew] at he
      obtain rfl := Option.some.inj he
      exact (hfollows.1 id l rfl).trans_le hle
  · exact Tasks.System.forall_mem_set_append (fun t ht => (hc.registers t ht).mono hle)
      (hfollows.2 r _ ⟨hle, hgets⟩) fun t ht => (started_routine hexec t ht).registers

end Call

/-- What happens outside the tasks lets no run begin. -/
theorem isRunning_of_tasks {c c' : Config cfg} {j : ℕ}
    (htasks : ∀ t ∈ c'.tasks, ∀ j, t.tag.kind = .run j → t ∈ c.tasks)
    (h : isRunning c' j = true) : isRunning c j = true := by
  obtain ⟨t, ht, hkind, hdone⟩ := isRunning_iff.mp h
  exact isRunning_iff.mpr ⟨t, htasks t ht j hkind, hkind, hdone⟩

theorem Attends.of_tasks {c c' : Config cfg} {k : ℕ} {p : Calls Unit} (h : Attends c k p)
    (hregistry : c'.world.db.registry = c.world.db.registry)
    (htasks : ∀ t ∈ c'.tasks, ∀ j, t.tag.kind = .run j → t ∈ c.tasks) : Attends c' k p := by
  refine h.imp_right fun h => h.imp_right fun ⟨hclosing, hapart⟩ => ⟨hclosing, ?_, ?_⟩
  · intro e he hke
    rw [Bool.eq_false_iff]
    intro hrunning
    have hbefore := isRunning_of_tasks htasks hrunning
    rw [hapart.registry e (hregistry ▸ he) hke] at hbefore
    cases hbefore
  · intro j hkj hj
    rw [hregistry]
    exact hapart.newer j hkj (isRunning_of_tasks htasks hj)

theorem Succession.move (hm : m.Valid) (hapart : m.keepsApart = true) (hc : Succession m.before) :
    Succession m.after := by
  rcases hm.cases with ⟨i, choice, tag, op, next, r, tag', w, started, hcaller, htask, hexec,
      hinput, hafter⟩ | ⟨o, w, ts, -, -, hout, hafter⟩
  · exact Succession.call htask hexec hcaller hafter hapart hinput hc
  · rw [hafter]
    cases o with
    | arrive proc a =>
      cases hout
      have hkind : ∀ j, a.kind ≠ .run j ∧ a.kind ≠ .monitor j := by
        cases a <;> exact fun _ => ⟨nofun, nofun⟩
      refine ⟨hc.entries, hc.containers, Tasks.forall_mem_concat hc.registers a.registers,
        Tasks.forall_mem_concat hc.latest fun _ k hk => absurd hk (hkind k).1,
        Tasks.forall_mem_concat (fun t ht k hk => (hc.monitors t ht k hk).of_tasks rfl ?_)
          fun k hk => absurd hk (hkind k).2⟩
      intro t ht j hj
      rcases List.mem_append.mp ht with ht | ht
      · exact ht
      · obtain rfl := List.mem_singleton.mp ht
        exact absurd hj (hkind j).1
    | tick d =>
      cases hout
      exact ⟨hc.entries, hc.containers, hc.registers, hc.latest,
        fun t ht k hk => (hc.monitors t ht k hk).of_tasks rfl fun _ ht _ _ => ht⟩
    | halt proc =>
      cases hout
      have hentries := @entries_of_update m.before.world.processes proc ⟨false, none⟩ nofun
      refine ⟨fun p l hl => hc.entries p l (hentries p l hl), hc.containers,
        fun t ht => hc.registers t (List.mem_of_mem_filter ht), fun t ht hdone k hk => ?_,
        fun t ht k hk => (hc.monitors t (List.mem_of_mem_filter ht) k hk).of_tasks rfl
          fun _ ht _ _ => List.mem_of_mem_filter ht⟩
      obtain ⟨hlt, hle⟩ := hc.latest t (List.mem_of_mem_filter ht) hdone k hk
      exact ⟨hlt, fun l hl => hle l (hentries _ l hl)⟩

end Step

/-! ### Whole runs -/

/-- **The tasks of an old launch do not touch a newer run.** In every run whose moves keep old
monitors apart, a monitor of launch `k` writes no status that takes effect while a run `j > k` is
running, stops no such run and deletes no row of the container registry for it, and run `k` removes
no entry of the task registry for it. -/
theorem old_launches_spare_new_runs {c' : Config cfg} {ms : List (Move cfg)}
    (h : (environment cfg).Path (initial cfg) ms c') (hapart : ∀ m ∈ ms, m.keepsApart = true)
    {k j : ℕ} (hkj : k < j) :
    ∀ m ∈ ms, (m.madeBy (.monitor k) = true → isRunning m.before j = true →
        m.writesStatus = false ∧ m.stopsRun j = false ∧ m.deletesContainer j = false) ∧
      (m.madeBy (.run k) = true → m.removesTask j = false) := by
  intro m hm
  obtain ⟨hbefore, -⟩ := (h.invariant hapart succession_initial
    fun m hm hapart => Succession.move hm hapart).2 m hm
  constructor
  · intro hmonitor hrunning
    obtain ⟨⟨tag, op⟩, hcaller, hkind⟩ := (Option.any_eq_true _ _).mp hmonitor
    obtain ⟨next, ht⟩ := Tasks.System.Move.exists_mem_of_caller hcaller
    have hstatement : m.statement = op.statement := by rw [Move.statement, hcaller]; rfl
    rcases hbefore.monitors _ ht k (of_decide_eq_true hkind) with
      ⟨handleId, hwaits⟩ | hdone | ⟨-, hregistry, hnewer⟩
    · obtain ⟨rfl, -⟩ := Prog.call.inj hwaits
      simp [Move.writesStatus, Move.stopsRun, Move.deletesContainer, hstatement, hcaller,
        Op.statement]
    · cases hdone
    · rcases hnewer j hkj hrunning with hclean | ⟨⟨handleId, hexit⟩, -⟩
      · obtain rfl : op = .sql .registryCleanup := of_decide_eq_true hclean
        refine ⟨by simp [Move.writesStatus, hstatement, Op.statement],
          by simp [Move.stopsRun, hcaller], decide_eq_false fun ⟨_, hentry⟩ => ?_⟩
        obtain ⟨e, he, hlaunch⟩ := (Option.any_eq_true _ _).mp hentry
        obtain rfl : e.launch = j := of_decide_eq_true hlaunch
        rw [hregistry e he hkj] at hrunning
        cases hrunning
      · obtain ⟨f, hf, -⟩ := monitorExit_stale handleId
        obtain ⟨rfl, -⟩ := Prog.call.inj (hexit.trans hf)
        simp [Move.writesStatus, Move.stopsRun, Move.deletesContainer, hstatement, hcaller,
          Op.statement]
  · intro hmade
    rw [Bool.eq_false_iff]
    intro hremoves
    obtain ⟨⟨tag, op⟩, hcaller, hkind⟩ := (Option.any_eq_true _ _).mp hmade
    obtain ⟨⟨tag', op'⟩, hcaller', hremove⟩ := (Option.any_eq_true _ _).mp hremoves
    obtain ⟨rfl, rfl⟩ := Prod.mk.inj (Option.some.inj (hcaller.symm.trans hcaller'))
    obtain ⟨next, ht⟩ := Tasks.System.Move.exists_mem_of_caller hcaller
    have hle := (hbefore.latest _ ht rfl k (of_decide_eq_true hkind)).2 j
      (of_decide_eq_true hremove).2
    omega

/-- **A monitor hits a later run.** The first run sleeps and ends, and the wake scheduler launches a
second one before the monitor of the first has looked; when the time of the first is over, its
monitor stops the second run, sets its row to failed and deletes its container. -/
theorem old_monitor_hits_new_run :
    ∃ (ms : List (Move (.default "i"))) (c' : Config (.default "i")),
      (environment (.default "i")).Path (initial _) ms c' ∧
      (∃ m ∈ ms, m.madeBy (.monitor 0) = true ∧ isRunning m.before 1 = true ∧
        m.stopsRun 1 = true) ∧
      (∃ m ∈ ms, m.madeBy (.monitor 0) = true ∧ isRunning m.before 1 = true ∧
        m.writesStatus = true) ∧
      (∃ m ∈ ms, m.madeBy (.monitor 0) = true ∧ isRunning m.before 1 = true ∧
        m.deletesContainer 1 = true) := by
  -- the second run is launched and starts before the monitor of the first one moves
  exact exists_path _ [sleepInputs, wakeInputs 3 sleepingGuest, calls 2 3 .yes, calls 2 4 .yes,
    [.task 2 .no], calls 3 2 .yes] (by decide +kernel)

/-- **An old monitor acts while a new run is running.** The first run pauses and ends. A resume
request in another process empties the container registry and launches the second run; then the
monitor of the first looks, finds itself stale and cleans up before the new container is
registered. -/
theorem old_launches_spare_new_runs_resumed :
    ∃ (ms : List (Move (.default "i"))) (c' : Config (.default "i")),
      (environment (.default "i")).Path (initial _) ms c' ∧ isRunning c' 1 = true ∧
      c'.world.db.registry.any (fun e => e.launch = 1) = true ∧
      (∃ m ∈ ms, m.madeBy (.monitor 0) = true ∧ isRunning m.before 1 = true ∧
        m.statement = some .registryCleanup) ∧
      ∀ m ∈ ms, (m.madeBy (.monitor 0) = true → isRunning m.before 1 = true →
          m.writesStatus = false ∧ m.stopsRun 1 = false ∧ m.deletesContainer 1 = false) ∧
        (m.madeBy (.run 0) = true → m.removesTask 1 = false) := by
  obtain ⟨ms, c', hpath, hrunning, hregistry, hacts, hapart⟩ :
      ∃ ms c', (environment (.default "i")).Path (initial _) ms c' ∧ isRunning c' 1 = true ∧
        c'.world.db.registry.any (fun e => e.launch = 1) = true ∧
        (∃ m ∈ ms, Move.madeBy m (.monitor 0) = true ∧ isRunning m.before 1 = true ∧
          Move.statement m = some .registryCleanup) ∧
        ∀ m ∈ ms, Move.keepsApart m = true :=
    exists_path _ [pauseInputs, [.outside (.arrive 1 .resume)], calls 6 3 .yes,
      [.task 3 (.launch (.invoke pausingGuest))], calls 2 4 .yes, calls 3 2 .yes, calls 2 3 .yes]
      (by decide +kernel)
  exact ⟨ms, c', hpath, hrunning, hregistry, hacts,
    old_launches_spare_new_runs hpath hapart Nat.zero_lt_one⟩

end Runtara.Environment
