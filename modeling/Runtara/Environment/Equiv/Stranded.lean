/-
  Suspensions that the wake scheduler ends, and the wake time they need.

  A claim takes the wake time off the row before the launched run has set its status, and a
  suspension is written before its wake time. In between the task owes the row one of the two
  (`Tag.owes`), and a launch hands the debt on to the run. Every task but a run pays what it owes
  before it returns (`debtProtocol`), so that a wake is stranded only if a run ends with a debt, a
  process stops over one, or a resume request takes the wake time off a row that is suspended again
  (`no_stranded_wake`). A process that stops right after it has claimed a row is such a case
  (`claim_then_halt_strands`).
-/
import Runtara.Environment.Equiv.Step

namespace Runtara.Environment

open List

open Tasks (Prog Protocol)
open Tasks.System (calls exists_path)

variable {cfg : Settings}

/-! ### Debts -/

/-- What a task owes, and whether it has seen its process draining. -/
structure Debt where
  owes : Bool
  draining : Bool
deriving DecidableEq, Repr

/-- The write suspends the row for the wake scheduler. -/
def CompleteParams.timed (p : CompleteParams) : Bool :=
  p.status = .suspended ∧ p.terminationReason.any TerminationReason.timed

/-- How a call can change the debt of its task. A run is taken to owe nothing when it removes its
entry from the task registry. -/
def Debt.Next (s : Debt) : (op : Op) → op.Ret → Debt → Prop
  | .sql .claimSleepingInstance, claimed, s' => s' = if claimed then { s with owes := true } else s
  | .sql (.completeInstance p), applied, s' =>
    s' = s ∨ applied = true ∧ p.timed = true ∧ s' = { s with owes := true }
  | .sql (.setInstanceSleep _), _, s' => s' = { s with owes := false }
  | .sql (.updateInstanceStatus .running _), _, s' => s' = { s with owes := false }
  | .launchDetached, handle, s' => s' = if handle.isSome then { s with owes := false } else s
  | .removeTask, _, s' => s' = { s with owes := false }
  | .isDraining, draining, s' =>
    (s.draining = true → draining = true) ∧ s' = { s with draining := draining }
  | _, _, s' => s' = s

/-- A task returns only when it owes nothing. -/
def debtProtocol : Protocol Op Op.Ret Debt where
  allowed _ _ := True
  next := Debt.Next

/-- From `s` on the program returns only when it owes nothing. -/
abbrev Pays {α : Type} (s : Debt) (p : Calls α) : Prop :=
  p.Follows debtProtocol (fun s _ => s.owes = false) s

def Op.frugal : Op → Bool
  | .sql .claimSleepingInstance => false
  | .sql (.completeInstance p) => !p.timed
  | _ => true

theorem Debt.Next.owes {s s' : Debt} {op : Op} {r : op.Ret} (h : s.Next op r s')
    (hop : op.frugal = true) (hs : s.owes = false) : s'.owes = false := by
  unfold Debt.Next at h
  split at h
  case h_1 => cases hop
  case h_2 p _ =>
    rcases h with rfl | ⟨-, hp, -⟩
    · exact hs
    · have hno : (!p.timed) = true := hop
      rw [hp] at hno
      cases hno
  case h_5 =>
    rw [h]
    split
    · rfl
    · exact hs
  case h_7 =>
    rw [h.2]
    exact hs
  case h_8 =>
    rw [h]
    exact hs
  all_goals rw [h]

theorem pays_of_frugal {α : Type} {p : Calls α} (h : p.Only fun op => op.frugal = true) {s : Debt}
    (hs : s.owes = false) : Pays s p := by
  induction p generalizing s with
  | done a => exact hs
  | call op next ih => exact ⟨trivial, fun r s' hnext => ih r (h.2 r) (hnext.owes h.1 hs)⟩

/-- Every program follows the protocol up to its return. -/
theorem follows_debt {α : Type} (p : Calls α) (s : Debt) :
    p.Follows debtProtocol (fun _ _ => True) s :=
  (Prog.only_true p).follows (fun _ _ _ => trivial) fun _ _ => trivial

/-! ### The programs of the tasks -/

theorem settleRun_pays (cfg : Settings) (exit : Option InvokeExit) (s : Debt) :
    Pays s (settleRun cfg exit) := by
  have hend (s : Debt) : Pays s (ask .setFinished >>= fun _ => ask .removeTask) := by
    refine ⟨trivial, fun _ s' _ => ⟨trivial, fun _ s'' hnext => ?_⟩⟩
    obtain rfl : s'' = { s' with owes := false } := hnext
    rfl
  unfold settleRun
  dsimp only
  split
  · exact ((follows_debt _ s).mono fun s _ _ => hend s).bind
  · exact hend s

theorem runTask_pays (artifact : Artifact) (s : Debt) : Pays s (runTask cfg artifact) := by
  cases artifact with
  | broken => exact settleRun_pays cfg none s
  | invoke guest =>
    refine ⟨trivial, fun _ s _ => ⟨trivial, fun _ s _ => ?_⟩⟩
    exact ((follows_debt (execute guest) s).mono fun s exit _ => settleRun_pays cfg exit s).bind
  | run guest =>
    exact ((follows_debt (execute guest) s).mono fun s _ _ => settleRun_pays cfg none s).bind

section Pays

variable {s : Debt} {α : Type} {post : Debt → α → Prop}

theorem follows_debt_bind {op : Op} {f : op.Ret → Calls α} (hop : ∀ r s', s.Next op r s' → s' = s)
    (h : ∀ r, (f r).Follows debtProtocol post s) : (ask op >>= f).Follows debtProtocol post s := by
  refine ⟨trivial, fun r s' hnext => ?_⟩
  rw [hop r s' hnext]
  exact h r

theorem pays_setInstanceSleep (wakeAt : WakeAt) : Pays s (sql (.setInstanceSleep wakeAt)) := by
  refine ⟨trivial, fun _ s' hnext => ?_⟩
  obtain rfl : s' = { s with owes := false } := hnext
  rfl

theorem registryCleanup_pays (hs : s.owes = false) : Pays s (sql .registryCleanup) :=
  pays_of_frugal (only_sql rfl) hs

theorem detectStaleMonitor_debt (handleId : String) (s : Debt) :
    (detectStaleMonitor handleId).Follows debtProtocol (fun s' _ => s' = s) s := by
  refine follows_debt_bind (fun _ _ h => h) fun current => ?_
  cases current <;> rfl

/-- What a monitor writes while its process drains is paid at once. -/
theorem containerMonitor_pays (handleId : String) (hs : s.owes = false) :
    Pays s (containerMonitor handleId) := by
  refine follows_debt_bind (fun _ _ h => h) fun exited => ?_
  split
  · refine ((detectStaleMonitor_debt handleId s).mono fun s' stale hs' => ?_).bind
    rw [hs']
    dsimp only
    split
    · exact registryCleanup_pays hs
    refine follows_debt_bind (fun _ _ h => h) fun current => ?_
    split
    · exact registryCleanup_pays hs
    refine ⟨trivial, fun draining s₁ hs₁ => ⟨trivial, fun applied s₂ hs₂ => ?_⟩⟩
    -- the second look at the drain flag finds what the first has found
    obtain ⟨-, rfl⟩ : _ ∧ s₁ = { s with draining := draining } := hs₁
    cases applied with
    | false =>
      rcases hs₂ with rfl | ⟨happlied, -⟩
      · exact registryCleanup_pays hs
      · cases happlied
    | true =>
      refine ⟨trivial, fun draining' s₃ hs₃ => ?_⟩
      obtain ⟨hstill, rfl⟩ := hs₃
      cases draining' with
      | true =>
        refine ⟨trivial, fun _ s₄ hs₄ => registryCleanup_pays ?_⟩
        rw [show s₄ = _ from hs₄]
      | false =>
        refine registryCleanup_pays ?_
        rcases hs₂ with rfl | ⟨-, htimed, rfl⟩
        · exact hs
        · cases draining with
          | true => cases hstill rfl
          | false => cases htimed
  · refine pays_of_frugal ?_ hs
    exact ⟨rfl, fun _ => ⟨rfl, fun _ => only_sql rfl⟩⟩

theorem filterNonTerminal_debt (polls : ℕ) (s : Debt) :
    (filterNonTerminal polls).Follows debtProtocol (fun s' _ => s' = s) s := by
  induction polls with
  | zero => rfl
  | succ n ih =>
    refine follows_debt_bind (fun _ _ h => h) fun inst => ?_
    split
    · rfl
    · split
      · rfl
      · exact ih

theorem drain_pays (polls : ℕ) (hs : s.owes = false) : Pays s (Environment.drain polls) := by
  refine follows_debt_bind (fun _ _ h => h) fun _ => ?_
  refine follows_debt_bind (fun _ _ h => h) fun container => ?_
  split
  · exact hs
  · refine follows_debt_bind (fun _ _ h => h) fun _ => ?_
    refine ((filterNonTerminal_debt polls s).mono fun s' active hs' => ?_).bind
    rw [hs']
    split
    · exact hs
    · refine follows_debt_bind (fun _ _ h => h) fun _ => ⟨trivial, fun applied s₁ hs₁ => ?_⟩
      cases applied with
      | true => exact pays_setInstanceSleep .now
      | false =>
        rcases hs₁ with rfl | ⟨happlied, -⟩
        · exact hs
        · cases happlied

theorem processPendingWakes_pays (hs : s.owes = false) : Pays s processPendingWakes := by
  refine ⟨trivial, fun draining s₁ hs₁ => ?_⟩
  obtain ⟨-, rfl⟩ : _ ∧ s₁ = { s with draining := draining } := hs₁
  cases draining with
  | true => exact hs
  | false =>
    refine follows_debt_bind (fun _ _ h => h) fun due => ?_
    split
    · exact hs
    refine follows_debt_bind (fun _ _ h => h) fun inBatch => ?_
    split
    · exact hs
    refine follows_debt_bind (fun _ _ h => h) fun found => ?_
    split
    · exact hs
    refine ⟨trivial, fun claimed s₂ hs₂ => ?_⟩
    cases claimed with
    | false =>
      rw [show s₂ = _ from hs₂]
      exact hs
    | true =>
      -- a launch hands the debt on, and without one the wake time is set again
      refine ⟨trivial, fun handle s₃ hs₃ => ?_⟩
      cases handle with
      | none => exact pays_setInstanceSleep .now
      | some handle =>
        refine pays_of_frugal ?_ (by rw [show s₃ = _ from hs₃]; rfl)
        exact ⟨rfl, fun _ => only_ask rfl⟩

theorem Arrival.pays (a : Arrival) : Pays ⟨false, false⟩ (a.program cfg) := by
  cases a with
  | wake => exact processPendingWakes_pays rfl
  | drain polls => exact drain_pays polls rfl
  | _ =>
    refine pays_of_frugal ?_ rfl
    dsimp only [Arrival.program, handleStartInstance, handleResumeInstance, relaunch,
      restoreCheckpoint, handleStopInstance, handleSendSignal, handleSendCustomSignal,
      wakeSuspendedOnSignal, checkStaleInstances, getOrphanedRunningInstance, failStaleInstance,
      recoverOrFail, recoverOrphanedContainers]
    repeat' first
      | trivial
      | exact only_sql rfl
      | exact only_ask rfl
      | refine Prog.Only.bind ?_ fun _ => ?_
      | split

end Pays

/-! ### The debts of all tasks -/

/-- What the task owes is what its tag says, it pays before it returns, and if it has seen its
process draining, the process still is. -/
def Debtor (w : World) (t : Task) : Prop :=
  ∃ d, Pays ⟨t.tag.owes, d⟩ t.prog ∧ (d = true → (w.processes t.tag.proc).draining = true)

/-- Every task is good for its debt, and a row without its wake time is owed for by one of them. -/
structure Solvent (c : Config cfg) : Prop where
  debtor : ∀ t ∈ c.tasks, Debtor c.world t
  owed : c.world.db.row.any Row.stranded = true → ∃ t ∈ c.tasks, t.tag.owes = true

theorem Debtor.not_done {w : World} {t : Task} (h : Debtor w t) (howes : t.tag.owes = true) :
    t.prog.isDone = false := by
  obtain ⟨d, hpays, -⟩ := h
  obtain ⟨tag, prog⟩ := t
  cases prog with
  | done a =>
    have hfalse : tag.owes = false := hpays
    rw [show tag.owes = true from howes] at hfalse
    cases hfalse
  | call op next => rfl

section Step

variable {m : Move cfg} {i : ℕ} {tag tag' : Tag} {op : Op} {choice : Choice} {r : op.Ret}
  {w w' : World} {next : op.Ret → Calls Unit} {started : List Task}

/-- A suspension without a wake time is one that the wake scheduler ends. -/
theorem timed_of_stranded {p : CompleteParams} {now : Time} {db : Db}
    (happlied : ((Sql.completeInstance p).exec now db).1 = true)
    (h : ((Sql.completeInstance p).exec now db).2.row.any Row.stranded = true) :
    p.timed = true := by
  cases hr : db.row with
  | none => simp [Sql.exec, hr] at happlied
  | some r =>
    cases haccepts : r.accepts p with
    | false => simp [Sql.exec, hr, haccepts] at happlied
    | true =>
      simp only [Sql.exec, hr, haccepts, ↓reduceIte, Option.any_some] at h
      obtain ⟨hstatus, hreason, -⟩ := of_decide_eq_true h
      have hsuspended : p.status = .suspended := hstatus
      refine decide_eq_true ⟨hsuspended, ?_⟩
      simpa [Row.complete, hsuspended] using hreason

theorem exec_draining (h : exec cfg tag op choice w = some (r, tag', w', started)) {p : ℕ}
    (hp : (w.processes p).draining = true) : (w'.processes p).draining = true := by
  have hupdate (q : ℕ) (x : Process)
      (hx : x.draining = true ∨ x.draining = (w.processes q).draining) :
      (Function.update w.processes q x p).draining = true := by
    by_cases hpq : p = q
    · rw [hpq] at hp ⊢
      rw [Function.update_self]
      exact hx.elim id fun h => h.trans hp
    · rwa [Function.update_of_ne hpq]
  cases executes_of_exec h with
  | launched | removed => exact hupdate _ _ (Or.inr rfl)
  | draining => exact hupdate _ _ (Or.inl rfl)
  | _ => exact hp

theorem afterSql_debt (tag : Tag) (q : Sql) (now : Time) (db : Db) (d : Bool) :
    Debt.Next ⟨tag.owes, d⟩ (.sql q) (q.exec now db).1
      ⟨(tag.afterSql q (q.exec now db).1 (q.exec now db).2).owes, d⟩ := by
  cases q with
  | claimSleepingInstance =>
    dsimp only [Debt.Next, Tag.afterSql]
    split <;> rfl
  | completeInstance p =>
    dsimp only [Debt.Next, Tag.afterSql]
    cases hstranded : ((Sql.completeInstance p).exec now db).1 &&
        ((Sql.completeInstance p).exec now db).2.row.any Row.stranded with
    | false => exact Or.inl (by rw [Bool.or_false])
    | true =>
      obtain ⟨happlied, hrow⟩ := (Bool.and_eq_true _ _).mp hstranded
      exact Or.inr ⟨happlied, timed_of_stranded happlied hrow, by rw [Bool.or_true]⟩
  | updateInstanceStatus status started => cases status <;> rfl
  | _ => rfl

/-- A call changes the debt of its task as the protocol says, unless a run removes its entry with a
debt. -/
theorem exec_debt {d : Bool} (hremove : op = .removeTask → tag.owes = false)
    (hd : d = true → (w.processes tag.proc).draining = true)
    (h : exec cfg tag op choice w = some (r, tag', w', started)) :
    ∃ d', Debt.Next ⟨tag.owes, d⟩ op r ⟨tag'.owes, d'⟩ ∧
      (d' = true → (w'.processes tag'.proc).draining = true) := by
  have hstays : d = true → (w'.processes tag'.proc).draining = true := by
    intro hdrain
    rw [exec_proc h]
    exact exec_draining h (hd hdrain)
  cases executes_of_exec h with
  | sql q => exact ⟨d, afterSql_debt tag q w.now w.db d, hstays⟩
  | removed =>
    refine ⟨d, ?_, hstays⟩
    show Debt.mk _ _ = Debt.mk _ _
    rw [hremove rfl]
  | isDraining => exact ⟨(w.processes tag.proc).draining, ⟨hd, rfl⟩, fun h => h⟩
  | _ => exact ⟨d, rfl, hstays⟩

theorem Debtor.call (h : Debtor w ⟨tag, .call op next⟩)
    (hremove : op = .removeTask → tag.owes = false)
    (hexec : exec cfg tag op choice w = some (r, tag', w', started)) :
    Debtor w' ⟨tag', next r⟩ := by
  obtain ⟨d, hpays, hd⟩ := h
  obtain ⟨d', hnext, hd'⟩ := exec_debt hremove hd hexec
  exact ⟨d', hpays.2 r _ hnext, hd'⟩

theorem started_debtor (hexec : exec cfg tag op choice w = some (r, tag', w', started)) :
    ∀ t ∈ started, Debtor w' t := by
  intro t ht
  cases executes_of_exec hexec with
  | launched artifact =>
    obtain rfl := mem_singleton.mp ht
    exact ⟨false, runTask_pays artifact _, nofun⟩
  | monitored handle _ =>
    obtain rfl := mem_singleton.mp ht
    exact ⟨false, containerMonitor_pays handle.handleId rfl, nofun⟩
  | _ => cases ht

/-- After a statement that leaves the row without its wake time, the caller owes for it, or it was
so before and the debt of the caller is what it was. -/
theorem owes_of_stranded (tag : Tag) {q : Sql} {now : Time} {db : Db}
    (hclear : q = .clearInstanceSleep → db.row.any (fun r => r.status = .suspended) = false)
    (h : (q.exec now db).2.row.any Row.stranded = true) :
    (tag.afterSql q (q.exec now db).1 (q.exec now db).2).owes = true ∨
      db.row.any Row.stranded = true ∧
        (tag.afterSql q (q.exec now db).1 (q.exec now db).2).owes = tag.owes := by
  cases hr : db.row with
  | none =>
    -- without a row there is none after the statement, or a new one
    cases q <;> simp [Sql.exec, Db.updateRow, hr, Row.registered, Row.stranded] at h
  | some r =>
    cases q with
    | registerInstance =>
      rw [Sql.exec, hr] at h
      exact Or.inr ⟨by rwa [hr] at h, rfl⟩
    | updateInstanceStatus status started =>
      cases status <;> cases started <;>
        simp [Sql.exec, Db.updateRow, hr, Row.updateStatus, Row.stranded] at h
    | updateInstanceCheckpoint id =>
      simp only [Sql.exec, Db.updateRow, hr, Option.map_some] at h
      exact Or.inr ⟨h, rfl⟩
    | completeInstance p =>
      cases haccepts : r.accepts p with
      | true =>
        left
        have happlied : ((Sql.completeInstance p).exec now db).1 = true := by
          simp [Sql.exec, hr, haccepts]
        dsimp only [Tag.afterSql]
        rw [happlied, h]
        exact Bool.or_true _
      | false =>
        right
        have hrefused : (Sql.completeInstance p).exec now db = (false, db) := by
          simp [Sql.exec, hr, haccepts]
        rw [hrefused] at h ⊢
        exact ⟨hr ▸ h, Bool.or_false _⟩
    | markForRecovery attempt marker =>
      simp [Sql.exec, Db.updateRow, hr, Row.markForRecovery, Row.stranded] at h
    | setInstanceSleep wakeAt => simp [Sql.exec, Db.updateRow, hr, Row.stranded] at h
    | clearInstanceSleep =>
      have hawake := hclear rfl
      simp only [hr, Option.any_some, decide_eq_false_iff_not] at hawake
      simp [Sql.exec, Db.updateRow, hr, Row.stranded, hawake] at h
    | claimSleepingInstance =>
      cases hclaimable : r.claimable with
      | true =>
        left
        simp [Tag.afterSql, Sql.exec, hr, hclaimable]
      | false =>
        right
        have hrefused : Sql.claimSleepingInstance.exec now db = (false, db) := by
          simp [Sql.exec, hr, hclaimable]
        rw [hrefused] at h ⊢
        exact ⟨hr ▸ h, rfl⟩
    | _ => exact Or.inr ⟨hr ▸ h, rfl⟩

/-- A call other than a statement keeps the debt of its task, or hands it on to the run that it
starts. -/
theorem owes_handed_on (hop : ∀ q, op ≠ .sql q)
    (hexec : exec cfg tag op choice w = some (r, tag', w', started))
    (howes : tag.owes = true) : tag'.owes = true ∨ ∃ t ∈ started, t.tag.owes = true := by
  cases executes_of_exec hexec with
  | sql q => exact absurd rfl (hop q)
  | launched artifact => exact Or.inr ⟨_, mem_singleton.mpr rfl, howes⟩
  | _ => exact Or.inl howes

/-- If some task owes before a call, some task owes after it, given that the caller has not paid. -/
theorem exists_owes_set {ts : List Task} {t' : Task} (htask : ts[i]? = some ⟨tag, .call op next⟩)
    (h : ∃ t ∈ ts, t.tag.owes = true)
    (hcaller : tag.owes = true → t'.tag.owes = true ∨ ∃ t ∈ started, t.tag.owes = true) :
    ∃ t ∈ ts.set i t' ++ started, t.tag.owes = true := by
  obtain ⟨hi, hti⟩ := List.getElem?_eq_some_iff.mp htask
  obtain ⟨t, ht, howes⟩ := h
  obtain ⟨j, hj, rfl⟩ := mem_iff_getElem.mp ht
  by_cases hij : i = j
  · subst hij
    rw [hti] at howes
    rcases hcaller howes with hnew | ⟨t, ht, hnew⟩
    · exact ⟨t', mem_append_left _ (mem_set hi t'), hnew⟩
    · exact ⟨t, mem_append_right _ ht, hnew⟩
  · refine ⟨ts[j], mem_append_left _ ?_, howes⟩
    refine mem_iff_getElem?.mpr ⟨j, ?_⟩
    rw [getElem?_set_ne hij, getElem?_eq_getElem hj]

/-- The move does not strand a wake: no run removes its entry with a debt, no process stops over a
debt, and no resume request clears the wake time of a row that is suspended. -/
structure Move.keepsWake (m : Move cfg) : Prop where
  remove : ∀ tag, m.caller = some (tag, .removeTask) → tag.owes = false
  halt : ∀ p, m.input = .outside (.halt p) →
    ∀ t ∈ m.before.tasks, t.tag.proc = p → t.tag.owes = false
  clear : m.executes .clearInstanceSleep →
    m.before.world.db.row.any (fun r => r.status = .suspended) = false

theorem Solvent.call (hc : Solvent m.before) (hkeeps : m.keepsWake)
    (hcaller : m.caller = some (tag, op))
    (htask : m.before.tasks[i]? = some ⟨tag, .call op next⟩)
    (hexec : exec cfg tag op choice m.before.world = some (r, tag', w, started))
    (hafter : m.after = ⟨w, m.before.tasks.set i ⟨tag', next r⟩ ++ started⟩) :
    Solvent m.after := by
  have hremove : op = .removeTask → tag.owes = false := by
    rintro rfl
    exact hkeeps.remove tag hcaller
  have hdebtor := hc.debtor _ (mem_of_getElem? htask)
  rw [hafter]
  constructor
  · refine Tasks.System.forall_mem_set_append (fun t ht => ?_) (hdebtor.call hremove hexec)
      (started_debtor hexec)
    obtain ⟨d, hpays, hd⟩ := hc.debtor t ht
    exact ⟨d, hpays, fun h => exec_draining hexec (hd h)⟩
  · intro hstranded
    by_cases hsql : ∃ q, op = .sql q
    · obtain ⟨q, rfl⟩ := hsql
      obtain ⟨rfl, rfl, rfl, rfl⟩ := exec_sql cfg choice hexec
      have hclear : q = .clearInstanceSleep →
          m.before.world.db.row.any (fun r => r.status = .suspended) = false := by
        rintro rfl
        exact hkeeps.clear (Move.executes_iff.mpr ⟨tag, hcaller⟩)
      rcases owes_of_stranded tag hclear hstranded with howes | ⟨hbefore, hsame⟩
      · obtain ⟨hi, -⟩ := List.getElem?_eq_some_iff.mp htask
        exact ⟨_, mem_append_left _ (mem_set hi _), howes⟩
      · exact exists_owes_set htask (hc.owed hbefore) fun howes => Or.inl (hsame.trans howes)
    · have hop : ∀ q, op ≠ .sql q := fun q hq => hsql ⟨q, hq⟩
      rw [exec_db hop hexec] at hstranded
      refine exists_owes_set htask (hc.owed hstranded) fun howes => ?_
      exact owes_handed_on hop hexec howes

end Step

theorem Solvent.move {m : Move cfg} (hm : m.Valid) (hkeeps : m.keepsWake) (hc : Solvent m.before) :
    Solvent m.after := by
  rcases hm.cases with ⟨i, choice, tag, op, next, r, tag', w, started, hcaller, htask, hexec,
      -, hafter⟩ | ⟨o, w, ts, -, hinput, hout, hafter⟩
  · exact hc.call hkeeps hcaller htask hexec hafter
  · rw [hafter]
    cases o with
    | arrive proc a =>
      cases hout
      refine ⟨Tasks.forall_mem_concat hc.debtor ⟨false, a.pays, nofun⟩, fun hstranded => ?_⟩
      obtain ⟨t, ht, howes⟩ := hc.owed hstranded
      exact ⟨t, mem_append_left _ ht, howes⟩
    | tick d =>
      cases hout
      exact ⟨hc.debtor, hc.owed⟩
    | halt proc =>
      cases hout
      refine ⟨fun t ht => ?_, fun hstranded => ?_⟩
      · obtain ⟨ht, hproc⟩ := mem_filter.mp ht
        obtain ⟨d, hpays, hd⟩ := hc.debtor t ht
        refine ⟨d, hpays, fun h => ?_⟩
        dsimp only
        rw [Function.update_of_ne (of_decide_eq_true hproc)]
        exact hd h
      · obtain ⟨t, ht, howes⟩ := hc.owed hstranded
        refine ⟨t, mem_filter.mpr ⟨ht, decide_eq_true fun hproc => ?_⟩, howes⟩
        rw [hkeeps.halt proc hinput t ht hproc] at howes
        cases howes

/-- **No wake is stranded.** In every run whose moves strand none, once all tasks have returned, a
row that is suspended for the wake scheduler has its wake time. -/
theorem no_stranded_wake {c' : Config cfg} {ms : List (Move cfg)}
    (h : (environment cfg).Path (initial cfg) ms c') (hkeeps : ∀ m ∈ ms, m.keepsWake)
    (hquiet : ∀ t ∈ c'.tasks, t.prog.isDone = true) :
    c'.world.db.row.any Row.stranded = false := by
  have hinitial : Solvent (initial cfg) := ⟨nofun, nofun⟩
  have hsolvent := (h.invariant hkeeps hinitial fun m hm hk => Solvent.move hm hk).1
  rw [Bool.eq_false_iff]
  intro hstranded
  obtain ⟨t, ht, howes⟩ := hsolvent.owed hstranded
  have hnot := (hsolvent.debtor t ht).not_done howes
  rw [hquiet t ht] at hnot
  cases hnot

/-- **A claimed wake is stranded by the end of the process.** The run sleeps and ends, and the
process stops after the wake scheduler has claimed the row and before it has launched a run. -/
theorem claim_then_halt_strands :
    ∃ (ms : List (Move (.default "i"))) (c' : Config (.default "i")),
      (environment (.default "i")).Path (initial _) ms c' ∧ c'.tasks = [] ∧
      c'.world.db.row.any Row.stranded = true := by
  exact exists_path _ [sleepInputs, calls 4 2 .yes, [.outside (.arrive 0 .wake)], calls 5 3 .yes,
    [.outside (.halt 0)]] (by decide +kernel)

/-- The run sleeps and ends, and the process stops afterwards. -/
theorem no_stranded_wake_after_nap :
    ∃ (ms : List (Move (.default "i"))) (c' : Config (.default "i")),
      (environment (.default "i")).Path (initial _) ms c' ∧
      c'.world.db.row.any (fun r => r.status = .suspended ∧ r.sleepUntil = some 0) = true ∧
      c'.world.db.row.any Row.stranded = false := by
  obtain ⟨ms, c', hpath, hrow, htasks, hall⟩ :
      ∃ ms c', (environment (.default "i")).Path (initial _) ms c' ∧
        c'.world.db.row.any (fun r => r.status = .suspended ∧ r.sleepUntil = some 0) = true ∧
        c'.tasks = [] ∧ ∀ m ∈ ms, (m.caller.all fun call => call.2 = .removeTask → !call.1.owes) ∧
          ((∀ t ∈ m.before.tasks, t.tag.owes = false) ∨ m.caller.isSome) ∧
          Move.statement m ≠ some .clearInstanceSleep :=
    exists_path _ [sleepInputs, calls 4 2 .yes, [.outside (.halt 0)]] (by decide +kernel)
  refine ⟨ms, c', hpath, hrow, no_stranded_wake hpath (fun m hm => ?_) (by rw [htasks]; nofun)⟩
  obtain ⟨hremove, hhalt, hclear⟩ := hall m hm
  refine ⟨fun tag hcaller => ?_, fun p hinput t ht _ => ?_,
    fun hexec => absurd hexec hclear⟩
  · simpa [hcaller] using hremove
  · simp only [Tasks.System.Move.caller, hinput, Option.isSome_none, Bool.false_eq_true,
      or_false] at hhalt
    exact hhalt t ht

end Runtara.Environment
