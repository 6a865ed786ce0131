/-
  The crash-loop cap.

  A call of `recover_or_fail` reads and writes two columns of the row, the number of attempts and
  the number of checkpoints at the last recovery, and no other statement writes them. So the answers
  to the calls of a history are those of a machine on the two columns (`recoveryCalls_eq`). Its
  invariant is that the attempts counted at a number of checkpoints are at least the recoveries made
  there, and it is kept as long as the counter does not wrap around (`Counters.Kept.recover`).
-/
import Mathlib.Data.List.Infix
import Runtara.Environment.System

namespace Runtara.Environment

open Tasks (Prog)
open List

/-! ### Histories -/

/-- The answer of a program of statements, with nothing between them, and what it leaves. -/
def runSql {α : Type} (now : Time) : Calls α → Db → Option (α × Db)
  | .done a, db => some (a, db)
  | .call (.sql q) next, db => runSql now (next (q.exec now db).1) (q.exec now db).2
  | .call _ _, _ => none

/-- What happens to an instance. -/
inductive Happening where
  /-- a call of `recover_or_fail` -/
  | call (now : Time)
  /-- a statement of anything else, be it a wake, a resume, a suspension or a saved checkpoint -/
  | statement (now : Time) (q : Sql) (hq : ∀ attempt marker, q ≠ .markForRecovery attempt marker)

/-- The answers to the calls of a history, each with the number of checkpoints at the call. -/
def recoveryCalls (cfg : Settings) : Db → List Happening → List (ℕ × RecoveryOutcome)
  | _, [] => []
  | db, .call now :: rest =>
    match runSql now (recoverOrFail cfg) db with
    | some (outcome, db') => (db.checkpoints.length, outcome) :: recoveryCalls cfg db' rest
    | none => []
  | db, .statement now q _ :: rest => recoveryCalls cfg (q.exec now db).2 rest

/-- **The crash-loop cap.** While the number of checkpoints stays the same, at most `cap` calls
answer `Recovered` and the next one answers `Failed`; a call made after the number has grown since
the last recovery answers `Recovered`. -/
structure Capped (cap : ℕ) (calls : List (ℕ × RecoveryOutcome)) : Prop where
  atMost : ∀ part n, part <:+: calls → (∀ c ∈ part, c.1 = n) →
    part.countP (·.2 = .recovered) ≤ cap
  next : ∀ part n c, part ++ [c] <:+: calls → (∀ d ∈ part ++ [c], d.1 = n) →
    part.countP (·.2 = .recovered) = cap → c.2 = .failed
  grown : ∀ last failures c, last :: (failures ++ [c]) <:+: calls → last.2 = .recovered →
    (∀ f ∈ failures, f.2 = .failed) → last.1 < c.1 → c.2 = .recovered

/-! ### The two columns -/

/-- `recovery_attempts` and `recovery_marker`. -/
structure Counters where
  attempts : Int32
  marker : Option ℕ

def Row.counters (r : Row) : Counters := ⟨r.recoveryAttempts, r.recoveryMarker⟩

/-- One call, at the given number of checkpoints. -/
def Counters.call (cap : Int32) (s : Counters) (n : ℕ) : RecoveryOutcome × Counters :=
  match decideRecovery s.attempts s.marker n cap true with
  | .fail => (.failed, s)
  | .recover attempt => (.recovered, ⟨attempt, some n⟩)

/-- Calls at the given numbers of checkpoints. -/
def answers (cap : Int32) : Counters → List ℕ → List (ℕ × RecoveryOutcome)
  | _, [] => []
  | s, n :: ns => (n, (s.call cap n).1) :: answers cap (s.call cap n).2 ns

section Refines

variable {cfg : Settings} {db : Db} {r : Row} {now : Time}

theorem exec_counters {q : Sql} (hq : ∀ attempt marker, q ≠ .markForRecovery attempt marker)
    (hr : db.row = some r) : (q.exec now db).2.row.map Row.counters = some r.counters := by
  cases q with
  | markForRecovery attempt marker => exact (hq attempt marker rfl).elim
  | updateInstanceStatus status started =>
    cases started <;> simp [Sql.exec, Db.updateRow, hr, Row.updateStatus, Row.counters]
  | completeInstance p =>
    simp only [Sql.exec, hr]
    split <;> simp [hr, Row.complete, Row.counters]
  | claimSleepingInstance =>
    simp only [Sql.exec, hr]
    split <;> simp [hr, Row.counters]
  | _ => simp [Sql.exec, Db.updateRow, hr, Row.counters]

theorem runSql_recover {attempt : Int32} (hr : db.row = some r) (h : decideRecovery
      r.recoveryAttempts r.recoveryMarker db.checkpoints.length cfg.maxAutoRestarts cfg.autoRecover
      = .recover attempt) :
    runSql now (recoverOrFail cfg) db = some (.recovered,
      db.updateRow fun r => r.markForRecovery now attempt db.checkpoints.length) := by
  simp only [recoverOrFail, sql, Prog.ask, bind, Prog.bind, runSql, Sql.exec, hr, Option.elim_some,
    Option.bind, h, pure]

theorem runSql_fail (hr : db.row = some r) (h : decideRecovery
      r.recoveryAttempts r.recoveryMarker db.checkpoints.length cfg.maxAutoRestarts cfg.autoRecover
      = .fail) :
    ∃ p, runSql now (recoverOrFail cfg) db
      = some (.failed, ((Sql.completeInstance p).exec now db).2) := by
  refine ⟨{
    status := .failed
    guard := .onlyRunning
    terminationReason := some .environmentRestart }, ?_⟩
  simp only [recoverOrFail, sql, Prog.ask, bind, Prog.bind, runSql, Sql.exec, hr, Option.elim_some,
    Option.bind, h, pure]

/-- The calls of a history are answered from the two columns. -/
theorem recoveryCalls_eq {s : Counters} (hauto : cfg.autoRecover = true) (hs : List Happening)
    (h : db.row.map Row.counters = some s) :
    ∃ ns, recoveryCalls cfg db hs = answers cfg.maxAutoRestarts s ns := by
  induction hs generalizing db s with
  | nil => exact ⟨[], rfl⟩
  | cons happening hs ih =>
    obtain ⟨r, hr, rfl⟩ := Option.map_eq_some_iff.mp h
    cases happening with
    | statement now q hq => exact ih (exec_counters hq hr)
    | call now =>
      obtain ⟨db', hrun, hcounters⟩ : ∃ db', runSql now (recoverOrFail cfg) db
          = some ((r.counters.call cfg.maxAutoRestarts db.checkpoints.length).1, db')
          ∧ db'.row.map Row.counters
            = some (r.counters.call cfg.maxAutoRestarts db.checkpoints.length).2 := by
        rw [Counters.call, Row.counters, ← hauto]
        cases hd : decideRecovery r.recoveryAttempts r.recoveryMarker db.checkpoints.length
            cfg.maxAutoRestarts cfg.autoRecover with
        | fail =>
          obtain ⟨p, hrun⟩ := runSql_fail hr hd
          exact ⟨_, hrun, exec_counters (fun _ _ h => by cases h) hr⟩
        | recover attempt =>
          refine ⟨_, runSql_recover hr hd, ?_⟩
          rw [Db.updateRow, hr]
          rfl
      obtain ⟨ns, hns⟩ := ih hcounters
      refine ⟨db.checkpoints.length :: ns, ?_⟩
      rw [recoveryCalls, hrun, answers, ← hns]

end Refines

/-! ### The cap -/

section Cap

variable {cap : Int32} {s : Counters} {n : ℕ} {ns : List ℕ} {part : List (ℕ × RecoveryOutcome)}

/-- Once the instance has been recovered, its attempts are between 1 and the cap. -/
def Counters.Kept (cap : Int32) (s : Counters) : Prop :=
  ∀ m, s.marker = some m → 1 ≤ s.attempts.toInt ∧ s.attempts.toInt ≤ cap.toInt

/-- The attempts made at this number of checkpoints. -/
def Counters.spent (s : Counters) (n : ℕ) : ℤ := if s.marker = some n then s.attempts.toInt else 0

theorem Counters.Kept.spent_le (h : s.Kept cap) (hcap : 1 ≤ cap.toInt) (n : ℕ) :
    s.spent n ≤ cap.toInt := by
  unfold spent
  split
  · next hm => exact (h n hm).2
  · omega

/-- What a call does: it recovers with the attempts counted from 1 after growth and counted on
without, unless this exceeds the cap. -/
theorem Counters.call_cases (cap : Int32) (s : Counters) (n : ℕ) :
    ∃ attempt, ((∀ m ∈ s.marker, m < n) ∧ attempt = 1 ∨
        (∃ m, s.marker = some m ∧ n ≤ m) ∧ attempt = s.attempts + 1) ∧
      (cap < attempt ∧ s.call cap n = (.failed, s) ∨
        ¬ cap < attempt ∧ s.call cap n = (.recovered, ⟨attempt, some n⟩)) := by
  have hcall : ∀ attempt, decideRecovery s.attempts s.marker n cap true
        = (if cap < attempt then .fail else .recover attempt) →
      (cap < attempt ∧ s.call cap n = (.failed, s) ∨
        ¬ cap < attempt ∧ s.call cap n = (.recovered, ⟨attempt, some n⟩)) := by
    intro attempt h
    rw [Counters.call, h]
    by_cases hlt : cap < attempt <;> simp [hlt]
  cases hm : s.marker with
  | none => exact ⟨1, Or.inl ⟨by simp, rfl⟩, hcall 1 (by simp [decideRecovery, hm])⟩
  | some m =>
    by_cases hlt : m < n
    · exact ⟨1, Or.inl ⟨by simpa using hlt, rfl⟩, hcall 1 (by simp [decideRecovery, hm, hlt])⟩
    · exact ⟨_, Or.inr ⟨⟨m, rfl, Nat.not_lt.mp hlt⟩, rfl⟩,
        hcall _ (by simp [decideRecovery, hm, hlt])⟩

/-- **A recovery is counted** at its number of checkpoints, if the counter does not wrap around. -/
theorem Counters.Kept.call (hs : s.Kept cap) (hmax : cap < Int32.maxValue) (n : ℕ) :
    (s.call cap n).2.Kept cap ∧
      (s.spent n + if (s.call cap n).1 = .recovered then 1 else 0) ≤ (s.call cap n).2.spent n := by
  obtain ⟨attempt, hattempt, ⟨-, hcall⟩ | ⟨hle, hcall⟩⟩ := s.call_cases cap n
  · rw [hcall]
    exact ⟨hs, by simp⟩
  · have hle := Int32.le_iff_toInt_le.mp (Int32.not_lt.mp hle)
    rw [hcall, if_pos rfl, spent, spent, if_pos rfl]
    suffices hcount : 1 ≤ attempt.toInt ∧
        (if s.marker = some n then s.attempts.toInt else 0) + 1 ≤ attempt.toInt from
      ⟨fun _ _ => ⟨hcount.1, hle⟩, hcount.2⟩
    obtain ⟨hm, rfl⟩ | ⟨⟨m, hm, -⟩, rfl⟩ := hattempt
    · have hne : s.marker ≠ some n := fun h => Nat.lt_irrefl n (hm n h)
      rw [if_neg hne]
      exact ⟨Int.le_refl 1, Int.le_refl 1⟩
    · obtain ⟨hpos, hbelow⟩ := hs m hm
      have hsucc : (s.attempts + 1).toInt = s.attempts.toInt + 1 := by
        have hmax : cap.toInt < 2 ^ 31 - 1 := Int32.lt_iff_toInt_lt.mp hmax
        rw [Int32.toInt_add]
        show (s.attempts.toInt + 1).bmod (2 ^ 32) = _
        rw [Int.bmod_eq_of_le] <;> omega
      rw [hsucc]
      split <;> omega

/-- The recoveries at one number of checkpoints fit into what is left of the cap. -/
theorem countP_recovered_le (hcap : 1 ≤ cap.toInt) (hmax : cap < Int32.maxValue) (hs : s.Kept cap)
    (hpart : part <+: answers cap s ns) (hn : ∀ c ∈ part, c.1 = n) :
    part.countP (·.2 = .recovered) + s.spent n ≤ cap.toInt := by
  induction ns generalizing s part with
  | nil =>
    rw [prefix_nil.mp hpart]
    simpa using hs.spent_le hcap n
  | cons k ns ih =>
    cases part with
    | nil => simpa using hs.spent_le hcap n
    | cons c part =>
      obtain ⟨rfl, htail⟩ := cons_prefix_cons.mp hpart
      obtain rfl : k = n := hn _ (mem_cons_self ..)
      obtain ⟨hkept, hcount⟩ := hs.call hmax k
      have hle := ih hkept htail fun d hd => hn d (mem_cons_of_mem _ hd)
      rw [countP_cons]
      simp only [decide_eq_true_eq]
      push_cast
      omega

/-- After growth the first call answers `Recovered`, whatever has failed before it. -/
theorem recovered_of_grown (hcap : 1 ≤ cap.toInt) {m : ℕ} (hm : s.marker = some m)
    {failures : List (ℕ × RecoveryOutcome)} {c : ℕ × RecoveryOutcome}
    (h : failures ++ [c] <+: answers cap s ns) (hf : ∀ f ∈ failures, f.2 = .failed) (hc : m < c.1) :
    c.2 = .recovered := by
  induction failures generalizing ns with
  | nil =>
    cases ns with
    | nil => simp [answers] at h
    | cons k ns =>
      obtain ⟨rfl, -⟩ := cons_prefix_cons.mp h
      obtain ⟨attempt, ⟨-, rfl⟩ | ⟨⟨m', hm', hle⟩, -⟩, hcall⟩ := s.call_cases cap k
      · have hnot : ¬ cap < 1 := fun h => absurd (Int32.lt_iff_toInt_lt.mp h) (Int.not_lt.mpr hcap)
        exact congrArg Prod.fst (hcall.resolve_left fun h => hnot h.1).2
      · obtain rfl := Option.some.inj (hm.symm.trans hm')
        exact absurd hc (Nat.not_lt.mpr hle)
  | cons f failures ih =>
    cases ns with
    | nil => simp [answers] at h
    | cons k ns =>
      obtain ⟨rfl, htail⟩ := cons_prefix_cons.mp h
      have hfailed := hf _ (mem_cons_self ..)
      obtain ⟨attempt, -, ⟨-, hcall⟩ | ⟨-, hcall⟩⟩ := s.call_cases cap k
      · rw [hcall] at htail
        exact ih htail fun g hg => hf g (mem_cons_of_mem _ hg)
      · rw [hcall] at hfailed
        cases hfailed

/-- A part of the answers begins where some counters are kept. -/
theorem exists_answers_of_infix (hmax : cap < Int32.maxValue) (hs : s.Kept cap)
    (h : part <:+: answers cap s ns) :
    ∃ s' ns', Counters.Kept cap s' ∧ part <+: answers cap s' ns' := by
  induction ns generalizing s with
  | nil => exact ⟨s, [], hs, by simpa [answers] using h⟩
  | cons k ns ih =>
    obtain hprefix | hinfix := infix_cons_iff.mp h
    · exact ⟨s, k :: ns, hs, hprefix⟩
    · exact ih (hs.call hmax k).1 hinfix

theorem capped_answers (hcap : 1 ≤ cap.toInt) (hmax : cap < Int32.maxValue) (hs : s.Kept cap) :
    Capped cap.toInt.toNat (answers cap s ns) := by
  have hatMost : ∀ part n, part <:+: answers cap s ns → (∀ c ∈ part, c.1 = n) →
      part.countP (·.2 = .recovered) ≤ cap.toInt.toNat := by
    intro part n h hn
    obtain ⟨s', ns', hs', hprefix⟩ := exists_answers_of_infix hmax hs h
    have hle := countP_recovered_le hcap hmax hs' hprefix hn
    have hpos : 0 ≤ s'.spent n := by
      unfold Counters.spent
      split
      · next hm => exact Int.le_trans (by decide) (hs' n hm).1
      · exact Int.le_refl 0
    omega
  refine ⟨hatMost, fun part n c h hn hpart => ?_, fun last failures c h hlast hf hc => ?_⟩
  · have hle := hatMost _ n h hn
    rw [countP_append, hpart] at hle
    cases hc : c.2 with
    | failed => rfl
    | recovered =>
      simp [hc] at hle
  · obtain ⟨s', ns', -, hprefix⟩ := exists_answers_of_infix hmax hs h
    cases ns' with
    | nil => simp [answers] at hprefix
    | cons k ns' =>
      obtain ⟨rfl, htail⟩ := cons_prefix_cons.mp hprefix
      refine recovered_of_grown hcap ?_ htail hf hc
      obtain ⟨attempt, -, ⟨-, hcall⟩ | ⟨-, hcall⟩⟩ := s'.call_cases cap k
      · rw [hcall] at hlast
        cases hlast
      · rw [hcall]

end Cap

/-! ### The largest cap -/

/-- Without a bound on the counter, every call answers `Recovered`. -/
theorem recoveryCalls_maxValue {cfg : Settings} (hauto : cfg.autoRecover = true)
    (hmax : cfg.maxAutoRestarts = Int32.maxValue) (k : ℕ) {db : Db} {r : Row}
    (hr : db.row = some r) : recoveryCalls cfg db (replicate k (.call 0))
      = replicate k (db.checkpoints.length, .recovered) := by
  induction k generalizing db r with
  | zero => rfl
  | succ k ih =>
    have hd : ∃ attempt, decideRecovery r.recoveryAttempts r.recoveryMarker db.checkpoints.length
        cfg.maxAutoRestarts cfg.autoRecover = .recover attempt := by
      rw [hauto, hmax]
      exact ⟨_, if_neg (Int32.not_lt.mpr (Int32.le_maxValue _))⟩
    obtain ⟨attempt, hd⟩ := hd
    rw [replicate_succ, replicate_succ, recoveryCalls, runSql_recover hr hd]
    exact congrArg _ (ih (congrArg (Option.map _) hr))

theorem not_capped_replicate {cap k n : ℕ} (h : cap < k) :
    ¬ Capped cap (replicate k (n, .recovered)) := by
  intro hcapped
  have hle := hcapped.atMost _ n infix_rfl fun c hc => by rw [eq_of_mem_replicate hc]
  rw [countP_replicate, if_pos (by simp)] at hle
  omega

def Settings.capped (cap : Int32) : Settings := { Settings.default "i" with maxAutoRestarts := cap }

/-- An instance that has been registered. -/
def registeredDb : Db := ⟨some (.registered 0), none, [], [], none, none⟩

/-- **When the crash-loop cap holds**: exactly if it is not the largest number that the counter can
reach. Nothing is above that one, and the attempts wrap around. -/
theorem crash_loop_cap_iff {cap : Int32} (hcap : 1 ≤ cap) :
    (∀ (cfg : Settings) (db : Db) (r : Row) (hs : List Happening), cfg.maxAutoRestarts = cap →
      cfg.autoRecover = true → db.row = some r → r.recoveryMarker = none →
      Capped cap.toInt.toNat (recoveryCalls cfg db hs)) ↔ cap < Int32.maxValue := by
  constructor
  · intro h
    by_contra hmax
    obtain rfl := Int32.le_antisymm (Int32.le_maxValue cap) (Int32.not_lt.mp hmax)
    have hcapped := h (.capped Int32.maxValue) registeredDb _ (replicate (2 ^ 31) (.call 0)) rfl rfl
      rfl rfl
    rw [recoveryCalls_maxValue rfl rfl _ rfl] at hcapped
    exact not_capped_replicate (by decide) hcapped
  · rintro hmax cfg db r hs rfl hauto hr hmarker
    obtain ⟨ns, hns⟩ := recoveryCalls_eq hauto hs (congrArg (Option.map Row.counters) hr)
    rw [hns]
    refine capped_answers (Int32.le_iff_toInt_le.mp hcap) hmax fun m hm => ?_
    exact absurd (hmarker.symm.trans hm) (Option.some_ne_none m).symm

/-- The cap of an Environment that is not configured. -/
theorem default_cap_holds : (1 : Int32) ≤ 5 ∧
    Capped 5 (recoveryCalls (.default "i") registeredDb (replicate 7 (.call 0))) :=
  have hcap : (1 : Int32) ≤ 5 := by decide
  ⟨hcap, (crash_loop_cap_iff hcap).mpr (by decide) _ _ _ _ rfl rfl rfl rfl⟩

/-- **With the largest cap an instance is recovered once too often.** -/
theorem largest_cap_is_exceeded : ¬ Capped (2 ^ 31 - 1)
    (recoveryCalls (.capped Int32.maxValue) registeredDb (replicate (2 ^ 31) (.call 0))) := by
  rw [recoveryCalls_maxValue rfl rfl _ rfl]
  exact not_capped_replicate (by decide)

end Runtara.Environment
