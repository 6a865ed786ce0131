/-
  A wait for a custom signal, and the requests that bring the signal.

  The run looks for the signal and then writes the row; a request stores the signal and then looks
  at the row. If a request does both between the two steps of the run, nobody sets a wake time. The
  run is followed through its stages (`Stage`), a request through its own (`Sending`), both as
  protocols that their programs keep to. The result is `wake_not_lost_iff`: what matters is the
  moment at which the run parks.
-/
import Runtara.Environment.Equiv.Step

namespace Runtara.Environment

open List

open Tasks (Prog Protocol)
open Tasks.System (calls exists_path)

/-- A guest at a wait for the signal `k`, without a deadline. -/
def waiter (k : String) : Guest InvokeExit := do
  match ← RuntimeHost.pollCustomSignal k with
  | none => pure (.suspended [.onSignal k none])
  | some _ => pure .completed

/-- The write of a run that parks on a signal. -/
def parkParams : CompleteParams where
  status := .suspended
  guard := .onlyRunning
  terminationReason := some .waitingSignal

/-! ### The stages of the run -/

/-- Where the run is. -/
inductive Stage where
  /-- before it has set its status -/
  | fresh
  /-- before it has looked for the signal -/
  | polling
  /-- it has found no signal -/
  | parking
  /-- it has suspended the row -/
  | parked
  /-- it has ended otherwise -/
  | ended
deriving DecidableEq, Repr

/-- A call of the run, with its answer, and the stage it leads to. -/
inductive Stage.Next (k : String) : Stage → (op : Op) → op.Ret → Stage → Prop
  | look (r : Option Row) : Next k .fresh (.sql .getInstance) r .fresh
  | mark : Next k .fresh (.sql (.updateInstanceStatus .running false)) () .polling
  | cut : Next k .polling .dropped true .ended
  | goOn : Next k .polling .dropped false .polling
  | signals (r : Option PendingSignal) : Next k .polling (.sql (.getPendingSignal false)) r .polling
  | found (payload : Bytes) :
    Next k .polling (.sql (.takePendingCustomSignal k none)) (some payload) .ended
  | missing : Next k .polling (.sql (.takePendingCustomSignal k none)) none .parking
  | park : Next k .parking (.sql (.completeInstance parkParams)) true .parked
  | refused : Next k .parking (.sql (.completeInstance parkParams)) false .ended
  | finish (s : Stage) (hs : s = .parked ∨ s = .ended) : Next k s .setFinished () s
  | remove (s : Stage) (hs : s = .parked ∨ s = .ended) : Next k s .removeTask () s

def Stage.protocol (k : String) : Protocol Op Op.Ret Stage where
  allowed s op := ∀ r, ∃ s', Stage.Next k s op r s'
  next := Stage.Next k

/-- The calls follow the stages from `s` to their end. -/
abbrev Stage.Runs (k : String) (s : Stage) (p : Calls Unit) : Prop :=
  p.Follows (Stage.protocol k) (fun s _ => s = .parked ∨ s = .ended) s

theorem settleRun_none_follows (cfg : Settings) (k : String) {s : Stage}
    (hs : s = .parked ∨ s = .ended) : s.Runs k (settleRun cfg none) := by
  refine ⟨fun _ => ⟨s, .finish s hs⟩, ?_⟩
  intro _ _ hnext
  cases hnext
  refine ⟨fun _ => ⟨s, .remove s hs⟩, ?_⟩
  intro _ _ hnext
  cases hnext
  exact hs

theorem waiter_follows (cfg : Settings) (k : String) :
    Stage.fresh.Runs k (runTask cfg (.invoke (waiter k))) := by
  have hended : Stage.ended.Runs k (settleRun cfg none) := settleRun_none_follows cfg k (Or.inr rfl)
  have hcut : (Stage.protocol k).allowed .polling .dropped := by
    intro dropped
    cases dropped with
    | true => exact ⟨_, .cut⟩
    | false => exact ⟨_, .goOn⟩
  refine ⟨fun r => ⟨_, .look r⟩, fun _ _ hnext => ?_⟩
  cases hnext
  refine ⟨fun _ => ⟨_, .mark⟩, fun _ _ hnext => ?_⟩
  cases hnext
  -- both statements of the poll can be cut off
  refine ⟨hcut, fun _ _ hnext => ?_⟩
  cases hnext with
  | cut => exact hended
  | goOn =>
    refine ⟨fun r => ⟨_, .signals r⟩, fun _ _ hnext => ?_⟩
    cases hnext
    refine ⟨hcut, fun _ _ hnext => ?_⟩
    cases hnext with
    | cut => exact hended
    | goOn =>
      refine ⟨fun r => ?_, fun _ _ hnext => ?_⟩
      · cases r with
        | none => exact ⟨_, .missing⟩
        | some payload => exact ⟨_, .found payload⟩
      cases hnext with
      | found payload => exact hended
      | missing =>
        refine ⟨fun r => ?_, fun _ _ hnext => ?_⟩
        · cases r with
          | true => exact ⟨_, .park⟩
          | false => exact ⟨_, .refused⟩
        cases hnext with
        | park => exact settleRun_none_follows cfg k (Or.inl rfl)
        | refused => exact hended

/-! ### The stages of a request -/

/-- Where a request is. -/
inductive Sending where
  | begun
  | storing
  | looking
  | stamping
  | gone
deriving DecidableEq, Repr

/-- The row is suspended on a signal. -/
def Row.waits (r : Row) : Bool :=
  r.status = .suspended ∧ r.terminationReason = some .waitingSignal

/-- A call of a request, with its answer, and where it leads to. -/
inductive Sending.Next (k : String) : Sending → (op : Op) → op.Ret → Sending → Prop
  | absent : Next k .begun (.sql .getInstance) none .gone
  | refused (r : Row) (hk : k.isEmpty = true) : Next k .begun (.sql .getInstance) (some r) .gone
  | present (r : Row) (hk : k.isEmpty = false) :
    Next k .begun (.sql .getInstance) (some r) .storing
  | store (payload : Bytes) (hk : k.isEmpty = false) :
    Next k .storing (.sql (.insertCustomSignal k payload)) () .looking
  | leave (r : Option Row) (h : r.any Row.waits = false) :
      Next k .looking (.sql .getInstance) r .gone
  | wake (r : Option Row) (h : r.any Row.waits = true) :
    Next k .looking (.sql .getInstance) r .stamping
  | stamp : Next k .stamping (.sql (.setInstanceSleep .now)) () .gone

def Sending.protocol (k : String) : Protocol Op Op.Ret Sending where
  allowed s op := ∀ r, ∃ s', Sending.Next k s op r s'
  next := Sending.Next k

theorem wakeSuspendedOnSignal_follows (k : String) :
    wakeSuspendedOnSignal.Follows (Sending.protocol k) (fun s _ => s = .gone) .looking := by
  refine ⟨fun r => ?_, fun r _ hnext => ?_⟩
  · cases h : Option.any Row.waits r with
    | true => exact ⟨_, .wake r h⟩
    | false => exact ⟨_, .leave r h⟩
  cases hnext with
  | leave r h =>
    cases r with
    | none => rfl
    | some r =>
      have hneg : ¬ (r.status = .suspended ∧ r.terminationReason = some .waitingSignal) :=
        of_decide_eq_false h
      show Prog.Follows _ _ _ (if _ then _ else _)
      rw [if_neg hneg]
      rfl
  | wake r h =>
    cases r with
    | none => cases h
    | some r =>
      have hpos : r.status = .suspended ∧ r.terminationReason = some .waitingSignal :=
        of_decide_eq_true h
      show Prog.Follows _ _ _ (if _ then _ else _)
      rw [if_pos hpos]
      refine ⟨fun _ => ⟨_, .stamp⟩, fun _ _ hnext => ?_⟩
      cases hnext
      rfl

theorem handleSendCustomSignal_follows (k : String) (payload : Bytes) :
    (handleSendCustomSignal k payload).Follows (Sending.protocol k) (fun s _ => s = .gone)
      .begun := by
  refine ⟨fun r => ?_, fun r _ hnext => ?_⟩
  · cases r with
    | none => exact ⟨_, .absent⟩
    | some r =>
      cases hk : k.isEmpty with
      | true => exact ⟨_, .refused r hk⟩
      | false => exact ⟨_, .present r hk⟩
  cases hnext with
  | absent => rfl
  | refused r hk =>
    show Prog.Follows _ _ _ (if k.isEmpty = true then _ else _)
    rw [if_pos hk]
    rfl
  | present r hk =>
    show Prog.Follows _ _ _ (if k.isEmpty = true then _ else _)
    rw [if_neg (by rw [hk]; exact Bool.false_ne_true)]
    refine ⟨fun _ => ⟨_, .store payload hk⟩, fun _ _ hnext => ?_⟩
    cases hnext
    exact wakeSuspendedOnSignal_follows k

theorem Op.nonempty_ret (op : Op) : Nonempty op.Ret := by
  cases op with
  | sql q => cases q <;> exact ⟨default⟩
  | _ => exact ⟨default⟩

theorem Sending.isDone_iff {k : String} {s : Sending} {p : Calls Unit}
    (h : p.Follows (Sending.protocol k) (fun s _ => s = .gone) s) :
    p.isDone = true ↔ s = .gone := by
  cases p with
  | done a => exact iff_of_true rfl h
  | call op next =>
    refine iff_of_false Bool.false_ne_true ?_
    rintro rfl
    obtain ⟨r⟩ := op.nonempty_ret
    obtain ⟨s', hnext⟩ := h.1 r
    cases hnext

/-! ### The run and the requests together -/

def Db.stores (k : String) (db : Db) : Bool := (db.customSignals.lookup k).isSome

/-- What is known of the rows in a stage. -/
def Stage.holds (k : String) : Stage → Db → Prop
  | .fresh, _ => True
  | .polling, db => ∀ r, db.row = some r → r.status = .running
  | .parking, db => (∀ r, db.row = some r → r.status = .running) ∧
      (k.isEmpty = true → db.stores k = false)
  | .parked, db => (∃ r, db.row = some r ∧ r.waits = true) ∧
      (k.isEmpty = true → db.stores k = false)
  | .ended, db => ∀ r, db.row = some r → r.status = .running

section Calls

variable {cfg : Settings} {k : String} {tag tag' : Tag} {op : Op} {choice : Choice} {r : op.Ret}
  {w w' : World} {started : List Task}

/-- A call of the run leads to what is known in the next stage. -/
theorem Stage.holds_next {s s' : Stage} (hnext : Stage.Next k s op r s') (h : s.holds k w.db)
    (hexec : exec cfg tag op choice w = some (r, tag', w', started)) :
    s'.holds k w'.db ∧ started = [] := by
  have hdone := executes_of_exec hexec
  cases hnext with
  | look r => cases hdone; exact ⟨trivial, rfl⟩
  | mark =>
    cases hdone
    refine ⟨fun r hr => ?_, rfl⟩
    obtain ⟨r', -, rfl⟩ := Option.map_eq_some_iff.mp hr
    rfl
  | cut | goOn | signals => cases hdone; exact ⟨h, rfl⟩
  | found payload =>
    obtain ⟨-, -, rfl, rfl⟩ := exec_sql cfg choice hexec
    exact ⟨h, rfl⟩
  | missing =>
    obtain ⟨hnone, -, rfl, rfl⟩ := exec_sql cfg choice hexec
    refine ⟨⟨h, fun _ => ?_⟩, rfl⟩
    have hlookup : w.db.customSignals.lookup k = none := hnone.symm
    show (w.db.customSignals.lookup k).isSome = false
    rw [hlookup]
    rfl
  | park =>
    obtain ⟨happlied, -, rfl, rfl⟩ := exec_sql cfg choice hexec
    obtain ⟨hrow, hempty⟩ := h
    cases hr : w.db.row with
    | none => simp [Sql.exec, hr] at happlied
    | some r =>
      have haccepts : r.accepts parkParams = true := by
        simp [Row.accepts, hrow r hr]
      refine ⟨⟨⟨r.complete w.now parkParams, ?_, rfl⟩, ?_⟩, rfl⟩
      · simp [Sql.exec, hr, haccepts]
      · simpa [Sql.exec, hr, haccepts, Db.stores] using hempty
  | refused =>
    obtain ⟨happlied, -, rfl, rfl⟩ := exec_sql cfg choice hexec
    obtain ⟨hrow, hempty⟩ := h
    cases hr : w.db.row with
    | none =>
      refine ⟨fun r hr' => ?_, rfl⟩
      simp [Sql.exec, hr] at hr'
    | some r => simp [Sql.exec, hr, Row.accepts, hrow r hr] at happlied
  | finish s hs => cases hdone <;> exact ⟨h, rfl⟩
  | remove s hs => cases hdone; exact ⟨h, rfl⟩

/-- A call of a request keeps what is known of the rows. -/
theorem Sending.holds_next {s : Stage} {p p' : Sending} (hnext : Sending.Next k p op r p')
    (h : s.holds k w.db) (hexec : exec cfg tag op choice w = some (r, tag', w', started)) :
    s.holds k w'.db ∧ started = [] := by
  cases hnext with
  | store payload hk =>
    obtain ⟨-, -, rfl, rfl⟩ := exec_sql cfg choice hexec
    have hno {P : Prop} (h : k.isEmpty = true) : P := by
      rw [hk] at h
      cases h
    refine ⟨?_, rfl⟩
    cases s with
    | fresh => trivial
    | polling => exact h
    | parking | parked => exact ⟨h.1, hno⟩
    | ended => exact h
  | stamp =>
    obtain ⟨-, -, rfl, rfl⟩ := exec_sql cfg choice hexec
    have hrunning (h : ∀ r, w.db.row = some r → r.status = .running) :
        ∀ r, (w.db.updateRow fun r => { r with sleepUntil := some w.now }).row = some r →
          r.status = .running := by
      intro r hr
      obtain ⟨r', hr', rfl⟩ := Option.map_eq_some_iff.mp hr
      exact h r' hr'
    refine ⟨?_, rfl⟩
    cases s with
    | fresh => trivial
    | polling => exact hrunning h
    | parking => exact ⟨hrunning h.1, h.2⟩
    | parked =>
      obtain ⟨⟨r, hr, hwaits⟩, hempty⟩ := h
      refine ⟨⟨{ r with sleepUntil := some w.now }, ?_, hwaits⟩, hempty⟩
      show w.db.row.map _ = _
      rw [hr]
      rfl
    | ended => exact hrunning h
  | _ =>
    obtain ⟨-, -, rfl, rfl⟩ := exec_sql cfg choice hexec
    exact ⟨h, rfl⟩

end Calls

def Sender (k : String) (t : Task) : Prop :=
  t.tag.kind = .customSignal ∧
    ∃ p, t.prog.Follows (Sending.protocol k) (fun p _ => p = .gone) p

variable {cfg : Settings} {k : String} {s : Stage} {c c' : Config cfg} {m : Move cfg}
  {ms : List (Move cfg)}

/-- The run in a stage, and requests. -/
structure Waiting (k : String) (s : Stage) (c : Config cfg) : Prop where
  db : s.holds k c.world.db
  tasks : ∃ run senders, c.tasks = run :: senders ∧ run.tag.kind ≠ .customSignal ∧
    run.prog.Follows (Stage.protocol k) (fun s _ => s = .parked ∨ s = .ended) s ∧
    ∀ t ∈ senders, Sender k t

/-- The signal is stored, the row has no wake time, and every request has returned. -/
def Missed (k : String) (c : Config cfg) : Prop :=
  c.world.db.row.any (fun r => r.sleepUntil = none) = true ∧ c.world.db.stores k = true ∧
    ∀ t ∈ c.tasks, t.tag.kind = .customSignal → t.prog.isDone = true

/-- A request for `k` arrives, or time goes by. -/
def Outside.sends (k : String) : Outside → Bool
  | .arrive _ (.customSignal id _) => id = k
  | .tick _ => true
  | _ => false

/-- The move is a call, or from outside comes nothing but a request for `k` or the time. -/
def Move.sends (k : String) (m : Move cfg) : Bool :=
  match m.input with
  | .outside o => o.sends k
  | .task _ _ => true

def Move.arrives (m : Move cfg) : Bool :=
  match m.input with
  | .outside (.arrive _ _) => true
  | _ => false

/-- The run parks: its write applies. -/
def Move.parks (m : Move cfg) : Bool :=
  m.statement = some (.completeInstance parkParams) ∧
    m.before.world.db.row.any fun r => r.status = .running

theorem Move.arrives_of_caller {call : Tag × Op} (h : m.caller = some call) :
    m.arrives = false := by
  obtain ⟨before, input, after⟩ := m
  cases input with
  | task i choice => rfl
  | outside o => cases h

theorem Move.parks_of_caller {tag : Tag} {op : Op} (h : m.caller = some (tag, op)) :
    m.parks = (decide (op = .sql (.completeInstance parkParams)) &&
      m.before.world.db.row.any fun r => r.status = .running) := by
  have hstatement : m.statement = op.statement := by
    rw [Move.statement, h]
    rfl
  have hop : op.statement = some (.completeInstance parkParams) ↔
      op = .sql (.completeInstance parkParams) :=
    ⟨Op.eq_sql_of_statement, fun h => by rw [h]; rfl⟩
  rw [Move.parks, hstatement, Bool.decide_and, Bool.decide_coe, decide_eq_decide.mpr hop]

theorem Move.parks_of_outside (h : m.caller = none) : m.parks = false := by
  have hstatement : m.statement = none := by
    rw [Move.statement, h]
    rfl
  rw [Move.parks, hstatement]
  rfl

theorem missed_iff {run : Task} {senders : List Task} (htasks : c.tasks = run :: senders)
    (hkind : run.tag.kind ≠ .customSignal) (hsenders : ∀ t ∈ senders, Sender k t) :
    Missed k c ↔ c.world.db.row.any (fun r => r.sleepUntil = none) = true ∧
      c.world.db.stores k = true ∧ ∀ t ∈ senders, t.prog.isDone = true := by
  unfold Missed
  rw [htasks, forall_mem_cons]
  refine and_congr_right fun _ => and_congr_right fun _ => ⟨fun h t ht => ?_, fun h => ?_⟩
  · exact h.2 t ht (hsenders t ht).1
  · exact ⟨fun hrun => absurd hrun hkind, fun t ht _ => h t ht⟩

/-- What a move does, given the stage before it and the one after it. -/
def Waiting.Moves (k : String) (s s' : Stage) (m : Move cfg) : Prop :=
  (m.parks = true ∧ s = .parking ∧ s' = .parked ∧ (Missed k m.after ↔ Missed k m.before)) ∨
  (m.parks = false ∧ (s' = .parked ↔ s = .parked) ∧
    (s = .parked → (Missed k m.after ↔ Missed k m.before ∧ m.arrives = false)))

section Step

variable {run : Task} {senders : List Task} {choice : Choice} {tag tag' : Tag} {op : Op}
  {next : op.Ret → Calls Unit} {r : op.Ret} {w : World} {started : List Task}

theorem Waiting.run_step (hdb : s.holds k m.before.world.db)
    (htasks : m.before.tasks = ⟨tag, .call op next⟩ :: senders) (hkind : tag.kind ≠ .customSignal)
    (hrun : s.Runs k (.call op next))
    (hsenders : ∀ t ∈ senders, Sender k t) (hcaller : m.caller = some (tag, op))
    (hexec : exec cfg tag op choice m.before.world = some (r, tag', w, started))
    (hafter : m.after = ⟨w, m.before.tasks.set 0 ⟨tag', next r⟩ ++ started⟩) :
    ∃ s', Waiting k s' m.after ∧ Waiting.Moves k s s' m := by
  obtain ⟨s', hnext⟩ := hrun.1 r
  obtain ⟨hdb', rfl⟩ := Stage.holds_next hnext hdb hexec
  have htasks' : m.after.tasks = ⟨tag', next r⟩ :: senders := by
    rw [hafter, htasks, append_nil]
    rfl
  have hkind' : tag'.kind ≠ .customSignal := by rwa [exec_kind hexec]
  have hworld : m.after.world = w := by rw [hafter]
  refine ⟨s', ⟨by rwa [hworld], _, senders, htasks', hkind', hrun.2 r s' hnext, hsenders⟩, ?_⟩
  have hmissed := missed_iff (k := k) htasks hkind hsenders
  have hmissed' := missed_iff (k := k) htasks' hkind' hsenders
  have hparks := Move.parks_of_caller hcaller
  have harrives := Move.arrives_of_caller hcaller
  cases hnext with
  | park =>
    obtain ⟨happlied, -, rfl, -⟩ := exec_sql cfg choice hexec
    cases hr : m.before.world.db.row with
    | none => simp [Sql.exec, hr] at happlied
    | some r =>
      have hrunning : r.status = .running := hdb.1 r hr
      refine Or.inl ⟨?_, rfl, rfl, ?_⟩
      · rw [hparks, hr]
        simp [hrunning]
      · rw [hmissed, hmissed', hworld]
        simp [Sql.exec, hr, Row.accepts, hrunning, Row.complete, Db.stores]
  | refused =>
    obtain ⟨happlied, -, rfl, -⟩ := exec_sql cfg choice hexec
    refine Or.inr ⟨?_, by decide, fun h => by cases h⟩
    rw [hparks]
    cases hr : m.before.world.db.row with
    | none => rfl
    | some r => simp [Sql.exec, hr, Row.accepts, hdb.1 r hr] at happlied
  | finish | remove =>
    refine Or.inr ⟨hparks, Iff.rfl, fun _ => ?_⟩
    rw [hmissed, hmissed', hworld, exec_db (by simp) hexec, harrives]
    simp
  | _ => exact Or.inr ⟨hparks, by decide, fun h => by cases h⟩

theorem Waiting.send_step {j : ℕ} (hdb : s.holds k m.before.world.db)
    (htasks : m.before.tasks = run :: senders) (hkind : run.tag.kind ≠ .customSignal)
    (hrun : s.Runs k run.prog)
    (hsenders : ∀ t ∈ senders, Sender k t) (hcaller : m.caller = some (tag, op))
    (htask : senders[j]? = some ⟨tag, .call op next⟩)
    (hexec : exec cfg tag op choice m.before.world = some (r, tag', w, started))
    (hafter : m.after = ⟨w, m.before.tasks.set (j + 1) ⟨tag', next r⟩ ++ started⟩) :
    ∃ s', Waiting k s' m.after ∧ Waiting.Moves k s s' m := by
  have hmem : ⟨tag, .call op next⟩ ∈ senders := mem_of_getElem? htask
  obtain ⟨hsender, p, hfollows⟩ := hsenders _ hmem
  obtain ⟨p', hnext⟩ := hfollows.1 r
  have hfollows' := hfollows.2 r p' hnext
  obtain ⟨hdb', rfl⟩ := Sending.holds_next hnext hdb hexec
  have htasks' : m.after.tasks = run :: senders.set j ⟨tag', next r⟩ := by
    rw [hafter, htasks, append_nil]
    rfl
  have hsenders' : ∀ t ∈ senders.set j ⟨tag', next r⟩, Sender k t :=
    Tasks.forall_mem_set hsenders ⟨by rw [exec_kind hexec]; exact hsender, p', hfollows'⟩
  have hworld : m.after.world = w := by rw [hafter]
  refine ⟨s, ⟨by rwa [hworld], run, _, htasks', hkind, hrun, hsenders'⟩, Or.inr ⟨?_, Iff.rfl, ?_⟩⟩
  · rw [Move.parks_of_caller hcaller]
    cases hnext <;> rfl
  · rintro rfl
    -- the request has not returned before the call, and if it has after it, it has stamped the row
    refine iff_of_false ?_ ?_
    · rw [missed_iff htasks' hkind hsenders', hworld]
      rintro ⟨hsleep, hstores, hdone⟩
      have hj : ⟨tag', next r⟩ ∈ senders.set j ⟨tag', next r⟩ :=
        mem_set (List.getElem?_eq_some_iff.mp htask).1 _
      obtain rfl : p' = .gone := (Sending.isDone_iff hfollows').mp (hdone _ hj)
      obtain ⟨⟨r', hr', hwaits⟩, hempty⟩ := hdb
      cases hnext with
      | absent =>
        obtain ⟨hnone, -⟩ := exec_sql cfg choice hexec
        rw [Sql.exec, hr'] at hnone
        cases hnone
      | refused r hk =>
        rw [hdb'.2 hk] at hstores
        cases hstores
      | leave r hleave =>
        obtain ⟨hrow, -⟩ := exec_sql cfg choice hexec
        rw [hrow, Sql.exec, hr', Option.any_some, hwaits] at hleave
        cases hleave
      | stamp =>
        obtain ⟨-, -, rfl, -⟩ := exec_sql cfg choice hexec
        simp [Sql.exec, Db.updateRow, hr'] at hsleep
    · rintro ⟨⟨-, -, hdone⟩, -⟩
      have hbefore : ⟨tag, .call op next⟩ ∈ m.before.tasks := by
        rw [htasks]
        exact mem_cons_of_mem _ hmem
      cases hdone _ hbefore hsender

theorem Waiting.outside_step {o : Outside} {ts : List Task} (hw : Waiting k s m.before)
    (hsends : o.sends k = true) (hcaller : m.caller = none) (hinput : m.input = .outside o)
    (hexec : outside cfg o m.before.world m.before.tasks = some (w, ts))
    (hafter : m.after = ⟨w, ts⟩) : Waiting k s m.after ∧ Waiting.Moves k s s m := by
  obtain ⟨run, senders, htasks, hkind, hrun, hsenders⟩ := hw.tasks
  have hparks := Move.parks_of_outside hcaller
  cases o with
  | tick d =>
    cases hexec
    have hmissed : Missed k m.after ↔ Missed k m.before := by
      unfold Missed
      rw [hafter]
    have harrives : m.arrives = false := by rw [Move.arrives, hinput]
    refine ⟨⟨by rw [hafter]; exact hw.db, run, senders, by rw [hafter]; exact htasks, hkind, hrun,
      hsenders⟩, Or.inr ⟨hparks, Iff.rfl, fun _ => ?_⟩⟩
    rw [hmissed, harrives]
    simp
  | arrive proc a =>
    cases a with
    | customSignal id payload =>
      obtain rfl : id = k := of_decide_eq_true hsends
      cases hexec
      let t : Task := ⟨{ proc := proc, kind := .customSignal }, handleSendCustomSignal id payload⟩
      have ht : Sender id t := ⟨rfl, .begun, handleSendCustomSignal_follows id payload⟩
      have hnew : m.after.tasks = run :: (senders ++ [t]) := by
        rw [hafter, htasks]
        rfl
      have hall : ∀ u ∈ senders ++ [t], Sender id u := by
        intro u hu
        rcases mem_append.mp hu with hu | hu
        · exact hsenders u hu
        · rw [mem_singleton.mp hu]
          exact ht
      have harrives : m.arrives = true := by rw [Move.arrives, hinput]
      refine ⟨⟨by rw [hafter]; exact hw.db, run, _, hnew, hkind, hrun, hall⟩,
        Or.inr ⟨hparks, Iff.rfl, fun _ => iff_of_false ?_ ?_⟩⟩
      · rw [missed_iff hnew hkind hall]
        rintro ⟨-, -, hdone⟩
        cases hdone t (mem_append_right _ (mem_singleton.mpr rfl))
      · rw [harrives]
        simp
    | _ => cases hsends
  | halt proc => cases hsends

/-- What a move does to the run and the requests: it parks the run, or it leaves it parked or not
parked. -/
theorem Waiting.step (hw : Waiting k s m.before) (hm : m.Valid)
    (hout : m.sends k = true) : ∃ s', Waiting k s' m.after ∧ Waiting.Moves k s s' m := by
  obtain ⟨run, senders, htasks, hkind, hrun, hsenders⟩ := hw.tasks
  rcases hm.cases with ⟨i, choice, tag, op, next, r, tag', w, started, hcaller, htask, hexec,
      -, hafter⟩ | ⟨o, w, ts, hcaller, hinput, hexec, hafter⟩
  · rw [htasks] at htask
    cases i with
    | zero =>
      obtain rfl : run = ⟨tag, .call op next⟩ := Option.some.inj htask
      exact Waiting.run_step hw.db htasks hkind hrun hsenders hcaller hexec hafter
    | succ j => exact Waiting.send_step hw.db htasks hkind hrun hsenders hcaller htask hexec hafter
  · rw [Move.sends, hinput] at hout
    exact ⟨s, Waiting.outside_step hw hout hcaller hinput hexec hafter⟩

end Step

/-! ### Whole runs -/

/-- The row waits for a signal that is stored, and has no wake time. -/
def Db.wakeLost (k : String) (db : Db) : Bool :=
  (db.row.any fun r => r.waits ∧ r.sleepUntil = none) ∧ db.stores k

/-- Once all have returned, the wake is lost if the row is parked and the signal missed. -/
theorem Waiting.wakeLost_iff (hw : Waiting k s c) (hdone : ∀ t ∈ c.tasks, t.prog.isDone = true) :
    c.world.db.wakeLost k = true ↔ s = .parked ∧ Missed k c := by
  obtain ⟨⟨tag, prog⟩, senders, htasks, -, hrun, -⟩ := hw.tasks
  have hdb := hw.db
  cases prog with
  | call op next => cases hdone ⟨tag, .call op next⟩ (by rw [htasks]; exact mem_cons_self)
  | done a =>
    have hended : s = .parked ∨ s = .ended := hrun
    rcases hended with rfl | rfl
    · obtain ⟨⟨r, hr, hwaits⟩, -⟩ := hdb
      simp only [Db.wakeLost, Missed, hr, Option.any_some, hwaits, decide_eq_true_eq, true_and]
      exact and_congr_right fun _ => (and_iff_left fun t ht _ => hdone t ht).symm
    · refine iff_of_false ?_ (by simp)
      intro hlost
      obtain ⟨hrow, -⟩ := of_decide_eq_true hlost
      obtain ⟨r, hr, hwaits⟩ := (Option.any_eq_true _ _).mp hrow
      have hsuspended : r.status = .suspended := (of_decide_eq_true (of_decide_eq_true hwaits).1).1
      have hrunning := hdb r hr
      rw [hsuspended] at hrunning
      cases hrunning

theorem wakeLost_iff_of_parked (h : (environment cfg).Path c ms c') (hw : Waiting k .parked c)
    (hout : ∀ m ∈ ms, m.sends k = true)
    (hdone : ∀ t ∈ c'.tasks, t.prog.isDone = true) :
    (∀ m ∈ ms, m.parks = false) ∧
      (c'.world.db.wakeLost k = true ↔ Missed k c ∧ ∀ m ∈ ms, m.arrives = false) := by
  induction h with
  | nil => simpa using hw.wakeLost_iff hdone
  | @cons c d c'' i ms hstep hpath ih =>
    let m : Move cfg := ⟨c, i, d⟩
    obtain ⟨s', hw', hmoves⟩ := Waiting.step (m := m) hw hstep (hout m mem_cons_self)
    rcases hmoves with ⟨-, hs, -⟩ | ⟨hparks, hs, hmissed⟩
    · cases hs
    · obtain rfl : s' = .parked := hs.mpr rfl
      obtain ⟨hnone, hlost⟩ := ih hw' (fun m hm => hout m (mem_cons_of_mem _ hm)) hdone
      refine ⟨forall_mem_cons.mpr ⟨hparks, hnone⟩, ?_⟩
      have hm : Missed k d ↔ Missed k c ∧ m.arrives = false := hmissed rfl
      rw [hlost, hm, forall_mem_cons, and_assoc]

theorem wakeLost_iff_of_not_parked (h : (environment cfg).Path c ms c') (hw : Waiting k s c)
    (hs : s ≠ .parked) (hout : ∀ m ∈ ms, m.sends k = true)
    (hdone : ∀ t ∈ c'.tasks, t.prog.isDone = true) :
    c'.world.db.wakeLost k = true ↔ ∃ pre m post, ms = pre ++ m :: post ∧ m.parks = true ∧
      Missed k m.before ∧ ∀ m' ∈ post, m'.arrives = false := by
  induction h generalizing s with
  | nil =>
    rw [hw.wakeLost_iff hdone]
    refine iff_of_false (fun h => hs h.1) ?_
    rintro ⟨pre, m, post, heq, -⟩
    simp at heq
  | @cons c d c'' i ms hstep hpath ih =>
    let m : Move cfg := ⟨c, i, d⟩
    have hrest : ∀ m ∈ ms, Move.sends k m = true := fun m hm => hout m (mem_cons_of_mem _ hm)
    obtain ⟨s', hw', hmoves⟩ := Waiting.step (m := m) hw hstep (hout m mem_cons_self)
    rcases hmoves with ⟨hparks, -, rfl, hmissed⟩ | ⟨hparks, hiff, -⟩
    · -- the run parks with this move, and with no later one
      obtain ⟨hnone, hlost⟩ := wakeLost_iff_of_parked hpath hw' hrest hdone
      have hm : Missed k d ↔ Missed k c := hmissed
      rw [hlost, hm]
      constructor
      · rintro ⟨hmissed, hquiet⟩
        exact ⟨[], m, ms, rfl, hparks, hmissed, hquiet⟩
      · rintro ⟨pre, m', post, heq, hparks', hmissed', hquiet⟩
        cases pre with
        | nil =>
          obtain ⟨rfl, rfl⟩ := List.cons.inj heq
          exact ⟨hmissed', hquiet⟩
        | cons m'' pre =>
          obtain ⟨-, hms⟩ := List.cons.inj heq
          have hmem : m' ∈ ms := hms ▸ mem_append_right _ mem_cons_self
          rw [hnone m' hmem] at hparks'
          cases hparks'
    · rw [ih hw' (fun h => hs (hiff.mp h)) hrest hdone]
      constructor
      · rintro ⟨pre, m', post, rfl, hm'⟩
        exact ⟨m :: pre, m', post, rfl, hm'⟩
      · rintro ⟨pre, m', post, heq, hm'⟩
        cases pre with
        | nil =>
          obtain ⟨rfl, -⟩ := List.cons.inj heq
          rw [hparks] at hm'
          cases hm'.1
        | cons m'' pre =>
          obtain ⟨-, rfl⟩ := List.cons.inj heq
          exact ⟨pre, m', post, rfl, hm'⟩

/-- **A wake is lost exactly if all requests have returned when the run parks**, one of them has
stored the signal, the row has no wake time, and no request follows. -/
theorem wake_not_lost_iff {w : World} {p l : ℕ}
    (h : (environment cfg).Path
      ⟨w, [⟨{ proc := p, kind := .run l }, runTask cfg (.invoke (waiter k))⟩]⟩ ms c')
    (hout : ∀ m ∈ ms, m.sends k = true)
    (hdone : ∀ t ∈ c'.tasks, t.prog.isDone = true) :
    c'.world.db.wakeLost k = false ↔ ∀ pre m post, ms = pre ++ m :: post → m.parks = true →
      Missed k m.before → ∃ m' ∈ post, m'.arrives = true := by
  have hw : Waiting k .fresh
      (⟨w, [⟨{ proc := p, kind := .run l }, runTask cfg (.invoke (waiter k))⟩]⟩ : Config cfg) :=
    ⟨trivial, _, [], rfl, nofun, waiter_follows cfg k, nofun⟩
  rw [← Bool.not_eq_true, wakeLost_iff_of_not_parked h hw nofun hout hdone]
  constructor
  · intro hnone pre m post heq hparks hmissed
    by_contra hno
    refine hnone ⟨pre, m, post, heq, hparks, hmissed, fun m' hm' => ?_⟩
    exact Bool.eq_false_iff.mpr fun harrives => hno ⟨m', hm', harrives⟩
  · rintro hall ⟨pre, m, post, heq, hparks, hmissed, hquiet⟩
    obtain ⟨m', hm', harrives⟩ := hall pre m post heq hparks hmissed
    rw [hquiet m' hm'] at harrives
    cases harrives

/-- A launched run of a guest that waits for the signal `k`. -/
def waitingConfig (cfg : Settings) (k : String) : Config cfg :=
  ⟨{ World.initial with db := { World.initial.db with row := some (.registered 0) } },
    [⟨{ proc := 0, kind := .run 0 }, runTask cfg (.invoke (waiter k))⟩]⟩

/-- The inputs of the run, up to its poll of the signal. -/
def waitInputs : List (environment (.default "i")).Input :=
  flatten [calls 2 0 .yes, requestInputs 2 0]

/-- **A wake is lost.** The run finds no signal; a request stores one and finds the row running;
then the run parks. -/
theorem wake_lost_between_poll_and_park :
    ∃ (ms : List (Move (.default "i"))) (c' : Config (.default "i")),
      (environment (.default "i")).Path (waitingConfig (.default "i") "k") ms c' ∧
      (∀ m ∈ ms, m.sends "k" = true) ∧
      (∀ t ∈ c'.tasks, t.prog.isDone = true) ∧ c'.world.db.wakeLost "k" = true := by
  exact exists_path _ [waitInputs, [.outside (.arrive 0 (.customSignal "k" [1]))], calls 3 1 .yes,
    calls 3 0 .yes] (by decide +kernel)

/-- The request comes after the park. -/
theorem wake_not_lost_after_park :
    ∃ (ms : List (Move (.default "i"))) (c' : Config (.default "i")),
      (environment (.default "i")).Path (waitingConfig (.default "i") "k") ms c' ∧ ms.length = 14 ∧
      (c'.world.db.wakeLost "k" = false ↔ ∀ pre m post, ms = pre ++ m :: post → m.parks = true →
        Missed "k" m.before → ∃ m' ∈ post, m'.arrives = true) := by
  obtain ⟨ms, c', hpath, hlength, hout, hdone⟩ :
      ∃ ms c', (environment (.default "i")).Path (waitingConfig (.default "i") "k") ms c' ∧
        ms.length = 14 ∧ (∀ m ∈ ms, Move.sends "k" m = true) ∧
        ∀ t ∈ c'.tasks, t.prog.isDone = true :=
    exists_path _ [waitInputs, calls 3 0 .yes, [.outside (.arrive 0 (.customSignal "k" [1]))],
      calls 4 1 .yes] (by decide +kernel)
  exact ⟨ms, c', hpath, hlength, wake_not_lost_iff hpath hout hdone⟩

end Runtara.Environment
