/-
  Checkpoints that stay as they were reported.

  A checkpoint request reads, saves and replies in three statements, and a sleep saves without a
  look. A reported state is therefore kept only as long as no two requests write a key at the same
  time with different states and no sleep writes a key that has another state
  (`reported_checkpoints_stay`); two requests that read before either saves are both told that
  their state is stored (`overlapping_checkpoints`). Retry attempts do no harm: on a conflict they
  leave the state alone.
-/
import Runtara.Environment.Checkpoints
import Runtara.Environment.Equiv.Step

namespace Runtara.Environment

open List

open Tasks (Prog Protocol)
open Tasks.System (calls)

namespace CellMove

/-- When a request arrives that may save a state, no request in flight may save another one under
its key; and unless the request looks at what is stored, nothing else is stored there. -/
def admitted (m : CellMove) : Bool :=
  match m.input with
  | .outside (.arrive request) =>
    request.writes.all fun cell =>
      (m.before.tasks.all fun t => t.prog.isDone || t.tag.request.writes.all fun other =>
        other.1 ≠ cell.1 ∨ other.2 = cell.2) &&
      (!request.unconditional ||
        (m.before.world.db.checkpoints.lookup cell.1).all fun stored => stored = cell.2)
  | _ => true

end CellMove

/-! ### What a request may do -/

/-- A request saves only its own state and, if it looks, after it has found nothing; and it answers
with what it has loaded. -/
def CellRequest.allows (request : CellRequest) (p : CellPhase) : CellOp → Prop
  | .core (.sql (.loadCheckpoint id)) => request.reads = some id
  | .core (.sql (.saveCheckpoint id state)) =>
    request.writes = some (id, state) ∧ (request.unconditional = true ∨ p.loaded = some none)
  | .reply (.checkpoint (some response)) =>
    p.loaded = some (if response.found then some response.state else none) ∧
      (response.found = false → request.writes.isSome = true → p.saved = true)
  | .reply (.getCheckpoint found) => p.loaded = some found
  | _ => True

/-- The row of the instance is always there. -/
def CellOp.answerable : (op : CellOp) → op.Ret → Prop
  | .core (.sql .getInstance), r => r.isSome = true
  | _, _ => True

def cellProtocol (request : CellRequest) : Protocol CellOp CellOp.Ret CellPhase where
  allowed := request.allows
  next p op r p' := p' = p.after op r ∧ op.answerable r

/-- The rest of the request's program keeps to the protocol. -/
abbrev CellRequest.Obeys (request : CellRequest) (p : CellPhase)
    (prog : Prog CellOp CellOp.Ret Unit) : Prop :=
  prog.Follows (cellProtocol request) (fun _ _ => True) p

variable {r : Reply}

section Obeys

variable {request : CellRequest} {p : CellPhase}

theorem obeys_call {op : CellOp} {next : op.Ret → Prog CellOp CellOp.Ret Unit}
    (hop : request.allows p op)
    (h : ∀ r, op.answerable r → request.Obeys (p.after op r) (next r)) :
    request.Obeys p (.call op next) := by
  refine ⟨hop, ?_⟩
  rintro r _ ⟨rfl, hr⟩
  exact h r hr

theorem obeys_reply (h : request.allows p (.reply r)) : request.Obeys p (reply r) :=
  obeys_call h fun _ _ => trivial

theorem obeys_sql {α : Type} {q : Sql} {f : q.Ret → Calls α}
    {g : α → Prog CellOp CellOp.Ret Unit} (hop : request.allows p (.core (.sql q)))
    (h : ∀ r, CellOp.answerable (.core (.sql q)) r →
      request.Obeys (p.after (.core (.sql q)) r) (core (f r) >>= g)) :
    request.Obeys p (core (sql q >>= f) >>= g) :=
  obeys_call hop h

theorem checkpoint_obeys (id : String) (state : Bytes) :
    (CellRequest.checkpoint id state).Obeys {} (CellRequest.checkpoint id state).program := by
  dsimp only [CellRequest.program, handle, handleCheckpoint, pendingSignal]
  refine obeys_sql trivial fun inst hinst => ?_
  obtain ⟨r, rfl⟩ := Option.isSome_iff_exists.mp hinst
  dsimp only
  split
  · exact obeys_reply (r := .checkpoint none) trivial
  · refine obeys_sql rfl fun found _ => ?_
    cases found with
    | some existing =>
      refine obeys_sql trivial fun signal _ => obeys_sql trivial fun custom _ => ?_
      exact obeys_reply (r := .checkpoint (some _)) ⟨rfl, nofun⟩
    | none =>
      dsimp only
      split
      case isTrue hempty =>
        refine obeys_sql trivial fun signal _ => ?_
        refine obeys_reply (r := .checkpoint (some _)) ⟨rfl, fun _ hwrites => ?_⟩
        simp [CellRequest.writes, hempty] at hwrites
      case isFalse hempty =>
        refine obeys_sql ⟨by simp [CellRequest.writes, hempty], Or.inr rfl⟩ fun _ _ => ?_
        refine obeys_sql trivial fun _ _ => obeys_sql trivial fun signal _ => ?_
        refine obeys_sql trivial fun custom _ => ?_
        exact obeys_reply (r := .checkpoint (some _)) ⟨rfl, fun _ _ => rfl⟩

theorem getCheckpoint_obeys (id : String) :
    (CellRequest.getCheckpoint id).Obeys {} (CellRequest.getCheckpoint id).program := by
  refine obeys_call trivial fun inst hinst => ?_
  obtain ⟨r, rfl⟩ := Option.isSome_iff_exists.mp hinst
  exact obeys_call rfl fun found _ => obeys_reply rfl

theorem sleep_obeys (id : String) (state : Bytes) :
    (CellRequest.sleep id state).Obeys {} (CellRequest.sleep id state).program := by
  dsimp only [CellRequest.program, handle, handleSleep]
  split
  case isTrue => exact obeys_reply trivial
  case isFalse hempty =>
    refine obeys_call ⟨by simp [CellRequest.writes, hempty], Or.inl rfl⟩ fun _ _ => ?_
    exact obeys_call trivial fun _ _ => obeys_reply trivial

theorem suspend_obeys (id : String) (wakeAt : Option Time) (state : Bytes) :
    (CellRequest.suspend id wakeAt state).Obeys {}
      (CellRequest.suspend id wakeAt state).program := by
  refine obeys_call trivial fun _ _ => obeys_call ⟨rfl, Or.inl rfl⟩ fun _ _ => ?_
  refine obeys_call trivial fun _ _ => ?_
  cases wakeAt with
  | none => exact obeys_call trivial fun _ _ => obeys_reply trivial
  | some t => exact obeys_call trivial fun _ _ => obeys_call trivial fun _ _ => obeys_reply trivial

variable {k : String}

/-- The program of every request keeps to the protocol. -/
theorem CellRequest.obeys (request : CellRequest) : request.Obeys {} request.program := by
  cases request with
  | checkpoint id state => exact checkpoint_obeys id state
  | getCheckpoint id => exact getCheckpoint_obeys id
  | sleep id state => exact sleep_obeys id state
  | suspend id wakeAt state => exact suspend_obeys id wakeAt state
  | retryAttempt id attemptNumber => exact obeys_call trivial fun _ _ => obeys_reply trivial

end Obeys

/-! ### The rows -/

variable {rows : List (String × Bytes)}

theorem lookup_upsert (rows : List (String × Bytes)) (key : String) (state : Bytes) (k : String) :
    (upsert rows key state).lookup k = if k = key then some state else rows.lookup k :=
  lookup_insertCustomSignal rows key state k

/-- The record of a retry attempt changes the state of no row. -/
theorem lookup_saveRetryAttempt {state : Bytes} (id : String)
    (attemptNumber : ℤ) (h : rows.lookup k = some state) :
    (Environment.saveRetryAttempt rows id attemptNumber).lookup k = some state := by
  dsimp only [Environment.saveRetryAttempt]
  split
  · exact h
  · rename_i habsent
    rw [lookup_cons]
    split
    · rename_i hk
      rw [beq_iff_eq] at hk
      rw [← hk, h] at habsent
      exact absurd rfl habsent
    · exact h

/-- The checkpoint that the statement saves. -/
def Sql.saves : Sql → Option (String × Bytes)
  | .saveCheckpoint id state => some (id, state)
  | _ => none

theorem exec_checkpoints (q : Sql) (now : Time) (db : Db) :
    (q.exec now db).2.checkpoints =
      match q.saves with
      | some (id, state) => upsert db.checkpoints id state
      | none => db.checkpoints := by
  cases q with
  | registerInstance => dsimp only [Sql.exec, Sql.saves]; split <;> rfl
  | completeInstance | claimSleepingInstance =>
    dsimp only [Sql.exec, Sql.saves]
    split
    · split <;> rfl
    · rfl
  | _ => rfl

/-! ### What is kept -/

/-- The key and the state that a request in flight may save. -/
def CellTask.writing (t : CellTask) : Option (String × Bytes) :=
  if t.prog.isDone then none else t.tag.request.writes

/-- The request will save without another look. -/
def CellTag.committed (tag : CellTag) : Prop :=
  tag.request.unconditional = true ∨ tag.phase.loaded = some none

/-- What is known of a request. -/
structure CellTask.Kept (w : CellWorld) (t : CellTask) : Prop where
  obeys : t.tag.request.Obeys t.tag.phase t.prog
  /-- what it has saved is still stored -/
  saved : ∀ cell, CellTask.writing t = some cell → t.tag.phase.saved = true →
    w.db.checkpoints.lookup cell.1 = some cell.2
  /-- what it will save over is nothing else that has been reported -/
  committed : ∀ cell, CellTask.writing t = some cell → t.tag.committed →
    ∀ s, (cell.1, s) ∈ w.reported → s = cell.2
  known : t.tag.reported ⊆ w.reported
  /-- what it has loaded is what had been reported -/
  loaded : ∀ cell ∈ t.tag.reported, t.tag.request.reads = some cell.1 →
    ∀ l, t.tag.phase.loaded = some l → l = some cell.2

/-- Reported states are stored, and requests in flight that write one key write one state. -/
structure CellsKept (c : CellConfig) : Prop where
  row : c.world.db.row.isSome = true
  stored : ∀ cell ∈ c.world.reported, c.world.db.checkpoints.lookup cell.1 = some cell.2
  agree : ∀ t ∈ c.tasks, ∀ u ∈ c.tasks, ∀ k s s', CellTask.writing t = some (k, s) →
    CellTask.writing u = some (k, s') → s = s'
  tasks : ∀ t ∈ c.tasks, CellTask.Kept c.world t

variable {request : CellRequest} {cell : String × Bytes} {id : String}
  {next : Unit → Prog CellOp CellOp.Ret Unit}

section Kept

variable {w w' : CellWorld} {t : CellTask}

/-- A request is not disturbed as long as the reports are the same and what was stored stays. -/
theorem CellTask.Kept.of_quiet (h : CellTask.Kept w t) (hreported : w'.reported = w.reported)
    (hlookup : ∀ k s, w.db.checkpoints.lookup k = some s → w'.db.checkpoints.lookup k = some s) :
    CellTask.Kept w' t where
  obeys := h.obeys
  saved cell hcell hsaved := hlookup _ _ (h.saved cell hcell hsaved)
  committed cell hcell hcommitted := by
    rw [hreported]
    exact h.committed cell hcell hcommitted
  known := by
    rw [hreported]
    exact h.known
  loaded := h.loaded

/-- A request is not disturbed by a save, if what the two may save under one key is the same. -/
theorem CellTask.Kept.of_save (h : CellTask.Kept w t) (cell : String × Bytes)
    (hreported : w'.reported = w.reported)
    (hagree : ∀ s, CellTask.writing t = some (cell.1, s) → s = cell.2)
    (hrows : w'.db.checkpoints = upsert w.db.checkpoints cell.1 cell.2) : CellTask.Kept w' t where
  obeys := h.obeys
  saved other hother hsaved := by
    rw [hrows, lookup_upsert]
    split
    · rename_i hkey
      rw [← hagree other.2 (by rw [hother, ← hkey])]
    · exact h.saved other hother hsaved
  committed other hother hcommitted := by
    rw [hreported]
    exact h.committed other hother hcommitted
  known := by
    rw [hreported]
    exact h.known
  loaded := h.loaded

/-- A request is not disturbed by a report of what it would write itself. -/
theorem CellTask.Kept.of_report (h : CellTask.Kept w t) (cell : String × Bytes)
    (hdb : w'.db = w.db) (hreported : w'.reported = cell :: w.reported)
    (hagree : ∀ s, CellTask.writing t = some (cell.1, s) → s = cell.2) : CellTask.Kept w' t where
  obeys := h.obeys
  saved := by
    rw [hdb]
    exact h.saved
  committed other hother hcommitted s hs := by
    rw [hreported, mem_cons] at hs
    rcases hs with rfl | hs
    · exact (hagree other.2 hother).symm
    · exact h.committed other hother hcommitted s hs
  known := by
    rw [hreported]
    exact subset_cons_of_subset _ h.known
  loaded := h.loaded

/-! ### One call -/

theorem CellRequest.key_of_reads (hreads : request.reads = some k)
    (hwrites : request.writes = some cell) : cell.1 = k := by
  cases request with
  | checkpoint id state =>
    dsimp only [CellRequest.reads, CellRequest.writes] at hreads hwrites
    split at hwrites
    · cases hwrites
    · cases hreads
      cases hwrites
      rfl
  | getCheckpoint id => cases hwrites
  | _ => cases hreads

theorem CellTask.writes_of_writing (h : CellTask.writing t = some cell) :
    t.tag.request.writes = some cell := by
  unfold CellTask.writing at h
  split at h
  · cases h
  · exact h

variable {tag : CellTag} {prog : Prog CellOp CellOp.Ret Unit}

section Call

variable {op : CellOp} {next : op.Ret → Prog CellOp CellOp.Ret Unit} {r : op.Ret}

theorem CellTask.Kept.call (h : CellTask.Kept w ⟨tag, .call op next⟩)
    (hphase : ∀ p : CellPhase, p.after op r = p) (hr : op.answerable r) :
    CellTask.Kept w ⟨tag, next r⟩ where
  obeys := by
    have := h.obeys.2 r _ ⟨rfl, hr⟩
    rwa [hphase] at this
  saved cell hcell := by
    have hwrites := CellTask.writes_of_writing hcell
    exact h.saved cell hwrites
  committed cell hcell := by
    have hwrites := CellTask.writes_of_writing hcell
    exact h.committed cell hwrites
  known := h.known
  loaded := h.loaded

end Call

theorem CellTask.Kept.load {next : Option Bytes → Prog CellOp CellOp.Ret Unit}
    (h : CellTask.Kept w ⟨tag, .call (.core (.sql (.loadCheckpoint id))) next⟩)
    (hstored : ∀ cell ∈ w.reported, w.db.checkpoints.lookup cell.1 = some cell.2) : CellTask.Kept w
      ⟨{ tag with phase := { tag.phase with loaded := some (w.db.checkpoints.lookup id) } },
        next (w.db.checkpoints.lookup id)⟩ where
  obeys := h.obeys.2 (w.db.checkpoints.lookup id) _ ⟨rfl, trivial⟩
  saved cell hcell := by
    have hwrites := CellTask.writes_of_writing hcell
    exact h.saved cell hwrites
  committed cell hcell hcommitted s hs := by
    have hwrites := CellTask.writes_of_writing hcell
    rcases hcommitted with hcommitted | hcommitted
    · exact h.committed cell hwrites (Or.inl hcommitted) s hs
    · -- it has found nothing, so nothing has been reported
      have hkey : cell.1 = id := CellRequest.key_of_reads h.obeys.1 hwrites
      have hnone : w.db.checkpoints.lookup id = none := Option.some.inj hcommitted
      have hsome : w.db.checkpoints.lookup cell.1 = some s := hstored _ hs
      rw [hkey, hnone] at hsome
      cases hsome
  known := h.known
  loaded cell hcell hreads l hl := by
    have hkey : id = cell.1 := Option.some.inj (h.obeys.1.symm.trans hreads)
    rw [← Option.some.inj hl, hkey]
    exact hstored cell (h.known hcell)

theorem CellTask.Kept.save {state : Bytes}
    (h : CellTask.Kept w ⟨tag, .call (.core (.sql (.saveCheckpoint id state))) next⟩)
    (hreported : w'.reported = w.reported)
    (hrows : w'.db.checkpoints = upsert w.db.checkpoints id state) :
    CellTask.Kept w' ⟨{ tag with phase := { tag.phase with saved := true } }, next ()⟩ where
  obeys := h.obeys.2 () _ ⟨rfl, trivial⟩
  saved cell hcell _ := by
    have hwrites := CellTask.writes_of_writing hcell
    obtain rfl : (id, state) = cell := Option.some.inj (h.obeys.1.1.symm.trans hwrites)
    rw [hrows, lookup_upsert, if_pos rfl]
  committed cell hcell := by
    have hwrites := CellTask.writes_of_writing hcell
    rw [hreported]
    exact h.committed cell hwrites
  known := by
    rw [hreported]
    exact h.known
  loaded := h.loaded

end Kept

/-! ### One move -/

variable {after : CellConfig}

section Move

variable {m : CellMove} {c : CellConfig} {i : ℕ} {tag tag' : CellTag}

/-- What is to be shown when the `i`-th request has made its call. -/
theorem CellsKept.set {op : CellOp} {next : op.Ret → Prog CellOp CellOp.Ret Unit} {w' : CellWorld}
    {p : Prog CellOp CellOp.Ret Unit} (h : CellsKept c)
    (htask : c.tasks[i]? = some ⟨tag, .call op next⟩) (htag : tag'.request = tag.request)
    (hrow : w'.db.row.isSome = true)
    (hstored : ∀ cell ∈ w'.reported, w'.db.checkpoints.lookup cell.1 = some cell.2)
    (hothers : ∀ t ∈ c.tasks, CellTask.Kept w' t) (hcaller : CellTask.Kept w' ⟨tag', p⟩) :
    CellsKept ⟨w', c.tasks.set i ⟨tag', p⟩ ++ []⟩ where
  row := hrow
  stored := hstored
  agree := by
    -- the caller may write at most what it could before
    have hold : ∀ t ∈ c.tasks.set i ⟨tag', p⟩, ∃ t' ∈ c.tasks, ∀ cell,
        CellTask.writing t = some cell → CellTask.writing t' = some cell := by
      intro t ht
      rcases mem_or_eq_of_mem_set ht with ht | rfl
      · exact ⟨t, ht, fun _ => id⟩
      · refine ⟨_, mem_of_getElem? htask, fun cell hcell => ?_⟩
        have hwrites := CellTask.writes_of_writing hcell
        rw [htag] at hwrites
        exact hwrites
    intro t ht u hu k s s' hs hs'
    rw [append_nil] at ht hu
    obtain ⟨t', ht', htt'⟩ := hold t ht
    obtain ⟨u', hu', huu'⟩ := hold u hu
    exact h.agree t' ht' u' hu' k s s' (htt' _ hs) (huu' _ hs')
  tasks := Tasks.System.forall_mem_set_append hothers hcaller nofun

theorem CellsKept.sql {q : Sql} {next : q.Ret → Prog CellOp CellOp.Ret Unit} (h : CellsKept c)
    (htask : c.tasks[i]? = some ⟨tag, .call (.core (.sql q)) next⟩) :
    let res := q.exec c.world.now c.world.db
    let tag' := { tag with phase := tag.phase.after (.core (.sql q)) res.1 }
    CellsKept ⟨{ c.world with db := res.2 }, c.tasks.set i ⟨tag', next res.1⟩ ++ []⟩ := by
  intro res tag'
  have hrow := exec_row_isSome q c.world.now h.row
  have hrows := exec_checkpoints q c.world.now c.world.db
  have hkept := h.tasks _ (mem_of_getElem? htask)
  cases hq : q.saves with
  | some cell =>
    obtain ⟨id, state⟩ := cell
    obtain rfl : q = .saveCheckpoint id state := by
      cases q with
      | saveCheckpoint id' state' =>
        obtain ⟨rfl, rfl⟩ := Prod.mk.inj (Option.some.inj hq)
        rfl
      | _ => cases hq
    replace hrows : res.2.checkpoints = upsert c.world.db.checkpoints id state := hrows
    have hwriting := hkept.obeys.1.1
    refine h.set htask rfl hrow ?_ ?_ (hkept.save rfl hrows)
    · intro cell hcell
      rw [hrows, lookup_upsert]
      split
      · rename_i hkey
        obtain ⟨k, s⟩ := cell
        obtain rfl : k = id := hkey
        rw [hkept.committed (k, state) hwriting hkept.obeys.1.2 s hcell]
      · exact h.stored cell hcell
    · intro t ht
      refine (h.tasks t ht).of_save (id, state) rfl (fun s hs => ?_) hrows
      exact h.agree t ht _ (mem_of_getElem? htask) id s state hs hwriting
  | none =>
    rw [hq] at hrows
    have hothers : ∀ t, CellTask.Kept c.world t →
        CellTask.Kept { c.world with db := (q.exec c.world.now c.world.db).2 } t := by
      intro t ht
      refine ht.of_quiet rfl fun k s hs => ?_
      rw [hrows]
      exact hs
    refine h.set htask rfl hrow ?_ (fun t ht => hothers t (h.tasks t ht)) (hothers _ ?_)
    · intro cell hcell
      rw [hrows]
      exact h.stored cell hcell
    · cases q with
      | loadCheckpoint id => exact hkept.load h.stored
      | saveCheckpoint id state => cases hq
      | getInstance => exact hkept.call (fun _ => rfl) h.row
      | _ => exact hkept.call (fun _ => rfl) trivial

theorem CellsKept.retryAttempt {attemptNumber : ℤ} (h : CellsKept c)
    (htask : c.tasks[i]? = some ⟨tag, .call (.saveRetryAttempt id attemptNumber) next⟩) :
    let db := { c.world.db with
      checkpoints := Environment.saveRetryAttempt c.world.db.checkpoints id attemptNumber }
    CellsKept ⟨{ c.world with db }, c.tasks.set i ⟨tag, next ()⟩ ++ []⟩ := by
  intro db
  have hkept := h.tasks _ (mem_of_getElem? htask)
  have hothers : ∀ t, CellTask.Kept c.world t → CellTask.Kept { c.world with db } t :=
    fun t ht => ht.of_quiet rfl fun k s hs => lookup_saveRetryAttempt id attemptNumber hs
  refine h.set htask rfl h.row ?_ (fun t ht => hothers t (h.tasks t ht))
    (hothers _ (hkept.call (fun _ => rfl) trivial))
  intro cell hcell
  exact lookup_saveRetryAttempt id attemptNumber (h.stored cell hcell)

theorem CellRequest.saved_of_reports {p : CellPhase} (hallows : request.allows p (.reply r))
    (h : request.reports r = some cell) : request.writes = some cell ∧ p.saved = true := by
  cases request with
  | checkpoint id state =>
    cases r with
    | checkpoint response =>
      cases response with
      | none => cases h
      | some response =>
        dsimp only [CellRequest.reports] at h
        split at h
        · cases h
        · rename_i hnot
          rw [Bool.not_eq_true, Bool.or_eq_false_iff] at hnot
          have hwrites : (CellRequest.checkpoint id state).writes = some cell := by
            rw [← h]
            simp [CellRequest.writes, hnot.2]
          exact ⟨hwrites, hallows.2 hnot.1 (by rw [hwrites]; rfl)⟩
    | _ => cases h
  | _ => cases h

theorem CellsKept.reply (h : CellsKept c)
    (htask : c.tasks[i]? = some ⟨tag, .call (.reply r) next⟩) :
    CellsKept ⟨{ c.world with reported := (tag.request.reports r).toList ++ c.world.reported },
      c.tasks.set i ⟨tag, next ()⟩ ++ []⟩ := by
  have hmem := mem_of_getElem? htask
  have hkept := h.tasks _ hmem
  have hnext : CellTask.Kept c.world ⟨tag, next ()⟩ := hkept.call (fun _ => rfl) trivial
  cases hreports : tag.request.reports r with
  | none => exact h.set htask rfl h.row h.stored h.tasks hnext
  | some cell =>
    obtain ⟨hwrites, hsaved⟩ := CellRequest.saved_of_reports hkept.obeys.1 hreports
    refine h.set htask rfl h.row ?_ ?_ ?_
    · intro cell' hcell'
      rcases mem_cons.mp hcell' with rfl | hcell'
      · exact hkept.saved _ hwrites hsaved
      · exact h.stored cell' hcell'
    · intro t ht
      refine (h.tasks t ht).of_report cell rfl rfl fun s hs => ?_
      exact h.agree t ht _ hmem cell.1 s cell.2 hs hwrites
    · refine hnext.of_report cell rfl rfl fun s hs => ?_
      have hs := CellTask.writes_of_writing hs
      exact (Prod.mk.inj (Option.some.inj (hwrites.symm.trans hs))).2.symm

/-- What `admitted` says of a request that may save a state. -/
theorem CellMove.of_admitted (h : CellMove.admitted ⟨c, .outside (.arrive request), after⟩ = true)
    (hcell : request.writes = some cell) :
    (∀ t ∈ c.tasks, ∀ s, CellTask.writing t = some (cell.1, s) → s = cell.2) ∧
      (request.unconditional = true →
        ∀ s, c.world.db.checkpoints.lookup cell.1 = some s → s = cell.2) := by
  dsimp only [CellMove.admitted] at h
  rw [hcell, Option.all_some, Bool.and_eq_true, all_eq_true, Bool.or_eq_true] at h
  obtain ⟨htasks, hrow⟩ := h
  constructor
  · intro t ht s hs
    have hwrites := CellTask.writes_of_writing hs
    have hdone : t.prog.isDone = false := by
      unfold CellTask.writing at hs
      split at hs
      · cases hs
      · exact (Bool.not_eq_true _).mp ‹_›
    have hother := htasks t ht
    rw [hdone, hwrites, Bool.false_or, Option.all_some] at hother
    exact (of_decide_eq_true hother).resolve_left fun hne => hne rfl
  · intro hunconditional s hs
    rw [hunconditional, hs] at hrow
    exact of_decide_eq_true (hrow.resolve_left (by decide))

theorem CellsKept.arrive (h : CellsKept c)
    (hadmitted : CellMove.admitted ⟨c, .outside (.arrive request), after⟩ = true) :
    CellsKept ⟨c.world, c.tasks ++ [⟨⟨request, c.world.reported, {}⟩, request.program⟩]⟩ where
  row := h.row
  stored := h.stored
  agree := by
    intro t ht u hu k s s' hs hs'
    rcases mem_append.mp ht with ht | ht <;> rcases mem_append.mp hu with hu | hu
    · exact h.agree t ht u hu k s s' hs hs'
    · obtain rfl := mem_singleton.mp hu
      exact (CellMove.of_admitted hadmitted (CellTask.writes_of_writing hs')).1 t ht s hs
    · obtain rfl := mem_singleton.mp ht
      exact ((CellMove.of_admitted hadmitted (CellTask.writes_of_writing hs)).1 u hu s' hs').symm
    · obtain rfl := mem_singleton.mp ht
      obtain rfl := mem_singleton.mp hu
      exact (Prod.mk.inj (Option.some.inj (hs.symm.trans hs'))).2
  tasks := by
    refine Tasks.forall_mem_concat h.tasks ⟨request.obeys, nofun, ?_, List.Subset.refl _, nofun⟩
    intro cell hcell hcommitted s hs
    have hwrites := CellTask.writes_of_writing hcell
    have hunconditional : request.unconditional = true := hcommitted.resolve_right nofun
    exact (CellMove.of_admitted hadmitted hwrites).2 hunconditional s (h.stored _ hs)

theorem CellMove.kept (hm : m.Valid) (hadmitted : CellMove.admitted m = true)
    (h : CellsKept m.before) : CellsKept m.after := by
  rcases hm.cases with ⟨i, choice, tag, op, next, r, tag', w, started, -, htask, hexec,
      -, hafter⟩ | ⟨o, w, ts, -, hinput, hout, hafter⟩
  · rw [hafter]
    cases op with
    | core op =>
      cases op with
      | sql q =>
        cases hexec
        exact h.sql htask
      | _ => cases hexec
    | saveRetryAttempt id attemptNumber =>
      cases hexec
      exact h.retryAttempt htask
    | reply r =>
      cases hexec
      exact h.reply htask
  · rw [hafter]
    obtain ⟨before, input, after⟩ := m
    obtain rfl : input = .outside o := hinput
    cases o with
    | arrive request =>
      cases hout
      exact h.arrive hadmitted
    | elsewhere row signal customSignals =>
      cases hout
      exact ⟨rfl, h.stored, h.agree, fun t ht => (h.tasks t ht).of_quiet rfl fun _ _ => id⟩
    | tick d =>
      cases hout
      exact ⟨h.row, h.stored, h.agree, fun t ht => (h.tasks t ht).of_quiet rfl fun _ _ => id⟩

theorem CellMove.honest_of_kept (h : CellsKept m.before) : CellMove.honest m = true := by
  unfold CellMove.honest
  split
  case h_2 => rfl
  case h_1 tag r hcaller =>
    obtain ⟨next, ht⟩ := Tasks.System.Move.exists_mem_of_caller hcaller
    have hkept := h.tasks _ ht
    rw [all_eq_true]
    intro cell hcell
    refine decide_eq_true ?_
    by_cases hreads : tag.request.reads = some cell.1
    · right
      have hloaded := hkept.loaded cell hcell hreads
      cases r with
      | done => rfl
      | getCheckpoint found => exact decide_eq_true (hloaded found hkept.obeys.1)
      | checkpoint response =>
        cases response with
        | none => rfl
        | some response =>
          have hstate := hloaded _ hkept.obeys.1.1
          split at hstate
          · exact decide_eq_true ⟨‹_›, Option.some.inj hstate⟩
          · cases hstate
    · exact Or.inl hreads

end Move

/-! ### Whole runs -/

/-- **What has been reported as stored is what every later request for its key is answered with, in
every run in which requests that write one key at the same time write one state, and a request that
does not look writes no key that has another state.** -/
theorem reported_checkpoints_stay {db : Db} {c : CellConfig} {ms : List CellMove}
    (h : checkpointCells.Path (restingCells db) ms c) (hrow : db.row.isSome = true)
    (hadmitted : ∀ m ∈ ms, CellMove.admitted m = true) : ∀ m ∈ ms, CellMove.honest m = true := by
  have hstart : CellsKept (restingCells db) := ⟨hrow, nofun, nofun, nofun⟩
  have hinv := h.invariant hadmitted hstart fun m hm hok hbefore => CellMove.kept hm hok hbefore
  exact fun m hm => CellMove.honest_of_kept (hinv.2 m hm).1

/-- The rows of an instance that is running and has no checkpoints. -/
def runningDb : Db := ⟨some { Row.registered 0 with status := .running }, none, [], [], none, none⟩

/-- A checkpoint that is saved, and read back. -/
theorem reported_checkpoints_stay_saved :
    ∃ ms c, ms.length = 12 ∧ checkpointCells.Path (restingCells runningDb) ms c ∧
      (∀ m ∈ ms, CellMove.admitted m = true) ∧ c.world.reported = [("k", [1])] ∧
      ∀ m ∈ ms, CellMove.honest m = true := by
  obtain ⟨ms, c, hpath, hlength, hadmitted, hreported⟩ :
      ∃ ms c, checkpointCells.Path (restingCells runningDb) ms c ∧ ms.length = 12 ∧
        (∀ m ∈ ms, CellMove.admitted m = true) ∧ c.world.reported = [("k", [1])] :=
    checkpointCells.exists_path [[.outside (.arrive (.checkpoint "k" [1]))], calls 7 0 (),
      [.outside (.arrive (.getCheckpoint "k"))], calls 3 1 ()] (by decide +kernel)
  exact ⟨ms, c, hlength, hpath, hadmitted, hreported, reported_checkpoints_stay hpath rfl hadmitted⟩

/-- **Two overlapping checkpoint requests are both told that their state is stored.** The first one
is answered before the second one saves; a later read finds the state of the second. -/
theorem overlapping_checkpoints :
    ∃ ms c, checkpointCells.Path (restingCells runningDb) ms c ∧
      ("k", [1]) ∈ c.world.reported ∧ ∃ m ∈ ms, CellMove.honest m = false := by
  -- both look before either saves
  exact checkpointCells.exists_path [[.outside (.arrive (.checkpoint "k" [1]))],
    [.outside (.arrive (.checkpoint "k" [2]))], calls 2 0 (), calls 2 1 (), calls 5 0 (),
    calls 5 1 (), [.outside (.arrive (.getCheckpoint "k"))], calls 3 2 ()] (by decide +kernel)

end Runtara.Environment
