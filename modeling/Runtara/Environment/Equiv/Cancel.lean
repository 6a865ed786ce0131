/-
  A cancel in the signal slot.

  An instance has one row in `pending_signals`: every `insert_signal` overwrites it, and an
  acknowledgement marks whatever is in it, whichever type the guest acknowledges. A cancel that the
  guest has not been handed is therefore gone with the first such statement
  (`cancel_lost_of_displaces`). It is kept if no signal of another type and no drain arrives or is
  in flight, and the guests acknowledge only what they have been handed (`cancel_kept`): the native
  runtime does so when it looks for signals, but not at a breakpoint.
-/
import Runtara.Environment.Equiv.InFlight

namespace Runtara.Environment

open Tasks (Prog Protocol)
open Tasks.System (calls exists_path)

variable {cfg : Settings}

def Db.terminal (db : Db) : Bool := db.row.any fun r => r.status.terminal

/-- The slot holds a cancel that has not been acknowledged. -/
def Db.cancelPending (db : Db) : Bool :=
  db.signal.any fun s => s.signalType = .cancel ∧ s.acknowledged = false

/-- The statement takes a cancel out of the slot, or marks it as acknowledged. -/
def Sql.displacesCancel : Sql → Bool
  | .insertSignal signalType _ => signalType ≠ .cancel
  | .acknowledgeSignal => true
  | _ => false

/-- The move answers a lifecycle poll or a checkpoint of the guest with a cancel. -/
def Move.handsCancel (m : Move cfg) : Bool :=
  match m.statement with
  | some (.getPendingSignal true) => m.before.world.db.cancelPending
  | some (.takePendingCustomSignal _ signal) => signal.any fun s => s.signalType = .cancel
  | _ => false

/-! ### One statement, one move -/

/-- Only an insert and an acknowledgement write to the slot. -/
theorem exec_signal {q : Sql} (hins : ∀ signalType payload, q ≠ .insertSignal signalType payload)
    (hack : q ≠ .acknowledgeSignal) (now : Time) (db : Db) :
    (q.exec now db).2.signal = db.signal := by
  cases q with
  | insertSignal signalType payload => exact absurd rfl (hins signalType payload)
  | acknowledgeSignal => exact absurd rfl hack
  | registerInstance => dsimp only [Sql.exec]; split <;> rfl
  | completeInstance | claimSleepingInstance =>
    dsimp only [Sql.exec]
    split
    · split <;> rfl
    · rfl
  | _ => rfl

/-- A pending cancel stays in the slot by every statement but those that displace it. -/
theorem exec_cancelPending {db : Db} {now : Time} (q : Sql) (h : db.cancelPending = true) :
    (q.exec now db).2.cancelPending = true ↔ q.displacesCancel = false := by
  by_cases hins : ∃ signalType payload, q = .insertSignal signalType payload
  · obtain ⟨signalType, payload, rfl⟩ := hins
    simp [Sql.exec, Db.cancelPending, Sql.displacesCancel]
  · by_cases hack : q = .acknowledgeSignal
    · subst hack
      cases hslot : db.signal <;> simp [Sql.exec, Db.cancelPending, Sql.displacesCancel, hslot]
    · have hslot := exec_signal (fun s p hq => hins ⟨s, p, hq⟩) hack now db
      have hkeeps : (q.exec now db).2.cancelPending = true := by
        rw [Db.cancelPending, hslot]
        exact h
      refine iff_of_true hkeeps ?_
      cases q with
      | insertSignal signalType payload => exact absurd ⟨signalType, payload, rfl⟩ hins
      | acknowledgeSignal => exact absurd rfl hack
      | _ => rfl

/-- What is known of a cancel after the moves `done`: the instance is over, or the cancel is still
in the slot, or it has been handed out. -/
def CancelKept (done : List (Move cfg)) (c : Config cfg) : Prop :=
  c.world.db.terminal = true ∨ c.world.db.cancelPending = true ∨ ∃ m ∈ done, m.handsCancel = true

/-- A move that displaces a cancel that nobody has been handed loses it, unless the instance is
over. -/
theorem cancel_lost_of_displaces {done : List (Move cfg)} {m : Move cfg} {q : Sql} (hm : m.Valid)
    (hpending : m.before.world.db.cancelPending = true)
    (hhanded : ∀ m' ∈ done, m'.handsCancel = false) (hq : m.executes q)
    (hdis : q.displacesCancel = true) (hlive : m.after.world.db.terminal = false) :
    ¬ CancelKept (done ++ [m]) m.after := by
  rintro (hterminal | hkept | ⟨m', hm', hhands⟩)
  · rw [hlive] at hterminal
    cases hterminal
  · rcases Move.db_cases hm with ⟨q', hq', hdb⟩ | ⟨hnone, -⟩
    · obtain rfl := Move.executes_unique hq hq'
      rw [hdb, exec_cancelPending q hpending, hdis] at hkept
      cases hkept
    · exact hnone q hq
  · rcases List.mem_append.mp hm' with hm' | hm'
    · rw [hhanded m' hm'] at hhands
      cases hhands
    · -- the statements that hand out a signal displace none
      obtain rfl := List.mem_singleton.mp hm'
      rw [Move.handsCancel, hq] at hhands
      cases q with
      | insertSignal | acknowledgeSignal => cases hhands
      | _ => cases hdis

/-! ### Guests that acknowledge what they have been handed -/

def Request.acknowledges : Request → Bool
  | .signalAck _ acknowledged => acknowledged
  | _ => false

/-- The guest is handed a lifecycle signal with the answer. -/
def Request.hands : (request : Request) → request.Answer → Bool
  | .pollSignals none, response => response.signal.isSome
  | .checkpoint _ _, response => response.any fun r => r.pendingSignal.isSome
  | _, _ => false

/-- As long as the guest has been handed no signal, it acknowledges none. -/
def ackProtocol : Protocol Request Request.Answer Unit where
  allowed _ request := request.acknowledges = false
  next _ request answer _ := request.hands answer = false

/-- The guest acknowledges a signal only once it has been handed one. -/
abbrev AcksHanded {α : Type} (guest : Guest α) : Prop :=
  guest.Follows ackProtocol (fun _ _ => True) ()

def Artifact.AcksHanded : Artifact → Prop
  | .broken => True
  | .invoke guest => Environment.AcksHanded guest
  | .run guest => Environment.AcksHanded guest

namespace RuntimeHost

/-- Without a signal a lifecycle poll tells nothing; with one, nothing more is asked of the
guest. -/
theorem pollLifecycleSignal_acksHanded (limited : Bool) :
    (pollLifecycleSignal limited).Follows ackProtocol (fun _ signal => signal = none) () := by
  cases limited with
  | true => exact rfl
  | false =>
    refine ⟨rfl, fun response _ hnone => ?_⟩
    exact Option.not_isSome_iff_eq_none.mp (Bool.eq_false_iff.mp hnone)

theorem isCancelled_acksHanded (cancelled limited : Bool) :
    AcksHanded (isCancelled cancelled limited) := by
  cases cancelled with
  | true => trivial
  | false =>
    refine ((pollLifecycleSignal_acksHanded limited).mono fun _ signal hnone => ?_).bind
    obtain rfl := hnone
    trivial

theorem checkSignals_acksHanded (limited : Bool) :
    (checkSignals limited).Follows ackProtocol (fun _ stops => stops = false) () := by
  refine ((pollLifecycleSignal_acksHanded limited).mono fun _ signal hnone => ?_).bind
  obtain rfl := hnone
  rfl

theorem pollCustomSignal_acksHanded (checkpointId : String) :
    AcksHanded (pollCustomSignal checkpointId) := ⟨rfl, fun _ _ _ => trivial⟩

end RuntimeHost

/-! ### Programs that leave the cancel in the slot -/

/-- The answer to a call while a cancel is in the slot, unless the guest is handed the cancel
with it. -/
def Op.withholds : (op : Op) → op.Ret → Prop
  | .sql (.getPendingSignal handed), signal =>
    handed = false ∧ signal.any (fun s => s.signalType = .cancel) = true
  | .sql (.takePendingCustomSignal _ signal), _ =>
    signal.any (fun s => s.signalType = .cancel) = false
  | _, _ => True

def Op.displacesCancel : Op → Bool
  | .sql q => q.displacesCancel
  | _ => false

/-- A pending cancel is not displaced before it has been handed out. -/
def slotProtocol : Protocol Op Op.Ret Unit where
  allowed _ op := op.displacesCancel = false
  next _ op r _ := op.withholds r

/-- The program keeps to the protocol of the slot. -/
abbrev SparesCancel {α : Type} (p : Calls α) : Prop :=
  p.Follows slotProtocol (fun _ _ => True) ()

theorem sparesCancel_of_only {α : Type} {p : Calls α}
    (h : p.Only fun op => op.displacesCancel = false) : SparesCancel p :=
  h.follows (fun _ _ hop => hop) fun _ _ => trivial

theorem Op.displacesCancel_of_tame (op : Op) (h : op.tame = true) :
    op.displacesCancel = false := by
  cases op with
  | sql q =>
    cases q with
    | insertSignal | acknowledgeSignal => cases h
    | _ => rfl
  | _ => rfl

theorem sparesCancel_of_tame {α : Type} {p : Calls α} (h : Tame p) : SparesCancel p :=
  sparesCancel_of_only (h.mono Op.displacesCancel_of_tame)

theorem spares_sql_bind {α : Type} {post : Unit → α → Prop} {q : Sql} {f : q.Ret → Calls α}
    (hq : q.displacesCancel = false)
    (h : ∀ r, (Op.sql q).withholds r → (f r).Follows slotProtocol post ()) :
    (sql q >>= f).Follows slotProtocol post () := ⟨hq, fun r _ => h r⟩

/-- What Core does for a request that acknowledges nothing. -/
theorem handle_sparesCancel (request : Request) (h : request.acknowledges = false) :
    (handle request).Follows slotProtocol (fun _ answer => request.hands answer = false) () := by
  cases request with
  | pollSignals checkpointId =>
    cases checkpointId with
    | none =>
      -- the answer would hand out the cancel
      refine ⟨rfl, fun r _ hr => ?_⟩
      cases hr.1
    | some id => exact ⟨rfl, fun _ _ _ => ⟨rfl, fun _ _ _ => rfl⟩⟩
  | checkpoint checkpointId state =>
    -- the statement that looks into the slot, and the one that answers with what it has found
    have hlook (found : Bool) (existing : Bytes) :
        (do
          let signal ← pendingSignal false
          let custom ← sql (.takePendingCustomSignal checkpointId signal)
          pure (some ⟨found, existing, signal, custom⟩) :
            Calls (Option CheckpointResponse)).Follows slotProtocol
          (fun _ answer => (Request.checkpoint checkpointId state).hands answer = false) () := by
      refine spares_sql_bind rfl fun signal hsignal => spares_sql_bind rfl fun _ htake => ?_
      have hnone : signal.any (fun s => s.signalType = .cancel) = false := htake
      rw [hsignal.2] at hnone
      cases hnone
    show (handleCheckpoint checkpointId state).Follows _ _ _
    refine spares_sql_bind rfl fun row _ => ?_
    cases row with
    | none => rfl
    | some r =>
      dsimp only
      split
      · rfl
      · refine spares_sql_bind rfl fun stored _ => ?_
        cases stored with
        | some existing => exact hlook true existing
        | none =>
          dsimp only
          split
          · refine spares_sql_bind rfl fun signal hsignal => ?_
            cases hsignal.1
          · exact spares_sql_bind rfl fun _ _ => spares_sql_bind rfl fun _ _ => hlook false []
  | signalAck signalType acknowledged =>
    have hacknowledged : acknowledged = false := h
    subst hacknowledged
    rfl
  | register checkpointId =>
    have honly :
        (handleRegisterInstance checkpointId).Only fun op => op.displacesCancel = false := by
      dsimp only [handleRegisterInstance]
      repeat' first
        | trivial
        | exact only_sql rfl
        | exact only_ask rfl
        | refine Prog.Only.bind ?_ fun _ => ?_
        | split
    exact honly.follows (fun _ _ hop => hop) fun _ _ => rfl
  | getCheckpoint | sleep | event =>
    exact (handle_tame _ rfl).follows (fun _ => Op.displacesCancel_of_tame) fun _ _ => rfl

theorem guest_sparesCancel {α : Type} {guest : Guest α} (h : AcksHanded guest) :
    SparesCancel (guest.interp handle) := by
  refine (h.simulate (P := slotProtocol) (R := fun _ _ => True) ?_ trivial).mono
    fun _ _ _ => trivial
  intro request _ _ _ hallowed
  exact (handle_sparesCancel request hallowed).mono fun _ _ hanswer => ⟨(), hanswer, trivial⟩

theorem settleRun_sparesCancel (exit : Option InvokeExit) : SparesCancel (settleRun cfg exit) :=
  sparesCancel_of_tame (settleRun_tame cfg exit)

theorem containerMonitor_sparesCancel (handleId : String) :
    SparesCancel (containerMonitor handleId) :=
      sparesCancel_of_tame (containerMonitor_tame handleId)

theorem runTask_sparesCancel {artifact : Artifact} (h : artifact.AcksHanded) :
    SparesCancel (runTask cfg artifact) := by
  cases artifact with
  | broken => exact @settleRun_sparesCancel cfg none
  | invoke guest =>
    have hguest : SparesCancel (execute guest) := follows_execute rfl (guest_sparesCancel h)
    refine ⟨rfl, fun _ _ _ => ⟨rfl, fun _ _ _ => ?_⟩⟩
    exact (hguest.mono fun _ exit _ => settleRun_sparesCancel exit).bind
  | run guest =>
    have hguest : SparesCancel (execute guest) := follows_execute rfl (guest_sparesCancel h)
    exact (hguest.mono fun _ _ _ => settleRun_sparesCancel none).bind

/-- What arrives stores no signal of another type. -/
def Arrival.sparesCancel : Arrival → Bool
  | .signal signalType _ => signalType = .cancel
  | .drain _ => false
  | _ => true

theorem Arrival.program_sparesCancel (a : Arrival) (h : a.sparesCancel = true) :
    SparesCancel (a.program cfg) := by
  refine sparesCancel_of_only ?_
  cases a with
  | drain polls => cases h
  | signal signalType payload =>
    obtain rfl : signalType = .cancel := of_decide_eq_true h
    dsimp only [Arrival.program, handleSendSignal]
    repeat' first
      | trivial
      | exact only_sql rfl
      | refine Prog.Only.bind ?_ fun _ => ?_
      | split
  | customSignal checkpointId payload =>
    exact (handleSendCustomSignal_tame checkpointId payload).mono Op.displacesCancel_of_tame
  | _ =>
    dsimp only [Arrival.program, handleStartInstance, handleStopInstance, handleResumeInstance,
      relaunch, restoreCheckpoint, processPendingWakes, wakeInstance, checkStaleInstances,
      getOrphanedRunningInstance, failStaleInstance, recoverOrFail, recoverOrphanedContainers]
    repeat' first
      | trivial
      | exact only_sql rfl
      | exact only_ask rfl
      | refine Prog.Only.bind ?_ fun _ => ?_
      | split

/-! ### Whole runs -/

/-- The call looks into the slot, or answers with what was in it. -/
def Op.looksIntoSlot : Op → Bool
  | .sql (.getPendingSignal _) | .sql (.takePendingCustomSignal _ _) => true
  | _ => false

/-- The task in flight will not displace a cancel: it is no signal of another type, and no drain
before its signal; a run has not begun, or has not looked into the slot in the request that it is
at, and its guest acknowledges what it is handed from then on. -/
def KeepsCancel (cfg : Settings) : Calls Unit → Prop :=
  Prog.Rest (fun op => op.looksIntoSlot = false) fun p =>
    Standing cfg (fun a => a.sparesCancel = true) (fun _ guest => AcksHanded guest) p ∨
      (∃ artifact : Artifact, artifact.AcksHanded ∧ p = runTask cfg artifact) ∨
      ∃ polls, p = forceStop polls

/-- Neither a signal of another type nor a drain arrives with the move, and a guest that is launched
acknowledges only what it is handed. -/
def Move.sparesCancel (m : Move cfg) : Prop :=
  match m.input with
  | .outside (.arrive _ a) => a.sparesCancel = true
  | .task _ (.launch artifact) => artifact.AcksHanded
  | _ => True

theorem KeepsCancel.spares {p : Calls Unit} (h : KeepsCancel cfg p) : SparesCancel p := by
  refine h.follows ?_ ?_
  · rintro p (hstanding | ⟨artifact, hacks, rfl⟩ | ⟨polls, rfl⟩)
    · exact hstanding.follows rfl Arrival.program_sparesCancel containerMonitor_sparesCancel
        (fun _ _ => guest_sparesCancel) settleRun_sparesCancel
    · exact runTask_sparesCancel hacks
    · exact sparesCancel_of_tame (forceStop_tame polls)
  · intro op r hop
    cases op with
    | sql q =>
      cases q with
      | getPendingSignal | takePendingCustomSignal => cases hop
      | _ => trivial
    | _ => trivial

/-- While a cancel is in the slot, a statement that does not hand it out is answered with it or says
nothing of it. -/
theorem withholds_of_exec {m : Move cfg} {q : Sql} (hq : m.executes q)
    (hpending : m.before.world.db.cancelPending = true) (hhands : m.handsCancel = false) :
    (Op.sql q).withholds (q.exec m.before.world.now m.before.world.db).1 := by
  rw [Move.handsCancel, hq] at hhands
  cases q with
  | getPendingSignal handed =>
    cases handed with
    | true => rw [hpending] at hhands; cases hhands
    | false =>
      obtain ⟨s, hs, hcancel, hack⟩ : ∃ s, m.before.world.db.signal = some s ∧
          s.signalType = .cancel ∧ s.acknowledged = false := by
        simpa [Db.cancelPending, Option.any_eq_true] using hpending
      refine ⟨rfl, ?_⟩
      show (m.before.world.db.signal.filter _).any _ = true
      simp [hs, hcancel, hack]
  | takePendingCustomSignal id signal => exact hhands
  | _ => trivial

/-- Until it is handed out the cancel stays in the slot. -/
theorem cancelPending_of_not_handed {c c' : Config cfg} {ms : List (Move cfg)}
    (h : (environment cfg).Path c ms c') (hspares : ∀ m ∈ ms, m.sparesCancel)
    (hhands : ∀ m ∈ ms, m.handsCancel = false) (hpending : c.world.db.cancelPending = true)
    (hts : ∀ t ∈ c.tasks, t.Keeps slotProtocol) :
    ∀ m ∈ ms, m.after.world.db.cancelPending = true := by
  intro m hm
  refine (h.stable (P := slotProtocol)
    (I := fun w : World => w.db.cancelPending = true) ?_ ?_ hpending
    hts m hm).2.1
  · intro m hm i choice tag op r tag' w started hinput hcaller hallowed hbefore hexec
    by_cases hsql : ∃ q, op = .sql q
    · obtain ⟨q, rfl⟩ := hsql
      obtain ⟨rfl, -, rfl, rfl⟩ := exec_sql cfg choice hexec
      have hq := Move.executes_iff.mpr ⟨tag, hcaller⟩
      refine ⟨withholds_of_exec hq hbefore (hhands m hm), ?_, nofun⟩
      exact (exec_cancelPending q hbefore).mpr hallowed
    · have hdb := exec_db (fun q hq => hsql ⟨q, hq⟩) hexec
      refine ⟨?_, by rw [hdb]; exact hbefore, fun t ht => ?_⟩
      · cases op with
        | sql q => exact absurd ⟨q, rfl⟩ hsql
        | _ => trivial
      · by_cases hop : op = .launchDetached
        · subst hop
          obtain ⟨artifact, rfl, hprog⟩ := exec_launch hexec ht
          have hacks := hspares m hm
          rw [Move.sparesCancel, hinput] at hacks
          rw [Tasks.Task.Keeps, hprog]
          exact runTask_sparesCancel hacks
        · obtain ⟨handle, -, rfl⟩ := exec_started hop hexec t ht
          exact containerMonitor_sparesCancel handle.handleId
  · intro m hm o w ts hinput hbefore hout
    refine ⟨by rw [outside_db hout]; exact hbefore, fun t ht => ?_⟩
    cases o with
    | arrive proc a =>
      cases hout
      rcases List.mem_append.mp ht with ht | ht
      · exact Or.inl ht
      · obtain rfl := List.mem_singleton.mp ht
        have hspares := hspares m hm
        rw [Move.sparesCancel, hinput] at hspares
        exact Or.inr (a.program_sparesCancel hspares)
    | tick d =>
      cases hout
      exact Or.inl ht
    | halt proc =>
      cases hout
      exact Or.inl (List.mem_of_mem_filter ht)

/-- **A cancel is not lost** if no signal of another type and no drain is in flight when it is
inserted or arrives before it is handed out, and the guests acknowledge only what they have been
handed: in every state from its insertion on the instance is over, the cancel is in the slot, or the
guest has been handed it. -/
theorem cancel_kept {m₀ : Move cfg} {p : Bytes} {c' : Config cfg} {ms : List (Move cfg)}
    (hm₀ : m₀.Valid) (hinsert : m₀.executes (.insertSignal .cancel p))
    (hts : ∀ t ∈ m₀.after.tasks, KeepsCancel cfg t.prog)
    (h : (environment cfg).Path m₀.after ms c')
    (hspares : ∀ pre m post, ms = pre ++ m :: post → (∀ m' ∈ pre, m'.handsCancel = false) →
      m.sparesCancel) :
    CancelKept [] m₀.after ∧
      ∀ pre m post, ms = pre ++ m :: post → CancelKept (pre ++ [m]) m.after := by
  have hpending : m₀.after.world.db.cancelPending = true := by
    rcases Move.db_cases hm₀ with ⟨q, hq, hdb⟩ | ⟨hnone, -⟩
    · obtain rfl := Move.executes_unique hq hinsert
      rw [hdb]
      rfl
    · exact absurd hinsert (hnone _)
  refine ⟨Or.inr (Or.inl hpending), ?_⟩
  rintro pre m post rfl
  by_cases hhanded : ∃ m' ∈ pre ++ [m], m'.handsCancel = true
  · exact Or.inr (Or.inr hhanded)
  · have hnone : ∀ m' ∈ pre ++ [m], m'.handsCancel = false :=
      fun m' hm' => Bool.eq_false_iff.mpr fun hhands => hhanded ⟨m', hm', hhands⟩
    refine Or.inr (Or.inl (cancelPending_of_not_handed h.upTo ?_ hnone hpending
      (fun t ht => (hts t ht).spares) m (List.mem_append_right _ (List.mem_singleton.mpr rfl))))
    intro m' hm'
    obtain ⟨before, after, heq⟩ := List.append_of_mem hm'
    refine hspares before m' (after ++ post) ?_ fun m'' hm'' => hnone m'' ?_
    · simpa using congrArg (· ++ post) heq
    · rw [heq]
      exact List.mem_append_left _ hm''

/-- A guest that looks for lifecycle signals. -/
def pollingGuest : Guest InvokeExit := do
  if ← RuntimeHost.checkSignals false then pure (.suspended [.onResume]) else pure .completed

/-- **A pause overwrites a cancel.** Both requests succeed on a running instance, the guest has not
polled yet, and what it is handed then is the pause. -/
theorem cancel_overwritten_by_pause :
    ∃ (ms ms' : List (Move (.default "i"))) (m₀ : Move (.default "i")) (c' : Config (.default "i")),
      (environment (.default "i")).Path (initial _) (ms ++ m₀ :: ms') c' ∧
      m₀.executes (.insertSignal .cancel []) ∧ m₀.before.world.db.terminal = false ∧
      ¬ CancelKept ms' c' := by
  let inserts (m : Move (.default "i")) : Bool := m.statement = some (.insertSignal .cancel [])
  obtain ⟨ms, c', hpath, hlive, hslot, hsplit⟩ :
      ∃ ms c', (environment (.default "i")).Path (initial _) ms c' ∧
        c'.world.db.terminal = false ∧ c'.world.db.cancelPending = false ∧
        (match ms.dropWhile fun m => !inserts m with
        | [] => false
        | m₀ :: ms' => inserts m₀ && (!m₀.before.world.db.terminal &&
          ms'.all fun m => !m.handsCancel)) = true :=
    -- the two requests, and the poll of the guest
    exists_path _ [startInputs pollingGuest, calls 2 1 .yes,
      [.outside (.arrive 0 (.signal .cancel []))], calls 2 3 .yes,
      [.outside (.arrive 0 (.signal .pause []))], calls 2 4 .yes, requestInputs 1 1]
      (by decide +kernel)
  split at hsplit
  · cases hsplit
  · rename_i m₀ ms' hms'
    rw [← List.takeWhile_append_dropWhile (p := fun m => !inserts m) (l := ms), hms'] at hpath
    simp only [Bool.and_eq_true, Bool.not_eq_true', List.all_eq_true] at hsplit
    obtain ⟨hinserts, hlive₀, hhanded⟩ := hsplit
    refine ⟨_, ms', m₀, c', hpath, of_decide_eq_true hinserts, hlive₀, ?_⟩
    rintro (hterminal | hpending | ⟨m, hm, hhands⟩)
    · rw [hlive] at hterminal
      cases hterminal
    · rw [hslot] at hpending
      cases hpending
    · rw [hhanded m hm] at hhands
      cases hhands

/-- A guest that looks for the custom signal `k` and then for lifecycle signals. -/
def listeningGuest (k : String) : Guest InvokeExit := do
  let _ ← RuntimeHost.pollCustomSignal k
  pollingGuest

theorem listeningGuest_acksHanded (k : String) : AcksHanded (listeningGuest k) := by
  refine ((RuntimeHost.pollCustomSignal_acksHanded k).mono fun _ _ _ => ?_).bind
  refine ((RuntimeHost.checkSignals_acksHanded false).mono fun _ stops hstops => ?_).bind
  obtain rfl := hstops
  trivial

/-- A task that is in flight makes a call, and launches nothing. -/
def Move.goesOn (m : Move cfg) : Bool :=
  match m.input with
  | .outside _ | .task _ (.launch _) => false
  | _ => true

theorem Move.sparesCancel_of_goesOn {m : Move cfg} (h : m.goesOn = true) : m.sparesCancel := by
  unfold Move.goesOn at h
  unfold Move.sparesCancel
  split
  · next hinput => simp [hinput] at h
  · next hinput => simp [hinput] at h
  · trivial

/-- **A cancel that waits through the poll for a custom signal.** It is inserted while the guest
runs and its monitor waits; the poll for the custom signal drops it, and the next one hands it
out. -/
theorem cancel_kept_until_polled :
    ∃ (m₀ : Move (.default "i")) (ms : List (Move (.default "i"))) (c' : Config (.default "i")),
      m₀.executes (.insertSignal .cancel []) ∧
      (environment (.default "i")).Path m₀.after ms c' ∧
      (∃ m ∈ ms, m.statement = some (.takePendingCustomSignal "k" none)) ∧
      (∃ m ∈ ms, m.handsCancel = true) ∧
      ∀ pre m post, ms = pre ++ m :: post → CancelKept (pre ++ [m]) m.after := by
  let cfg : Settings := .default "i"
  let r : Row := { Row.registered 0 with status := .running, startedAt := some 0 }
  let db : Db := { World.initial.db with row := some r, registry := some ⟨cfg.handleId, 0, 0⟩ }
  let w : World := { World.initial with db, launches := 1 }
  let run : Task := ⟨{ proc := 0, kind := .run 0 }, execute (listeningGuest "k") >>= settleRun cfg⟩
  let monitor : Task := ⟨{ proc := 0, kind := .monitor 0 }, containerMonitor cfg.handleId⟩
  let tag : Tag := { proc := 0, kind := .signal }
  let insert : Calls Unit := sql (.insertSignal .cancel [])
  let w' : World := { w with db := { db with signal := some ⟨.cancel, [], false⟩ } }
  let m₀ : Move cfg :=
    ⟨⟨w, [run, monitor, ⟨tag, insert⟩]⟩, .task 2 .yes, ⟨w', [run, monitor, ⟨tag, .done ()⟩]⟩⟩
  have hm₀ : m₀.Valid := rfl
  have hts : ∀ t ∈ m₀.after.tasks, KeepsCancel cfg t.prog := by
    have hsignal : KeepsCancel cfg (handleSendSignal .cancel []) :=
      .start (Or.inl (.request (.signal .cancel []) rfl))
    have hinsert : KeepsCancel cfg insert := hsignal.call rfl (some r)
    simp only [m₀, List.forall_mem_cons]
    refine ⟨.start (Or.inl (.invoke _ (listeningGuest_acksHanded "k"))),
      .start (Or.inl (.monitor _)), hinsert.call rfl (), nofun⟩
  obtain ⟨ms, c', hpath, hinputs, htake, hhands⟩ :
      ∃ ms c', (environment cfg).Path m₀.after ms c' ∧ (∀ m ∈ ms, Move.goesOn m = true) ∧
        (∃ m ∈ ms, Move.statement m = some (.takePendingCustomSignal "k" none)) ∧
        ∃ m ∈ ms, Move.handsCancel m = true :=
    exists_path _ [requestInputs 3 0] (by decide +kernel)
  refine ⟨m₀, ms, c', rfl, hpath, htake, hhands, (cancel_kept hm₀ rfl hts hpath ?_).2⟩
  rintro pre m post rfl _
  exact Move.sparesCancel_of_goesOn (hinputs m (by simp))

end Runtara.Environment
