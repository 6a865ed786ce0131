/-
  When a wait is decided once.

  The outcome of a wait is read off the stored signal, the saved deadline and the clock in every
  replay. So what has been decided stays decided as long as the row of the signal id stays as it was
  (present with the same payload after a signal, absent after a timeout), the clock does not go back
  and a wait that has timed out still has a timeout (`undisturbed`). `decided_once` says that this
  is all that is needed: no replay decides otherwise, and none that comes to the wait goes on
  waiting.
-/
import Runtara.Wait.Signal

namespace Runtara

open Interactive List

namespace WaitWorkflow

variable {w : WaitWorkflow}

/-- The row a decision leaves behind: its payload, or none after a timeout. -/
def rowOf : WaitOutcome → Option Bytes
  | .signal payload => some payload
  | .timeout => none

theorem rowOf_injective {o o' : WaitOutcome} (h : rowOf o = rowOf o') : o = o' := by
  cases o <;> cases o' <;> simp_all [rowOf]

/-- The inputs that leave decided waits alone: a signal for a wait that has been decided repeats
the payload it was decided with, the timeout branch is not taken over a signal that has arrived
since the poll, a wait that has timed out has a timeout when it is reached again, and the clock does
not go back. -/
def undisturbed (tr : List WaitEvent) (st : WaitState w.Local) : WaitInput → Bool
  | .send signalId payload => tr.all fun
    | .decided id outcome => id ≠ signalId || outcome = .signal payload
    | _ => true
  | .code _ =>
    match st.point with
    | .running s =>
      match w.next s with
      | .wait site => site.timeoutMs.isSome || .decided site.signalId .timeout ∉ tr
      | _ => true
    | .check _ site deadline =>
      !timesOut site deadline st.now || (st.signals.lookup site.signalId).isNone
    | _ => true
  | .clock now => st.now ≤ now
  | _ => true

/-! ### Steps of the code -/

/-- The deadline that is saved for a wait. -/
def savedDeadline (checkpoints : Store) (signalId : String) : Option UInt64 :=
  (checkpoints.lookup signalId).map fun bytes =>
    UInt64.ofNat (LittleEndian.decode (bytes.take 8))

/-- The wait that the code is in, with its deadline. -/
def waitsAt {σ : Type} : WaitPoint σ → Option (WaitSite × UInt64)
  | .poll _ site deadline => some (site, deadline)
  | .check _ site deadline => some (site, deadline)
  | _ => none

variable {st st' : WaitState w.Local} {tr es : List WaitEvent} {signalId : String}

/-- A wait with a timeout has its deadline saved, and what was saved stays. -/
theorem savedDeadline_arm (site : WaitSite) (st : WaitState w.Local) :
    (site.timeoutMs.isSome = true →
      savedDeadline (w.arm site st).2 site.signalId = some (w.arm site st).1) ∧
    ∀ id d, savedDeadline st.checkpoints id = some d →
      savedDeadline (w.arm site st).2 id = some d := by
  unfold arm
  cases site.timeoutMs with
  | none => exact ⟨fun h => absurd h Bool.false_ne_true, fun _ _ h => h⟩
  | some timeout =>
    dsimp only
    cases hsaved : st.checkpoints.lookup site.signalId with
    | some bytes =>
      refine ⟨fun _ => ?_, fun _ _ h => h⟩
      unfold savedDeadline
      rw [hsaved]
      rfl
    | none =>
      have hstate : LittleEndian.encode 8 (st.now + timeout).toNat ≠ [] := by
        intro hnil
        have hlength := LittleEndian.length_encode 8 (st.now + timeout).toNat
        rw [hnil] at hlength
        cases hlength
      refine ⟨fun _ => ?_, fun id d hd => ?_⟩
      · unfold savedDeadline
        rw [Store.lookup_checkpoint_self _ _ hstate, hsaved, Option.getD_none, Option.map_some,
          take_of_length_le (LittleEndian.length_encode _ _).le,
          LittleEndian.decode_encode_uint64]
      · have hne : id ≠ site.signalId := by
          rintro rfl
          unfold savedDeadline at hd
          rw [hsaved] at hd
          cases hd
        unfold savedDeadline
        rw [Store.lookup_checkpoint_of_ne _ _ hne]
        exact hd

/-- What a step of the code can do. -/
inductive CodeStep (w : WaitWorkflow) (st : WaitState w.Local) :
    WaitState w.Local → List WaitEvent → Prop
  | other {s s' : w.Local} (hpoint : st.point = .running s) :
    CodeStep w st { st with point := .running s' } []
  | arms {s : w.Local} {site : WaitSite} (hpoint : st.point = .running s)
      (hnext : w.next s = .wait site) :
    CodeStep w st { st with
      checkpoints := (w.arm site st).2
      point := .poll s site (w.arm site st).1 } []
  | receives {s : w.Local} {site : WaitSite} {deadline : UInt64} {payload : Bytes}
      (hpoint : st.point = .poll s site deadline)
      (hrow : st.signals.lookup site.signalId = some payload) :
    CodeStep w st { st with point := .running (w.afterSignal s payload) }
      [.decided site.signalId (.signal payload)]
  | misses {s : w.Local} {site : WaitSite} {deadline : UInt64}
      (hpoint : st.point = .poll s site deadline)
      (hrow : st.signals.lookup site.signalId = none) :
    CodeStep w st { st with point := .check s site deadline } []
  | timesOut {s : w.Local} {site : WaitSite} {deadline : UInt64}
      (hpoint : st.point = .check s site deadline)
      (htime : WaitWorkflow.timesOut site deadline st.now = true) :
    CodeStep w st { st with point := .running (w.afterTimeout s) }
      [.decided site.signalId .timeout]
  | waits {s : w.Local} {site : WaitSite} {deadline : UInt64} {point : WaitPoint w.Local}
      (hpoint : st.point = .check s site deadline)
      (hpoint' : point = .stopped ∨ point = .poll s site deadline) :
    CodeStep w st { st with point } []

theorem codeStep_of_code {answer : Bytes} (h : w.code st answer = some (st', es)) :
    CodeStep w st st' es := by
  unfold code at h
  split at h
  case h_1 => cases h
  case h_2 s hpoint =>
    split at h
    case h_1 => cases h
    case h_2 =>
      obtain ⟨rfl, rfl⟩ := Prod.mk.inj (Option.some.inj h)
      exact .other hpoint
    case h_3 site hnext =>
      obtain ⟨rfl, rfl⟩ := Prod.mk.inj (Option.some.inj h)
      exact .arms hpoint hnext
  case h_3 s site deadline hpoint =>
    split at h
    · next payload hrow =>
      obtain ⟨rfl, rfl⟩ := Prod.mk.inj (Option.some.inj h)
      exact .receives hpoint hrow
    · next hrow =>
      obtain ⟨rfl, rfl⟩ := Prod.mk.inj (Option.some.inj h)
      exact .misses hpoint hrow
  case h_4 s site deadline hpoint =>
    split at h
    · next htime =>
      obtain ⟨rfl, rfl⟩ := Prod.mk.inj (Option.some.inj h)
      exact .timesOut hpoint htime
    · split at h
      · obtain ⟨rfl, rfl⟩ := Prod.mk.inj (Option.some.inj h)
        exact .waits hpoint (.inl rfl)
      · obtain ⟨rfl, rfl⟩ := Prod.mk.inj (Option.some.inj h)
        exact .waits hpoint (.inr rfl)

/-! ### What is kept -/

/-- Every decision so far is what the row of its id, the saved deadline and the clock say now, and
the wait that the code is in has come to nothing else. -/
structure Settled (tr : List WaitEvent) (st : WaitState w.Local) : Prop where
  rows : ∀ id outcome, .decided id outcome ∈ tr → st.signals.lookup id = rowOf outcome
  due : ∀ id, .decided id .timeout ∈ tr →
    ∃ deadline, savedDeadline st.checkpoints id = some deadline ∧ deadline ≤ st.now
  saved : ∀ site deadline, waitsAt st.point = some (site, deadline) →
    site.timeoutMs.isSome = true → savedDeadline st.checkpoints site.signalId = some deadline
  timed : ∀ site deadline, waitsAt st.point = some (site, deadline) →
    .decided site.signalId .timeout ∈ tr → site.timeoutMs.isSome = true
  missed : ∀ s site deadline, st.point = .check s site deadline →
    ∀ payload, .decided site.signalId (.signal payload) ∉ tr

theorem settled_start (h : st.point = .stopped) : Settled [] st where
  rows := fun _ _ hmem => absurd hmem not_mem_nil
  due := fun _ hmem => absurd hmem not_mem_nil
  saved := fun site deadline hwait => by
    rw [h] at hwait
    cases hwait
  timed := fun _ _ _ hmem => absurd hmem not_mem_nil
  missed := fun _ _ _ _ _ => not_mem_nil

/-- The code leaves a wait, and nothing is decided. -/
theorem Settled.leave {point : WaitPoint w.Local} (h : Settled tr st)
    (hpoint : waitsAt point = none) : Settled tr { st with point } where
  rows := h.rows
  due := h.due
  saved := fun site deadline hwait => by
    cases hpoint.symm.trans hwait
  timed := fun site deadline hwait => by
    cases hpoint.symm.trans hwait
  missed := fun s site deadline hcheck => by
    dsimp only at hcheck
    rw [hcheck] at hpoint
    cases hpoint

/-- A wait is decided as its row and its deadline say. -/
theorem Settled.decides {s : w.Local} {id : String} {outcome : WaitOutcome} (h : Settled tr st)
    (hrow : st.signals.lookup id = rowOf outcome)
    (hdue : outcome = .timeout →
      ∃ deadline, savedDeadline st.checkpoints id = some deadline ∧ deadline ≤ st.now) :
    Settled (tr ++ [.decided id outcome]) { st with point := .running s } := by
  have hcases : ∀ id' o, WaitEvent.decided id' o ∈ tr ++ [.decided id outcome] →
      .decided id' o ∈ tr ∨ id' = id ∧ o = outcome := by
    intro id' o hmem
    rcases mem_append.mp hmem with hmem | hmem
    · exact .inl hmem
    · exact .inr (WaitEvent.decided.inj (mem_singleton.mp hmem))
  refine ⟨fun id' o hmem => ?_, fun id' hmem => ?_, nofun, nofun, nofun⟩
  · rcases hcases id' o hmem with hmem | ⟨rfl, rfl⟩
    · exact h.rows id' o hmem
    · exact hrow
  · rcases hcases id' .timeout hmem with hmem | ⟨rfl, ho⟩
    · exact h.due id' hmem
    · exact hdue ho.symm

theorem Settled.code {answer : Bytes} (h : Settled tr st)
    (hok : undisturbed tr st (.code answer) = true) (hstep : CodeStep w st st' es) :
    Settled (tr ++ es) st' := by
  cases hstep with
  | other hpoint =>
    rw [append_nil]
    exact h.leave rfl
  | @arms s site hpoint hnext =>
    obtain ⟨hsaved, hkept⟩ := savedDeadline_arm (w := w) site st
    rw [append_nil]
    refine ⟨h.rows, fun id hmem => ?_, ?_, ?_, nofun⟩
    · obtain ⟨deadline, hdeadline, hle⟩ := h.due id hmem
      exact ⟨deadline, hkept id deadline hdeadline, hle⟩
    · rintro _ _ ⟨⟩ htimeout
      exact hsaved htimeout
    · rintro _ _ ⟨⟩ hmem
      have hagain : (site.timeoutMs.isSome || decide (.decided site.signalId .timeout ∉ tr))
          = true := by
        simpa only [undisturbed, hpoint, hnext] using hok
      rcases (Bool.or_eq_true _ _).mp hagain with htimeout | hnot
      · exact htimeout
      · exact absurd hmem (of_decide_eq_true hnot)
  | receives hpoint hrow => exact h.decides hrow nofun
  | @misses s site deadline hpoint hrow =>
    rw [append_nil]
    have hwait : waitsAt st.point = some (site, deadline) := by
      rw [hpoint]
      rfl
    refine ⟨h.rows, h.due, ?_, ?_, ?_⟩
    · rintro _ _ ⟨⟩
      exact h.saved site deadline hwait
    · rintro _ _ ⟨⟩
      exact h.timed site deadline hwait
    · rintro _ _ _ ⟨⟩ payload hmem
      cases hrow.symm.trans (h.rows _ _ hmem)
  | @timesOut s site deadline hpoint htime =>
    have hnone : st.signals.lookup site.signalId = none := by
      simpa [undisturbed, hpoint, htime] using hok
    obtain ⟨htimeout, hle⟩ := (Bool.and_eq_true _ _).mp htime
    have hsaved := h.saved site deadline (by rw [hpoint]; rfl) htimeout
    exact h.decides hnone fun _ => ⟨deadline, hsaved, of_decide_eq_true hle⟩
  | @waits s site deadline point hpoint hpoint' =>
    rw [append_nil]
    rcases hpoint' with rfl | rfl
    · exact h.leave rfl
    · have hwait : waitsAt st.point = some (site, deadline) := by
        rw [hpoint]
        rfl
      refine ⟨h.rows, h.due, ?_, ?_, nofun⟩
      · rintro _ _ ⟨⟩
        exact h.saved site deadline hwait
      · rintro _ _ ⟨⟩
        exact h.timed site deadline hwait

theorem Settled.send {payload : Bytes} (h : Settled tr st)
    (hok : undisturbed tr st (.send signalId payload) = true) :
    Settled (tr ++ [.sent signalId payload])
      { st with signals := insertCustomSignal st.signals signalId payload } := by
  have hdecided : ∀ id o, WaitEvent.decided id o ∈ tr ++ [.sent signalId payload] →
      .decided id o ∈ tr := by
    intro id o hmem
    rcases mem_append.mp hmem with hmem | hmem
    · exact hmem
    · cases mem_singleton.mp hmem
  refine ⟨fun id o hmem => ?_, fun id hmem => h.due id (hdecided _ _ hmem), h.saved,
    fun site deadline hwait hmem => h.timed site deadline hwait (hdecided _ _ hmem),
    fun s site deadline hcheck payload hmem =>
      h.missed s site deadline hcheck payload (hdecided _ _ hmem)⟩
  replace hmem := hdecided id o hmem
  by_cases hid : id = signalId
  · subst hid
    have hsame : o = .signal payload := by
      have hall := all_eq_true.mp hok _ hmem
      simpa using hall
    rw [hsame]
    exact (lookup_insertCustomSignal ..).trans (if_pos rfl)
  · rw [← h.rows id o hmem]
    exact (lookup_insertCustomSignal ..).trans (if_neg hid)

theorem Settled.step {i : WaitInput} (h : Settled tr st) (hok : undisturbed tr st i = true)
    (hstep : w.step st i = some (st', es)) : Settled (tr ++ es) st' := by
  cases i with
  | code answer => exact h.code hok (codeStep_of_code hstep)
  | stop =>
    obtain ⟨rfl, rfl⟩ := Prod.mk.inj (Option.some.inj hstep)
    rw [append_nil]
    exact h.leave rfl
  | launch =>
    unfold WaitWorkflow.step at hstep
    dsimp only at hstep
    split at hstep
    · obtain ⟨rfl, rfl⟩ := Prod.mk.inj (Option.some.inj hstep)
      rw [append_nil]
      exact h.leave rfl
    · cases hstep
  | send signalId payload =>
    obtain ⟨rfl, rfl⟩ := Prod.mk.inj (Option.some.inj hstep)
    exact h.send hok
  | clock now =>
    obtain ⟨rfl, rfl⟩ := Prod.mk.inj (Option.some.inj hstep)
    rw [append_nil]
    refine ⟨h.rows, fun id hmem => ?_, h.saved, h.timed, h.missed⟩
    obtain ⟨deadline, hdeadline, hle⟩ := h.due id hmem
    have hnow : st.now ≤ now := by simpa [undisturbed] using hok
    exact ⟨deadline, hdeadline, UInt64.le_trans hle hnow⟩

/-! ### Whole runs -/

/-- What the code does next at a wait that has been decided: it takes the signal in, or passes to
the test of the deadline and takes the timeout branch there. It does not wait. -/
def GoesOn (w : WaitWorkflow) (st : WaitState w.Local) (o : WaitOutcome) : Prop :=
  ∀ answer, match st.point, o with
    | .poll s site _, .signal payload =>
      w.code st answer = some ({ st with point := .running (w.afterSignal s payload) },
        [.decided site.signalId (.signal payload)])
    | .poll s site deadline, .timeout =>
      w.code st answer = some ({ st with point := .check s site deadline }, [])
    | .check s site _, _ =>
      w.code st answer = some ({ st with point := .running (w.afterTimeout s) },
        [.decided site.signalId .timeout]) ∧ o = .timeout
    | _, _ => True

theorem Settled.goesOn {site : WaitSite} {deadline : UInt64} {o : WaitOutcome} (h : Settled tr st)
    (hwait : waitsAt st.point = some (site, deadline)) (ho : .decided site.signalId o ∈ tr) :
    w.GoesOn st o := by
  intro answer
  have hrow := h.rows _ _ ho
  cases hpoint : st.point with
  | stopped | running =>
    rw [hpoint] at hwait
    cases hwait
  | poll s site' deadline' =>
    rw [hpoint] at hwait
    cases hwait
    cases o with
    | signal payload =>
      dsimp only [rowOf] at hrow
      simp only [WaitWorkflow.code, hpoint, hrow]
    | timeout =>
      dsimp only [rowOf] at hrow
      simp only [WaitWorkflow.code, hpoint, hrow]
  | check s site' deadline' =>
    have hmissed := h.missed s site' deadline' hpoint
    rw [hpoint] at hwait
    cases hwait
    cases o with
    | signal payload => exact absurd ho (hmissed payload)
    | timeout =>
      -- the saved deadline is the one the wait has, and it has come
      have htimeout := h.timed site deadline (by rw [hpoint]; rfl) ho
      obtain ⟨due, hdue, hle⟩ := h.due _ ho
      have hsame := h.saved site deadline (by rw [hpoint]; rfl) htimeout
      obtain rfl := Option.some.inj (hdue.symm.trans hsame)
      have htime : timesOut site due st.now = true := by
        unfold timesOut
        rw [htimeout, Bool.true_and]
        exact decide_eq_true hle
      simp only [WaitWorkflow.code, hpoint, htime, if_true, and_self]

/-- **A wait is decided once.** In every run of a workflow, with any stops and replays, in which
decided waits are left undisturbed: all decisions of a wait are the same, and whenever the code is
in a wait that has been decided, it goes on with that decision. -/
theorem decided_once (w : WaitWorkflow) (st st' : WaitState w.Local) (tr : List WaitEvent)
    (hst : st.point = .stopped) (h : w.system.Run undisturbed st tr st') (signalId : String)
    (o : WaitOutcome) (ho : .decided signalId o ∈ tr) :
    (∀ o', .decided signalId o' ∈ tr → o' = o) ∧
      ∀ site deadline, waitsAt st'.point = some (site, deadline) → site.signalId = signalId →
        w.GoesOn st' o := by
  have hsettled : Settled tr st' := h.invariant (I := Settled) (settled_start hst)
    fun _ _ _ _ _ hI hok hstep => hI.step hok hstep
  refine ⟨fun o' ho' => rowOf_injective ((hsettled.rows _ _ ho').symm.trans (hsettled.rows _ _ ho)),
    ?_⟩
  rintro site deadline hwait rfl
  exact hsettled.goesOn hwait ho

/-! ### One wait -/

/-- A workflow that waits for one signal and is then finished. -/
def approval (timeoutMs : Option UInt64) : WaitWorkflow where
  Local := Bool
  start := true
  next waiting := if waiting then .wait ⟨"run/root/approval", timeoutMs⟩ else .finished
  afterOther s _ := s
  afterSignal _ _ := false
  afterTimeout _ := false
  storeFreeing := false

/-- The instance before its first launch. -/
def approvalStart (timeoutMs : Option UInt64) : WaitState (approval timeoutMs).Local :=
  ⟨[], [], 0, .stopped⟩

/-- The wait times out, and the instance is stopped and replayed up to the test of the deadline. -/
def approvalReplay : List WaitInput :=
  [.launch, .code [], .clock 20, .code [], .code [], .stop, .clock 30, .launch, .code [], .code []]

/-- The replayed wait takes the timeout branch again. -/
theorem approval_decided_once : ∃ tr st',
    (approval (some 10)).system.Run undisturbed (approvalStart (some 10)) tr st'
    ∧ .decided "run/root/approval" .timeout ∈ tr
    ∧ waitsAt st'.point = some (⟨"run/root/approval", some 10⟩, 10)
    ∧ (approval (some 10)).GoesOn st' .timeout := by
  have hplay : (((approval (some 10)).system.play undisturbed [] (approvalStart (some 10))
      approvalReplay).map fun r => (r.1, waitsAt r.2.point))
      = some ([.decided "run/root/approval" .timeout],
        some (⟨"run/root/approval", some 10⟩, 10)) := by
    decide +kernel
  obtain ⟨⟨tr, st'⟩, hplay, hend⟩ := Option.map_eq_some_iff.mp hplay
  obtain ⟨rfl, hwait⟩ := Prod.mk.inj hend
  have hrun := System.run_of_play hplay
  exact ⟨_, st', hrun, mem_cons_self, hwait, (decided_once _ _ st' _ rfl hrun "run/root/approval"
    .timeout mem_cons_self).2 _ _ hwait rfl⟩

/-- A signal arrives, the instance stops after the wait, and another signal for the same id arrives
before the replay. -/
def approvalResent : List WaitInput :=
  [.launch, .code [], .send "run/root/approval" [1], .code [], .stop,
    .send "run/root/approval" [2], .launch, .code [], .code []]

/-- **A replay can go on with another payload.** The signal that arrives after the wait has been
decided replaces the row the replayed wait reads. -/
theorem approval_decided_twice : ∃ tr st',
    (approval none).system.Run (fun _ _ _ => true) (approvalStart none) tr st'
      ∧ .decided "run/root/approval" (.signal [1]) ∈ tr
      ∧ .decided "run/root/approval" (.signal [2]) ∈ tr := by
  have hplay : (((approval none).system.play (fun _ _ _ => true) [] (approvalStart none)
      approvalResent).map Prod.fst)
      = some [.sent "run/root/approval" [1], .decided "run/root/approval" (.signal [1]),
        .sent "run/root/approval" [2], .decided "run/root/approval" (.signal [2])] := by decide
  obtain ⟨⟨tr, st'⟩, hplay, htr⟩ := Option.map_eq_some_iff.mp hplay
  refine ⟨tr, st', System.run_of_play hplay, ?_, ?_⟩
  · rw [show tr = _ from htr]
    decide
  · rw [show tr = _ from htr]
    decide

end WaitWorkflow

end Runtara
