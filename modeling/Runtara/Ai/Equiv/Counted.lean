/-
  The counter of the tool calls.

  A signal id of a waiting tool is as good as the counter in it. In runs in which a turn that is
  asked again is answered as before, the counter at a tool call is the same in every replay and
  belongs to no other tool call (`Counted.site_inj`): a turn is only begun when the snapshot of the
  turn before it is saved, and the snapshot holds the counter.
-/
import Runtara.Ai.ToolLoop
import Runtara.Machine.NumberedKey

namespace Runtara

namespace AiLoop

/-! ### What a step can do -/

variable {m n : ℕ}

/-- The steps, without the conditions that only matter for termination. -/
inductive Move (loop : AiLoop) (st : AiState) : AiInput → AiState → List AiEvent → Prop
  | leave {i} (h : (∃ l, st.point = .turn l) ∨ ∃ l, st.point = .chat l) :
      Move loop st i { st with point := .left } []
  | resume {l s} (hpoint : st.point = .turn l)
      (hs : loop.restore st.snapshots (l.iter + 1) = some s) (hopen : s.complete = false) :
      Move loop st .code
        { st with point := .turn ⟨l.iter + 1, s.toolCalls, s.state, s.pending⟩ } []
  | ask {l} (hpoint : st.point = .turn l) (hs : loop.restore st.snapshots (l.iter + 1) = none) :
      Move loop st .code { st with point := .chat { l with iter := l.iter + 1 } } []
  | chat {l out} (hpoint : st.point = .chat l) :
      Move loop st (.chatTurn (some out))
        { st with point := .turned { l with state := some out, pending := [] } out }
        [.chatted l.iter l.toolCallCounter out]
  | finish {l out} (hpoint : st.point = .turned l out) :
      Move loop st .code
        { st with snapshots := loop.save st.snapshots l true, point := .left } []
  | dispatch {l out} (hpoint : st.point = .turned l out) :
      Move loop st .code { st with point := .tools l out 0 } []
  | endTurn {l out idx} (hpoint : st.point = .tools l out idx)
      (hnone : out.toolCalls[idx]? = none) :
      Move loop st .code
        { st with snapshots := loop.save st.snapshots l false, point := .turn l } []
  | request {l out idx call label} (hpoint : st.point = .tools l out idx)
      (hcall : out.toolCalls[idx]? = some call) :
      Move loop st .code
        { st with
          point := .waiting l out idx call (loop.aiWaitToolSignalId label l.toolCallCounter) }
        [.dispatched ⟨l.iter, out, idx⟩,
          .requested (loop.aiWaitToolSignalId label l.toolCallCounter) ⟨l.iter, out, idx⟩]
  | invoke {l out idx call} (hpoint : st.point = .tools l out idx)
      (hcall : out.toolCalls[idx]? = some call) :
      Move loop st .code { st with point := .calling l out idx call }
        [.dispatched ⟨l.iter, out, idx⟩]
  | skip {l out idx call} (hpoint : st.point = .tools l out idx)
      (hcall : out.toolCalls[idx]? = some call) :
      Move loop st .code { st with point := addResult l out idx call emptyToolResult }
        [.completed ⟨l.iter, out, idx⟩]
  | complete {l out idx call result} (hpoint : st.point = .calling l out idx call) :
      Move loop st (.toolResult result) { st with point := addResult l out idx call result }
        [.completed ⟨l.iter, out, idx⟩]
  | answer {l out idx call signalId payload result}
      (hpoint : st.point = .waiting l out idx call signalId)
      (hrow : st.signals.lookup signalId = some payload) :
      Move loop st .code { st with point := addResult l out idx call result }
        [.answered signalId ⟨l.iter, out, idx⟩ payload, .completed ⟨l.iter, out, idx⟩]
  | fail : Move loop st .code { st with point := .failed } []
  | poll : Move loop st .code st []
  | suspend {l out idx call signalId} (hpoint : st.point = .waiting l out idx call signalId)
      (hrow : st.signals.lookup signalId = none) (hfree : loop.storeFreeing = true) :
      Move loop st .code { st with point := .stopped } []
  | stop (hpoint : st.point ≠ .failed) : Move loop st .stop { st with point := .stopped } []
  | launch (hpoint : st.point = .stopped) :
      Move loop st .launch { st with point := .turn .initial } []
  | send {signalId payload} :
      Move loop st (.send signalId payload)
        { st with signals := insertCustomSignal st.signals signalId payload }
        [.sent signalId payload]

variable {loop : AiLoop} {st st' : AiState} {i : AiInput} {tr tr' es : List AiEvent}
  {saved : Snapshots} {l : AiLocals} {out : TurnOut} {idx : ℕ}

theorem move_of_code (h : loop.code st = some (st', es)) : Move loop st .code st' es := by
  unfold code at h
  split at h
  case h_1 l hpoint =>
    split at h
    · cases h; exact .leave (.inl ⟨l, hpoint⟩)
    · split at h
      · next s hs =>
        split at h
        · cases h; exact .leave (.inl ⟨l, hpoint⟩)
        · next hopen => cases h; exact .resume hpoint hs (Bool.not_eq_true _ ▸ hopen)
      · next hs => cases h; exact .ask hpoint hs
  case h_2 l out hpoint =>
    split at h
    · cases h; exact .finish hpoint
    · cases h; exact .dispatch hpoint
  case h_3 l out idx hpoint =>
    split at h
    · next hnone => cases h; exact .endTurn hpoint hnone
    · next call hcall =>
      split at h
      · cases h; exact .request hpoint hcall
      · cases h; exact .invoke hpoint hcall
      · cases h; exact .skip hpoint hcall
  case h_4 l out idx call signalId hpoint =>
    split at h
    · next payload hrow =>
      split at h
      · cases h; exact .answer hpoint hrow
      · cases h; exact .fail
    · next hrow =>
      split at h
      · next hfree => cases h; exact .suspend hpoint hrow hfree
      · cases h; exact .poll
  case h_5 => cases h

theorem move_of_step (h : loop.step st i = some (st', es)) : Move loop st i st' es := by
  unfold step at h
  split at h
  case h_1 => exact move_of_code h
  case h_2 answer =>
    split at h
    · next hpoint => cases h; exact .chat hpoint
    · next l hpoint => cases h; exact .leave (.inr ⟨l, hpoint⟩)
    · cases h
  case h_3 result =>
    split at h
    · next hpoint => cases h; exact .complete hpoint
    · cases h
  case h_4 =>
    split at h
    · cases h
    · next hpoint => cases h; exact .stop hpoint
  case h_5 =>
    split at h
    · next hpoint => cases h; exact .launch hpoint
    · cases h
  case h_6 => cases h; exact .send

/-! ### Turns that are done -/

theorem aiTurnCacheKey_inj (h : loop.aiTurnCacheKey m = loop.aiTurnCacheKey n) : m = n := by
  unfold aiTurnCacheKey scopedKey at h
  split at h
  · exact NumberedKey.number_inj ((String.append_right_inj _).mp h)
  · exact NumberedKey.number_inj h

theorem aiWaitToolSignalId_inj {label label' : String} {c c' : UInt32}
    (h : loop.aiWaitToolSignalId label c = loop.aiWaitToolSignalId label' c') : c = c' :=
  UInt32.toNat_inj.mp (NumberedKey.number_inj h)

/-- Turn `n` is saved, with `k` tool calls counted by its end; nothing is counted before the
first. -/
def Done (loop : AiLoop) (saved : Snapshots) : ℕ → UInt32 → Prop
  | 0, k => k = 0
  | n + 1, k => ∃ s, saved.lookup (loop.aiTurnCacheKey (n + 1)) = some s ∧ s.complete = false
      ∧ s.toolCalls = k

variable {k : UInt32}

theorem done_succ : Done loop saved (n + 1) k
    ↔ ∃ s, saved.lookup (loop.aiTurnCacheKey (n + 1)) = some s ∧ s.complete = false
      ∧ s.toolCalls = k := Iff.rfl

theorem Done.unique {k' : UInt32} (h : Done loop saved n k) (h' : Done loop saved n k') :
    k = k' := by
  cases n with
  | zero => exact (h : k = 0).trans (h' : k' = 0).symm
  | succ n =>
    obtain ⟨s, hs, -, rfl⟩ := h
    obtain ⟨s', hs', -, rfl⟩ := h'
    obtain rfl := Option.some.inj (hs.symm.trans hs')
    rfl

theorem not_done (h : saved.lookup (loop.aiTurnCacheKey (n + 1)) = none) :
    ¬ Done loop saved (n + 1) k := by
  rintro ⟨s, hs, -, -⟩
  rw [h] at hs
  cases hs

/-- The turn in the locals is being run: the turn before it is done, it is not, and `idx` of its
tool calls have been made. -/
def InTurn (loop : AiLoop) (tr : List AiEvent) (saved : Snapshots) (l : AiLocals) (out : TurnOut)
    (idx : ℕ) : Prop :=
  ∃ n k, l.iter = n + 1 ∧ Done loop saved n k ∧ l.toolCallCounter.toNat = k.toNat + idx
    ∧ saved.lookup (loop.aiTurnCacheKey (n + 1)) = none ∧ .chatted (n + 1) k out ∈ tr
    ∧ idx ≤ out.toolCalls.length

theorem InTurn.mono (h : InTurn loop tr saved l out idx) (hsub : tr ⊆ tr') :
    InTurn loop tr' saved l out idx := by
  obtain ⟨n, k, hiter, hdone, hcounter, hopen, hchatted, hle⟩ := h
  exact ⟨n, k, hiter, hdone, hcounter, hopen, hsub hchatted, hle⟩

/-- What is known at a point of the code. -/
def PointOk (loop : AiLoop) (tr : List AiEvent) (saved : Snapshots) : AiPoint → Prop
  | .stopped | .left | .failed => True
  | .turn l => Done loop saved l.iter l.toolCallCounter
  | .chat l => ∃ n, l.iter = n + 1 ∧ Done loop saved n l.toolCallCounter
      ∧ saved.lookup (loop.aiTurnCacheKey (n + 1)) = none
  | .turned l out => InTurn loop tr saved l out 0
  | .tools l out idx => InTurn loop tr saved l out idx
  | .calling l out idx call => InTurn loop tr saved l out idx ∧ out.toolCalls[idx]? = some call
  | .waiting l out idx call signalId => InTurn loop tr saved l out idx
      ∧ out.toolCalls[idx]? = some call ∧ .requested signalId ⟨l.iter, out, idx⟩ ∈ tr

theorem PointOk.mono {p : AiPoint} (h : PointOk loop tr saved p) (hsub : tr ⊆ tr') :
    PointOk loop tr' saved p := by
  cases p with
  | stopped | left | failed | turn | chat => exact h
  | turned | tools => exact InTurn.mono h hsub
  | calling => exact ⟨h.1.mono hsub, h.2⟩
  | waiting => exact ⟨h.1.mono hsub, h.2.1, hsub h.2.2⟩

/-- The counters of the turns: the snapshots have them in order, an answer of the model begins
with the counter of the turn before, and a turn ends with its tool calls counted. -/
structure Numbered (loop : AiLoop) (tr : List AiEvent) (saved : Snapshots) : Prop where
  below : ∀ n y, Done loop saved (n + 1) y → ∃ x, Done loop saved n x ∧ x.toNat ≤ y.toNat
  base : ∀ m j o, .chatted m j o ∈ tr → ∃ n, m = n + 1 ∧ Done loop saved n j
  next : ∀ m j o k, .chatted m j o ∈ tr → Done loop saved m k →
    k.toNat = j.toNat + o.toolCalls.length
  same : ∀ m j o j' o', .chatted m j o ∈ tr → .chatted m j' o' ∈ tr → o = o'
  fits : ∀ m j o, .chatted m j o ∈ tr → j.toNat + o.toolCalls.length < 2 ^ 32

namespace Numbered

section

variable (h : Numbered loop tr saved)

include h

theorem mono
    (hsub : ∀ m j o, .chatted m j o ∈ tr' → .chatted m j o ∈ tr) : Numbered loop tr' saved where
  below := h.below
  base m j o hc := h.base m j o (hsub m j o hc)
  next m j o k hc := h.next m j o k (hsub m j o hc)
  same m j o j' o' hc hc' := h.same m j o j' o' (hsub m j o hc) (hsub m j' o' hc')
  fits m j o hc := h.fits m j o (hsub m j o hc)

/-- The turns before a turn that is done are done, with smaller counters. -/
theorem done_le (hmn : m ≤ n) {y : UInt32} (hy : Done loop saved n y) :
    ∃ x, Done loop saved m x ∧ x.toNat ≤ y.toNat := by
  induction n, hmn using Nat.le_induction generalizing y with
  | base => exact ⟨y, hy, Nat.le_refl _⟩
  | succ n hmn ih =>
    obtain ⟨z, hz, hzy⟩ := h.below n y hy
    obtain ⟨x, hx, hxz⟩ := ih hz
    exact ⟨x, hx, hxz.trans hzy⟩

/-- A later answer begins where the tool calls of an earlier one have been counted. -/
theorem chatted_lt {m' : ℕ} {j j' : UInt32} {o o' : TurnOut}
    (hc : .chatted m j o ∈ tr) (hc' : .chatted m' j' o' ∈ tr) (hlt : m < m') :
    j.toNat + o.toolCalls.length ≤ j'.toNat := by
  obtain ⟨n', rfl, hdone⟩ := h.base m' j' o' hc'
  obtain ⟨k, hk, hle⟩ := h.done_le (Nat.le_of_lt_succ hlt) hdone
  rw [← h.next m j o k hc hk]
  exact hle

/-- **The counter determines the tool call.** -/
theorem site_inj {m' p p' : ℕ} {j j' : UInt32} {o o' : TurnOut}
    (hc : .chatted m j o ∈ tr) (hc' : .chatted m' j' o' ∈ tr) (hp : p < o.toolCalls.length)
    (hp' : p' < o'.toolCalls.length) (heq : j.toNat + p = j'.toNat + p') :
    m = m' ∧ o = o' ∧ p = p' := by
  rcases Nat.lt_trichotomy m m' with hlt | rfl | hlt
  · have := h.chatted_lt hc hc' hlt
    omega
  · obtain ⟨n, rfl, hj⟩ := h.base m j o hc
    obtain ⟨n', hn, hj'⟩ := h.base _ j' o' hc'
    obtain rfl := Nat.succ.inj hn
    obtain rfl := hj.unique hj'
    exact ⟨rfl, h.same _ _ _ _ _ hc hc', by omega⟩
  · have := h.chatted_lt hc' hc hlt
    omega

end

end Numbered

/-! ### Saving a turn -/

variable (hd : loop.settings.durableCheckpoint = true)

include hd in
theorem restore_eq (saved : Snapshots) (n : ℕ) :
    loop.restore saved n = saved.lookup (loop.aiTurnCacheKey n) := by
  rw [restore, if_pos hd]

include hd in
theorem lookup_save (hiter : l.iter = n) (hopen : saved.lookup (loop.aiTurnCacheKey n) = none)
    (complete : Bool) (m : ℕ) : (loop.save saved l complete).lookup (loop.aiTurnCacheKey m)
      = if m = n then some (snapshot l complete) else saved.lookup (loop.aiTurnCacheKey m) := by
  rw [save, if_pos hd, Snapshots.checkpoint, hiter, hopen, if_neg (by simp), List.lookup_cons]
  by_cases hm : m = n
  · rw [if_pos hm, hm, beq_self_eq_true]
  · have hkey : (loop.aiTurnCacheKey m == loop.aiTurnCacheKey n) = false := by
      rw [beq_eq_false_iff_ne]
      exact fun heq => hm (aiTurnCacheKey_inj heq)
    rw [if_neg hm, hkey]

include hd in
theorem done_save_complete (hiter : l.iter = n + 1)
    (hopen : saved.lookup (loop.aiTurnCacheKey (n + 1)) = none) :
    Done loop (loop.save saved l true) m k ↔ Done loop saved m k := by
  cases m with
  | zero => exact Iff.rfl
  | succ m =>
    rw [done_succ, done_succ, lookup_save hd hiter hopen]
    by_cases hm : m + 1 = n + 1
    · rw [if_pos hm, hm, hopen]
      simp [snapshot]
    · rw [if_neg hm]

include hd in
theorem done_save (hiter : l.iter = n + 1)
    (hopen : saved.lookup (loop.aiTurnCacheKey (n + 1)) = none) :
    Done loop (loop.save saved l false) m k
      ↔ Done loop saved m k ∨ m = n + 1 ∧ k = l.toolCallCounter := by
  cases m with
  | zero => simp [Done]
  | succ m =>
    by_cases hm : m + 1 = n + 1
    · have hnot : ¬ Done loop saved (m + 1) k := not_done (by rw [hm]; exact hopen)
      rw [done_succ, lookup_save hd hiter hopen, if_pos hm]
      constructor
      · rintro ⟨s, hs, -, rfl⟩
        rw [← Option.some.inj hs]
        exact .inr ⟨hm, rfl⟩
      · rintro (hdone | ⟨-, rfl⟩)
        · exact absurd hdone hnot
        · exact ⟨_, rfl, rfl, rfl⟩
    · simp only [hm, false_and, or_false]
      rw [done_succ, done_succ, lookup_save hd hiter hopen, if_neg hm]

include hd in
theorem Numbered.finish (h : Numbered loop tr saved) (hiter : l.iter = n + 1)
    (hopen : saved.lookup (loop.aiTurnCacheKey (n + 1)) = none) :
    Numbered loop tr (loop.save saved l true) where
  below m y hy := by
    obtain ⟨x, hx, hle⟩ := h.below m y ((done_save_complete hd hiter hopen).mp hy)
    exact ⟨x, (done_save_complete hd hiter hopen).mpr hx, hle⟩
  base m j o hc := by
    obtain ⟨n', hn', hj⟩ := h.base m j o hc
    exact ⟨n', hn', (done_save_complete hd hiter hopen).mpr hj⟩
  next m j o k hc hk := h.next m j o k hc ((done_save_complete hd hiter hopen).mp hk)
  same := h.same
  fits := h.fits

include hd in
/-- Saving the turn in the locals when all its tool calls are made. -/
theorem Numbered.endTurn (h : Numbered loop tr saved)
    (hturn : InTurn loop tr saved l out out.toolCalls.length) :
    Numbered loop tr (loop.save saved l false)
      ∧ Done loop (loop.save saved l false) l.iter l.toolCallCounter := by
  obtain ⟨n, k, hiter, hdone, hcounter, hopen, hchatted, -⟩ := hturn
  have hsave {m : ℕ} {k' : UInt32} := done_save (m := m) (k := k') hd hiter hopen
  refine ⟨⟨?_, ?_, ?_, h.same, h.fits⟩, by rw [hiter]; exact hsave.mpr (.inr ⟨rfl, rfl⟩)⟩
  · -- The new turn comes after the last one that was done; there is none behind it.
    intro m y hy
    rcases hsave.mp hy with hy | ⟨hm, rfl⟩
    · obtain ⟨x, hx, hle⟩ := h.below m y hy
      exact ⟨x, hsave.mpr (.inl hx), hle⟩
    · obtain rfl := Nat.succ.inj hm
      exact ⟨k, hsave.mpr (.inl hdone), by omega⟩
  · intro m j o hc
    obtain ⟨n', hn', hj⟩ := h.base m j o hc
    exact ⟨n', hn', hsave.mpr (.inl hj)⟩
  · intro m j o k' hc hk'
    rcases hsave.mp hk' with hk' | ⟨rfl, rfl⟩
    · exact h.next m j o k' hc hk'
    · obtain ⟨n', hn', hj⟩ := h.base _ j o hc
      obtain rfl := Nat.succ.inj hn'
      obtain rfl := hj.unique hdone
      rw [hcounter, h.same _ _ _ _ _ hc hchatted]

/-! ### Orderly runs -/

/-- The turn whose tool calls are being made, and how many have been. -/
def current : AiPoint → Option (ℕ × ℕ)
  | .tools l _ idx | .calling l _ idx _ | .waiting l _ idx _ _ => some (l.iter, idx)
  | _ => none

/-- The inputs of an orderly run: a turn that is asked again is answered as before, and the counter
has room for its tool calls; a signal is sent for a request that has been published; and the
instance does not stop or suspend with tool calls of the turn made. -/
def orderly (loop : AiLoop) (tr : List AiEvent) (st : AiState) : AiInput → Bool
  | .chatTurn (some out) =>
    match st.point with
    | .chat l => l.toolCallCounter.toNat + out.toolCalls.length < 2 ^ 32 && tr.all fun
      | .chatted turn _ out' => turn ≠ l.iter || out' = out
      | _ => true
    | _ => true
  | .send signalId _ => tr.any fun
    | .requested id _ => id = signalId
    | _ => false
  | .stop => (current st.point).all fun c => c.2 = 0
  | .code =>
    match st.point with
    | .waiting _ _ idx _ signalId =>
      !loop.storeFreeing || (st.signals.lookup signalId).isSome || idx = 0
    | _ => true
  | _ => true

/-- The counters are right, at the point of the code too. -/
structure Counted (loop : AiLoop) (tr : List AiEvent) (st : AiState) : Prop where
  numbered : Numbered loop tr st.snapshots
  point : PointOk loop tr st.snapshots st.point

theorem Counted.start : Counted loop [] start where
  numbered := by
    refine ⟨?_, ?_, ?_, ?_, ?_⟩
    · rintro n y ⟨s, hs, -⟩
      cases hs
    all_goals
      intros
      simp_all
  point := trivial

theorem Counted.move {p : AiPoint} {signals : SignalRows} (h : Counted loop tr st)
    (hes : ∀ m j o, .chatted m j o ∉ es)
    (hp : PointOk loop (tr ++ es) st.snapshots p) :
    Counted loop (tr ++ es) { st with signals := signals, point := p } where
  numbered := h.numbered.mono fun m j o hc => (List.mem_append.mp hc).resolve_right (hes m j o)
  point := hp

theorem InTurn.addResult {call : ToolCall} {result : Bytes} (h : InTurn loop tr saved l out idx)
    (hnum : Numbered loop tr saved) (hcall : out.toolCalls[idx]? = some call) (es : List AiEvent) :
    PointOk loop (tr ++ es) saved (AiLoop.addResult l out idx call result) := by
  obtain ⟨n, k, hiter, hdone, hcounter, hopen, hchatted, -⟩ := h
  have hlt : idx < out.toolCalls.length := (List.getElem?_eq_some_iff.mp hcall).1
  have hfits := hnum.fits _ _ _ hchatted
  refine ⟨n, k, hiter, hdone, ?_, hopen, List.mem_append_left _ hchatted, hlt⟩
  show (l.toolCallCounter + 1).toNat = _
  rw [UInt32.toNat_add, hcounter, UInt32.toNat_one, Nat.mod_eq_of_lt (by omega), Nat.add_assoc]

include hd in
theorem Counted.step (h : Counted loop tr st) (hok : orderly loop tr st i = true)
    (hmove : Move loop st i st' es) : Counted loop (tr ++ es) st' := by
  have hpoint := h.point
  have hsub : tr ⊆ tr ++ es := List.subset_append_left _ _
  cases hmove with
  | leave | fail | suspend | stop => exact h.move (by simp) trivial
  | launch => exact h.move (by simp) (rfl : (0 : UInt32) = 0)
  | poll | send => exact h.move (by simp) (hpoint.mono hsub)
  | resume hp hs hopen =>
    rw [restore_eq hd] at hs
    exact h.move (by simp) ⟨_, hs, hopen, rfl⟩
  | ask hp hs =>
    rw [hp] at hpoint
    rw [restore_eq hd] at hs
    exact h.move (by simp) ⟨_, rfl, hpoint, hs⟩
  | @chat l out hp =>
    rw [hp] at hpoint
    obtain ⟨n, hiter, hdone, hopen⟩ := hpoint
    simp only [orderly, hp, Bool.and_eq_true, decide_eq_true_eq, List.all_eq_true] at hok
    obtain ⟨hfits, hsame⟩ := hok
    have hold : ∀ j o, .chatted l.iter j o ∈ tr → o = out := by
      intro j o hc
      simpa using hsame _ hc
    have hnew : ∀ m j o, .chatted m j o ∈ tr ++ [.chatted l.iter l.toolCallCounter out] →
        .chatted m j o ∈ tr ∨ m = l.iter ∧ j = l.toolCallCounter ∧ o = out := by
      intro m j o hc
      simpa using hc
    refine ⟨⟨h.numbered.below, ?_, ?_, ?_, ?_⟩, ?_⟩
    · intro m j o hc
      rcases hnew m j o hc with hc | ⟨rfl, rfl, rfl⟩
      · exact h.numbered.base m j o hc
      · exact ⟨n, hiter, hdone⟩
    · intro m j o k hc hk
      rcases hnew m j o hc with hc | ⟨rfl, rfl, rfl⟩
      · exact h.numbered.next m j o k hc hk
      · rw [hiter] at hk
        exact absurd hk (not_done hopen)
    · intro m j o j' o' hc hc'
      rcases hnew m j o hc with hc | ⟨hm, -, ho⟩ <;>
        rcases hnew m j' o' hc' with hc' | ⟨hm', -, ho'⟩
      · exact h.numbered.same m j o j' o' hc hc'
      · rw [ho', hold j o (hm' ▸ hc)]
      · rw [ho, hold j' o' (hm ▸ hc')]
      · rw [ho, ho']
    · intro m j o hc
      rcases hnew m j o hc with hc | ⟨rfl, rfl, rfl⟩
      · exact h.numbered.fits m j o hc
      · exact hfits
    · refine ⟨n, l.toolCallCounter, hiter, hdone, rfl, hopen, ?_, Nat.zero_le _⟩
      rw [← hiter]
      exact List.mem_append_right _ List.mem_cons_self
  | finish hp =>
    rw [hp] at hpoint
    obtain ⟨n, k, hiter, -, -, hopen, -⟩ := hpoint
    rw [List.append_nil]
    exact ⟨h.numbered.finish hd hiter hopen, trivial⟩
  | dispatch hp =>
    rw [hp] at hpoint
    exact h.move (by simp) (InTurn.mono hpoint hsub)
  | @endTurn l out idx hp hnone =>
    rw [hp] at hpoint
    have hidx : idx = out.toolCalls.length := by
      obtain ⟨n, k, -, -, -, -, -, hle⟩ := hpoint
      exact le_antisymm hle (List.getElem?_eq_none_iff.mp hnone)
    subst hidx
    obtain ⟨hnum, hdone⟩ := h.numbered.endTurn hd hpoint
    rw [List.append_nil]
    exact ⟨hnum, hdone⟩
  | request hp hcall =>
    rw [hp] at hpoint
    exact h.move (by simp) ⟨InTurn.mono hpoint hsub, hcall, by simp⟩
  | invoke hp hcall =>
    rw [hp] at hpoint
    exact h.move (by simp) ⟨InTurn.mono hpoint hsub, hcall⟩
  | skip hp hcall =>
    rw [hp] at hpoint
    exact h.move (by simp) (InTurn.addResult hpoint h.numbered hcall _)
  | complete hp =>
    rw [hp] at hpoint
    exact h.move (by simp) (InTurn.addResult hpoint.1 h.numbered hpoint.2 _)
  | answer hp hrow =>
    rw [hp] at hpoint
    exact h.move (by simp) (InTurn.addResult hpoint.1 h.numbered hpoint.2.1 _)

end AiLoop

end Runtara
