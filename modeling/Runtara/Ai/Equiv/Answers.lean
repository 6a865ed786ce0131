/-
  Answers and questions.

  What a person sends under a signal id is an answer to the request that was published under it.
  The loop does not keep the request, only the id, and asks the model again when it is replayed in
  the middle of a turn; so the answer comes to the right tool call only if the model repeats
  itself. The same replay makes the tool calls again that had been made before the stop.
  `answers_fit` is the property in the runs where neither happens.
-/
import Runtara.Ai.Equiv.Counted
import Runtara.Wait.Equiv.Decided

namespace Runtara

open Interactive

namespace AiLoop

variable {loop : AiLoop} {st st' : AiState} {i : AiInput} {tr tr' es : List AiEvent}
  {signalId : String} {c c' : CallSite}

/-- What an event says about the events before it: an answer is given to the one tool call for
which its id had been requested before it was sent, and no tool call is dispatched that has been
completed. -/
def AnswersFit (before : List AiEvent) : AiEvent → Prop
  | .answered signalId call payload =>
    List.Sublist [.requested signalId call, .sent signalId payload] before
      ∧ ∀ other, .requested signalId other ∈ before → other = call
  | .dispatched call => .completed call ∉ before
  | _ => True

/-- A request is made under the counter of its tool call. -/
def Asked (loop : AiLoop) (tr : List AiEvent) (signalId : String) (c : CallSite) : Prop :=
  ∃ j counter label, .chatted c.turn j c.out ∈ tr ∧ c.position < c.out.toolCalls.length
    ∧ counter.toNat = j.toNat + c.position ∧ signalId = loop.aiWaitToolSignalId label counter

theorem Asked.mono (h : Asked loop tr signalId c) (hsub : tr ⊆ tr') :
    Asked loop tr' signalId c := by
  obtain ⟨j, counter, label, hchatted, hrest⟩ := h
  exact ⟨j, counter, label, hsub hchatted, hrest⟩

theorem Asked.unique (h : Asked loop tr signalId c) (h' : Asked loop tr signalId c')
    (hnum : Numbered loop tr st.snapshots) : c = c' := by
  obtain ⟨j, counter, label, hchatted, hlt, hcounter, hid⟩ := h
  obtain ⟨j', counter', label', hchatted', hlt', hcounter', hid'⟩ := h'
  have heq : counter = counter' := aiWaitToolSignalId_inj (hid.symm.trans hid')
  obtain ⟨hturn, hout, hposition⟩ :=
    hnum.site_inj hchatted hchatted' hlt hlt' (by rw [← hcounter, ← hcounter', heq])
  cases c
  cases c'
  simp_all

/-- A completed tool call is not made again: its turn is saved, or it is behind in the current
turn, or the run has failed. -/
def Kept (loop : AiLoop) (st : AiState) (c : CallSite) : Prop :=
  (st.snapshots.lookup (loop.aiTurnCacheKey c.turn)).isSome
    ∨ (∃ idx, current st.point = some (c.turn, idx) ∧ c.position < idx)
    ∨ st.point = .failed

/-- The invariant of orderly runs. -/
structure Fits (loop : AiLoop) (tr : List AiEvent) (st : AiState) : Prop where
  counted : Counted loop tr st
  requests : ∀ signalId c, .requested signalId c ∈ tr → Asked loop tr signalId c
  rows : ∀ signalId payload, st.signals.lookup signalId = some payload →
    ∃ c, List.Sublist [.requested signalId c, .sent signalId payload] tr
  kept : ∀ c, .completed c ∈ tr → Kept loop st c
  explained : Explained AnswersFit tr

theorem Fits.start : Fits loop [] start where
  counted := Counted.start
  requests _ _ hmem := absurd hmem List.not_mem_nil
  rows _ _ hrow := by cases hrow
  kept _ hmem := absurd hmem List.not_mem_nil
  explained := .nil

/-! ### The parts of the invariant, step by step -/

theorem requests_step (h : Fits loop tr st) (hmove : Move loop st i st' es) (signalId : String)
    (c : CallSite) (hmem : .requested signalId c ∈ tr ++ es) :
    Asked loop (tr ++ es) signalId c := by
  rcases List.mem_append.mp hmem with hmem | hmem
  · exact (h.requests signalId c hmem).mono (List.subset_append_left _ _)
  · -- Only a waiting tool requests an input.
    cases hmove with
    | @request l out idx call label hp hcall =>
      have hpoint := h.counted.point
      rw [hp] at hpoint
      obtain ⟨n, k, hiter, -, hcounter, -, hchatted, -⟩ := hpoint
      obtain ⟨rfl, rfl⟩ : signalId = loop.aiWaitToolSignalId label l.toolCallCounter
          ∧ c = ⟨l.iter, out, idx⟩ := by simpa using hmem
      refine ⟨k, l.toolCallCounter, label, ?_, (List.getElem?_eq_some_iff.mp hcall).1, hcounter,
        rfl⟩
      rw [← hiter] at hchatted
      exact List.mem_append_left _ hchatted
    | _ => simp at hmem

theorem rows_step (h : Fits loop tr st) (hok : orderly loop tr st i = true)
    (hmove : Move loop st i st' es) (signalId : String) (payload : Bytes)
    (hrow : st'.signals.lookup signalId = some payload) :
    ∃ c, List.Sublist [.requested signalId c, .sent signalId payload] (tr ++ es) := by
  -- The row was there before, except the one that is sent now.
  have hold (hrow : st.signals.lookup signalId = some payload) :
      ∃ c, List.Sublist [.requested signalId c, .sent signalId payload] (tr ++ es) := by
    obtain ⟨c, hc⟩ := h.rows signalId payload hrow
    exact ⟨c, hc.trans (List.sublist_append_left _ _)⟩
  cases hmove with
  | @send id sent =>
    by_cases hid : signalId = id
    · subst hid
      rw [lookup_insertCustomSignal, if_pos rfl] at hrow
      obtain rfl := Option.some.inj hrow
      obtain ⟨e, he, hmatch⟩ := List.any_eq_true.mp hok
      cases e with
      | requested id c =>
        obtain rfl : id = signalId := by simpa using hmatch
        exact ⟨c, (List.singleton_sublist.mpr he).append (List.Sublist.refl _)⟩
      | _ => cases hmatch
    · rw [lookup_insertCustomSignal, if_neg hid] at hrow
      exact hold hrow
  | _ => exact hold hrow

/-- A call that is kept in a turn stays kept while the turn goes on. -/
theorem Kept.of_current {idx idx' turn : ℕ} (h : Kept loop st c)
    (hcur : current st.point = some (turn, idx))
    (hsaved : st'.snapshots = st.snapshots) (hcur' : current st'.point = some (turn, idx'))
    (hle : idx ≤ idx') : Kept loop st' c := by
  rcases h with hsome | ⟨idx'', hc, hlt⟩ | hfailed
  · exact .inl (hsaved ▸ hsome)
  · obtain ⟨rfl, rfl⟩ := Prod.mk.inj (Option.some.inj (hcur.symm.trans hc))
    exact .inr (.inl ⟨idx', hcur', by omega⟩)
  · rw [hfailed] at hcur
    cases hcur

theorem Kept.of_none (h : Kept loop st c) (hcur : current st.point = none)
    (hfailed : st.point ≠ .failed) (hsaved : st'.snapshots = st.snapshots) : Kept loop st' c := by
  rcases h with hsome | ⟨idx, hc, -⟩ | hf
  · exact .inl (hsaved ▸ hsome)
  · rw [hcur] at hc
    cases hc
  · exact absurd hf hfailed

variable (hd : loop.settings.durableCheckpoint = true)

include hd in
theorem Kept.of_save {l : AiLocals} {complete : Bool} {p : AiPoint} (h : Kept loop st c)
    (hcur : ∀ turn idx, current st.point = some (turn, idx) → turn = l.iter)
    (hfailed : st.point ≠ .failed)
    (hopen : st.snapshots.lookup (loop.aiTurnCacheKey l.iter) = none) :
    Kept loop { st with snapshots := loop.save st.snapshots l complete, point := p } c := by
  rcases h with hsome | ⟨idx, hc, -⟩ | hf
  · refine .inl ?_
    rw [lookup_save hd rfl hopen]
    split
    · rfl
    · exact hsome
  · refine .inl ?_
    rw [lookup_save hd rfl hopen, if_pos (hcur _ _ hc)]
    rfl
  · exact absurd hf hfailed

include hd in
theorem kept_step (h : Fits loop tr st) (hok : orderly loop tr st i = true)
    (hmove : Move loop st i st' es) (c : CallSite) (hmem : .completed c ∈ tr ++ es) :
    Kept loop st' c := by
  have hpoint := h.counted.point
  have hold := h.kept c
  cases hmove with
  | leave hp =>
    have hkept := hold (by simpa using hmem)
    rcases hp with ⟨l, hp⟩ | ⟨l, hp⟩ <;> exact hkept.of_none (by rw [hp]; rfl) (by simp [hp]) rfl
  | resume hp | ask hp | chat hp | launch hp | dispatch hp =>
    exact (hold (by simpa using hmem)).of_none (by rw [hp]; rfl) (by simp [hp]) rfl
  | fail => exact .inr (.inr rfl)
  | poll | send => exact hold (by simpa using hmem)
  | @suspend l out idx call id hp hrow hfree =>
    -- An orderly suspension is one of the first tool call of the turn.
    have hidx : idx = 0 := by simpa [orderly, hp, hrow, hfree] using hok
    rcases hold (by simpa using hmem) with hsome | ⟨idx', hc, hlt⟩ | hf
    · exact .inl hsome
    · rw [hp] at hc
      obtain ⟨-, rfl⟩ := Prod.mk.inj (Option.some.inj hc)
      omega
    · rw [hp] at hf
      cases hf
  | stop hfailed =>
    rcases hold (by simpa using hmem) with hsome | ⟨idx', hc, hlt⟩ | hf
    · exact .inl hsome
    · have hidx : idx' = 0 := by simpa [orderly, hc] using hok
      omega
    · exact absurd hf hfailed
  | finish hp | endTurn hp =>
    rw [hp] at hpoint
    obtain ⟨n, k, hiter, -, -, hopen, -⟩ := hpoint
    rw [← hiter] at hopen
    exact (hold (by simpa using hmem)).of_save hd (by simp [hp, current]) (by simp [hp]) hopen
  | request hp | invoke hp =>
    exact (hold (by simpa using hmem)).of_current (by rw [hp]; rfl) rfl rfl (Nat.le_refl _)
  | @skip l out idx call hp | @complete l out idx call result hp
  | @answer l out idx call id payload result hp =>
    rcases List.mem_append.mp hmem with hmem | hmem
    · exact (hold hmem).of_current (by rw [hp]; rfl) rfl rfl (Nat.le_succ _)
    · obtain rfl : c = ⟨l.iter, out, idx⟩ := by simpa using hmem
      exact .inr (.inl ⟨idx + 1, rfl, Nat.lt_succ_self _⟩)

/-- The tool call that is next in its turn has not been completed. -/
theorem not_completed (h : Fits loop tr st) {l : AiLocals} {out : TurnOut} {idx : ℕ}
    (hp : st.point = .tools l out idx) : .completed ⟨l.iter, out, idx⟩ ∉ tr := by
  intro hmem
  have hpoint := h.counted.point
  rw [hp] at hpoint
  obtain ⟨n, k, hiter, -, -, hopen, -⟩ := hpoint
  rcases h.kept _ hmem with hsome | ⟨idx', hc, hlt⟩ | hf
  · simp only [hiter, hopen, Option.isSome_none, Bool.false_eq_true] at hsome
  · rw [hp] at hc
    obtain ⟨-, rfl⟩ := Prod.mk.inj (Option.some.inj hc)
    exact Nat.lt_irrefl _ hlt
  · rw [hp] at hf
    cases hf

/-- The payload a waiting tool finds was sent for its own request. -/
theorem answer_fits (h : Fits loop tr st) {l : AiLocals} {out : TurnOut} {idx : ℕ} {call : ToolCall}
    {payload : Bytes} (hp : st.point = .waiting l out idx call signalId)
    (hrow : st.signals.lookup signalId = some payload) :
    AnswersFit tr (.answered signalId ⟨l.iter, out, idx⟩ payload) := by
  have hpoint := h.counted.point
  rw [hp] at hpoint
  obtain ⟨-, -, hreq⟩ := hpoint
  have hunique : ∀ other, .requested signalId other ∈ tr → other = ⟨l.iter, out, idx⟩ :=
    fun other hother => (h.requests _ _ hother).unique (h.requests _ _ hreq) h.counted.numbered
  obtain ⟨asked, hsub⟩ := h.rows signalId payload hrow
  have hasked := hunique asked (hsub.subset List.mem_cons_self)
  exact ⟨hasked ▸ hsub, hunique⟩

theorem explained_step (h : Fits loop tr st) (hmove : Move loop st i st' es) :
    Explained AnswersFit (tr ++ es) := by
  have hquiet : Explained AnswersFit (tr ++ []) := by
    rw [List.append_nil]
    exact h.explained
  cases hmove with
  | leave | resume | ask | finish | dispatch | endTurn | fail | poll | suspend | stop | launch =>
    exact hquiet
  | chat | send | skip | complete => exact h.explained.snoc trivial
  | request hp => exact h.explained.snoc_two (not_completed h hp) trivial
  | invoke hp => exact h.explained.snoc (not_completed h hp)
  | answer hp hrow => exact h.explained.snoc_two (answer_fits h hp hrow) trivial

include hd in
theorem Fits.step (h : Fits loop tr st) (hok : orderly loop tr st i = true)
    (hstep : loop.step st i = some (st', es)) : Fits loop (tr ++ es) st' where
  counted := h.counted.step hd hok (move_of_step hstep)
  requests := requests_step h (move_of_step hstep)
  rows := rows_step h hok (move_of_step hstep)
  kept := kept_step hd h hok (move_of_step hstep)
  explained := explained_step h (move_of_step hstep)

/-- **An answer goes to the question that was asked.** In every orderly run of a durable loop, an
answer is given to the tool call for which its id had been requested when it was sent, and no
completed tool call is dispatched again. -/
theorem answers_fit (loop : AiLoop) (hd : loop.settings.durableCheckpoint = true)
    (tr : List AiEvent) (st : AiState) (h : loop.system.Run (orderly loop) start tr st) :
    Explained AnswersFit tr := by
  have hfits : Fits loop tr st := h.invariant (I := Fits loop) Fits.start
    fun _ _ _ _ _ hI hok hstep => hI.step hd hok hstep
  exact hfits.explained

/-! ### One question -/

/-- A durable loop whose only tool asks a person. -/
def assistant : AiLoop where
  settings := ⟨"assistant", 0, "ai", true, false, 10, none⟩
  tools := [.wait "approval" "approve"]
  instanceId := "run"
  workflowId := "root"
  cacheKeyPrefix := none
  indicesSuffix := ""
  storeFreeing := true
  aiWaitToolResult payload := some payload

/-- The answer of the model that asks the tool one question. -/
def question (text : Bytes) : TurnOut := ⟨false, [⟨0, text⟩], []⟩

/-- The question is asked, the instance is suspended, the person answers, and the model is asked
again. -/
def oneQuestion (first again : TurnOut) : List AiInput :=
  [.launch, .code, .chatTurn (some first), .code, .code, .code,
    .send "run/root/assistant.tool.approve.0" [7],
    .launch, .code, .chatTurn (some again), .code, .code, .code]

/-- A model that repeats its question gets the answer to it. -/
theorem assistant_answers_fit : ∃ tr st, assistant.system.Run (orderly assistant) start tr st
    ∧ .answered "run/root/assistant.tool.approve.0" ⟨1, question [1], 0⟩ [7] ∈ tr
    ∧ Explained AnswersFit tr := by
  have hplay : ((assistant.system.play (orderly assistant) [] start
      (oneQuestion (question [1]) (question [1]))).map fun p => decide
        (.answered "run/root/assistant.tool.approve.0" ⟨1, question [1], 0⟩ [7] ∈ p.1))
      = some true := by decide +kernel
  obtain ⟨⟨tr, st⟩, hplay, hmem⟩ := Option.map_eq_some_iff.mp hplay
  have hrun := System.run_of_play hplay
  exact ⟨tr, st, hrun, of_decide_eq_true hmem, answers_fit assistant rfl tr st hrun⟩

/-- **An answer can go to another question.** The model asks for one thing, the person answers, and
after the replay the model asks for something else under the same signal id: the stored answer is
given to the second question, which had not been asked when it was sent. -/
theorem assistant_answers_other : ∃ before st, assistant.system.Run (fun _ _ _ => true) start
      (before ++ [.answered "run/root/assistant.tool.approve.0" ⟨1, question [2], 0⟩ [7],
        .completed ⟨1, question [2], 0⟩]) st
    ∧ ¬ AnswersFit before
      (.answered "run/root/assistant.tool.approve.0" ⟨1, question [2], 0⟩ [7]) := by
  have hplay : (assistant.system.play (fun _ _ _ => true) [] start
      (oneQuestion (question [1]) (question [2]))).map Prod.fst
      = some ([.chatted 1 0 (question [1]), .dispatched ⟨1, question [1], 0⟩,
          .requested "run/root/assistant.tool.approve.0" ⟨1, question [1], 0⟩,
          .sent "run/root/assistant.tool.approve.0" [7],
          .chatted 1 0 (question [2]), .dispatched ⟨1, question [2], 0⟩,
          .requested "run/root/assistant.tool.approve.0" ⟨1, question [2], 0⟩]
        ++ [.answered "run/root/assistant.tool.approve.0" ⟨1, question [2], 0⟩ [7],
          .completed ⟨1, question [2], 0⟩]) := by decide +kernel
  obtain ⟨⟨tr, st⟩, hplay, rfl⟩ := Option.map_eq_some_iff.mp hplay
  refine ⟨_, st, System.run_of_play hplay, ?_⟩
  rintro ⟨-, hunique⟩
  have hother := hunique ⟨1, question [1], 0⟩ (by simp)
  exact absurd hother (by decide)

end AiLoop

end Runtara
