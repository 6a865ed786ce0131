/-
  Requests that are not lost.

  A request that has not been served yet is pending: its key is in the set, and if it asks to be
  forced, so does the request in the hash (`Waiting`). The worker takes the key out of the set after
  it has served what it has read, so a request is lost if it comes too late for that and too early
  to be put into the list again. If no request comes in that time, nothing is lost
  (`requests_served`); otherwise it may be (`late_request_lost`).
-/
import Runtara.Compilation.Equiv.Keys

namespace Runtara.Compilation

open Tasks (Prog Protocol)
open Tasks.System (calls)

open CompilationRequest List

/-! ### What is left to serve -/

/-- The requests in the log that no later compilation serves. -/
def unserved : List Entry → List CompilationRequest
  | [] => []
  | .enqueued r :: log => r :: unserved log
  | .compiled s :: log => (unserved log).filter fun r => !(Entry.compiled s).serves r
  | .edited _ _ _ :: log => unserved log

theorem mem_unserved_or_served (newer older : List Entry) (r : CompilationRequest) :
    r ∈ unserved (newer ++ .enqueued r :: older) ∨ ∃ e ∈ newer, e.serves r = true := by
  induction newer with
  | nil => exact Or.inl mem_cons_self
  | cons e newer ih =>
    rcases ih with hmem | ⟨e', he', hserves⟩
    · cases e with
      | enqueued s => exact Or.inl (mem_cons_of_mem _ hmem)
      | edited => exact Or.inl hmem
      | compiled s =>
        by_cases hserves : (Entry.compiled s).serves r = true
        · exact Or.inr ⟨_, mem_cons_self, hserves⟩
        · refine Or.inl (mem_filter.mpr ⟨hmem, ?_⟩)
          rw [(Bool.not_eq_true _).mp hserves]
          rfl
    · exact Or.inr ⟨e', mem_cons_of_mem _ he', hserves⟩

theorem served_of_unserved_eq_nil {log : List Entry} (h : unserved log = []) : Served log := by
  rintro newer r older rfl
  refine (mem_unserved_or_served newer older r).resolve_left fun hmem => ?_
  rw [h] at hmem
  cases hmem

/-! ### The worker's program -/

/-- The key is one of a request whose ids have no colon. -/
def IsKey (key : String) : Prop := ∃ r : CompilationRequest, r.plain = true ∧ r.uniqueKey = key

/-- What the worker may call when it has come so far. -/
def Phase.allows (p : Phase) : Op → Prop
  | .rpush key => IsKey key
  | .blpop => p = .idle
  | .hget key => p = .popped key
  | .compileWorkflow request => p = .loaded request
  | .srem key => ∃ request, p = .compiled request ∧ key = request.uniqueKey
  | .hdel key => ∃ request, p = .removed request ∧ key = request.uniqueKey
  | .smembers => True
  | .lrange => True

/-- The pending keys are keys of requests. -/
def Op.answerable : (op : Op) → op.Ret → Prop
  | .smembers, keys => ∀ key ∈ keys, IsKey key
  | _, _ => True

def workerProtocol : Protocol Op Op.Ret Phase where
  allowed := Phase.allows
  next p op r p' := p' = p.after op r ∧ op.answerable r

variable {op : Op}

section Follows

variable {α : Type} {post : Phase → α → Prop} {p : Phase}

theorem follows_ask {f : op.Ret → Calls α} (hop : p.allows op)
    (h : ∀ r, op.answerable r → (f r).Follows workerProtocol post (p.after op r)) :
    (ask op >>= f).Follows workerProtocol post p := by
  refine ⟨hop, ?_⟩
  rintro r _ ⟨rfl, hr⟩
  exact h r hr

theorem dequeue_follows : dequeue.Follows workerProtocol
    (fun p found => match found with
      | .request r => p = .loaded r
      | _ => p = .idle) .idle := by
  refine follows_ask rfl fun key _ => ?_
  cases key with
  | none => exact rfl
  | some key =>
    refine follows_ask rfl fun payload _ => ?_
    dsimp only [Phase.after]
    cases payload.or (fromUniqueKey key) with
    | some | none => exact rfl

theorem complete_follows (request : CompilationRequest) :
    (complete request).Follows workerProtocol (fun p _ => p = .idle) (.compiled request) := by
  refine follows_ask ⟨request, rfl, rfl⟩ fun _ _ => ?_
  refine ⟨⟨request, rfl, rfl⟩, ?_⟩
  rintro _ _ ⟨rfl, -⟩
  rfl

theorem requeue_follows {keys : List String} (h : ∀ key ∈ keys, IsKey key) :
    (requeue keys).Follows workerProtocol (fun p _ => p = .idle) .idle := by
  induction keys with
  | nil => exact rfl
  | cons key keys ih =>
    refine follows_ask (h key mem_cons_self) fun _ _ => ?_
    exact ih fun key hkey => h key (mem_cons_of_mem _ hkey)

theorem recoverOrphaned_follows :
    recoverOrphaned.Follows workerProtocol (fun p _ => p = .idle) .idle := by
  refine follows_ask trivial fun pending hpending => ?_
  split
  · exact rfl
  · refine follows_ask trivial fun queued _ => requeue_follows fun key hkey => ?_
    exact hpending key (mem_filter.mp hkey).1

theorem rounds_follows (n : ℕ) :
    (rounds n).Follows workerProtocol (fun p _ => p = .idle) .idle := by
  induction n with
  | zero => exact rfl
  | succ n ih =>
    refine (dequeue_follows.mono fun p found hfound => ?_).bind
    cases found with
    | request r =>
      obtain rfl : p = .loaded r := hfound
      refine follows_ask rfl fun _ _ => ((complete_follows r).mono fun p _ hp => ?_).bind
      obtain rfl := hp
      exact ih
    | empty | parseError =>
      obtain rfl : p = .idle := hfound
      exact ih

theorem worker_follows (n : ℕ) :
    (worker n).Follows workerProtocol (fun p _ => p = .idle) .idle := by
  refine (recoverOrphaned_follows.mono fun p _ hp => ?_).bind
  obtain rfl := hp
  exact rounds_follows n

end Follows

/-! ### What is kept -/

/-- The key is pending, and the request in the hash asks to be forced if this one does. -/
structure Waiting (w : World) (r : CompilationRequest) : Prop where
  pending : r.uniqueKey ∈ w.pending
  forced : r.forceRecompile = true →
    ∃ p, w.requests r.uniqueKey = some p ∧ p.forceRecompile = true

/-- The worker has not come too far to serve the request. -/
def Phase.inTime (r : CompilationRequest) : Phase → Prop
  | .idle => True
  | .popped _ => True
  | .loaded q => q.uniqueKey = r.uniqueKey → r.forceRecompile = true → q.forceRecompile = true
  | .compiled q => q.uniqueKey ≠ r.uniqueKey
  | .removed q => q.uniqueKey = r.uniqueKey → r.forceRecompile = false

instance (r : CompilationRequest) : (p : Phase) → Decidable (p.inTime r)
  | .idle => inferInstanceAs (Decidable True)
  | .popped _ => inferInstanceAs (Decidable True)
  | .loaded q => inferInstanceAs (Decidable
      (q.uniqueKey = r.uniqueKey → r.forceRecompile = true → q.forceRecompile = true))
  | .compiled q => inferInstanceAs (Decidable (q.uniqueKey ≠ r.uniqueKey))
  | .removed q => inferInstanceAs (Decidable
      (q.uniqueKey = r.uniqueKey → r.forceRecompile = false))

/-- What the worker holds comes from a request whose ids have no colon. -/
def Phase.Sound : Phase → Prop
  | .popped key => IsKey key
  | .loaded q => q.plain = true
  | _ => True

/-- What holds of the queue. -/
structure World.Kept (w : World) : Prop where
  waiting : ∀ r ∈ unserved w.log, r.plain = true ∧ Waiting w r ∧ w.phase.inTime r
  queue : ∀ key ∈ w.queue, IsKey key
  pending : ∀ key ∈ w.pending, IsKey key
  payload : ∀ key p, w.requests key = some p → p.plain = true ∧ p.uniqueKey = key
  phase : w.phase.Sound

/-- There is at most one worker, and without one nothing is being compiled. -/
structure Kept (c : Config) : Prop where
  world : c.world.Kept
  worker : c.tasks = [] ∧ c.world.phase = .idle ∨ ∃ t, c.tasks = [t] ∧
    t.prog.Follows workerProtocol (fun p _ => p = .idle) c.world.phase

theorem initial_kept : Kept initial :=
  ⟨⟨nofun, nofun, nofun, nofun, trivial⟩, Or.inl ⟨rfl, rfl⟩⟩

namespace World.Kept

variable {w : World}

variable {q : CompilationRequest}

theorem uniqueKey_fromUniqueKey {key : String} (hkey : IsKey key) (h : fromUniqueKey key = some q) :
    q.plain = true ∧ q.uniqueKey = key := by
  obtain ⟨r, hr, rfl⟩ := hkey
  rw [fromUniqueKey_uniqueKey hr] at h
  obtain rfl := Option.some.inj h
  exact ⟨hr, rfl⟩

section

variable (h : w.Kept)

include h

/-- Requests go on waiting as long as the set, the hash and what is left to serve are the same. -/
theorem waiting_of {w' : World} (hpending : w'.pending = w.pending)
    (hrequests : w'.requests = w.requests) (hlog : unserved w'.log = unserved w.log)
    (hphase : ∀ r, w.phase.inTime r → w'.phase.inTime r) :
    ∀ r ∈ unserved w'.log, r.plain = true ∧ Waiting w' r ∧ w'.phase.inTime r := by
  intro r hr
  rw [hlog] at hr
  obtain ⟨hplain, hwaiting, hinTime⟩ := h.waiting r hr
  refine ⟨hplain, ⟨?_, ?_⟩, hphase r hinTime⟩
  · rw [hpending]
    exact hwaiting.pending
  · rw [hrequests]
    exact hwaiting.forced

/-- The request that the worker has read asks to be forced if a request that waits does. -/
theorem hget {key : String} (hphase : w.phase = .popped key) :
    World.Kept { w with phase := w.phase.after (.hget key) (w.requests key) } := by
  have hkey : IsKey key := by
    have := h.phase
    rwa [hphase] at this
  have hload : ∀ q, (w.requests key).or (fromUniqueKey key) = some q →
      q.plain = true ∧ q.uniqueKey = key ∧
        ∀ p, w.requests key = some p → p.forceRecompile = true → q.forceRecompile = true := by
    intro q hq
    cases hpayload : w.requests key with
    | some p =>
      rw [hpayload] at hq
      obtain rfl := Option.some.inj hq
      obtain ⟨hplain, hunique⟩ := h.payload key p hpayload
      refine ⟨hplain, hunique, ?_⟩
      rintro _ ⟨⟩ hforce
      exact hforce
    | none =>
      rw [hpayload] at hq
      obtain ⟨hplain, hunique⟩ := uniqueKey_fromUniqueKey hkey hq
      exact ⟨hplain, hunique, nofun⟩
  cases hq : (w.requests key).or (fromUniqueKey key) with
  | none =>
    have hafter : w.phase.after (.hget key) (w.requests key) = .idle := by
      simp only [Phase.after, hq]
    rw [hafter]
    exact ⟨h.waiting_of rfl rfl rfl fun _ _ => trivial, h.queue, h.pending, h.payload, trivial⟩
  | some q =>
    have hafter : w.phase.after (.hget key) (w.requests key) = .loaded q := by
      simp only [Phase.after, hq]
    obtain ⟨hplain, hunique, hforced⟩ := hload q hq
    rw [hafter]
    refine ⟨fun r hr => ?_, h.queue, h.pending, h.payload, hplain⟩
    obtain ⟨hr, hwaiting, -⟩ := h.waiting r hr
    refine ⟨hr, ⟨hwaiting.1, hwaiting.2⟩, fun hsame hforce => ?_⟩
    obtain ⟨p, hp, hforce⟩ := hwaiting.forced hforce
    rw [← hsame, hunique] at hp
    exact hforced p hp hforce

theorem compile (hphase : w.phase = .loaded q) :
    World.Kept { w with phase := .compiled q, log := .compiled q :: w.log } := by
  have hplain : q.plain = true := by
    have := h.phase
    rwa [hphase] at this
  refine ⟨fun r hr => ?_, h.queue, h.pending, h.payload, trivial⟩
  obtain ⟨hr, hserves⟩ := mem_filter.mp hr
  obtain ⟨hr, hwaiting, hinTime⟩ := h.waiting r hr
  refine ⟨hr, ⟨hwaiting.1, hwaiting.2⟩, fun hsame => ?_⟩
  rw [hphase] at hinTime
  have hforce : (!r.forceRecompile || q.forceRecompile) = true := by
    cases hr : r.forceRecompile with
    | false => rfl
    | true => exact hinTime hsame hr
  have : (Entry.compiled q).serves r = true := by
    rw [Entry.serves, sameTarget_of_uniqueKey_eq hplain hr hsame, hforce]
    rfl
  rw [this] at hserves
  cases hserves

theorem srem (hphase : w.phase = .compiled q) :
    World.Kept { w with phase := .removed q, pending := w.pending.filter (· ≠ q.uniqueKey) } := by
  refine ⟨fun r hr => ?_, h.queue, fun key hkey => h.pending key (mem_filter.mp hkey).1,
    h.payload, trivial⟩
  obtain ⟨hr, hwaiting, hinTime⟩ := h.waiting r hr
  rw [hphase] at hinTime
  refine ⟨hr, ⟨mem_filter.mpr ⟨hwaiting.pending, ?_⟩, hwaiting.2⟩,
    fun hsame => absurd hsame hinTime⟩
  exact decide_eq_true (Ne.symm hinTime)

theorem hdel (hphase : w.phase = .removed q) : World.Kept { w with
      phase := .idle, requests := Function.update w.requests q.uniqueKey none } := by
  refine ⟨fun r hr => ?_, h.queue, h.pending, fun key p hp => ?_, trivial⟩
  · obtain ⟨hr, hwaiting, hinTime⟩ := h.waiting r hr
    rw [hphase] at hinTime
    refine ⟨hr, ⟨hwaiting.pending, fun hforce => ?_⟩, trivial⟩
    have hne : r.uniqueKey ≠ q.uniqueKey := by
      intro hsame
      rw [hinTime hsame.symm] at hforce
      cases hforce
    obtain ⟨p, hp, hpforce⟩ := hwaiting.forced hforce
    exact ⟨p, (Function.update_of_ne hne _ _).trans hp, hpforce⟩
  · by_cases hkey : key = q.uniqueKey
    · rw [hkey] at hp
      dsimp only at hp
      rw [Function.update_self] at hp
      cases hp
    · dsimp only at hp
      rw [Function.update_of_ne hkey] at hp
      exact h.payload key p hp

theorem payload_update {r : CompilationRequest} (hplain : r.plain = true)
    (key : String) (p : CompilationRequest)
    (hp : Function.update w.requests r.uniqueKey (some r) key = some p) :
    p.plain = true ∧ p.uniqueKey = key := by
  by_cases hkey : key = r.uniqueKey
  · rw [hkey, Function.update_self] at hp
    obtain rfl := Option.some.inj hp
    exact ⟨hplain, hkey.symm⟩
  · rw [Function.update_of_ne hkey] at hp
    exact h.payload key p hp

/-- A request that comes in time waits with the others. -/
theorem enqueue {r : CompilationRequest} (hplain : r.plain = true)
    (hinTime : w.phase.inTime r) : (w.enqueue r).Kept := by
  -- what is asked of the requests of the new log
  have hlog : ∀ w' : World, w'.log = .enqueued r :: w.log → w'.phase = w.phase → Waiting w' r →
      (∀ s ∈ unserved w.log, Waiting w s → Waiting w' s) →
      ∀ s ∈ unserved w'.log, s.plain = true ∧ Waiting w' s ∧ w'.phase.inTime s := by
    intro w' hw' hphase hr hothers s hs
    rw [hw'] at hs
    rw [hphase]
    rcases mem_cons.mp hs with rfl | hs
    · exact ⟨hplain, hr, hinTime⟩
    · obtain ⟨hs', hwaiting, hinTime⟩ := h.waiting s hs
      exact ⟨hs', hothers s hs hwaiting, hinTime⟩
  unfold World.enqueue
  dsimp only
  split
  · rename_i hpending
    split
    · rename_i hforce
      refine ⟨hlog _ rfl rfl ⟨hpending, fun _ => ⟨r, Function.update_self .., hforce⟩⟩ ?_, h.queue,
        h.pending, payload_update h hplain, h.phase⟩
      -- the request in the hash is replaced by one that asks to be forced
      refine fun s _ hs => ⟨hs.pending, fun hsforce => ?_⟩
      by_cases hkey : s.uniqueKey = r.uniqueKey
      · exact ⟨r, by rw [hkey]; exact Function.update_self .., hforce⟩
      · obtain ⟨p, hp, hpforce⟩ := hs.forced hsforce
        exact ⟨p, (Function.update_of_ne hkey _ _).trans hp, hpforce⟩
    · rename_i hforce
      exact ⟨hlog _ rfl rfl ⟨hpending, fun h => absurd h hforce⟩ fun s _ hs => ⟨hs.1, hs.2⟩,
        h.queue, h.pending, h.payload, h.phase⟩
  · rename_i hpending
    have hkeys : IsKey r.uniqueKey := ⟨r, hplain, rfl⟩
    refine ⟨hlog _ rfl rfl ⟨mem_cons_self, fun hforce => ⟨r, Function.update_self .., hforce⟩⟩ ?_,
      ?_, ?_, payload_update h hplain, h.phase⟩
    · -- no other request waits under the key
      refine fun s _ hs => ⟨mem_cons_of_mem _ hs.pending, fun hsforce => ?_⟩
      have hkey : s.uniqueKey ≠ r.uniqueKey := fun hsame => hpending (hsame ▸ hs.pending)
      obtain ⟨p, hp, hpforce⟩ := hs.forced hsforce
      exact ⟨p, (Function.update_of_ne hkey _ _).trans hp, hpforce⟩
    · exact Tasks.forall_mem_concat h.queue hkeys
    · exact forall_mem_cons.mpr ⟨hkeys, h.pending⟩

theorem restart : World.Kept { w with phase := .idle } :=
  ⟨h.waiting_of rfl rfl rfl fun _ _ => trivial, h.queue, h.pending, h.payload, trivial⟩

/-- A command that the worker may give keeps what is kept. -/
theorem command (hop : w.phase.allows op) :
    World.Kept { (command op w).2 with phase := w.phase.after op (command op w).1 } := by
  cases op with
  | smembers | lrange => exact h
  | rpush key =>
    exact ⟨h.waiting_of rfl rfl rfl fun _ => id, Tasks.forall_mem_concat h.queue hop, h.pending,
      h.payload, h.phase⟩
  | blpop =>
    obtain ⟨queue, pending, requests, phase, log⟩ := w
    cases queue with
    | nil => exact h
    | cons key queue =>
      exact ⟨h.waiting_of rfl rfl rfl fun _ _ => trivial,
        fun k hk => h.queue k (mem_cons_of_mem _ hk), h.pending, h.payload,
        h.queue key mem_cons_self⟩
  | hget key => exact h.hget hop
  | compileWorkflow q => exact h.compile hop
  | srem key =>
    obtain ⟨q, hphase, rfl⟩ := hop
    have hafter : w.phase.after (.srem q.uniqueKey) () = .removed q := by
      rw [hphase]
      rfl
    exact hafter ▸ h.srem hphase
  | hdel key =>
    obtain ⟨q, hphase, rfl⟩ := hop
    exact h.hdel hphase

end

end World.Kept

/-! ### Whole runs -/

/-- A request that is enqueued has ids without a colon, and the worker has not come too far with its
key: it has not read the definition and not removed the key since, and if the request asks to be
forced, it has not read another one that does not. -/
def Move.inTime (m : Move) : Bool :=
  match m.input with
  | .outside (.enqueue r) => r.plain && decide (m.before.world.phase.inTime r)
  | _ => true

theorem Kept.task {c : Config} {i : ℕ} {next : op.Ret → Calls Unit} (h : Kept c)
    (htask : c.tasks[i]? = some ⟨(), .call op next⟩) :
    Kept ⟨{ (command op c.world).2 with phase := c.world.phase.after op (command op c.world).1 },
      c.tasks.set i ⟨(), next (command op c.world).1⟩ ++ []⟩ := by
  rcases h.worker with ⟨hnone, -⟩ | ⟨t, hone, hfollows⟩
  · rw [hnone] at htask
    cases htask
  · rw [hone] at htask ⊢
    obtain rfl : i = 0 := by
      have hlt := (List.getElem?_eq_some_iff.mp htask).1
      rw [length_singleton] at hlt
      omega
    obtain rfl : t = ⟨(), .call op next⟩ := Option.some.inj htask
    obtain ⟨hop, hnext⟩ := hfollows
    have hanswerable : op.answerable (command op c.world).1 := by
      cases op with
      | smembers => exact h.world.pending
      | _ => trivial
    exact ⟨h.world.command hop, Or.inr ⟨_, rfl, hnext _ _ ⟨rfl, hanswerable⟩⟩⟩

theorem Kept.phase_idle {c : Config} (h : Kept c) (hdone : ∀ t ∈ c.tasks, t.prog.isDone = true) :
    c.world.phase = .idle := by
  rcases h.worker with ⟨-, hidle⟩ | ⟨t, hone, hfollows⟩
  · exact hidle
  · have ht := hdone t (by rw [hone]; exact mem_cons_self)
    cases hprog : t.prog with
    | call op next =>
      rw [hprog] at ht
      cases ht
    | done a =>
      rw [hprog] at hfollows
      exact hfollows

theorem Move.kept {m : Move} (hm : m.Valid) (hinTime : m.inTime = true) (h : Kept m.before) :
    Kept m.after := by
  rcases hm.cases with ⟨i, choice, tag, op, next, r, tag', w, started, -, htask, hexec,
      -, hafter⟩ | ⟨o, w, ts, -, hinput, hout, hafter⟩
  · rw [hafter]
    cases hexec
    exact h.task htask
  · rw [hafter]
    obtain ⟨before, input, after⟩ := m
    obtain rfl : input = .outside o := hinput
    cases o with
    | enqueue r =>
      cases hout
      obtain ⟨hplain, hphase⟩ := (Bool.and_eq_true _ _).mp hinTime
      refine ⟨h.world.enqueue hplain (of_decide_eq_true hphase), ?_⟩
      have hsame : (before.world.enqueue r).phase = before.world.phase := by
        unfold World.enqueue
        dsimp only
        split
        · split <;> rfl
        · rfl
      rw [hsame]
      exact h.worker
    | edit tenantId workflowId version =>
      cases hout
      exact ⟨⟨h.world.waiting_of rfl rfl rfl fun _ => id, h.world.queue, h.world.pending,
        h.world.payload, h.world.phase⟩, h.worker⟩
    | start n =>
      dsimp only [outside] at hout
      split at hout
      case isFalse => cases hout
      case isTrue hdone =>
        cases hout
        refine ⟨h.world, Or.inr ⟨_, rfl, ?_⟩⟩
        rw [h.phase_idle (all_eq_true.mp hdone)]
        exact worker_follows n
    | crash =>
      cases hout
      exact ⟨h.world.restart, Or.inl ⟨rfl, rfl⟩⟩

/-- **No request is lost in a run in which every request is enqueued in time: in every state in
which nothing is waiting and nothing is being compiled, each request that was enqueued has been
followed by a compilation that serves it.** -/
theorem requests_served {c : Config} {ms : List Move} (h : compilation.Path initial ms c)
    (hinTime : ∀ m ∈ ms, Move.inTime m = true) :
    ∀ m ∈ ms, m.after.world.quiet = true → Served m.after.world.log := by
  have hinv := h.invariant hinTime initial_kept fun m hm hok hbefore => Move.kept hm hok hbefore
  intro m hm hquiet
  have hkept := (hinv.2 m hm).2
  apply served_of_unserved_eq_nil
  rw [eq_nil_iff_forall_not_mem]
  intro r hr
  have hpending := (hkept.world.waiting r hr).2.1.pending
  have hempty : m.after.world.pending = [] := by
    have hand := (Bool.and_eq_true _ _).mp hquiet
    exact List.isEmpty_iff.mp ((Bool.and_eq_true _ _).mp hand.1).2
  rw [hempty] at hpending
  cases hpending

/-- The inputs of a request and of a worker that compiles it, up to the reading of the
definition. -/
def compileInputs (force : Bool) : List (Tasks.System.Input compilation) :=
  [.outside (.enqueue ⟨"t", "w", 1, force⟩), .outside (.start 1), .task 0 (), .task 0 (),
    .task 0 (), .task 0 (), .task 0 ()]

/-- A request that asks to be forced, and is. -/
theorem requests_served_forced :
    ∃ ms c, compilation.Path initial ms c ∧ (∀ m ∈ ms, Move.inTime m = true) ∧
      (∃ m ∈ ms, m.after.world.quiet = true ∧ m.after.world.log.length = 2) ∧
      ∀ m ∈ ms, m.after.world.quiet = true → Served m.after.world.log := by
  obtain ⟨ms, c, hpath, hinTime, hquiet⟩ :
      ∃ ms c, compilation.Path initial ms c ∧ (∀ m ∈ ms, Move.inTime m = true) ∧
        ∃ m ∈ ms, m.after.world.quiet = true ∧ m.after.world.log.length = 2 :=
    compilation.exists_path [compileInputs true, calls 2 0 ()] (by decide +kernel)
  exact ⟨ms, c, hpath, hinTime, hquiet, requests_served hpath hinTime⟩

/-- **A request that comes after the worker has read the definition is lost.** The key is still in
the set, so the request is taken for one that waits; then the worker takes the key out. -/
theorem late_request_lost :
    ∃ ms c, compilation.Path initial ms c ∧ c.world.quiet = true ∧ ¬ Served c.world.log := by
  obtain ⟨ms, c, hpath, hquiet, hhead⟩ :
      ∃ ms c, compilation.Path initial ms c ∧ c.world.quiet = true ∧
        c.world.log.head? = some (.enqueued ⟨"t", "w", 1, false⟩) :=
    compilation.exists_path [compileInputs false, [.outside (.edit "t" "w" 1)],
      [.outside (.enqueue ⟨"t", "w", 1, false⟩)], calls 2 0 ()] (by decide +kernel)
  refine ⟨ms, c, hpath, hquiet, fun hserved => ?_⟩
  obtain ⟨older, hlog⟩ := head?_eq_some_iff.mp hhead
  obtain ⟨e, he, -⟩ := hserved [] _ older hlog
  cases he

end Runtara.Compilation
