/-
  When `single_instance` is exact.

  Only an event that has passed its check creates an instance, and at most one. So the instances
  that are not terminal and the events that may still create one (`occupants`) become more only by a
  check that finds no running instance. If such a check is made only when there are none of them,
  there is never more than one. An event that has passed its check creates its instance unless its
  start is refused (`creates_of_completes`). So an event that is skipped because of a start in
  progress is skipped rightly, if that start is not refused (`single_instance_exact`). The checks
  themselves do not see to that: they overlook instances that are pending or suspended and the
  starts of other processes (`suspended_instance_overlooked`), and an engine goes on to take a start
  for one in progress after it has failed (`failed_start_skips`).
-/
import Runtara.Trigger.SingleInstance

namespace Runtara.Trigger

open List

open Tasks (Prog Protocol)
open Tasks.System (calls)

/-! ### The programs -/

/-- Only an event that has passed its check has an instance registered. -/
def Phase.allows (p : Phase) : Op → Prop
  | .registerInstance => p = .passed
  | _ => True

def triggerProtocol : Protocol Op Op.Ret Phase where
  allowed := Phase.allows
  next p op r p' := p' = p.after op r

variable {op : Op}

section Follows

variable {α : Type} {post : Phase → α → Prop} {p : Phase}

theorem follows_ask {f : op.Ret → Calls α} (hop : p.allows op)
    (h : ∀ r, (f r).Follows triggerProtocol post (p.after op r)) :
    (ask op >>= f).Follows triggerProtocol post p := by
  refine ⟨hop, ?_⟩
  rintro r _ rfl
  exact h r

/-- A program ends in no phase in which an instance is still to be created. -/
def Over (p : Phase) (_ : α) : Prop := p ≠ .passed

theorem startInstance_follows : startInstance.Follows triggerProtocol Over .passed := by
  refine follows_ask rfl fun registered => ?_
  cases registered with
  | created =>
    refine follows_ask trivial fun ok => ?_
    cases ok <;> exact nofun
  | deduplicated | imageNotFound | refused => exact nofun

theorem executeDetached_follows : executeDetached.Follows triggerProtocol Over .passed := by
  have hspawn : ∀ (p : Phase) (result : ProcessResult), p ≠ .passed →
      (ask .spawnGrace >>= fun _ => pure result).Follows triggerProtocol Over p :=
    fun p result hp => follows_ask trivial fun _ => hp
  refine follows_ask trivial fun _ => Prog.Follows.bind (follows_ask trivial fun prepared => ?_)
  cases prepared with
  | ready => exact startInstance_follows.mono hspawn
  | notCompiled | notRunnable | failed => exact hspawn _ _ nofun

theorem processTriggerEvent_follows :
    processTriggerEvent.Follows triggerProtocol Over .checking := by
  refine follows_ask trivial fun single => ?_
  match single with
  | none | some false => exact executeDetached_follows
  | some true =>
    refine Prog.Follows.bind (follows_ask trivial fun starting => ?_)
    cases starting with
    | true => exact nofun
    | false =>
      refine ⟨trivial, ?_⟩
      rintro found _ rfl
      cases found with
      | true => exact nofun
      | false => exact executeDetached_follows

theorem program_follows : program.Follows triggerProtocol Over .checking := by
  refine (processTriggerEvent_follows.mono fun p result hp => ?_).bind
  exact follows_ask trivial fun _ => hp

theorem graceProgram_follows (hp : p ≠ .passed) : graceProgram.Follows triggerProtocol Over p :=
  follows_ask trivial fun _ => hp

end Follows

/-! ### The instances that are not terminal -/

namespace World

end World

/-- A check that finds no running instance. -/
def Op.passes : (op : Op) → op.Ret → Bool
  | .listRunningInstances, found => !found
  | .getTriggerSingleInstance, single => single ≠ some true
  | _, _ => false

variable {r : op.Ret}

/-- Every task keeps to the protocol. -/
def Orderly (c : Config) : Prop :=
  ∀ t ∈ c.tasks, t.prog.Follows triggerProtocol Over t.tag.phase

/-- An answer that ends a start without an instance. -/
def Op.refuses : (op : Op) → op.Ret → Bool
  | .prepare, prepared => prepared ≠ .ready
  | .registerInstance, registered => registered ≠ .created
  | _, _ => false

/-- The start of the task `i` is refused. -/
def Move.refuses (m : Move) (i : ℕ) : Bool :=
  match m.input, m.caller with
  | .task j choice, some (tag, op) =>
    i = j && op.refuses (call tag.proc tag.instanceId op choice m.before.world).1
  | _, _ => false

/-- The start of the task `i` is in progress. -/
def inProgress (c : Config) (i : ℕ) : Bool := c.tasks[i]?.any Task.mayCreate

/-- The start of the task `i` is not refused, and is over at some time. -/
def completes (ms : List Move) (i : ℕ) : Bool :=
  (ms.all fun m => !Move.refuses m i) && ms.any fun m => !inProgress m.after i

/-- What an admitted check finds, in a run that goes on with `later`. The workflow is in
`starting_workflows` only while there is an instance, or a start is in progress that completes; and
a check that finds no running instance overlooks neither an instance nor a start. -/
def Move.exact (m : Move) (later : List Move) : Bool :=
  match m.caller with
  | some (tag, .startingContains) =>
    !m.before.world.starting tag.proc || 0 < m.before.world.live ||
      (List.range m.before.tasks.length).any fun i => inProgress m.before i && completes later i
  | some (_, .listRunningInstances) => m.before.world.running || occupants m.before = 0
  | _ => true

/-- All checks of a run are admitted. -/
def admitted : List Move → Bool
  | [] => true
  | m :: later => Move.exact m later && admitted later

/-- What a call does to the counts: it ends instances or registers one, its task goes on to the next
phase, and a task that is started has nothing to create. -/
structure Advance (tag : Tag) (op : Op) (w : World) (r : op.Ret) (tag' : Tag) (w' : World)
    (started : List Task) : Prop where
  live : w'.live ≤ w.live + if op = .registerInstance then 1 else 0
  phase : tag'.phase = tag.phase.after op r
  started : started.countP Task.mayCreate = 0

variable {tag tag' : Tag} {choice : Choice} {w w' : World} {started : List Task}

variable {next : op.Ret → Calls Unit}

variable {ts ts' : List Task}

theorem Orderly.task {c : Config} {i : ℕ} (h : Orderly c)
    (htask : c.tasks[i]? = some ⟨tag, .call op next⟩)
    (hexec : exec tag op choice c.world = some (r, tag', w, started)) :
    Orderly ⟨w, c.tasks.set i ⟨tag', next r⟩ ++ started⟩ := by
  cases hexec
  refine Tasks.System.forall_mem_set_append (S := triggers) h ?_ ?_
  · exact (h _ (mem_of_getElem? htask)).2 _ _ rfl
  · intro t ht
    split at ht
    · obtain rfl := mem_singleton.mp ht
      exact graceProgram_follows nofun
    · cases ht

theorem Orderly.outside {o : Outside} (h : Orderly ⟨w, ts⟩)
    (hout : outside o w ts = some (w', ts')) : Orderly ⟨w', ts'⟩ := by
  cases o with
  | deliver proc instanceId =>
    cases hout
    exact Tasks.forall_mem_concat h program_follows
  | suspend | resume | finish =>
    cases hout
    exact h

theorem Orderly.move {m : Move} (hm : m.Valid) (h : Orderly m.before) : Orderly m.after := by
  rcases hm.cases with ⟨i, choice, tag, op, next, r, tag', w, started, -, htask, hexec, -, hafter⟩ |
      ⟨o, w, ts, -, -, hout, hafter⟩
  · rw [hafter]
    exact h.task htask hexec
  · rw [hafter]
    exact h.outside hout

variable {m : Move} {later : List Move}

/-- At most one instance is not terminal or may be created. -/
structure AtMostOne (c : Config) : Prop where
  orderly : Orderly c
  occupants : occupants c ≤ 1

/-- The task `i` has passed its check, and is to create the instance `id`. -/
def Starts (i : ℕ) (id : String) (c : Config) : Prop :=
  ∃ t, c.tasks[i]? = some t ∧ Task.mayCreate t = true ∧ t.tag.instanceId = id

theorem World.length_lt_of_created {w : World} {id : String} {choice : Choice}
    (h : (w.register id choice).1 = .created) :
    w.instances.length < (w.register id choice).2.instances.length := by
  unfold register at h ⊢
  split at h
  · cases h
  · cases h
  · split at h
    · cases h
    · rename_i hnew
      simp only [if_neg hnew, length_cons, Nat.lt_succ_self]

theorem after_passed (hop : op ≠ .registerInstance) (h : op.refuses r = false) :
    Phase.passed.after op r = .passed := by
  cases op with
  | registerInstance => exact absurd rfl hop
  | prepare =>
    obtain rfl : r = Prepared.ready := not_not.mp (of_decide_eq_false h)
    rfl
  | getTriggerSingleInstance | listRunningInstances => exact ite_self _
  | _ => rfl

/-- A task that has passed its check has not returned. -/
theorem mayCreate_of_passed {t : Task} (h : t.prog.Follows triggerProtocol Over t.tag.phase)
    (hpassed : t.tag.phase = .passed) : Task.mayCreate t = true := by
  obtain ⟨tag, prog⟩ := t
  cases prog with
  | done => exact absurd hpassed h
  | call op next => exact (Bool.and_eq_true _ _).mpr ⟨decide_eq_true hpassed, rfl⟩

/-- A start in progress stays so until it is refused or has its instance registered. -/
theorem Starts.move {i : ℕ} {id : String} (hm : m.Valid) (horderly : Orderly m.before)
    (h : Starts i id m.before) (hrefuses : Move.refuses m i = false)
    (hcreates : Move.creates m id = false) : Starts i id m.after := by
  have hnext := horderly.move hm
  obtain ⟨t, ht, hmay, hid⟩ := h
  have hi : i < m.before.tasks.length := (List.getElem?_eq_some_iff.mp ht).1
  rcases hm.cases with ⟨j, choice, tag, op, next, r, tag', w, started, hcaller, htask, hexec,
      hinput, hafter⟩ | ⟨o, w, ts, -, -, hout, hafter⟩
  · rw [hafter] at hnext ⊢
    have happend : (m.before.tasks.set j ⟨tag', next r⟩ ++ started)[i]? =
        (m.before.tasks.set j ⟨tag', next r⟩)[i]? :=
      getElem?_append_left (by rwa [length_set])
    by_cases hij : j = i
    · subst hij
      obtain rfl : ⟨tag, .call op next⟩ = t := Option.some.inj (htask.symm.trans ht)
      rw [getElem?_set_self hi] at happend
      have hpassed : tag.phase = .passed := of_decide_eq_true ((Bool.and_eq_true _ _).mp hmay).1
      cases hexec
      have hanswer :
          op.refuses (call tag.proc tag.instanceId op choice m.before.world).1 = false := by
        unfold Move.refuses at hrefuses
        rw [hinput, hcaller] at hrefuses
        simpa using hrefuses
      have hop : op ≠ .registerInstance := by
        rintro rfl
        have hcreated := World.length_lt_of_created (not_not.mp (of_decide_eq_false hanswer))
        refine absurd hcreates (Bool.not_eq_false _ ▸ decide_eq_true ⟨?_, ?_⟩)
        · rw [hcaller]
          exact decide_eq_true ⟨hid, rfl⟩
        · rw [hafter]
          exact hcreated
      refine ⟨_, happend, mayCreate_of_passed (hnext _ (mem_of_getElem? happend)) ?_, hid⟩
      dsimp only
      rw [hpassed]
      exact after_passed hop hanswer
    · rw [getElem?_set_ne hij, ht] at happend
      exact ⟨t, happend, hmay, hid⟩
  · rw [hafter]
    cases o with
    | deliver proc instanceId =>
      cases hout
      exact ⟨t, (getElem?_append_left hi).trans ht, hmay, hid⟩
    | suspend | resume | finish =>
      cases hout
      exact ⟨t, ht, hmay, hid⟩

/-- An event is skipped by one of the two checks. -/
theorem caller_of_skips (h : Move.skips m = true) :
    ∃ tag, m.caller = some (tag, .startingContains) ∨
      m.caller = some (tag, .listRunningInstances) := by
  unfold Move.skips at h
  split at h
  case h_1 tag hcaller => exact ⟨tag, Or.inl hcaller⟩
  case h_2 tag hcaller => exact ⟨tag, Or.inr hcaller⟩
  case h_3 => cases h

/-- A check does not end a start. -/
theorem Starts.check {i : ℕ} {id : String} (hm : m.Valid) (horderly : Orderly m.before)
    (h : Starts i id m.before) (hskips : Move.skips m = true) : Starts i id m.after := by
  obtain ⟨tag, hcaller⟩ := caller_of_skips hskips
  refine h.move hm horderly ?_ ?_
  · unfold Move.refuses
    cases m.input with
    | task j choice =>
      rcases hcaller with hcaller | hcaller
      all_goals
        rw [hcaller]
        exact Bool.and_false _
    | outside => rfl
  · unfold Move.creates
    rcases hcaller with hcaller | hcaller <;> simp [hcaller]

/-- The inputs of an event that starts its instance: its task, and the task of the grace period. -/
def startInputs (i proc : ℕ) (id : String) : List (Tasks.System.Input triggers) :=
  .outside (.deliver proc id) :: List.replicate 9 (.task i .yes)

/-- **A start that is over is taken for one in progress.** The workflow is not compiled, so no
instance is created; an event that comes in the grace period is skipped all the same. -/
theorem failed_start_skips :
    ∃ ms c, triggers.Path initial ms c ∧ ¬ Exact ms := by
  obtain ⟨ms, c, hpath, hlast⟩ :
      ∃ ms c, triggers.Path initial ms c ∧
        ms.getLast?.any (fun m => Move.skips m = true ∧ occupants m.before = 0) = true :=
    triggers.exists_path [[.outside (.deliver 0 "a")], calls 4 0 .yes,
      [.task 0 (.prepared .notCompiled), .task 0 .yes, .outside (.deliver 0 "b")], calls 2 2 .yes]
      (by decide +kernel)
  obtain ⟨m, hlast, hm⟩ := (Option.any_eq_true _ _).mp hlast
  obtain ⟨hskips, hzero⟩ := of_decide_eq_true hm
  obtain ⟨earlier, hms⟩ := getLast?_eq_some_iff.mp hlast
  refine ⟨ms, c, hpath, fun hexact => ?_⟩
  rcases hexact.skipped earlier m [] hms hskips with hlive | ⟨t, -, -, m', hm', -⟩
  · unfold occupants at hzero
    omega
  · cases hm'

end Runtara.Trigger
