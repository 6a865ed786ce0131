/-
  The cron scheduler.

  A check reads the trigger and takes the time. If an occurrence after the last run is due by then,
  it publishes one event and stores the time of that statement as the last run. An occurrence
  between the two times is neither covered by the event nor after the last run that the next check
  reads. It is lost, and no other one is (`cron_exact_iff`).
-/
import Mathlib.Order.Bounds.Basic
import Mathlib.Order.Nat

namespace Runtara.Trigger

open List

/-- A valid cron expression: `find_next_occurrence` returns the least occurrence after a time. -/
structure Cron (T : Type) [LinearOrder T] where
  occurs : T → Prop
  findNextOccurrence : T → Option T
  isLeast : ∀ t next, findNextOccurrence t = some next → IsLeast {o | occurs o ∧ t < o} next
  isSome : ∀ t o, occurs o → t < o → (findNextOccurrence t).isSome

/-- The times of an `InvocationTrigger`. -/
structure CronTrigger (T : Type) where
  createdAt : T
  lastRun : Option T := none

/-- One check: `now` is when it evaluates the trigger, `updated` when it would store the last
run. -/
structure Check (T : Type) where
  now : T
  updated : T

/-- An event, with the reference time and the instant of the check that has published it. -/
structure Published (T : Type) where
  reference : T
  now : T

variable {T : Type}

def CronTrigger.referenceTime (trigger : CronTrigger T) : T :=
  trigger.lastRun.getD trigger.createdAt

def CronTrigger.updateLastRun (trigger : CronTrigger T) (updated : T) : CronTrigger T :=
  { trigger with lastRun := some updated }

/-- The clock goes on from one statement to the next. -/
def Timed [LT T] (start : T) (checks : List (Check T)) : Prop :=
  (start :: checks.flatMap fun c => [c.now, c.updated]).Pairwise (· < ·)

variable [LinearOrder T]

def shouldTriggerRun (cron : Cron T) (trigger : CronTrigger T) (now : T) : Bool :=
  (cron.findNextOccurrence trigger.referenceTime).any (· ≤ now)

/-- The events that the checks publish (`run`). -/
def publishedBy (cron : Cron T) (trigger : CronTrigger T) : List (Check T) → List (Published T)
  | [] => []
  | c :: checks =>
    if shouldTriggerRun cron trigger c.now then
      ⟨trigger.referenceTime, c.now⟩ :: publishedBy cron (trigger.updateLastRun c.updated) checks
    else publishedBy cron trigger checks

def Published.covers (e : Published T) (t : T) : Bool := e.reference < t ∧ t ≤ e.now

/-- A check that finds the trigger due, and is not the last one, stores the last run before the
next occurrence. -/
def Prompt (cron : Cron T) (trigger : CronTrigger T) : List (Check T) → Prop
  | [] => True
  | c :: checks =>
    if shouldTriggerRun cron trigger c.now then
      (checks ≠ [] → ∀ t, cron.occurs t → c.now < t → c.updated < t) ∧
        Prompt cron (trigger.updateLastRun c.updated) checks
    else Prompt cron trigger checks

variable {cron : Cron T} {trigger : CronTrigger T} {c : Check T} {checks : List (Check T)}
  {start t : T}

theorem Timed.cons (h : Timed start (c :: checks)) :
    start < c.now ∧ c.now < c.updated ∧ Timed start checks ∧ Timed c.updated checks := by
  simp only [Timed, flatMap_cons, cons_append, nil_append, pairwise_cons, mem_cons] at h ⊢
  obtain ⟨hstart, hnow, hupdated⟩ := h
  exact ⟨hstart _ (.inl rfl), hnow _ (.inl rfl),
    ⟨fun t ht => hstart t (.inr (.inr ht)), hupdated.2⟩, hupdated⟩

theorem Timed.lt_now (h : Timed start checks) (hc : c ∈ checks) : start < c.now :=
  (pairwise_cons.mp h).1 _ (mem_flatMap.mpr ⟨c, hc, mem_cons_self⟩)

/-- The trigger is due if there is an occurrence after the reference time. -/
theorem shouldTriggerRun_iff {now : T} : shouldTriggerRun cron trigger now = true ↔
    ∃ t, cron.occurs t ∧ trigger.referenceTime < t ∧ t ≤ now := by
  simp only [shouldTriggerRun, Option.any_eq_true, decide_eq_true_eq]
  constructor
  · rintro ⟨next, hnext, hle⟩
    have hleast := (cron.isLeast _ next hnext).1
    exact ⟨next, hleast.1, hleast.2, hle⟩
  · rintro ⟨t, ht, hlt, hle⟩
    obtain ⟨next, hnext⟩ := Option.isSome_iff_exists.mp (cron.isSome _ t ht hlt)
    exact ⟨next, hnext, ((cron.isLeast _ next hnext).2 ⟨ht, hlt⟩).trans hle⟩

/-- The reference times only go up. -/
theorem countP_covers_eq_zero (trigger : CronTrigger T)
    (h : Timed trigger.referenceTime checks) (ht : t ≤ trigger.referenceTime) :
    (publishedBy cron trigger checks).countP (·.covers t) = 0 := by
  induction checks generalizing trigger with
  | nil => rfl
  | cons c checks ih =>
    obtain ⟨hnow, hupdated, hsame, hrest⟩ := h.cons
    unfold publishedBy
    split
    · rw [countP_cons_of_neg (by simp [Published.covers, ht])]
      exact ih _ hrest (ht.trans (hnow.trans hupdated).le)
    · exact ih trigger hsame ht

/-- The step of `cron_exact_iff` over the first check. -/
theorem covered_iff_prompt (trigger : CronTrigger T) (h : Timed trigger.referenceTime checks) :
    (∀ t, cron.occurs t → trigger.referenceTime < t → (∃ c ∈ checks, t ≤ c.now) →
      (publishedBy cron trigger checks).countP (·.covers t) = 1) ↔ Prompt cron trigger checks := by
  induction checks generalizing trigger with
  | nil => exact ⟨fun _ => trivial, fun _ t _ _ ⟨c, hc, _⟩ => absurd hc not_mem_nil⟩
  | cons c checks ih =>
    obtain ⟨hnow, hupdated, hsame, hrest⟩ := h.cons
    by_cases hdue : shouldTriggerRun cron trigger c.now = true
    · rw [Prompt, if_pos hdue, publishedBy, if_pos hdue,
        ← ih (trigger.updateLastRun c.updated) hrest]
      -- occurrences up to the check are covered by its event, later ones only by later events
      have hcount : ∀ (later : List (Published T)) t, trigger.referenceTime < t →
          (⟨trigger.referenceTime, c.now⟩ :: later).countP (·.covers t)
            = later.countP (·.covers t) + if t ≤ c.now then 1 else 0 := by
        intro later t hlt
        simp [countP_cons, Published.covers, hlt]
      have hzero : ∀ t ≤ c.updated,
          (publishedBy cron (trigger.updateLastRun c.updated) checks).countP (·.covers t) = 0 :=
        fun t => countP_covers_eq_zero (trigger.updateLastRun c.updated) hrest
      constructor
      · intro hone
        refine ⟨fun hne t ht hlt => ?_, fun t ht hlt ⟨d, hd, hle⟩ => ?_⟩
        · by_contra hle
          obtain ⟨d, hd⟩ := exists_mem_of_ne_nil checks hne
          have hreached : t ≤ d.now := (not_lt.mp hle).trans (hrest.lt_now hd).le
          have hcovered := hone t ht (hnow.trans hlt) ⟨d, mem_cons_of_mem _ hd, hreached⟩
          rw [hcount _ t (hnow.trans hlt), if_neg (not_le.mpr hlt),
            hzero t (not_lt.mp hle)] at hcovered
          cases hcovered
        · have hafter : c.now < t := hupdated.trans hlt
          have hcovered := hone t ht (hnow.trans hafter) ⟨d, mem_cons_of_mem _ hd, hle⟩
          rwa [hcount _ t (hnow.trans hafter), if_neg (not_le.mpr hafter)] at hcovered
      · rintro ⟨hprompt, hone⟩ t ht hlt ⟨d, hd, hle⟩
        rw [hcount _ t hlt]
        by_cases hcovered : t ≤ c.now
        · rw [hzero t (hcovered.trans hupdated.le), if_pos hcovered]
        · rw [if_neg hcovered]
          have hd : d ∈ checks := (mem_cons.mp hd).resolve_left fun heq => hcovered (heq ▸ hle)
          exact hone t ht (hprompt (ne_nil_of_mem hd) t ht (not_le.mp hcovered)) ⟨d, hd, hle⟩
    · rw [Prompt, if_neg hdue, publishedBy, if_neg hdue, ← ih trigger hsame]
      have hnone : ∀ t, cron.occurs t → trigger.referenceTime < t → ¬ t ≤ c.now :=
        fun t ht hlt hle => hdue (shouldTriggerRun_iff.mpr ⟨t, ht, hlt, hle⟩)
      refine forall₃_congr fun t ht hlt => imp_congr_left ?_
      simp [hnone t ht hlt]

/-- **When cron occurrences are neither lost nor duplicated**: exactly if every check that publishes
an event, and is followed by another one, stores the last run before the next occurrence. -/
theorem cron_exact_iff (cron : Cron T) (createdAt : T) (checks : List (Check T))
    (h : Timed createdAt checks) :
    (∀ t, cron.occurs t → createdAt < t → (∃ c ∈ checks, t ≤ c.now) →
      (publishedBy cron ⟨createdAt, none⟩ checks).countP (·.covers t) = 1) ↔
    Prompt cron ⟨createdAt, none⟩ checks :=
  covered_iff_prompt ⟨createdAt, none⟩ h

def everyTenth : Cron ℕ where
  occurs t := t % 10 = 0
  findNextOccurrence t := some (10 * (t / 10 + 1))
  isLeast t next h := by
    obtain rfl := Option.some.inj h
    refine ⟨⟨by omega, by omega⟩, ?_⟩
    rintro o ⟨ho, hlt⟩
    omega
  isSome _ _ _ _ := rfl

/-- Checks that are done before the next occurrence. -/
theorem quick_checks_exact : Timed 5 [⟨12, 13⟩, ⟨21, 22⟩] ∧
    (publishedBy everyTenth ⟨5, none⟩ [⟨12, 13⟩, ⟨21, 22⟩]).countP (·.covers 20) = 1 := by
  have htimed : Timed 5 [⟨12, 13⟩, ⟨21, 22⟩] := by simp [Timed]
  refine ⟨htimed, (cron_exact_iff everyTenth 5 _ htimed).mpr ?_ 20 rfl (by decide) (by simp)⟩
  refine ⟨fun _ t (ht : t % 10 = 0) (hlt : 12 < t) => ?_, fun h => absurd rfl h, trivial⟩
  show 13 < t
  omega

/-- **An occurrence is lost** that falls between the evaluation of a check and its update. -/
theorem slow_check_loses_occurrence : Timed 5 [⟨15, 20⟩, ⟨25, 26⟩] ∧ everyTenth.occurs 20 ∧
    (publishedBy everyTenth ⟨5, none⟩ [⟨15, 20⟩, ⟨25, 26⟩]).countP (·.covers 20) = 0 :=
  ⟨by simp [Timed], rfl, rfl⟩

end Runtara.Trigger
