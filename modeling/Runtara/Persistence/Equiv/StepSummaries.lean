/-
  Step summaries and the executions of steps.

  The list of summaries is the left join of start and end events (`list_perm`), and the count counts
  the rows of the same join (`count_eq`). In a log in which the events of every step and scope
  alternate, the join has one row for each execution, with the next end event, exactly if no step
  and scope that has an end event was started twice (`step_summaries_iff`). The join compares steps
  and scopes only and not the order of events, so two executions of one step in one scope make four
  rows (`replayed_step_multiplied`).
-/
import Mathlib.Data.List.Chain
import Mathlib.Data.List.Nodup
import Mathlib.Data.List.Perm.Basic
import Runtara.Persistence.StepSummaries

namespace Runtara

open List

namespace StepSummaries

/-! ### Executions -/

/-- The events of an instance, numbered in the order they were written. -/
structure EventLog where
  events : List Event
  ordered : events.Pairwise fun e e' => e.id < e'.id

def key (e : Event) : String × Option String := (e.stepId, e.scopeId)

/-- What the queries compare of an event. -/
def joinKey (e : Event) : String × String := (e.stepId, e.scopeId.getD "")

def eventsOf (log : EventLog) (k : String × Option String) : List Event :=
  log.events.filter fun e => key e = k

/-- The events of every step and scope alternate, beginning with a start. -/
structure Alternates (log : EventLog) : Prop where
  first : ∀ k, ∀ e ∈ (eventsOf log k).head?, e.subtype = .stepDebugStart
  turns : ∀ k, (eventsOf log k).IsChain fun e e' => e.subtype ≠ e'.subtype

/-- The next end event of the same step and scope. -/
def nextEnd (log : EventLog) (s : Event) : Option Event :=
  log.events.find? fun e => e.subtype = .stepDebugEnd ∧ key e = key s ∧ s.id < e.id

/-- Every start event with the end event of its execution. -/
def executions (log : EventLog) : List (Event × Option Event) :=
  (starts log.events).map fun s => (s, nextEnd log s)

def summaryOf (ν : Type) [SerdeNumber ν] (dialect : Dialect) (r : Event × Option Event) :
    StepSummaryRecord ν :=
  recordOf (pairedRow dialect (seRow r.1, r.2.map eeRow)) r.1 r.2

/-- No step and scope that has an end event was started twice; a missing scope counts as the empty
one. -/
def StartedOnce (log : EventLog) : Prop :=
  ∀ s ∈ starts log.events, ∀ s' ∈ starts log.events, ∀ e ∈ ends log.events,
    joinKey s = joinKey e → joinKey s' = joinKey e → s = s'

variable {log : EventLog} {s s' e e' : Event} {p : Event → Bool} {dialect : Dialect}
  {filter : ListStepSummariesFilter} {order : EventSortOrder}

theorem mem_starts : s ∈ starts log.events ↔ s ∈ log.events ∧ s.subtype = .stepDebugStart := by
  unfold starts
  rw [mem_filter, decide_eq_true_eq]

theorem mem_ends : e ∈ ends log.events ↔ e ∈ log.events ∧ e.subtype = .stepDebugEnd := by
  unfold ends
  rw [mem_filter, decide_eq_true_eq]

theorem mem_eventsOf {k : String × Option String} :
    e ∈ eventsOf log k ↔ e ∈ log.events ∧ key e = k := by
  unfold eventsOf
  rw [mem_filter, decide_eq_true_eq]

theorem joinKey_eq_of_key_eq (h : key e = key s) : joinKey e = joinKey s := by
  obtain ⟨hstep, hscope⟩ := Prod.mk.inj h
  unfold joinKey
  rw [hstep, hscope]

/-! ### Events by their numbers -/

theorem eq_of_id_eq (he : e ∈ log.events) (he' : e' ∈ log.events) (hid : e.id = e'.id) :
    e = e' := by
  have hnodup : (log.events.map Event.id).Nodup :=
    pairwise_map.mpr (log.ordered.imp fun hlt => Nat.ne_of_lt hlt)
  exact inj_on_of_nodup_map hnodup he he' hid

theorem findEvent_id (he : e ∈ log.events) : findEvent log.events e.id = some e := by
  cases hfind : findEvent log.events e.id with
  | none =>
    have hnone := find?_eq_none.mp hfind e he
    rw [decide_eq_true_eq] at hnone
    exact absurd rfl hnone
  | some e' =>
    have hid : e'.id = e.id := by
      have hfound := find?_some hfind
      exact of_decide_eq_true hfound
    rw [eq_of_id_eq (mem_of_find?_eq_some hfind) he hid]

/-- The first event that passes a test is the one with the least number. -/
theorem find?_least (h : log.events.find? p = some e) (he' : e' ∈ log.events)
    (hp : p e' = true) : e.id ≤ e'.id := by
  obtain ⟨-, before, after, hevents, hbefore⟩ := find?_eq_some_iff_append.mp h
  have hsorted := log.ordered
  rw [hevents] at he' hsorted
  rcases mem_append.mp he' with hmem | hmem
  · have hnot := hbefore e' hmem
    rw [hp] at hnot
    cases hnot
  · rcases mem_cons.mp hmem with rfl | hmem
    · exact Nat.le_refl _
    · have hlater := (pairwise_cons.mp (pairwise_append.mp hsorted).2.1).1 e' hmem
      exact Nat.le_of_lt hlater

theorem find?_eq_some_of_least (he : e ∈ log.events) (hp : p e = true)
    (hleast : ∀ e' ∈ log.events, p e' = true → e.id ≤ e'.id) : log.events.find? p = some e := by
  cases hfind : log.events.find? p with
  | none => exact absurd hp (find?_eq_none.mp hfind e he)
  | some e' =>
    have he' : e' ∈ log.events := mem_of_find?_eq_some hfind
    have hid := Nat.le_antisymm (find?_least hfind he hp) (hleast e' he' (find?_some hfind))
    rw [eq_of_id_eq he' he hid]

/-! ### Alternation -/

theorem Subtype.eq_start_of_ne_end {t : Subtype} (h : t ≠ .stepDebugEnd) : t = .stepDebugStart := by
  cases t with
  | stepDebugStart => rfl
  | stepDebugEnd => exact absurd rfl h

theorem Subtype.eq_end_of_ne_start {t : Subtype} (h : t ≠ .stepDebugStart) : t = .stepDebugEnd := by
  cases t with
  | stepDebugStart => exact absurd rfl h
  | stepDebugEnd => rfl

section Turns

variable {k : String × Option String}

theorem eventsOf_ordered : (eventsOf log k).Pairwise fun e e' => e.id < e'.id :=
  log.ordered.filter _

/-- Before a later event of the same step and scope, or at it, there is one of the other kind. -/
theorem Alternates.exists_next (h : Alternates log) (he : e ∈ eventsOf log k)
    (he' : e' ∈ eventsOf log k) (hlt : e.id < e'.id) :
    ∃ x ∈ eventsOf log k, e.id < x.id ∧ x.id ≤ e'.id ∧ x.subtype ≠ e.subtype := by
  obtain ⟨pre, post, hsplit⟩ := append_of_mem he
  have hordered : (pre ++ e :: post).Pairwise fun e e' => e.id < e'.id := hsplit ▸ eventsOf_ordered
  have hturns : (pre ++ e :: post).IsChain fun e e' => e.subtype ≠ e'.subtype := hsplit ▸ h.turns k
  have hlater : e' ∈ post := by
    rw [hsplit] at he'
    rcases mem_append.mp he' with hmem | hmem
    · have hbefore := (pairwise_append.mp hordered).2.2 e' hmem e mem_cons_self
      omega
    · refine (mem_cons.mp hmem).resolve_left fun heq => ?_
      rw [heq] at hlt
      omega
  cases post with
  | nil => exact absurd hlater not_mem_nil
  | cons x post =>
    obtain ⟨hhead, htail⟩ := pairwise_cons.mp (pairwise_append.mp hordered).2.1
    refine ⟨x, ?_, hhead x mem_cons_self, ?_, ?_⟩
    · rw [hsplit]
      exact mem_append_right _ (mem_cons_of_mem _ mem_cons_self)
    · rcases mem_cons.mp hlater with rfl | hmem
      · exact Nat.le_refl _
      · exact Nat.le_of_lt ((pairwise_cons.mp htail).1 e' hmem)
    · exact Ne.symm (isChain_append_cons_cons.mp hturns).2.1

/-- An end event directly follows a start event of the same step and scope. -/
theorem Alternates.exists_start (h : Alternates log) (he : e ∈ eventsOf log k)
    (hend : e.subtype = .stepDebugEnd) :
    ∃ x ∈ eventsOf log k, x.subtype = .stepDebugStart ∧ x.id < e.id
      ∧ ∀ y ∈ eventsOf log k, x.id < y.id → e.id ≤ y.id := by
  obtain ⟨pre, post, hsplit⟩ := append_of_mem he
  rcases eq_nil_or_concat pre with rfl | ⟨before, x, rfl⟩
  · -- the first event is a start
    have hfirst := h.first k e (by rw [hsplit]; rfl)
    rw [hend] at hfirst
    cases hfirst
  · rw [concat_eq_append, append_assoc, singleton_append] at hsplit
    have hordered : (before ++ x :: e :: post).Pairwise fun e e' => e.id < e'.id :=
      hsplit ▸ eventsOf_ordered
    have hturns : (before ++ x :: e :: post).IsChain fun e e' => e.subtype ≠ e'.subtype :=
      hsplit ▸ h.turns k
    obtain ⟨-, hrest, hcross⟩ := pairwise_append.mp hordered
    obtain ⟨hx, hrest⟩ := pairwise_cons.mp hrest
    refine ⟨x, ?_, ?_, hx e mem_cons_self, fun y hy hlt => ?_⟩
    · rw [hsplit]
      exact mem_append_right _ mem_cons_self
    · have hne := (isChain_append_cons_cons.mp hturns).2.1
      rw [hend] at hne
      exact Subtype.eq_start_of_ne_end hne
    · rw [hsplit] at hy
      rcases mem_append.mp hy with hmem | hmem
      · have hbefore := hcross y hmem x mem_cons_self
        omega
      · rcases mem_cons.mp hmem with rfl | hmem
        · omega
        · rcases mem_cons.mp hmem with rfl | hmem
          · exact Nat.le_refl _
          · exact Nat.le_of_lt ((pairwise_cons.mp hrest).1 y hmem)

end Turns

/-! ### The next end event -/

theorem nextEnd_some (h : nextEnd log s = some e) :
    e ∈ ends log.events ∧ key e = key s ∧ s.id < e.id := by
  have hfound := find?_some h
  rw [decide_eq_true_eq] at hfound
  exact ⟨mem_ends.mpr ⟨mem_of_find?_eq_some h, hfound.1⟩, hfound.2⟩

theorem nextEnd_least (h : nextEnd log s = some e) (he' : e' ∈ ends log.events)
    (hkey : key e' = key s) (hlt : s.id < e'.id) : e.id ≤ e'.id := by
  obtain ⟨hmem, hend⟩ := mem_ends.mp he'
  exact find?_least h hmem (decide_eq_true ⟨hend, hkey, hlt⟩)

/-- Every end event is the next one of some start event. -/
theorem Alternates.exists_execution (h : Alternates log) (he : e ∈ ends log.events) :
    ∃ s ∈ starts log.events, key s = key e ∧ nextEnd log s = some e := by
  obtain ⟨hmem, hend⟩ := mem_ends.mp he
  obtain ⟨s, hs, hstart, hlt, hdirect⟩ := h.exists_start (mem_eventsOf.mpr ⟨hmem, rfl⟩) hend
  obtain ⟨hsmem, hkey⟩ := mem_eventsOf.mp hs
  refine ⟨s, mem_starts.mpr ⟨hsmem, hstart⟩, hkey, find?_eq_some_of_least hmem ?_ ?_⟩
  · exact decide_eq_true ⟨hend, hkey.symm, hlt⟩
  · intro e' he' hp
    have hp' := of_decide_eq_true hp
    exact hdirect e' (mem_eventsOf.mpr ⟨he', hp'.2.1.trans hkey⟩) hp'.2.2

/-- Of two start events with one step and scope, the earlier one has its end event before the later
one. -/
theorem Alternates.nextEnd_before (h : Alternates log) (hs : s ∈ starts log.events)
    (hs' : s' ∈ starts log.events) (hkey : key s = key s') (hlt : s.id < s'.id)
    (hnext : nextEnd log s = some e) : e.id < s'.id := by
  obtain ⟨hsmem, hstart⟩ := mem_starts.mp hs
  obtain ⟨hsmem', hstart'⟩ := mem_starts.mp hs'
  obtain ⟨x, hx, hsx, hxs', hne⟩ := h.exists_next (mem_eventsOf.mpr ⟨hsmem, rfl⟩)
    (mem_eventsOf.mpr ⟨hsmem', hkey.symm⟩) hlt
  obtain ⟨hxmem, hxkey⟩ := mem_eventsOf.mp hx
  rw [hstart] at hne
  have hxend := Subtype.eq_end_of_ne_start hne
  have hle := nextEnd_least hnext (mem_ends.mpr ⟨hxmem, hxend⟩) hxkey hsx
  refine lt_of_le_of_ne (hle.trans hxs') fun heq => hne ?_
  rw [eq_of_id_eq hxmem hsmem' (by omega), hstart']

theorem Alternates.nextEnd_inj (h : Alternates log) (hs : s ∈ starts log.events)
    (hs' : s' ∈ starts log.events) (hnext : nextEnd log s = some e)
    (hnext' : nextEnd log s' = some e) : s = s' := by
  obtain ⟨-, hkey, hlt⟩ := nextEnd_some hnext
  obtain ⟨-, hkey', hlt'⟩ := nextEnd_some hnext'
  have hsame : key s = key s' := hkey.symm.trans hkey'
  refine eq_of_id_eq (mem_starts.mp hs).1 (mem_starts.mp hs').1 ?_
  rcases Nat.lt_trichotomy s.id s'.id with hid | hid | hid
  · have hbefore := h.nextEnd_before hs hs' hsame hid hnext
    omega
  · exact hid
  · have hbefore := h.nextEnd_before hs' hs hsame.symm hid hnext'
    omega

/-! ### The join -/

/-- The rows of the join, as events. -/
def joined (log : EventLog) : List (Event × Option Event) :=
  Sql.leftJoin (fun s e => s.stepId == e.stepId && s.scopeId.getD "" == e.scopeId.getD "")
    (starts log.events) (ends log.events)

/-- The end events that the join finds for a start event. -/
def found (log : EventLog) (s : Event) : List Event :=
  (ends log.events).filter fun e => s.stepId == e.stepId && s.scopeId.getD "" == e.scopeId.getD ""

theorem mem_found : e ∈ found log s ↔ e ∈ ends log.events ∧ joinKey s = joinKey e := by
  unfold found joinKey
  rw [mem_filter, Bool.and_eq_true, beq_iff_eq, beq_iff_eq, Prod.mk.injEq]

theorem nextEnd_mem_found (h : nextEnd log s = some e) : e ∈ found log s := by
  obtain ⟨hend, hkey, -⟩ := nextEnd_some h
  exact mem_found.mpr ⟨hend, (joinKey_eq_of_key_eq hkey).symm⟩

theorem found_nodup : (found log s).Nodup := by
  have hordered : (found log s).Pairwise fun e e' => e.id < e'.id :=
    (log.ordered.filter _).filter _
  refine hordered.imp ?_
  rintro e e' hlt rfl
  exact Nat.lt_irrefl _ hlt

/-- Where no step is started twice, the join finds the end event of the execution. -/
theorem StartedOnce.found_eq (hlog : Alternates log) (h : StartedOnce log)
    (hs : s ∈ starts log.events) : found log s = (nextEnd log s).toList := by
  -- every end event the join finds belongs to an execution that is the one of `s`
  have hnext : ∀ e ∈ found log s, nextEnd log s = some e := by
    intro e he
    obtain ⟨hend, hkey⟩ := mem_found.mp he
    obtain ⟨s', hs', hkey', hexec⟩ := hlog.exists_execution hend
    rw [h s hs s' hs' e hend hkey (joinKey_eq_of_key_eq hkey')]
    exact hexec
  cases hsome : nextEnd log s with
  | none =>
    refine eq_nil_iff_forall_not_mem.mpr fun e he => ?_
    rw [hnext e he] at hsome
    cases hsome
  | some e =>
    have hmem : e ∈ found log s := nextEnd_mem_found hsome
    refine perm_singleton.mp ((perm_ext_iff_of_nodup found_nodup
      (nodup_singleton e)).mpr fun e' => ?_)
    rw [mem_singleton]
    constructor
    · intro he'
      exact Option.some.inj ((hnext e' he').symm.trans hsome)
    · rintro rfl
      exact hmem

theorem StartedOnce.joined_eq (hlog : Alternates log) (h : StartedOnce log) :
    joined log = executions log :=
  Sql.leftJoin_eq_map fun _ hs => h.found_eq hlog hs

/-- If the join pairs the events of each execution, no step was started twice. -/
theorem startedOnce_of_found (hlog : Alternates log)
    (h : ∀ s ∈ starts log.events, ∀ e ∈ found log s, nextEnd log s = some e) :
    StartedOnce log := by
  intro s hs s' hs' e he hkey hkey'
  exact hlog.nextEnd_inj hs hs' (h s hs e (mem_found.mpr ⟨he, hkey⟩))
    (h s' hs' e (mem_found.mpr ⟨he, hkey'⟩))

/-! ### The queries -/

/-- The row of `paired` for a row of the join. -/
def rowOf (dialect : Dialect) (r : Event × Option Event) : PageRow :=
  pairedRow dialect (seRow r.1, r.2.map eeRow)

theorem paired_eq : paired dialect log.events = (joined log).map (rowOf dialect) := by
  unfold paired joined
  rw [Sql.leftJoin_map seRow eeRow fun _ _ => rfl, map_map]
  rfl

theorem count_joined : opCountStepSummaries dialect log.events filter
    = (joined log).countP fun r => pageFilter filter (rowOf dialect r) := by
  unfold opCountStepSummaries joined
  rw [Sql.leftJoin_map startRow endRow fun _ _ => rfl, map_map, countP_map]
  refine countP_congr fun r _ => ?_
  obtain ⟨s, e⟩ := r
  cases e with
  | none | some => exact Iff.rfl

theorem orderById_perm (order : EventSortOrder) (rows : List PageRow) :
    (orderById order rows).Perm rows := by
  cases order with
  | desc | asc => exact mergeSort_perm _ _

section Records

variable {ν : Type} [SerdeNumber ν]

/-- The events of a row are found again by their numbers. -/
theorem record_rowOf {r : Event × Option Event} (hr : r ∈ joined log) :
    ((findEvent log.events (rowOf dialect r).id).map fun s =>
      recordOf (rowOf dialect r) s ((rowOf dialect r).endId.bind (findEvent log.events)))
        = some (summaryOf ν dialect r) := by
  obtain ⟨s, e⟩ := r
  cases e with
  | none =>
    have hs : s ∈ starts log.events := Sql.mem_leftJoin_left hr
    have hfind : findEvent log.events (rowOf dialect (s, none)).id = some s :=
      findEvent_id (mem_starts.mp hs).1
    rw [hfind]
    rfl
  | some e =>
    obtain ⟨hs, he, -⟩ := Sql.mem_leftJoin_some.mp hr
    have hfind : findEvent log.events (rowOf dialect (s, some e)).id = some s :=
      findEvent_id (mem_starts.mp hs).1
    have hfind' : (rowOf dialect (s, some e)).endId.bind (findEvent log.events) = some e :=
      findEvent_id (mem_ends.mp he).1
    rw [hfind, hfind']
    rfl

variable {limit : ℕ}

/-- **The list.** With room for all rows it has a record for each row of the join that passes the
filter. -/
theorem list_perm (hlimit : (paired dialect log.events).length ≤ limit) :
    (opListStepSummaries ν dialect log.events filter limit 0).Perm
      (((joined log).filter fun r => pageFilter filter (rowOf dialect r)).map
        (summaryOf ν dialect)) := by
  have hpage : page dialect log.events filter limit 0
      = orderById filter.sortOrder ((paired dialect log.events).filter (pageFilter filter)) := by
    unfold page
    rw [drop_zero, take_of_length_le]
    rw [(orderById_perm _ _).length_eq]
    exact (length_filter_le _ _).trans hlimit
  unfold opListStepSummaries
  rw [hpage]
  refine ((orderById_perm _ _).filterMap _).trans (List.Perm.of_eq ?_)
  rw [paired_eq, filter_map, filterMap_map]
  -- every row is kept, since its events are found again
  refine (filterMap_congr fun r hr => record_rowOf (mem_filter.mp hr).1).trans ?_
  exact congrFun filterMap_eq_map _

theorem count_eq_length (hlimit : (paired dialect log.events).length ≤ limit) :
    opCountStepSummaries dialect log.events filter
      = (opListStepSummaries ν dialect log.events filter limit 0).length := by
  rw [count_joined, (list_perm hlimit).length_eq, length_map, countP_eq_length_filter]

/-! ### From the summaries back to the log -/

def noFilter (order : EventSortOrder) : ListStepSummariesFilter :=
  ⟨order, none, none, none, none, false, none⟩

theorem pageFilter_noFilter (order : EventSortOrder) (r : PageRow) :
    pageFilter (noFilter order) r = true := rfl

theorem list_noFilter_perm (hlimit : (paired dialect log.events).length ≤ limit) :
    (opListStepSummaries ν dialect log.events (noFilter order) limit 0).Perm
      ((joined log).map (summaryOf ν dialect)) := by
  have hperm : (opListStepSummaries ν dialect log.events (noFilter order) limit 0).Perm
      (((joined log).filter fun r => pageFilter (noFilter order) (rowOf dialect r)).map
        (summaryOf ν dialect)) := list_perm hlimit
  rw [filter_eq_self.mpr fun r _ => pageFilter_noFilter order (rowOf dialect r)] at hperm
  exact hperm

/-- A summary is of a running step exactly if it has no end event. -/
theorem status_summaryOf (r : Event × Option Event) :
    (summaryOf ν dialect r).status = .running ↔ r.2 = none := by
  obtain ⟨s, e⟩ := r
  cases e with
  | none => exact iff_of_true rfl rfl
  | some e =>
    refine iff_of_false ?_ (Option.some_ne_none e)
    show parseStepStatus (endStatus dialect e.error e.outputError) ≠ .running
    unfold endStatus
    split
    · decide
    · split
      · decide
      · decide

/-- The number of running steps among summaries. -/
def runningCount (rows : List (StepSummaryRecord ν)) : ℕ := rows.countP fun r => r.status = .running

theorem runningCount_pairs (dialect : Dialect) (f : Event → Option Event) (xs : List Event) :
    runningCount ((xs.map fun s => (s, f s)).map (summaryOf ν dialect))
      = (xs.filter fun s => (f s).isNone).length := by
  unfold runningCount
  rw [map_map, countP_map, countP_eq_length_filter]
  refine congrArg List.length (filter_congr fun s _ => ?_)
  rw [Bool.eq_iff_iff, Option.isNone_iff_eq_none]
  exact decide_eq_true_iff.trans (status_summaryOf (s, f s))

/-- If the summaries are those of the executions, no step was started twice. -/
theorem startedOnce_of_perm (hlog : Alternates log)
    (h : ((joined log).map (summaryOf ν dialect)).Perm
      ((executions log).map (summaryOf ν dialect))) :
    StartedOnce log := by
  have hlength : (joined log).length = (starts log.events).length := by
    have hmap := h.length_eq
    unfold executions at hmap
    rw [length_map, length_map, length_map] at hmap
    exact hmap
  -- no start event is joined with two end events
  have hone : ∀ s ∈ starts log.events, found log s = (found log s).head?.toList :=
    Sql.filter_eq_toList hlength.le
  have hjoined : joined log = (starts log.events).map fun s => (s, (found log s).head?) :=
    Sql.leftJoin_eq_map hone
  -- and one is without an end event only if its execution is
  have hnone : ∀ s, (found log s).head?.isNone = true → (nextEnd log s).isNone = true := by
    intro s hempty
    cases hnext : nextEnd log s with
    | none => rfl
    | some e =>
      rw [Option.isNone_iff_eq_none, head?_eq_none_iff] at hempty
      have hmem := nextEnd_mem_found hnext
      rw [hempty] at hmem
      exact absurd hmem not_mem_nil
  have hcount : ((starts log.events).filter fun s => (found log s).head?.isNone).length
      = ((starts log.events).filter fun s => (nextEnd log s).isNone).length := by
    rw [← runningCount_pairs (ν := ν) dialect, ← runningCount_pairs (ν := ν) dialect, ← hjoined]
    exact h.countP_eq _
  have hfilter := (monotone_filter_right _ hnone).eq_of_length hcount
  refine startedOnce_of_found hlog fun s hs e he => ?_
  cases hnext : nextEnd log s with
  | none =>
    have hmem : s ∈ (starts log.events).filter fun s => (nextEnd log s).isNone :=
      mem_filter.mpr ⟨hs, Option.isNone_iff_eq_none.mpr hnext⟩
    rw [← hfilter, mem_filter, Option.isNone_iff_eq_none, head?_eq_none_iff] at hmem
    rw [hmem.2] at he
    exact absurd he not_mem_nil
  | some e' =>
    have he' := nextEnd_mem_found hnext
    rw [hone s hs, Option.mem_toList] at he he'
    rw [← he.symm.trans he']

/-- **Summaries and executions.** In a log with alternating events, the list of summaries is that of
the executions, each with its next end event, exactly if no step and scope with an end event was
started twice. The count always agrees with the list. -/
theorem step_summaries_iff (ν : Type) [SerdeNumber ν] (dialect : Dialect) (log : EventLog)
    (hlog : Alternates log) (limit : ℕ)
    (hlimit : (paired dialect log.events).length ≤ limit) :
    (∀ order, (opListStepSummaries ν dialect log.events (noFilter order) limit 0).Perm
        ((executions log).map (summaryOf ν dialect)) ↔ StartedOnce log)
      ∧ ∀ filter, opCountStepSummaries dialect log.events filter
        = (opListStepSummaries ν dialect log.events filter limit 0).length := by
  refine ⟨fun order => ⟨fun h => ?_, fun h => ?_⟩, fun filter => count_eq_length hlimit⟩
  · exact startedOnce_of_perm hlog ((list_noFilter_perm hlimit).symm.trans h)
  · rw [← h.joined_eq hlog]
    exact list_noFilter_perm hlimit

/-! ### A step that runs twice -/

/-- An event of the step `fetch`, outside of any scope. -/
def fetchEvent (id : ℕ) (subtype : Subtype) (createdAt : ℤ) : Event :=
  ⟨id, subtype, createdAt, "fetch", none, none, none, none, none, none, none, none, none, none⟩

/-- Only the steps and scopes that have events matter. -/
theorem alternates_of_events (h : ∀ e ∈ log.events,
    (∀ e' ∈ (eventsOf log (key e)).head?, e'.subtype = .stepDebugStart)
      ∧ (eventsOf log (key e)).IsChain fun e e' => e.subtype ≠ e'.subtype) : Alternates log := by
  have hcases : ∀ k, eventsOf log k = [] ∨ ∃ e ∈ log.events, key e = k := by
    intro k
    cases hevents : eventsOf log k with
    | nil => exact Or.inl rfl
    | cons e es =>
      have he : e ∈ eventsOf log k := hevents ▸ mem_cons_self
      exact Or.inr ⟨e, mem_eventsOf.mp he⟩
  constructor
  · intro k e he
    rcases hcases k with hnil | ⟨x, hx, rfl⟩
    · rw [hnil] at he
      cases he
    · exact (h x hx).1 e he
  · intro k
    rcases hcases k with hnil | ⟨x, hx, rfl⟩
    · rw [hnil]
      exact isChain_nil
    · exact (h x hx).2

/-- The step `fetch` has ended with an output, the step `store` is running. -/
def fetchStored : EventLog where
  events := [fetchEvent 1 .stepDebugStart 10,
    { fetchEvent 2 .stepDebugEnd 20 with outputs := some "\x7b\"rows\":3\x7d" },
    { fetchEvent 3 .stepDebugStart 30 with stepId := "store" }]
  ordered := by decide

/-- An execution that has ended and one that has not are listed, one record for each. -/
theorem step_summaries_iff_stored : Alternates fetchStored ∧
    (∀ order, (opListStepSummaries ℕ .sqlite fetchStored.events (noFilter order) 2 0).Perm
      ((executions fetchStored).map (summaryOf ℕ .sqlite))) ∧
    (executions fetchStored).map (fun r => (summaryOf ℕ .sqlite r).status)
      = [.completed, .running] := by
  have halternates : Alternates fetchStored := alternates_of_events (by decide)
  have honce : StartedOnce fetchStored := by
    unfold StartedOnce
    decide
  refine ⟨halternates, fun order => ?_, rfl⟩
  exact ((step_summaries_iff ℕ .sqlite fetchStored halternates 2 (by decide)).1 order).mpr honce

/-- A step that ran twice, as after a replay. -/
def fetchReplayed : EventLog where
  events := [fetchEvent 1 .stepDebugStart 10, fetchEvent 2 .stepDebugEnd 20,
    fetchEvent 3 .stepDebugStart 30, fetchEvent 4 .stepDebugEnd 40]
  ordered := by decide

theorem fetchReplayed_alternates : Alternates fetchReplayed :=
  alternates_of_events (by decide)

theorem length_list_replayed (ν : Type) [SerdeNumber ν] (dialect : Dialect)
    (order : EventSortOrder) (hlimit : 4 ≤ limit) :
    (opListStepSummaries ν dialect fetchReplayed.events (noFilter order) limit 0).length = 4 := by
  have hrows : (paired dialect fetchReplayed.events).length = 4 := by
    rw [paired_eq, length_map]
    decide
  rw [(list_noFilter_perm (hrows.trans_le hlimit)).length_eq, length_map]
  decide

/-- **A replayed step.** Two executions of one step in one scope make four summaries: each start
event is paired with both end events. -/
theorem replayed_step_multiplied : Alternates fetchReplayed
    ∧ ∀ (ν : Type) [SerdeNumber ν] dialect order limit, 4 ≤ limit →
      (opListStepSummaries ν dialect fetchReplayed.events (noFilter order) limit 0).length = 4
        ∧ ((executions fetchReplayed).map (summaryOf ν dialect)).length = 2
        ∧ ¬ (opListStepSummaries ν dialect fetchReplayed.events (noFilter order) limit 0).Perm
          ((executions fetchReplayed).map (summaryOf ν dialect)) := by
  refine ⟨fetchReplayed_alternates, fun ν _ dialect order limit hlimit => ?_⟩
  have hfour := length_list_replayed ν dialect order hlimit
  have htwo : ((executions fetchReplayed).map (summaryOf ν dialect)).length = 2 := by
    rw [length_map]
    decide
  refine ⟨hfour, htwo, fun hperm => ?_⟩
  have hlength := hperm.length_eq
  omega

end Records

end StepSummaries

end Runtara
