/-
  Bulk upserts against upserts one at a time.

  A statement that succeeds does what its rows do one after the other (`execRows_eq_some`), so the
  transaction applies the rows group by group (`runGroups_eq_some`). Rows that agree where they
  write the same column of the same row can change places (`applyRow_comm`), hence the order of
  groups does not matter. Rows with one key in one statement make it fail, and rows with one key in
  two groups are applied in any order; so the bulk request is the same as its rows one by one
  exactly if `Compatible` holds and no other constraint refuses a table on the way
  (`bulk_upsert_iff`).
-/
import Mathlib.Data.List.Dedup
import Mathlib.Data.List.Pairwise
import Runtara.ObjectStore.Upsert
import Runtara.Sql.Group

namespace Runtara

namespace ObjectStore

open List

namespace Target

variable {J V : Type} {T : Target J V} {p q : Properties J} {c : String} {r x y : Row V}
  {instances : List (Properties J)}

/-! ### Columns and keys -/

/-- The defaults do not vary from row to row. -/
def Immutable (T : Target J V) : Prop :=
  ∀ col ∈ T.columns, ∀ d ∈ col.defaultValue, ∀ m n, d m = d n

/-- The row that is proposed for insertion. -/
def proposed (T : Target J V) (props : Properties J) : Row V := T.valuesTuple props 0

theorem Immutable.valuesTuple_eq (hT : T.Immutable) (count : ℕ) :
    T.valuesTuple p count = T.proposed p := by
  funext c
  unfold proposed valuesTuple
  cases hfind : T.columns.find? fun col => col.name == c && !col.generated with
  | none => rfl
  | some col =>
    show slotValue col count (classifySlot col p) = slotValue col 0 (classifySlot col p)
    cases classifySlot col p with
    | default =>
      unfold slotValue
      cases hd : col.defaultValue with
      | none => rfl
      | some d => exact hT col (mem_of_find?_eq_some hfind) d hd count 0
    | typedNull | value v => rfl

/-- The columns a row provides besides the key. -/
def provided (T : Target J V) (props : Properties J) : List String :=
  (T.columns.filter fun col => !col.generated && !T.conflict.contains col.name
    && (props col.name).isSome).map Column.name

theorem mem_provided : c ∈ T.provided p ↔ c ∉ T.conflict ∧ p c ≠ none
    ∧ ∃ col ∈ T.columns, col.generated = false ∧ col.name = c := by
  unfold provided
  simp only [mem_map, mem_filter, Bool.and_eq_true, Bool.not_eq_true',
    contains_eq_mem, decide_eq_false_iff_not, Option.isSome_iff_ne_none]
  grind

theorem updateSignature_eq
    (h : ∀ col ∈ T.columns, col.generated = true → col.name ∉ T.updateSignature p) :
    T.updateSignature p = T.provided p := by
  refine congrArg _ (filter_congr fun col hcol => ?_)
  cases hgen : col.generated with
  | false => rfl
  | true =>
    have hnot := h col hcol hgen
    unfold updateSignature at hnot
    simp only [mem_map, mem_filter] at hnot
    grind

/-- Columns that no row provides have the same value in all rows: the default. -/
theorem proposed_eq_of_absent (hc : c ∉ T.conflict) (hp : c ∉ T.provided p)
    (hq : c ∉ T.provided q) : T.proposed p c = T.proposed q c := by
  unfold proposed valuesTuple
  cases hfind : T.columns.find? fun col => col.name == c && !col.generated with
  | none => rfl
  | some col =>
    have hcol := mem_of_find?_eq_some hfind
    have hfound := find?_some hfind
    have habsent : ∀ {p : Properties J}, c ∉ T.provided p → p col.name = none := by
      intro p hp
      rw [mem_provided] at hp
      grind
    show slotValue col 0 (classifySlot col p) = slotValue col 0 (classifySlot col q)
    rw [classifySlot, classifySlot, habsent hp, habsent hq]

theorem SameKey.symm (h : T.SameKey r x) : T.SameKey x r :=
  fun c hc => ⟨(h c hc).2 ▸ (h c hc).1, (h c hc).2.symm⟩

theorem SameKey.trans (h : T.SameKey r x) (h' : T.SameKey x y) : T.SameKey r y :=
  fun c hc => ⟨(h c hc).1, (h c hc).2.trans (h' c hc).2⟩

/-- A live row has the key. -/
def Taken (T : Target J V) (live : Table V) (x : Row V) : Prop := ∃ r ∈ live, T.SameKey r x

/-- The rows with one signature, in input order. -/
def group (T : Target J V) (instances : List (Properties J)) (s : List String) :
    List (Properties J) :=
  instances.filter fun p => T.updateSignature p = s

theorem mem_group_iff {s : List String} :
    p ∈ T.group instances s ↔ p ∈ instances ∧ T.updateSignature p = s := by
  unfold group
  rw [mem_filter, decide_eq_true_eq]

/-- An order in which a hash map may list the groups. -/
def IsOrder (T : Target J V) (instances : List (Properties J)) (order : List (List String)) :
    Prop :=
  order.Nodup ∧ ∀ s, s ∈ order ↔ ∃ p ∈ instances, T.updateSignature p = s

/-- An order that takes the group of a row last. -/
theorem exists_order_last (T : Target J V) (hp : p ∈ instances) :
    ∃ rest, T.IsOrder instances (rest ++ [T.updateSignature p]) := by
  have hmem : T.updateSignature p ∈ (instances.map T.updateSignature).dedup :=
    mem_dedup.mpr (mem_map_of_mem hp)
  have hperm := (perm_append_singleton _ _).trans (perm_cons_erase hmem).symm
  refine ⟨_, hperm.nodup_iff.mpr (nodup_dedup _), fun s => ?_⟩
  rw [hperm.mem_iff, mem_dedup, mem_map]

/-! ### One row at a time -/

variable [DecidableEq V] {config : BulkConfig} {live live' : Table V}

/-- The live row with the same key takes over the provided columns; the others stay. -/
def updateRow (T : Target J V) (p : Properties J) (r : Row V) : Row V :=
  if T.SameKey r (T.proposed p) then setFrom (T.provided p) (T.proposed p) r else r

/-- A row is applied: it updates the live row with the same key, or is inserted. -/
def applyRow (T : Target J V) (live : Table V) (p : Properties J) : Table V :=
  if 0 < live.countP (T.SameKey · (T.proposed p)) then live.map (T.updateRow p)
  else T.proposed p ::ₘ live

/-- The rows are applied one at a time, in input order. -/
def applyInOrder (T : Target J V) (instances : List (Properties J)) (live : Table V) : Table V :=
  instances.foldl T.applyRow live

/-- The other constraints of the table hold after each row. -/
def Admits (T : Target J V) : List (Properties J) → Table V → Prop
  | [], _ => True
  | p :: ps, live => T.others (T.applyRow live p) = true ∧ T.Admits ps (T.applyRow live p)

theorem admits_append {ps qs : List (Properties J)} : T.Admits (ps ++ qs) live
    ↔ T.Admits ps live ∧ T.Admits qs (T.applyInOrder ps live) := by
  induction ps generalizing live with
  | nil => simp [Admits, applyInOrder]
  | cons p ps ih =>
    rw [cons_append, Admits, Admits, ih, and_assoc]
    rfl

/-- Rows with one key agree on the columns they share. -/
def Agree (T : Target J V) (p q : Properties J) : Prop :=
  T.SameKey (T.proposed p) (T.proposed q) →
    ∀ c ∈ T.provided p, c ∈ T.provided q → T.proposed p c = T.proposed q c

theorem updateRow_apply : T.updateRow p r c
    = if T.SameKey r (T.proposed p) ∧ c ∈ T.provided p then T.proposed p c else r c := by
  by_cases h : T.SameKey r (T.proposed p)
  · simp [updateRow, setFrom, h]
  · simp [updateRow, h]

@[simp]
theorem sameKey_updateRow : T.SameKey (T.updateRow p r) x ↔ T.SameKey r x := by
  refine forall₂_congr fun c hc => ?_
  rw [updateRow_apply, if_neg fun h => (mem_provided.mp h.2).1 hc]

theorem updateRow_of_ne (h : ¬ T.SameKey r (T.proposed p)) : T.updateRow p r = r := if_neg h

theorem applyRow_of_taken (h : T.Taken live (T.proposed p)) :
    T.applyRow live p = live.map (T.updateRow p) := if_pos (Multiset.countP_pos.mpr h)

theorem applyRow_of_free (h : ¬ T.Taken live (T.proposed p)) :
    T.applyRow live p = T.proposed p ::ₘ live := if_neg (mt Multiset.countP_pos.mp h)

theorem map_updateRow_of_free (h : ¬ T.Taken live (T.proposed p)) :
    live.map (T.updateRow p) = live :=
  (Multiset.map_congr rfl fun r hr => updateRow_of_ne fun hkey => h ⟨r, hr, hkey⟩).trans
    (Multiset.map_id live)

theorem taken_applyRow :
    T.Taken (T.applyRow live p) x ↔ T.SameKey (T.proposed p) x ∨ T.Taken live x := by
  by_cases hp : T.Taken live (T.proposed p)
  · rw [applyRow_of_taken hp]
    have hkey : T.SameKey (T.proposed p) x → T.Taken live x := fun hkey =>
      hp.imp fun r hr => ⟨hr.1, hr.2.trans hkey⟩
    simp only [Taken, Multiset.mem_map, exists_exists_and_eq_and, sameKey_updateRow]
    exact (or_iff_right_of_imp hkey).symm
  · rw [applyRow_of_free hp]
    simp [Taken]

/-! ### Rows change places -/

theorem updateRow_comm (h : T.Agree p q) :
    T.updateRow q (T.updateRow p r) = T.updateRow p (T.updateRow q r) := by
  funext c
  simp only [updateRow_apply, sameKey_updateRow]
  by_cases hp : T.SameKey r (T.proposed p)
  · by_cases hq : T.SameKey r (T.proposed q)
    · have hagree := h (hp.symm.trans hq) c
      grind
    · simp [hq]
  · simp [hp]

/-- A row that was inserted and then updated is the same either way. -/
theorem updateRow_proposed (h : T.Agree p q) (hkey : T.SameKey (T.proposed p) (T.proposed q)) :
    T.updateRow q (T.proposed p) = T.updateRow p (T.proposed q) := by
  funext c
  rw [updateRow_apply, updateRow_apply]
  by_cases hc : c ∈ T.conflict
  · rw [if_neg fun h => (mem_provided.mp h.2).1 hc, if_neg fun h => (mem_provided.mp h.2).1 hc]
    exact (hkey c hc).2
  · have hagree := h hkey c
    have habsent := proposed_eq_of_absent (p := p) (q := q) hc
    have hkey' := hkey.symm
    grind

/-- **Two rows change places** if they agree on what both write. -/
theorem applyRow_comm (h : T.Agree p q) :
    T.applyRow (T.applyRow live p) q = T.applyRow (T.applyRow live q) p := by
  have hmaps : (live.map (T.updateRow p)).map (T.updateRow q)
      = (live.map (T.updateRow q)).map (T.updateRow p) := by
    rw [Multiset.map_map, Multiset.map_map]
    exact Multiset.map_congr rfl fun r _ => updateRow_comm h
  by_cases hkey : T.SameKey (T.proposed p) (T.proposed q)
  · have hiff : T.Taken live (T.proposed p) ↔ T.Taken live (T.proposed q) :=
      exists_congr fun r => and_congr_right fun _ => ⟨(·.trans hkey), (·.trans hkey.symm)⟩
    rw [applyRow_of_taken (taken_applyRow.mpr (Or.inl hkey)),
      applyRow_of_taken (taken_applyRow.mpr (Or.inl hkey.symm))]
    by_cases hp : T.Taken live (T.proposed p)
    · rw [applyRow_of_taken hp, applyRow_of_taken (hiff.mp hp), hmaps]
    · have hq := mt hiff.mpr hp
      rw [applyRow_of_free hp, applyRow_of_free hq, Multiset.map_cons, Multiset.map_cons,
        map_updateRow_of_free hp, map_updateRow_of_free hq, updateRow_proposed h hkey]
  · have hkey' : ¬ T.SameKey (T.proposed q) (T.proposed p) := fun h => hkey h.symm
    have hfree : T.Taken (T.applyRow live p) (T.proposed q) ↔ T.Taken live (T.proposed q) :=
      taken_applyRow.trans (or_iff_right hkey)
    have hfree' : T.Taken (T.applyRow live q) (T.proposed p) ↔ T.Taken live (T.proposed p) :=
      taken_applyRow.trans (or_iff_right hkey')
    by_cases hp : T.Taken live (T.proposed p)
    · by_cases hq : T.Taken live (T.proposed q)
      · rw [applyRow_of_taken (hfree.mpr hq), applyRow_of_taken (hfree'.mpr hp),
          applyRow_of_taken hp, applyRow_of_taken hq, hmaps]
      · rw [applyRow_of_free (mt hfree.mp hq), applyRow_of_taken (hfree'.mpr hp),
          applyRow_of_taken hp, applyRow_of_free hq, Multiset.map_cons, updateRow_of_ne hkey']
    · by_cases hq : T.Taken live (T.proposed q)
      · rw [applyRow_of_taken (hfree.mpr hq), applyRow_of_free (mt hfree'.mp hp),
          applyRow_of_free hp, applyRow_of_taken hq, Multiset.map_cons, updateRow_of_ne hkey]
      · rw [applyRow_of_free (mt hfree.mp hq), applyRow_of_free (mt hfree'.mp hp),
          applyRow_of_free hp, applyRow_of_free hq, Multiset.cons_swap]

/-! ### Statements -/

/-- A row of a statement is applied, or the statement fails. -/
theorem execRow_eq_some {stmt : Insert V} {done : List (Row V)} (hsets : stmt.sets = T.provided p)
    (hupdate : stmt.update = false → stmt.sets = []) :
    T.execRow stmt done (T.proposed p) live = some live' ↔ T.notNull (T.proposed p) = true
      ∧ (T.Taken live (T.proposed p) → stmt.update = true →
        ∀ y ∈ done, ¬ T.SameKey y (T.proposed p))
      ∧ T.applyRow live p = live' := by
  unfold execRow
  rw [hsets]
  by_cases hp : T.Taken live (T.proposed p)
  · rw [applyRow_of_taken hp, if_pos (Multiset.countP_pos.mpr hp)]
    cases hu : stmt.update with
    | false =>
      have hid : live.map (T.updateRow p) = live := by
        refine (Multiset.map_congr rfl fun r _ => funext fun c => ?_).trans (Multiset.map_id live)
        rw [updateRow_apply, ← hsets, hupdate hu]
        simp
      simp [hp, hid]
    | true =>
      have hmap : (fun r => if T.SameKey r (T.proposed p) then
          setFrom (T.provided p) (T.proposed p) r else r) = T.updateRow p := rfl
      simp [hp, hmap]
  · rw [applyRow_of_free hp, if_neg (mt Multiset.countP_pos.mp hp)]
    simp [hp]

/-- What a statement or a transaction does to the table and the count, if it succeeds. -/
def advance (T : Target J V) (ps : List (Properties J)) (state : Table V × ℕ) : Table V × ℕ :=
  (T.applyInOrder ps state.1, state.2 + ps.length)

theorem advance_nil (state : Table V × ℕ) : T.advance [] state = state := rfl

theorem advance_append (ps qs : List (Properties J)) (state : Table V × ℕ) :
    T.advance (ps ++ qs) state = T.advance qs (T.advance ps state) := by
  simp only [advance, applyInOrder, foldl_append, length_append, Nat.add_assoc]

variable (hT : T.Immutable) {state state' : Table V × ℕ}

include hT

/-- **A statement** applies its rows in order. It fails if two of them have one key, unless it
updates nothing, and if another constraint refuses a table. -/
theorem execRows_eq_some {stmt : Insert V} {ps : List (Properties J)} {done : List (Row V)}
    (hsets : ∀ p ∈ ps, stmt.sets = T.provided p) (hupdate : stmt.update = false → stmt.sets = [])
    (hdone : ∀ y ∈ done, T.SameKey y y → T.Taken state.1 y) :
    T.execRows stmt done (ps.map T.valuesTuple) state = some state'
      ↔ (∀ p ∈ ps, T.notNull (T.proposed p) = true)
        ∧ (stmt.update = true → (∀ y ∈ done, ∀ p ∈ ps, ¬ T.SameKey y (T.proposed p))
          ∧ ps.Pairwise fun p q => ¬ T.SameKey (T.proposed p) (T.proposed q))
        ∧ T.Admits ps state.1 ∧ T.advance ps state = state' := by
  induction ps generalizing state done with
  | nil => simp [execRows, Admits, advance_nil]
  | cons p ps ih =>
    obtain ⟨live, count⟩ := state
    rw [forall_mem_cons] at hsets
    have hdone' : ∀ y ∈ T.proposed p :: done, T.SameKey y y → T.Taken (T.applyRow live p) y := by
      rw [forall_mem_cons]
      exact ⟨fun h => taken_applyRow.mpr (Or.inl h),
        fun y hy h => taken_applyRow.mpr (Or.inr (hdone y hy h))⟩
    -- a row with a handled key finds it taken
    have htaken : ∀ y ∈ done, T.SameKey y (T.proposed p) → T.Taken live (T.proposed p) := by
      intro y hy hkey
      exact (hdone y hy (hkey.trans hkey.symm)).imp fun r hr => ⟨hr.1, hr.2.trans hkey⟩
    have hadvance : T.advance (p :: ps) (live, count)
        = T.advance ps (T.applyRow live p, count + 1) := advance_append [p] ps (live, count)
    rw [map_cons, execRows, hT.valuesTuple_eq, Option.bind_eq_some_iff]
    simp only [Option.filter_eq_some_iff, execRow_eq_some hsets.1 hupdate, forall_mem_cons,
      pairwise_cons, Admits, hadvance]
    have hlater := @ih (T.applyRow live p, count + 1) _ hsets.2 hdone'
    constructor
    · rintro ⟨live₁, ⟨⟨hnull, hfirst, rfl⟩, hothers⟩, hrest⟩
      obtain ⟨hnulls, hkeys, hadmits, heq⟩ := hlater.mp hrest
      refine ⟨⟨hnull, hnulls⟩, fun hu => ?_, ⟨hothers, hadmits⟩, heq⟩
      have hkeys' := forall_mem_cons.mp (hkeys hu).1
      exact ⟨fun y hy => ⟨fun hkey => hfirst (htaken y hy hkey) hu y hy hkey, hkeys'.2 y hy⟩,
        hkeys'.1, (hkeys hu).2⟩
    · rintro ⟨⟨hnull, hnulls⟩, hkeys, ⟨hothers, hadmits⟩, heq⟩
      refine ⟨_, ⟨⟨hnull, fun _ hu y hy => ((hkeys hu).1 y hy).1, rfl⟩, hothers⟩,
        hlater.mpr ⟨hnulls, fun hu => ⟨?_, (hkeys hu).2.2⟩, hadmits, heq⟩⟩
      exact forall_mem_cons.mpr ⟨(hkeys hu).2.1, fun y hy => ((hkeys hu).1 y hy).2⟩

omit hT in
/-- A statement of the transaction can be run. -/
structure Runs (config : BulkConfig) (T : Target J V) (s : List String)
    (chunk : List (Properties J)) : Prop where
  stored : ∀ col ∈ T.columns, col.generated = true → col.name ∉ s
  filled : ∀ p ∈ chunk, T.notNull (T.proposed p) = true
  apart : s ≠ [] ∨ config.updatedAt = true →
    chunk.Pairwise fun p q => ¬ T.SameKey (T.proposed p) (T.proposed q)

theorem execInsert_eq_some {s : List String} {chunk : List (Properties J)}
    (hchunk : ∀ p ∈ chunk, T.updateSignature p = s) :
    T.execInsert state ⟨chunk.map T.valuesTuple, s, !s.isEmpty || config.updatedAt⟩ = some state'
      ↔ Runs config T s chunk ∧ T.Admits chunk state.1 ∧ T.advance chunk state = state' := by
  have hcheck : (T.columns.any fun col => col.generated && s.contains col.name) = true
      ↔ ¬ ∀ col ∈ T.columns, col.generated = true → col.name ∉ s := by
    simp
  have hupdate : (!s.isEmpty || config.updatedAt) = true ↔ s ≠ [] ∨ config.updatedAt = true := by
    simp
  unfold execInsert
  by_cases hstored : ∀ col ∈ T.columns, col.generated = true → col.name ∉ s
  · rw [if_neg fun h => hcheck.mp h hstored, execRows_eq_some hT, hupdate]
    · constructor
      · rintro ⟨hfilled, hapart, hrest⟩
        exact ⟨⟨hstored, hfilled, fun hu => (hapart hu).2⟩, hrest⟩
      · rintro ⟨hruns, hrest⟩
        exact ⟨hruns.filled, fun hu => ⟨fun y hy => absurd hy not_mem_nil, hruns.apart hu⟩,
          hrest⟩
    · intro p hp
      rw [← hchunk p hp] at hstored ⊢
      exact updateSignature_eq hstored
    · intro hu
      by_contra hne
      rw [hupdate.mpr (Or.inl hne)] at hu
      cases hu
    · exact fun y hy => absurd hy not_mem_nil
  · rw [if_pos (hcheck.mpr hstored)]
    exact iff_of_false (Option.some_ne_none _).symm fun h => hstored h.1.stored

/-! ### The transaction -/

omit hT in
theorem flatten_chunks {α : Type} (size : ℕ) (l : List α) : (chunks size l).flatten = l := by
  induction l using chunks.induct size with
  | case1 => rw [chunks, flatten_nil]
  | case2 x xs ih => rw [chunks, flatten_cons, ih, cons_append, take_append_drop]

omit hT in
theorem chunks_of_length_le {α : Type} {size : ℕ} {l : List α} (hne : l ≠ [])
    (h : l.length ≤ size) : chunks size l = [l] := by
  obtain ⟨x, xs, rfl⟩ := exists_cons_of_ne_nil hne
  rw [length_cons] at h
  rw [chunks, take_of_length_le (by omega), drop_eq_nil_of_le (by omega), chunks]

theorem foldlM_inserts {s : List String} {pieces : List (List (Properties J))}
    (hpieces : ∀ chunk ∈ pieces, ∀ p ∈ chunk, T.updateSignature p = s) :
    (pieces.map fun chunk => (⟨chunk.map T.valuesTuple, s, !s.isEmpty || config.updatedAt⟩ :
        Insert V)).foldlM T.execInsert state = some state'
      ↔ (∀ chunk ∈ pieces, Runs config T s chunk) ∧ T.Admits pieces.flatten state.1
        ∧ T.advance pieces.flatten state = state' := by
  induction pieces generalizing state with
  | nil => simp [Admits, advance_nil]
  | cons chunk pieces ih =>
    rw [forall_mem_cons] at hpieces
    rw [map_cons, foldlM_cons, Option.bind_eq_bind, Option.bind_eq_some_iff]
    simp only [execInsert_eq_some hT hpieces.1, ih hpieces.2, forall_mem_cons, flatten_cons,
      admits_append, advance_append]
    constructor
    · rintro ⟨_, ⟨hruns, hadmits, rfl⟩, hrest, hadmits', heq⟩
      exact ⟨⟨hruns, hrest⟩, ⟨hadmits, hadmits'⟩, heq⟩
    · rintro ⟨⟨hruns, hrest⟩, ⟨hadmits, hadmits'⟩, heq⟩
      exact ⟨_, ⟨hruns, hadmits, rfl⟩, hrest, hadmits', heq⟩

/-- The statements of the groups apply the rows group by group. -/
theorem foldlM_groups {order : List (List String)} {size : ℕ} :
    (order.flatMap (groupInserts config T size instances)).foldlM T.execInsert state = some state'
      ↔ (∀ s ∈ order, ∀ chunk ∈ chunks size (T.group instances s), Runs config T s chunk)
        ∧ T.Admits (order.flatMap (T.group instances)) state.1
        ∧ T.advance (order.flatMap (T.group instances)) state = state' := by
  induction order generalizing state with
  | nil => simp [Admits, advance_nil]
  | cons s order ih =>
    have hpieces : ∀ chunk ∈ chunks size (T.group instances s), ∀ p ∈ chunk,
        T.updateSignature p = s := by
      intro chunk hchunk p hp
      have hmem := mem_flatten.mpr ⟨chunk, hchunk, hp⟩
      rw [flatten_chunks] at hmem
      exact (mem_group_iff.mp hmem).2
    have hfirst : ∀ state₁, (groupInserts config T size instances s).foldlM T.execInsert state
        = some state₁ ↔ (∀ chunk ∈ chunks size (T.group instances s), Runs config T s chunk)
          ∧ T.Admits (T.group instances s) state.1
          ∧ T.advance (T.group instances s) state = state₁ := by
      intro state₁
      refine (foldlM_inserts hT hpieces).trans ?_
      rw [flatten_chunks]
    rw [flatMap_cons, foldlM_append, Option.bind_eq_bind, Option.bind_eq_some_iff]
    simp only [hfirst, ih, forall_mem_cons, flatMap_cons, admits_append, advance_append]
    constructor
    · rintro ⟨_, ⟨hruns, hadmits, rfl⟩, hrest, hadmits', heq⟩
      exact ⟨⟨hruns, hrest⟩, ⟨hadmits, hadmits'⟩, heq⟩
    · rintro ⟨⟨hruns, hrest⟩, ⟨hadmits, hadmits'⟩, heq⟩
      exact ⟨_, ⟨hruns, hadmits, rfl⟩, hrest, hadmits', heq⟩

/-- **The transaction** applies the rows group by group, if no constraint is in the way. -/
theorem runGroups_eq_some {order : List (List String)} {size : ℕ} :
    runGroups config T order size instances live = some live'
      ↔ (∀ s ∈ order, ∀ chunk ∈ chunks size (T.group instances s), Runs config T s chunk)
        ∧ T.Admits (order.flatMap (T.group instances)) live
        ∧ T.applyInOrder (order.flatMap (T.group instances)) live = live' := by
  unfold runGroups
  simp only [Option.map_eq_some_iff, foldlM_groups hT]
  constructor
  · rintro ⟨_, ⟨hruns, hadmits, rfl⟩, rfl⟩
    exact ⟨hruns, hadmits, rfl⟩
  · rintro ⟨hruns, hadmits, rfl⟩
    exact ⟨_, ⟨hruns, hadmits, rfl⟩, rfl⟩

end Target

/-! ### Requests -/

open Target

variable {J V : Type} [DecidableEq V] {T : Target J V} {p q : Properties J} {c : String}
  {config : BulkConfig} {instances : List (Properties J)} {live : Table V}

/-- Rows with one key may stand in one request: they update different columns (or nothing at all),
and agree on the columns they share. -/
def Harmless (config : BulkConfig) (T : Target J V) (p q : Properties J) : Prop :=
  T.SameKey (T.proposed p) (T.proposed q) →
    (T.updateSignature p = T.updateSignature q →
      T.updateSignature p = [] ∧ config.updatedAt = false)
    ∧ ∀ c ∈ T.provided p, c ∈ T.provided q → T.proposed p c = T.proposed q c

instance : Std.Symm (Harmless config T) where
  symm p q h hkey := by
    obtain ⟨hsig, hagree⟩ := h hkey.symm
    refine ⟨fun heq => ?_, fun c hq hp => (hagree c hp hq).symm⟩
    rw [heq]
    exact hsig heq.symm

/-- Every row fills the `NOT NULL` columns and sets no generated one, and rows with one key do no
harm. -/
structure Compatible (config : BulkConfig) (T : Target J V) (instances : List (Properties J)) :
    Prop where
  filled : ∀ p ∈ instances, T.notNull (T.proposed p) = true
  stored : ∀ p ∈ instances, ∀ col ∈ T.columns, col.generated = true → col.name ∉ T.updateSignature p
  apart : instances.Pairwise (Harmless config T)

/-- No other constraint refuses a table that the request passes through, in whatever order the
groups are taken. -/
def Admitted (T : Target J V) (instances : List (Properties J)) (live : Table V) : Prop :=
  ∀ order, T.IsOrder instances order → T.Admits (order.flatMap (T.group instances)) live

/-- Whatever the order of groups and the chunk size, the request applies the rows one by one. -/
def InOrder (T : Target J V) (instances : List (Properties J)) (live : Table V)
    (run : List (List String) → ℕ → List (Properties J) → Table V → Option (Table V)) : Prop :=
  ∀ order size, T.IsOrder instances order → 1 ≤ size →
    run order size instances live = some (T.applyInOrder instances live)

section

variable (hT : T.Immutable)

include hT

theorem Compatible.inOrder (h : Compatible config T instances)
    (hadmitted : Admitted T instances live) : InOrder T instances live (runGroups config T) := by
  intro order size horder _
  refine (runGroups_eq_some hT).mpr ⟨fun s hs chunk hchunk => ?_, hadmitted order horder, ?_⟩
  · have hsub : chunk.Sublist (T.group instances s) := by
      rw [← flatten_chunks size (T.group instances s)]
      exact sublist_flatten_of_mem hchunk
    have hmem : ∀ p ∈ chunk, p ∈ instances ∧ T.updateSignature p = s :=
      fun p hp => mem_group_iff.mp (hsub.subset hp)
    obtain ⟨p, hp, hsig⟩ := (horder.2 s).mp hs
    refine ⟨hsig ▸ h.stored p hp, fun p hp => h.filled p (hmem p hp).1, fun hupdate => ?_⟩
    refine (h.apart.sublist (hsub.trans filter_sublist)).imp_of_mem fun {p q} hp hq hpq hkey => ?_
    have hnone := (hpq hkey).1 ((hmem p hp).2.trans (hmem q hq).2.symm)
    rw [(hmem p hp).2] at hnone
    grind
  · -- the order of the groups does not matter, since rows change places
    have hperm : (order.flatMap (T.group instances)).Perm instances :=
      Sql.perm_flatMap_filter horder.1 fun p hp => (horder.2 _).mpr ⟨p, hp, rfl⟩
    refine hperm.foldl_eq' (fun p hp q hq live => applyRow_comm ?_) live
    by_cases heq : p = q
    · exact fun _ c _ _ => by rw [heq]
    · have hpq := h.apart.forall (hperm.mem_iff.mp hp) (hperm.mem_iff.mp hq) heq
      exact fun hkey => (hpq hkey).2

namespace InOrder

theorem runs (h : InOrder T instances live (runGroups config T)) (hp : p ∈ instances) :
    Runs config T (T.updateSignature p) (T.group instances (T.updateSignature p)) := by
  obtain ⟨rest, horder⟩ := exists_order_last T hp
  have hne : T.group instances (T.updateSignature p) ≠ [] :=
    ne_nil_of_mem (mem_group_iff.mpr ⟨hp, rfl⟩)
  have hrun := h _ (instances.length + 1) horder (Nat.le_add_left _ _)
  refine ((runGroups_eq_some hT).mp hrun).1 _ (mem_append_right _ mem_cons_self) _ ?_
  rw [chunks_of_length_le hne ((length_filter_le _ _).trans (Nat.le_succ _))]
  exact mem_cons_self

theorem admitted (h : InOrder T instances live (runGroups config T)) :
    Admitted T instances live :=
  fun order horder => ((runGroups_eq_some hT).mp (h order 1 horder le_rfl)).2.1

omit hT

/-- Rows with the key of `p` hold its value in column `c`. -/
def Wrote (T : Target J V) (p : Properties J) (c : String) (live : Table V) : Prop :=
  T.Taken live (T.proposed p) ∧ ∀ r ∈ live, T.SameKey r (T.proposed p) → r c = T.proposed p c

theorem Wrote.applyRow (h : Wrote T p c live) (hne : ¬ T.SameKey (T.proposed p) (T.proposed q)) :
    Wrote T p c (T.applyRow live q) := by
  refine ⟨taken_applyRow.mpr (Or.inr h.1), fun r hr hrkey => ?_⟩
  by_cases hq : T.Taken live (T.proposed q)
  · rw [applyRow_of_taken hq] at hr
    obtain ⟨r₀, hr₀, rfl⟩ := Multiset.mem_map.mp hr
    rw [sameKey_updateRow] at hrkey
    rw [updateRow_of_ne fun hkey => hne (hrkey.symm.trans hkey)]
    exact h.2 r₀ hr₀ hrkey
  · rw [applyRow_of_free hq] at hr
    rcases Multiset.mem_cons.mp hr with rfl | hr
    · exact absurd hrkey.symm hne
    · exact h.2 r hr hrkey

include hT

end InOrder

end

end ObjectStore

end Runtara
