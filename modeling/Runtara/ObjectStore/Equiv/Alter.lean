/-
  What an update of a schema keeps.

  The guard against dropped columns and the generator of the statements look at the same renames and
  columns, so without `allow_destructive` no column is dropped (`no_column_dropped`). A column then
  keeps its cells, unless its type is changed: only a rename takes its name away, and that one is to
  the name it is found under afterwards, because each source and each target is in one rename and no
  target exists yet.
-/
import Runtara.ObjectStore.Alter

namespace Runtara.ObjectStore

open List

variable {κ : Type} {E : Engine κ} {T T' : Columns κ} {s : Statement} {ss : List Statement}
  {name : String} {cells : κ}

/-! ### Statements and columns -/

/-- Does the statement take a column away from its name? -/
def Statement.takes (name : String) : Statement → Bool
  | .renameColumn fromName _ => fromName = name
  | .dropColumn dropped => dropped = name
  | _ => false

/-- Does the statement convert the cells of a column? -/
def Statement.converts (name : String) : Statement → Bool
  | .alterType altered _ => altered = name
  | _ => false

namespace Engine

/-- A column keeps its name, and its cells unless they are converted. -/
theorem exec_keeps (h : E.exec T s = .ok T') (hmem : (name, cells) ∈ T)
    (htakes : s.takes name = false) :
    ∃ cells', (name, cells') ∈ T' ∧ (s.converts name = false → cells' = cells) := by
  unfold exec at h
  split at h
  · cases h
  cases s with
  | renameColumn fromName toName =>
    obtain rfl := Except.ok.inj h
    refine ⟨cells, mem_map.mpr ⟨_, hmem, ?_⟩, fun _ => rfl⟩
    rw [if_neg fun heq => of_decide_eq_false htakes heq.symm]
  | addColumn c =>
    obtain rfl := Except.ok.inj h
    exact ⟨cells, mem_append_left _ hmem, fun _ => rfl⟩
  | dropColumn dropped =>
    obtain rfl := Except.ok.inj h
    refine ⟨cells, mem_filter.mpr ⟨hmem, ?_⟩, fun _ => rfl⟩
    exact decide_eq_true fun heq => of_decide_eq_false htakes heq.symm
  | alterType altered columnType =>
    obtain rfl := Except.ok.inj h
    refine ⟨_, mem_map.mpr ⟨_, hmem, rfl⟩, fun hconverts => if_neg fun heq => ?_⟩
    exact of_decide_eq_false hconverts heq.symm
  | _ =>
    obtain rfl := Except.ok.inj h
    exact ⟨cells, hmem, fun _ => rfl⟩

theorem run_cons (h : E.run T (s :: ss) = .ok T') :
    ∃ T₁, E.exec T s = .ok T₁ ∧ E.run T₁ ss = .ok T' := by
  unfold run at h
  cases hexec : E.exec T s with
  | error e =>
    rw [hexec] at h
    cases h
  | ok T₁ =>
    rw [hexec] at h
    exact ⟨T₁, rfl, h⟩

theorem run_append {ss' : List Statement} (h : E.run T (ss ++ ss') = .ok T') :
    ∃ T₁, E.run T ss = .ok T₁ ∧ E.run T₁ ss' = .ok T' := by
  induction ss generalizing T with
  | nil => exact ⟨T, rfl, h⟩
  | cons s ss ih =>
    obtain ⟨T₁, hexec, hrun⟩ := run_cons h
    obtain ⟨T₂, hrun₁, hrun₂⟩ := ih hrun
    refine ⟨T₂, ?_, hrun₂⟩
    rw [run, hexec]
    exact hrun₁

theorem run_keeps (h : E.run T ss = .ok T') (hmem : (name, cells) ∈ T)
    (htakes : ∀ s ∈ ss, s.takes name = false) :
    ∃ cells', (name, cells') ∈ T' ∧ ((∀ s ∈ ss, s.converts name = false) → cells' = cells) := by
  induction ss generalizing T cells with
  | nil =>
    obtain rfl := Except.ok.inj h
    exact ⟨cells, hmem, fun _ => rfl⟩
  | cons s ss ih =>
    rw [forall_mem_cons] at htakes
    obtain ⟨T₁, hexec, hrun⟩ := run_cons h
    obtain ⟨cells₁, hmem₁, heq₁⟩ := exec_keeps hexec hmem htakes.1
    obtain ⟨cells₂, hmem₂, heq₂⟩ := ih hrun hmem₁ htakes.2
    refine ⟨cells₂, hmem₂, fun hconverts => ?_⟩
    rw [forall_mem_cons] at hconverts
    rw [heq₂ hconverts.2, heq₁ hconverts.1]

/-- Statements that neither take a column away nor convert it. -/
theorem run_spares (h : E.run T ss = .ok T') (hmem : (name, cells) ∈ T)
    (hspares : ∀ s ∈ ss, s.takes name = false ∧ s.converts name = false) : (name, cells) ∈ T' := by
  obtain ⟨cells', hmem', heq⟩ := run_keeps h hmem fun s hs => (hspares s hs).1
  obtain rfl := heq fun s hs => (hspares s hs).2
  exact hmem'

end Engine

/-! ### What is generated -/

variable {old new : List ColumnDefinition} {renames : List ColumnRename} {existing : Schema}
  {r : ColumnRename} {c : ColumnDefinition} {request : UpdateSchemaRequest}

theorem hasColumn_iff {columns : List ColumnDefinition} :
    hasColumn columns name = true ↔ ∃ c ∈ columns, c.name = name := by
  simp [hasColumn]

theorem mem_renamedIndexes (h : s ∈ (old.find? fun c => c.name = r.fromName).elim []
    fun c => renameColumnIndexes c r.toName) :
    ∃ index source, s = .renameIndex index source r.toName := by
  cases hfind : old.find? fun c => c.name = r.fromName with
  | none => simp [hfind] at h
  | some c =>
    rw [hfind] at h
    obtain ⟨index, -, rfl⟩ := mem_map.mp h
    exact ⟨index, c.name, rfl⟩

/-- What a rename generates: statements about indexes, and last the rename of the column. -/
theorem mem_renameStatements (h : s ∈ renameStatements old r) : r.fromName ≠ r.toName ∧
    (s = .renameColumn r.fromName r.toName ∨
      ∃ index source, s = .renameIndex index source r.toName) := by
  unfold renameStatements at h
  split at h
  · cases h
  next hne =>
  rcases mem_append.mp h with h | h
  · exact ⟨hne, .inr (mem_renamedIndexes h)⟩
  · exact ⟨hne, .inl (mem_singleton.mp h)⟩

theorem renameStatements_spares (h : s ∈ renameStatements old r)
    (hr : r.fromName = name → r.fromName = r.toName) :
    s.takes name = false ∧ s.converts name = false := by
  obtain ⟨hne, rfl | ⟨index, source, rfl⟩⟩ := mem_renameStatements h
  · exact ⟨decide_eq_false fun heq => hne (hr heq), rfl⟩
  · exact ⟨rfl, rfl⟩

theorem addStatements_spares (h : s ∈ addStatements old renames c) :
    s.takes name = false ∧ s.converts name = false := by
  simp only [addStatements, mem_ite_nil_left, mem_cons, mem_map] at h
  obtain ⟨-, rfl | ⟨index, -, rfl⟩⟩ := h <;> exact ⟨rfl, rfl⟩

/-- A column is converted only if it is matched with an old one of another type. -/
theorem modifyStatements_takes (h : s ∈ modifyStatements old renames c) :
    s.takes name = false ∧ (s.converts name = true → c.name = name ∧
      ∃ o, oldMatch old renames name = some o ∧ o.columnType ≠ c.columnType) := by
  unfold modifyStatements at h
  split at h
  · cases h
  next o ho =>
  simp only [mem_append, mem_ite_nil_right, mem_singleton] at h
  obtain ((⟨hne, rfl⟩ | ⟨-, rfl⟩) | ⟨-, rfl⟩) | ⟨-, rfl⟩ := h
  · refine ⟨rfl, fun hconverts => ?_⟩
    obtain rfl := of_decide_eq_true hconverts
    exact ⟨rfl, o, ho, hne⟩
  · exact ⟨rfl, fun h => by cases h⟩
  · exact ⟨rfl, fun h => by cases h⟩
  · split <;> exact ⟨rfl, fun h => by cases h⟩

theorem indexStatements_spares (h : s ∈ indexStatements existing request) :
    s.takes name = false ∧ s.converts name = false := by
  unfold indexStatements at h
  cases hindexes : request.indexes with
  | none =>
    rw [hindexes] at h
    cases h
  | some indexes =>
    rw [hindexes, Option.elim_some, generateAlterIndexes, mem_append, mem_map, mem_map] at h
    obtain ⟨i, -, rfl⟩ | ⟨i, -, rfl⟩ := h <;> exact ⟨rfl, rfl⟩

/-- The column that a rename takes away is there under the new name, with its cells. -/
theorem Engine.run_renameStatements (h : E.run T (renameStatements old r) = .ok T')
    (hne : r.fromName ≠ r.toName) (hmem : (r.fromName, cells) ∈ T) : (r.toName, cells) ∈ T' := by
  rw [renameStatements, if_neg hne] at h
  obtain ⟨T₁, hindexes, hrename⟩ := run_append h
  have hmem₁ : (r.fromName, cells) ∈ T₁ := run_spares hindexes hmem fun s hs => by
    obtain ⟨index, source, rfl⟩ := mem_renamedIndexes hs
    exact ⟨rfl, rfl⟩
  obtain ⟨T₂, hexec, hnil⟩ := run_cons hrename
  obtain rfl := Except.ok.inj hnil
  unfold Engine.exec at hexec
  split at hexec
  · cases hexec
  · obtain rfl := Except.ok.inj hexec
    exact mem_map.mpr ⟨_, hmem₁, by rw [if_pos rfl]⟩

/-! ### What the request says -/

theorem pairwise_of_duplicateError {before : List ColumnRename}
    (h : duplicateError before renames = none) :
    (∀ p ∈ before, ∀ r ∈ renames, p.fromName ≠ r.fromName ∧ p.toName ≠ r.toName) ∧
      renames.Pairwise fun p r => p.fromName ≠ r.fromName ∧ p.toName ≠ r.toName := by
  induction renames generalizing before with
  | nil => exact ⟨fun _ _ _ hr => absurd hr not_mem_nil, .nil⟩
  | cons r rest ih =>
    unfold duplicateError at h
    split at h
    · cases h
    split at h
    · cases h
    next hfrom hto =>
    simp only [any_eq_true, decide_eq_true_eq, not_exists, not_and] at hfrom hto
    obtain ⟨hbefore, hrest⟩ := ih h
    refine ⟨fun p hp q hq => ?_, pairwise_cons.mpr ⟨fun q hq => ?_, hrest⟩⟩
    · rcases mem_cons.mp hq with rfl | hq
      · exact ⟨hfrom p hp, hto p hp⟩
      · exact hbefore p (mem_append_left _ hp) q hq
    · exact hbefore r (mem_append_right _ (mem_singleton_self r)) q hq

/-- What the validation says about the renames. -/
structure Accepted (old : List ColumnDefinition) (renames : List ColumnRename) : Prop where
  source : ∀ r ∈ renames, r.fromName ≠ r.toName → hasColumn old r.fromName = true
  fresh : ∀ r ∈ renames, r.fromName ≠ r.toName → hasColumn old r.toName = false
  distinct : renames.Pairwise fun p r => p.fromName ≠ r.fromName ∧ p.toName ≠ r.toName

theorem columns_of_renameError (h : renameError existing new r = none)
    (hne : r.fromName ≠ r.toName) :
    hasColumn existing.columns r.fromName = true ∧ hasColumn existing.columns r.toName = false := by
  rw [renameError, if_neg hne] at h
  split at h
  · cases h
  split at h
  · cases h
  split at h
  · cases h
  next hsource _ hfresh => exact ⟨by simpa using hsource, Bool.eq_false_iff.mpr hfresh⟩

theorem accepted_of_ok (hnew : request.columns = some new)
    (h : columnStatements existing request = .ok ss) :
    Accepted existing.columns request.columnRenames ∧
      ss = generateAlterTableWithRenames existing.columns new request.columnRenames ∧
      (request.allowDestructive = false →
        ∀ c ∈ existing.columns, isDropped new request.columnRenames c = false) := by
  unfold columnStatements at h
  rw [hnew] at h
  dsimp only at h
  split at h
  · cases h
  next hnone =>
  simp only [Option.or_eq_none_iff, findSome?_eq_none_iff] at hnone
  obtain ⟨hrename, hdup, hdestructive⟩ := hnone
  refine ⟨⟨fun r hr hne => (columns_of_renameError (hrename r hr) hne).1,
    fun r hr hne => (columns_of_renameError (hrename r hr) hne).2,
    (pairwise_of_duplicateError hdup).2⟩, (Except.ok.inj h).symm, fun hallow c hc => ?_⟩
  simp only [destructiveError, hallow, Bool.false_or] at hdestructive
  split at hdestructive
  · next hempty =>
    rw [List.isEmpty_iff, map_eq_nil_iff, filter_eq_nil_iff] at hempty
    exact Bool.eq_false_iff.mpr (hempty c hc)
  · cases hdestructive

/-! ### The columns after an update -/

/-- The old column that a new one is compared with, if `source` becomes `name`. -/
theorem oldMatch_eq {source : String} {o : ColumnDefinition}
    (hsource : ∀ p ∈ renames, p.toName = name → p.fromName = source)
    (hname : name = source ∨ ∃ p ∈ renames, p.toName = name)
    (h : oldMatch old renames name = some o) : o ∈ old ∧ o.name = source := by
  refine ⟨mem_of_find?_eq_some h, ?_⟩
  have hfound := find?_some h
  rw [of_decide_eq_true hfound]
  cases hfind : renames.reverse.find? fun r => r.toName = name with
  | none =>
    refine hname.resolve_right ?_
    rintro ⟨p, hp, hto⟩
    exact find?_eq_none.mp hfind p (mem_reverse.mpr hp) (decide_eq_true hto)
  | some p =>
    have hto := find?_some hfind
    exact hsource p (mem_reverse.mp (mem_of_find?_eq_some hfind)) (of_decide_eq_true hto)

/-- The new list gives the column no other type. -/
def SameType (old new : List ColumnDefinition) (source name : String) : Prop :=
  ∀ n ∈ new, n.name = name → ∀ o ∈ old, o.name = source → o.columnType = n.columnType

/-- The statements without those that drop columns, when the renames `qs` are still to come. -/
def keepingStatements (old new : List ColumnDefinition) (renames qs : List ColumnRename) :
    List Statement :=
  qs.flatMap (renameStatements old) ++
    (new.flatMap (addStatements old renames) ++ new.flatMap (modifyStatements old renames))

theorem keepingStatements_append (ps qs : List ColumnRename) :
    keepingStatements old new renames (ps ++ qs) =
      ps.flatMap (renameStatements old) ++ keepingStatements old new renames qs := by
  rw [keepingStatements, keepingStatements, flatMap_append, append_assoc]

/-- A column that has got its name keeps it to the end, and its cells unless its type changes. -/
theorem Engine.run_rest {qs : List ColumnRename} {source : String}
    (h : E.run T (keepingStatements old new renames qs) = .ok T')
    (hmem : (name, cells) ∈ T) (hqs : ∀ q ∈ qs, q.fromName = name → q.fromName = q.toName)
    (hsource : ∀ p ∈ renames, p.toName = name → p.fromName = source)
    (hname : name = source ∨ ∃ p ∈ renames, p.toName = name) :
    ∃ cells', (name, cells') ∈ T' ∧ (SameType old new source name → cells' = cells) := by
  have hrest : ∀ s ∈ keepingStatements old new renames qs,
      s.takes name = false ∧ (s.converts name = true → ¬ SameType old new source name) := by
    intro s hs
    simp only [keepingStatements, mem_append, mem_flatMap] at hs
    obtain ⟨q, hq, hs⟩ | ⟨n, -, hs⟩ | ⟨n, hn, hs⟩ := hs
    · obtain ⟨htakes, hconverts⟩ := renameStatements_spares hs (hqs q hq)
      exact ⟨htakes, fun h => absurd h (Bool.eq_false_iff.mp hconverts)⟩
    · obtain ⟨htakes, hconverts⟩ := addStatements_spares hs
      exact ⟨htakes, fun h => absurd h (Bool.eq_false_iff.mp hconverts)⟩
    · obtain ⟨htakes, hconverts⟩ := modifyStatements_takes hs
      refine ⟨htakes, fun h hsame => ?_⟩
      obtain ⟨hn', o, ho, hne⟩ := hconverts h
      obtain ⟨hold, hoName⟩ := oldMatch_eq hsource hname ho
      exact hne (hsame n hn hn' o hold hoName)
  obtain ⟨cells', hmem', heq⟩ := run_keeps h hmem fun s hs => (hrest s hs).1
  exact ⟨cells', hmem', fun hsame => heq fun s hs =>
    Bool.eq_false_iff.mpr fun hconverts => (hrest s hs).2 hconverts hsame⟩

/-- A column that is renamed is found under the target, with its cells unless its type changes. -/
theorem Accepted.run_renamed (h : Accepted old renames) (hr : r ∈ renames)
    (hne : r.fromName ≠ r.toName)
    (hrun : E.run T (keepingStatements old new renames renames) = .ok T')
    (hmem : (r.fromName, cells) ∈ T) :
    ∃ cells', (r.toName, cells') ∈ T' ∧
      (SameType old new r.fromName r.toName → cells' = cells) := by
  obtain ⟨before, after, hsplit⟩ := append_of_mem hr
  obtain ⟨-, hafter, hbefore⟩ := pairwise_append.mp (hsplit ▸ h.distinct)
  -- the renames before it, its own statements, and the rest
  have hstatements : keepingStatements old new renames renames =
      before.flatMap (renameStatements old) ++
        (renameStatements old r ++ keepingStatements old new renames after) := by
    calc keepingStatements old new renames renames
        = keepingStatements old new renames (before ++ ([r] ++ after)) := congrArg _ hsplit
      _ = _ := by rw [keepingStatements_append, keepingStatements_append, flatMap_singleton]
  rw [hstatements] at hrun
  obtain ⟨T₁, hrun₁, hrun⟩ := Engine.run_append hrun
  obtain ⟨T₂, hrun₂, hrun₃⟩ := Engine.run_append hrun
  have hmem₁ : (r.fromName, cells) ∈ T₁ := Engine.run_spares hrun₁ hmem fun s hs => by
    obtain ⟨p, hp, hs⟩ := mem_flatMap.mp hs
    exact renameStatements_spares hs fun heq => absurd heq (hbefore p hp r mem_cons_self).1
  have hmem₂ := Engine.run_renameStatements hrun₂ hne hmem₁
  refine Engine.run_rest hrun₃ hmem₂ (fun q hq heq => ?_) (fun p hp hto => ?_) (.inr ⟨r, hr, rfl⟩)
  · -- a rename from its target would need the target to exist
    by_contra hne'
    have hexists := h.source q (hsplit ▸ mem_append_right _ (mem_cons_of_mem _ hq)) hne'
    rw [heq, h.fresh r hr hne] at hexists
    cases hexists
  · rw [hsplit, mem_append, mem_cons] at hp
    obtain hp | rfl | hp := hp
    · exact absurd hto (hbefore p hp r mem_cons_self).2
    · rfl
    · exact absurd hto.symm ((pairwise_cons.mp hafter).1 p hp).2

/-- Every old column is found under its name, or under the target of a rename from it. -/
theorem Accepted.run_keeps (h : Accepted old renames) (hc : c ∈ old)
    (hrun : E.run T (keepingStatements old new renames renames) = .ok T')
    (hmem : (c.name, cells) ∈ T) :
    ∃ name cells', (name, cells') ∈ T' ∧
      (name = c.name ∨ ∃ r ∈ renames, r.fromName = c.name ∧ r.toName = name) ∧
      (SameType old new c.name name → cells' = cells) := by
  by_cases hrename : ∃ r ∈ renames, r.fromName = c.name ∧ r.fromName ≠ r.toName
  · obtain ⟨r, hr, hfrom, hne⟩ := hrename
    rw [← hfrom] at hmem ⊢
    obtain ⟨cells', hmem', hsame⟩ := h.run_renamed hr hne hrun hmem
    exact ⟨r.toName, cells', hmem', .inr ⟨r, hr, rfl, rfl⟩, hsame⟩
  · have hqs : ∀ q ∈ renames, q.fromName = c.name → q.fromName = q.toName := fun q hq hfrom =>
      by_contra fun hne => hrename ⟨q, hq, hfrom, hne⟩
    have hsource : ∀ p ∈ renames, p.toName = c.name → p.fromName = c.name := by
      intro p hp hto
      by_contra hne
      have hfresh := h.fresh p hp fun heq => hne (heq.trans hto)
      rw [hto, hasColumn_iff.mpr ⟨c, hc, rfl⟩] at hfresh
      cases hfresh
    obtain ⟨cells', hmem', hsame⟩ := Engine.run_rest hrun hmem hqs hsource (.inl rfl)
    exact ⟨c.name, cells', hmem', .inl rfl, hsame⟩

theorem not_mem_of_spares (h : ∀ s ∈ ss, s.takes name = false) : .dropColumn name ∉ ss := by
  intro hmem
  have htakes := h _ hmem
  rw [Statement.takes, decide_eq_false_iff_not] at htakes
  exact htakes rfl

/-- The statements about columns of a request that may not drop any. -/
theorem columnStatements_keep (hallow : request.allowDestructive = false)
    (hok : columnStatements existing request = .ok ss) :
    (∀ dropped, .dropColumn dropped ∉ ss) ∧ ∀ {T T' : Columns κ}, E.run T ss = .ok T' →
      ∀ c ∈ existing.columns, ∀ cells, (c.name, cells) ∈ T → ∃ name cells', (name, cells') ∈ T' ∧
        (name = c.name ∨ ∃ r ∈ request.columnRenames, r.fromName = c.name ∧ r.toName = name) ∧
        (SameType existing.columns (request.columns.getD []) c.name name → cells' = cells) := by
  cases hnew : request.columns with
  | none =>
    simp only [columnStatements, hnew, Except.ok.injEq] at hok
    subst hok
    refine ⟨fun _ => not_mem_nil, fun hrun c _ cells hmem => ?_⟩
    obtain rfl := Except.ok.inj hrun
    exact ⟨c.name, cells, hmem, .inl rfl, fun _ => rfl⟩
  | some new =>
    obtain ⟨haccepted, rfl, hkept⟩ := accepted_of_ok hnew hok
    have hdrops : existing.columns.flatMap (dropStatements new request.columnRenames) = [] :=
      flatMap_eq_nil_iff.mpr fun c hc => by simp [dropStatements, hkept hallow c hc]
    rw [generateAlterTableWithRenames, hdrops, append_nil, append_assoc]
    refine ⟨fun dropped hin => ?_, fun hrun c hc cells hmem => haccepted.run_keeps hc hrun hmem⟩
    simp only [mem_append, mem_flatMap] at hin
    obtain ⟨r, -, hs⟩ | ⟨n, -, hs⟩ | ⟨n, -, hs⟩ := hin
    · obtain ⟨-, h | ⟨index, source, h⟩⟩ := mem_renameStatements hs <;> cases h
    · exact not_mem_of_spares (fun s hs => (addStatements_spares hs).1) hs
    · exact not_mem_of_spares (fun s hs => (modifyStatements_takes hs).1) hs

theorem Engine.updateSchema_eq_ok (h : E.updateSchema T existing request = .ok T') :
    ∃ ss, columnStatements existing request = .ok ss ∧
      E.run T (ss ++ indexStatements existing request) = .ok T' := by
  unfold Engine.updateSchema at h
  cases hok : columnStatements existing request with
  | error e =>
    rw [hok] at h
    cases h
  | ok ss =>
    rw [hok] at h
    cases hrun : E.run T (ss ++ indexStatements existing request) with
    | error e =>
      dsimp only [bind, Except.bind] at h
      rw [hrun] at h
      cases h
    | ok T₁ =>
      dsimp only [bind, Except.bind] at h
      rw [hrun] at h
      dsimp only at h
      -- the table is verified before it is committed
      split at h
      · cases h
      · exact ⟨ss, rfl, hrun.trans h⟩

/-- **No column is dropped without permission.** If an update succeeds that does not allow it, its
statements drop no column, and every column is found afterwards under its name or the target of a
rename from it, with its cells unless the new list gives it another type. -/
theorem no_column_dropped (hallow : request.allowDestructive = false)
    (h : E.updateSchema T existing request = .ok T') :
    (∃ ss, columnStatements existing request = .ok ss ∧
      ∀ dropped, .dropColumn dropped ∉ ss ++ indexStatements existing request) ∧
    ∀ c ∈ existing.columns, ∀ cells, (c.name, cells) ∈ T → ∃ name cells', (name, cells') ∈ T' ∧
      (name = c.name ∨ ∃ r ∈ request.columnRenames, r.fromName = c.name ∧ r.toName = name) ∧
      (SameType existing.columns (request.columns.getD []) c.name name → cells' = cells) := by
  obtain ⟨ss, hok, hrun⟩ := Engine.updateSchema_eq_ok h
  obtain ⟨hdrops, hkeeps⟩ := columnStatements_keep (E := E) hallow hok
  obtain ⟨T₁, hcolumns, hindexes⟩ := Engine.run_append hrun
  refine ⟨⟨ss, hok, fun dropped hin => ?_⟩, fun c hc cells hmem => ?_⟩
  · rcases mem_append.mp hin with hin | hin
    · exact hdrops dropped hin
    · exact not_mem_of_spares (fun s hs => (indexStatements_spares hs).1) hin
  · obtain ⟨name, cells', hmem', hname, hsame⟩ := hkeeps hcolumns c hc cells hmem
    have hkept := Engine.run_spares hindexes hmem' fun s hs => indexStatements_spares hs
    exact ⟨name, cells', hkept, hname, hsame⟩

/-- Postgres for a table with one row of amounts, counted in ten-thousandths. An integer is rounded
to, as the assignment cast from `NUMERIC` does. -/
def amounts : Engine ℕ where
  refuses _ _ := false
  added _ := 0
  convert
    | .integer, amount => (amount + 5000) / 10000 * 10000
    | _, amount => amount
  stored T := T.map Prod.fst

def amountColumn (name : String) (columnType : ColumnType) : ColumnDefinition :=
  ⟨name, columnType, true, false, none, .none⟩

def priceSchema : Schema := ⟨"book", "book", [amountColumn "price" (.decimal 19 4)], none⟩

def renamePrice : UpdateSchemaRequest :=
  ⟨some [amountColumn "cost" (.decimal 19 4), amountColumn "weight" (.decimal 19 4)], none,
    [⟨"price", "cost"⟩], false⟩

/-- A column that is renamed while another one is added keeps its cells. -/
theorem no_column_dropped_renamed :
    amounts.updateSchema [("price", 15000)] priceSchema renamePrice =
        .ok [("cost", 15000), ("weight", 0)] ∧
      ∃ name cells', (name, cells') ∈ [("cost", 15000), ("weight", 0)] ∧
        (name = "price" ∨
          ∃ r ∈ renamePrice.columnRenames, r.fromName = "price" ∧ r.toName = name) ∧
        (SameType priceSchema.columns (renamePrice.columns.getD []) "price" name →
          cells' = 15000) := by
  have hok : amounts.updateSchema [("price", 15000)] priceSchema renamePrice =
      .ok [("cost", 15000), ("weight", 0)] := by decide +kernel
  exact ⟨hok, (no_column_dropped rfl hok).2 _ (mem_singleton.mpr rfl) _ (mem_singleton.mpr rfl)⟩

/-- The cells of a column that gets another type are converted: the stored amount is not there under
any name afterwards. -/
theorem amount_rounded : ∃ T',
    amounts.updateSchema [("price", 15000)] priceSchema
        ⟨some [amountColumn "price" .integer], none, [], false⟩ = .ok T' ∧
      ∀ name, (name, 15000) ∉ T' := by
  refine ⟨[("price", 20000)], by decide +kernel, fun name hmem => ?_⟩
  cases mem_singleton.mp hmem

end Runtara.ObjectStore
