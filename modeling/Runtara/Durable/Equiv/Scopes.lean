/-
  The variables that keys are made from, in every scope of a run.

  `Marks` says which prefix, workflow id and loop indices some variables have. They pass through
  `build_source` as they are, if the data brings no other prefix and they are too small to be
  interned (`marks_build`); every frame changes them as the address says (`marks_split` and the
  lemmas after it). So the source of a scope has the marks of its frames (`scopeMarks`, in the next
  module).
-/
import Runtara.Durable.Equiv.Texts
import Runtara.Interning.Equiv.Arena

namespace Runtara

open Json Text List

/-- A `u64` is printed in decimal. -/
class DecimalU64 (ν : Type) [SerdeNumber ν] : Prop extends LawfulU64 ν where
  print_ofU64 : ∀ n : UInt64, Json.Number.print (SerdeNumber.ofU64 n : ν) = Nat.toDigits 10 n.toNat

instance : DecimalU64 ℕ where
  print_ofU64 _ := rfl

/-! ### Maps -/

variable {k' : String}

section Maps

variable {ν : Type} {k : String} {extra : Entries ν}

theorem lookupEntry_foldl_insert (h : ∀ e ∈ extra, e.1 ≠ k) (es : Entries ν) :
    lookupEntry k (extra.foldl (fun m e => insertEntry e.1 e.2 m) es) = lookupEntry k es := by
  induction extra generalizing es with
  | nil => rfl
  | cons e extra ih =>
    rw [forall_mem_cons] at h
    rw [foldl_cons, ih h.2, lookupEntry_insertEntry_ne (Ne.symm h.1)]

theorem lookupEntry_insertAbsent (h : k ≠ k') (v : Value ν)
    (es : Entries ν) : lookupEntry k (insertAbsent k' v es) = lookupEntry k es := by
  unfold insertAbsent
  split
  · rfl
  · exact lookupEntry_insertEntry_ne h v es

theorem lookupEntry_foldl_insertAbsent
    (h : ∀ e ∈ extra, e.1 ≠ k) (f : Value ν → Value ν) (es : Entries ν) :
    lookupEntry k (extra.foldl (fun m e => insertAbsent e.1 (f e.2) m) es) = lookupEntry k es := by
  induction extra generalizing es with
  | nil => rfl
  | cons e extra ih =>
    rw [forall_mem_cons] at h
    rw [foldl_cons, ih h.2, lookupEntry_insertAbsent (Ne.symm h.1)]

theorem lookupEntry_restoreEntry (h : k ≠ k') (v : Option (Value ν))
    (es : Entries ν) : lookupEntry k (restoreEntry k' v es) = lookupEntry k es := by
  cases v with
  | none => exact lookupEntry_removeEntry h es
  | some v => exact lookupEntry_insertEntry_ne h v es

theorem lookupEntry_passOn (h : k ≠ k') (v : Option (Value ν))
    (es : Entries ν) : lookupEntry k (passOn k' v es) = lookupEntry k es := by
  cases v with
  | none => rfl
  | some v => exact lookupEntry_insertEntry_ne h v es

theorem lookupEntry_insertScopeIds (h : k ≠ "_scope_id") (h' : k ≠ "_parent_scope_id")
    (stepId : StepId) (index : UInt32) (es : Entries ν) :
    lookupEntry k (insertScopeIds stepId index es) = lookupEntry k es := by
  unfold insertScopeIds
  rw [lookupEntry_insertEntry_ne h, lookupEntry_insertEntry_ne h']

theorem lookupEntry_authoredVariables {extra : Option (Value ν)} (es : Entries ν)
    (h : ∀ authored, extra = some (.object authored) → lookupEntry k authored = none) :
    lookupEntry k (authoredVariables extra es) = lookupEntry k es := by
  unfold authoredVariables
  split
  · next authored => exact lookupEntry_foldl_insert (lookupEntry_eq_none.mp (h authored rfl)) es
  · rfl

theorem lookupEntry_mergeRuntimeVariables {k : String} {runtimeVars es : Entries ν}
    (h : overridable k = false ∨ lookupEntry k runtimeVars = none) :
    lookupEntry k (mergeRuntimeVariables runtimeVars es) = lookupEntry k es := by
  refine lookupEntry_foldl_insert (fun e he hk => ?_) es
  obtain ⟨hmem, hover⟩ := mem_filter.mp he
  rcases h with h | h
  · rw [hk, h] at hover
    cases hover
  · exact lookupEntry_eq_none.mp h e hmem hk

theorem lookupEntry_previousOutputs [NumberOps ν] (h : k ≠ "_previousOutputs") (outputs : Value ν)
    (es : Entries ν) :
    lookupEntry k (if Value.isNull outputs then removeEntry "_previousOutputs" es
      else insertEntry "_previousOutputs" outputs (removeEntry "_previousOutputs" es))
      = lookupEntry k es := by
  split
  · exact lookupEntry_removeEntry h es
  · rw [lookupEntry_insertEntry_ne h, lookupEntry_removeEntry h]

theorem lookupEntry_childDefaults (h : k.toList.head? = some '_') (childVariables : Value ν)
    (es : Entries ν) :
    lookupEntry k (childDefaults es childVariables) = lookupEntry k es := by
  unfold childDefaults
  split
  · refine lookupEntry_foldl_insertAbsent (fun e he => ?_) declaredValue es
    have hname := (mem_filter.mp he).2
    rintro rfl
    simp [h] at hname
  · rfl

theorem mergeRuntimeVariables_prefix (pre : String) (es : Entries ν) :
    mergeRuntimeVariables [("_cache_key_prefix", .string pre)] es
      = insertEntry "_cache_key_prefix" (.string pre) es := by
  have hover : overridable "_cache_key_prefix" = true := by decide
  simp [mergeRuntimeVariables, hover]

end Maps

variable (index : UInt32) (site : String) {hash : String → UInt64} {env : ProcessEnv}

section Scopes

variable {ν : Type} [NumberOps ν] {pre wf : String} {indices : List UInt32} {source : Value ν}

/-- The variables have the given prefix, workflow id and loop indices. -/
structure Marks (pre wf : String) (indices : List UInt32) (es : Entries ν) : Prop where
  pre : lookupEntry "_cache_key_prefix" es = if pre = "" then none else some (.string pre)
  workflow : lookupEntry "_workflow_id" es = some (.string wf)
  indices : lookupEntry "_loop_indices" es
    = if indices = [] then none else some (.array (indices.map indexValue))

def markKeys : List String := ["_cache_key_prefix", "_workflow_id", "_loop_indices"]

/-- Variables that agree on the keys of the marks have the same marks. -/
theorem Marks.congr {es es' : Entries ν} (h : Marks pre wf indices es)
    (hsame : ∀ k ∈ markKeys, lookupEntry k es' = lookupEntry k es) :
    Marks pre wf indices es' where
  pre := (hsame _ (by decide)).trans h.pre
  workflow := (hsame _ (by decide)).trans h.workflow
  indices := (hsame _ (by decide)).trans h.indices

/-! ### Building the source -/

variable {k : String} {es : Entries ν}

theorem lookupEntry_internScopeEntries (hash : String → UInt64) (a : Arena)
    (h : ∀ v, lookupEntry k es = some v → estimateJsonSize v < wfrefThresholdBytes) :
    lookupEntry k (a.internScopeEntries hash es).1 = lookupEntry k es := by
  induction es generalizing a with
  | nil => rfl
  | cons e es ih =>
    obtain ⟨k', v⟩ := e
    rw [Arena.internScopeEntries]
    dsimp only
    unfold lookupEntry at ih h ⊢
    by_cases hk : k' = k
    · rw [find?_cons_of_pos (by simpa using hk)] at h ⊢
      rw [find?_cons_of_pos (by simpa using hk)]
      have hsmall := h v rfl
      rw [Arena.internIfLarge, if_pos (by simp [hsmall])]
    · rw [find?_cons_of_neg (by simpa using hk)] at h ⊢
      rw [find?_cons_of_neg (by simpa using hk), ih _ h]

/-- The data brings no prefix, or the one that is there already. -/
def HonestData (pre : String) (data : Value ν) : Prop :=
  ∀ runtimeVars, data.get "variables" = some (.object runtimeVars) →
    lookupEntry "_cache_key_prefix" runtimeVars = none
      ∨ pre ≠ "" ∧ runtimeVars = [("_cache_key_prefix", .string pre)]

/-- The marks are too small to be interned. -/
structure SmallMarks (pre wf : String) (indices : List UInt32) : Prop where
  pre : pre.utf8ByteSize + 2 < wfrefThresholdBytes
  workflow : wf.utf8ByteSize + 2 < wfrefThresholdBytes
  indices : 9 * indices.length + 2 < wfrefThresholdBytes

theorem estimateJsonSize_indices (indices : List UInt32) :
    estimateJsonSize (.array (indices.map indexValue) : Value ν) = 9 * indices.length + 2 := by
  have hitems : estimateItemsSize (indices.map (indexValue (ν := ν))) = 9 * indices.length := by
    induction indices with
    | nil => rfl
    | cons i indices ih =>
      rw [map_cons, estimateItemsSize, ih, length_cons, indexValue, estimateJsonSize]
      omega
  rw [estimateJsonSize, hitems, Nat.add_comm]

theorem Marks.small (h : Marks pre wf indices es) (hsmall : SmallMarks pre wf indices) :
    ∀ k ∈ markKeys, ∀ v, lookupEntry k es = some v → estimateJsonSize v < wfrefThresholdBytes := by
  intro k hk v hv
  simp only [markKeys, mem_cons, not_mem_nil, or_false] at hk
  rcases hk with rfl | rfl | rfl
  · rw [h.pre] at hv
    split at hv
    · cases hv
    · rw [← Option.some.inj hv, estimateJsonSize]
      exact hsmall.pre
  · rw [h.workflow] at hv
    rw [← Option.some.inj hv, estimateJsonSize]
    exact hsmall.workflow
  · rw [h.indices] at hv
    split at hv
    · cases hv
    · rw [← Option.some.inj hv, estimateJsonSize_indices]
      exact hsmall.indices

variable {vars : Entries ν}

/-- The variables of a source are those that were passed, with the identity variables, interned. -/
theorem sourceVariables_scopeSource (env : ProcessEnv) (hash : String → UInt64) (a : Arena)
    (data steps : Value ν) {data' : Value ν}
    {vars' : Entries ν} (h : unwrapEnvelope data (.object vars) = (data', .object vars')) :
    ∃ a' : Arena, sourceVariables (a.scopeSource env hash data (.object vars) steps)
      = (a'.internScopeEntries hash
          (insertAbsent "_tenant_id" (.string (env.tenantId.getD "unknown"))
            (insertAbsent "_instance_id" (.string (env.instanceId.getD "unknown")) vars'))).1 := by
  refine ⟨(a.internContainer hash data').2, ?_⟩
  rw [sourceVariables, Arena.scopeSource, h]
  dsimp only [injectRuntimeIdentityVariables, Arena.internContainer]
  rw [get_variables_sourceEnvelope]

variable {data steps data' : Value ν}

/-- A small variable passes through `build_source`, unless it is an identity variable. -/
theorem lookupEntry_scopeSource {a : Arena} {vars vars' : Entries ν}
    (h : unwrapEnvelope data (.object vars) = (data', .object vars'))
    (hk : k ≠ "_tenant_id" ∧ k ≠ "_instance_id")
    (hsmall : ∀ v, lookupEntry k vars' = some v → estimateJsonSize v < wfrefThresholdBytes) :
    lookupEntry k (sourceVariables (a.scopeSource env hash data (.object vars) steps))
      = lookupEntry k vars' := by
  obtain ⟨a', ha'⟩ := sourceVariables_scopeSource env hash a data steps h
  have hidentity : lookupEntry k
      (insertAbsent "_tenant_id" (.string (env.tenantId.getD "unknown"))
        (insertAbsent "_instance_id" (.string (env.instanceId.getD "unknown")) vars'))
      = lookupEntry k vars' := by
    rw [lookupEntry_insertAbsent hk.1, lookupEntry_insertAbsent hk.2]
  rw [ha', lookupEntry_internScopeEntries hash a' (by rwa [hidentity]), hidentity]

omit [NumberOps ν] in
/-- An envelope in the data is merged into the variables. -/
theorem unwrapEnvelope_object (data : Value ν) (vars : Entries ν) :
    ∃ data' vars', unwrapEnvelope data (.object vars) = (data', .object vars') ∧
      (vars' = vars ∨ ∃ runtimeVars, data.get "variables" = some (.object runtimeVars) ∧
        vars' = mergeRuntimeVariables runtimeVars vars) := by
  unfold unwrapEnvelope
  cases data.get "data" with
  | none => exact ⟨data, vars, rfl, Or.inl rfl⟩
  | some inner =>
    cases data.get "variables" with
    | none => exact ⟨inner, vars, rfl, Or.inl rfl⟩
    | some runtime =>
      cases runtime with
      | object runtimeVars => exact ⟨inner, _, rfl, Or.inr ⟨runtimeVars, rfl, rfl⟩⟩
      | _ => exact ⟨inner, vars, rfl, Or.inl rfl⟩

/-- What the data cannot override passes through `build_source`. -/
theorem lookupEntry_build (r : DurableRun ν) (frames : List Frame) (data : Value ν)
    (hover : overridable k = false) (hk : k ≠ "_tenant_id" ∧ k ≠ "_instance_id")
    (hsmall : ∀ v, lookupEntry k vars = some v → estimateJsonSize v < wfrefThresholdBytes) :
    lookupEntry k (sourceVariables (r.build frames data vars)) = lookupEntry k vars := by
  obtain ⟨data', vars', hunwrap, hvars⟩ := unwrapEnvelope_object data vars
  have hsame : lookupEntry k vars' = lookupEntry k vars := by
    rcases hvars with rfl | ⟨runtimeVars, -, rfl⟩
    · rfl
    · exact lookupEntry_mergeRuntimeVariables (Or.inl hover)
  rw [DurableRun.build, lookupEntry_scopeSource hunwrap hk (by rwa [hsame]), hsame]

/-- Marks pass through `build_source`, if they are those of the variables with the envelope. -/
theorem marks_scopeSource {a : Arena} {vars vars' : Entries ν}
    (h : unwrapEnvelope data (.object vars) = (data', .object vars'))
    (hmarks : Marks pre wf indices vars') (hsmall : SmallMarks pre wf indices) :
    Marks pre wf indices (sourceVariables (a.scopeSource env hash data (.object vars) steps)) := by
  refine hmarks.congr fun k hk => lookupEntry_scopeSource h ?_ (hmarks.small hsmall k hk)
  simp only [markKeys, mem_cons, not_mem_nil, or_false] at hk
  rcases hk with rfl | rfl | rfl <;> decide

theorem marks_mergeRuntimeVariables {data : Value ν} {vars runtimeVars : Entries ν}
    (hmarks : Marks pre wf indices vars) (hdata : HonestData pre data)
    (hruntime : data.get "variables" = some (.object runtimeVars)) :
    Marks pre wf indices (mergeRuntimeVariables runtimeVars vars) where
  pre := by
    rcases hdata runtimeVars hruntime with hnone | ⟨hpre, rfl⟩
    · rw [lookupEntry_mergeRuntimeVariables (Or.inr hnone)]
      exact hmarks.pre
    · rw [if_neg hpre, mergeRuntimeVariables_prefix, lookupEntry_insertEntry_self]
  workflow := (lookupEntry_mergeRuntimeVariables (Or.inl (by decide))).trans hmarks.workflow
  indices := (lookupEntry_mergeRuntimeVariables (Or.inl (by decide))).trans hmarks.indices

/-- **Building the source** keeps the marks. -/
theorem marks_build (r : DurableRun ν) (frames : List Frame) {data : Value ν}
    (hmarks : Marks pre wf indices vars)
    (hdata : HonestData pre data) (hsmall : SmallMarks pre wf indices) :
    Marks pre wf indices (sourceVariables (r.build frames data vars)) := by
  obtain ⟨data', vars', hunwrap, rfl | ⟨runtimeVars, hruntime, rfl⟩⟩ :=
    unwrapEnvelope_object data vars
  · exact marks_scopeSource hunwrap hmarks hsmall
  · exact marks_scopeSource hunwrap (marks_mergeRuntimeVariables hmarks hdata hruntime) hsmall

/-! ### Reading the marks -/

section Read

variable (h : Marks pre wf indices (sourceVariables source))
include h

theorem Marks.cacheKeyPrefix_eq : cacheKeyPrefix source = pre := by
  rw [cacheKeyPrefix, h.pre]
  split
  · next hpre => exact hpre.symm
  · rfl

theorem Marks.workflowId_eq : workflowId source = wf := by
  rw [workflowId, h.workflow]
  rfl

theorem Marks.loopIndices_eq : loopIndices source = indices.map indexValue := by
  rw [loopIndices, h.indices]
  split
  · next hnil => rw [hnil]; rfl
  · rfl

theorem Marks.pushLoopIndex_eq :
    pushLoopIndex source index = .array ((indices ++ [index]).map indexValue) := by
  rw [pushLoopIndex, h.loopIndices_eq, map_append, map_singleton]

end Read

theorem toUInt64_toNat (n : UInt32) : n.toUInt64.toNat = n.toNat := by
  simp

theorem print_indexValue [DecimalU64 ν] : (indexValue index : Value ν).print = digits index := by
  rw [indexValue, Value.print, DecimalU64.print_ofU64, toUInt64_toNat]
  rfl

theorem asU64_indexValue [DecimalU64 ν] :
    Value.asU64 (indexValue index : Value ν) = some index.toUInt64 :=
  LawfulU64.asU64_ofU64 _

theorem Marks.indicesSuffix_toList [DecimalU64 ν]
    (h : Marks pre wf indices (sourceVariables source)) (opening : String) :
    (indicesSuffix opening source).toList
      = if indices = [] then [] else opening.toList ++ bracketed indices := by
  have htexts : ((indices.map (indexValue (ν := ν))).map Value.text).map String.toList
      = indices.map digits := by
    rw [map_map, map_map]
    refine map_congr_left fun i _ => ?_
    show (String.ofList (indexValue i : Value ν).print).toList = digits i
    rw [String.toList_ofList, print_indexValue]
  rw [indicesSuffix, h.loopIndices_eq]
  by_cases hnil : indices = []
  · rw [hnil]
    rfl
  · have hmap : ¬((indices.map (indexValue (ν := ν))).isEmpty = true) := by simpa using hnil
    rw [if_neg hmap, if_neg hnil]
    simp only [String.toList_append, String.toList_intercalate, htexts]
    simp [bracketed]

theorem intercalate_ne_nil {c : Char} {indices : List UInt32} (h : indices ≠ []) :
    [c].intercalate (indices.map digits) ≠ [] := by
  obtain ⟨i, indices, rfl⟩ := exists_cons_of_ne_nil h
  intro hnil
  cases indices with
  | nil => exact digits_ne_nil i (by simpa [List.intercalate] using hnil)
  | cons j indices =>
    rw [map_cons, map_cons, intercalate_cons_cons, append_assoc] at hnil
    exact digits_ne_nil i (append_eq_nil_iff.mp hnil).1

theorem filterMap_asU64 [DecimalU64 ν] (indices : List UInt32) :
    (indices.map (indexValue (ν := ν))).filterMap Value.asU64 = indices.map UInt32.toUInt64 := by
  induction indices with
  | nil => rfl
  | cons i indices ih =>
    rw [map_cons, filterMap_cons, asU64_indexValue, map_cons, ih]

theorem Marks.joinedIndicesSuffix_toList [DecimalU64 ν]
    (h : Marks pre wf indices (sourceVariables source)) (opening : String) :
    (joinedIndicesSuffix opening source).toList
      = if indices = [] then [] else opening.toList ++ underscored indices := by
  have htexts : ((indices.map UInt32.toUInt64).map fun index => toString index.toNat).map
      String.toList = indices.map digits := by
    rw [map_map, map_map]
    refine map_congr_left fun i _ => ?_
    show (Nat.repr i.toUInt64.toNat).toList = digits i
    rw [toUInt64_toNat, Nat.toList_repr]
    rfl
  have hjoined : ("_".intercalate
      ((indices.map UInt32.toUInt64).map fun index => toString index.toNat)).toList
      = underscored indices := by
    rw [String.toList_intercalate, htexts]
    rfl
  rw [joinedIndicesSuffix, h.loopIndices_eq, filterMap_asU64]
  by_cases hnil : indices = []
  · rw [hnil]
    rfl
  · have hne : ¬"_".intercalate
        ((indices.map UInt32.toUInt64).map fun index => toString index.toNat) = "" := by
      intro hempty
      rw [hempty] at hjoined
      exact intercalate_ne_nil hnil hjoined.symm
    rw [if_neg hne, if_neg hnil, String.toList_append, hjoined]

/-! ### Frames -/

variable {extra : Option (Value ν)} {declared : Entries ν}

section Frames

/-- The variables of a loop do not set what keys are made from. The loop indices are set again
after them. -/
def HonestExtra (extra : Option (Value ν)) : Prop :=
  ∀ authored, extra = some (.object authored) →
    lookupEntry "_cache_key_prefix" authored = none ∧ lookupEntry "_workflow_id" authored = none

omit [NumberOps ν] in
theorem HonestExtra.lookupEntry (h : HonestExtra extra)
    (hk : k ∈ ["_cache_key_prefix", "_workflow_id"]) (es : Entries ν) :
    lookupEntry k (authoredVariables extra es) = Json.lookupEntry k es := by
  refine lookupEntry_authoredVariables es fun authored hextra => ?_
  simp only [mem_cons, not_mem_nil, or_false] at hk
  rcases hk with rfl | rfl
  · exact (h authored hextra).1
  · exact (h authored hextra).2

section

variable (h : Marks pre wf indices (sourceVariables source))

include h

theorem Marks.push (hfixed : ∀ k ∈ ["_cache_key_prefix", "_workflow_id"],
      lookupEntry k es = lookupEntry k (sourceVariables source))
    (hindices : lookupEntry "_loop_indices" es = some (pushLoopIndex source index)) :
    Marks pre wf (indices ++ [index]) es where
  pre := (hfixed _ (by decide)).trans h.pre
  workflow := (hfixed _ (by decide)).trans h.workflow
  indices := by
    rw [hindices, h.pushLoopIndex_eq, if_neg (by simp)]

theorem marks_split
    (hextra : HonestExtra extra) (stepId : StepId) (item : Value ν) (index : UInt32) :
    Marks pre wf (indices ++ [index]) (splitIterationVariables stepId extra source item index) := by
  refine h.push index (fun k hk => ?_) ?_
  · have hauthored := hextra.lookupEntry hk (sourceVariables source)
    simp only [mem_cons, not_mem_nil, or_false] at hk
    rw [splitIterationVariables, lookupEntry_insertScopeIds, lookupEntry_insertEntry_ne,
      lookupEntry_insertEntry_ne, lookupEntry_insertEntry_ne, lookupEntry_restoreEntry, hauthored]
    all_goals rcases hk with rfl | rfl <;> decide
  · rw [splitIterationVariables, lookupEntry_insertScopeIds (by decide) (by decide),
      lookupEntry_insertEntry_ne (by decide), lookupEntry_insertEntry_ne (by decide),
      lookupEntry_insertEntry_self]

theorem marks_while
    (hextra : HonestExtra extra) (stepId : StepId) (outputs : Value ν) (index : UInt32) :
    Marks pre wf (indices ++ [index])
      (whileIterationVariables stepId extra source outputs index) := by
  refine h.push index (fun k hk => ?_) ?_
  · have hauthored := hextra.lookupEntry hk (sourceVariables source)
    simp only [mem_cons, not_mem_nil, or_false] at hk
    rw [whileIterationVariables, lookupEntry_insertScopeIds, lookupEntry_insertEntry_ne,
      lookupEntry_previousOutputs, lookupEntry_insertEntry_ne, lookupEntry_insertEntry_ne,
      lookupEntry_restoreEntry, hauthored]
    all_goals rcases hk with rfl | rfl <;> decide
  · rw [whileIterationVariables, lookupEntry_insertScopeIds (by decide) (by decide),
      lookupEntry_insertEntry_ne (by decide), lookupEntry_previousOutputs (by decide),
      lookupEntry_insertEntry_ne (by decide), lookupEntry_insertEntry_self]

theorem marks_onWait (instanceId signal : String) :
    Marks pre wf indices (waitOnWaitVariables instanceId signal source) := by
  refine h.congr fun k hk => ?_
  simp only [markKeys, mem_cons, not_mem_nil, or_false] at hk
  rw [waitOnWaitVariables, lookupEntry_insertEntry_ne, lookupEntry_insertEntry_ne]
  all_goals rcases hk with rfl | rfl | rfl <;> decide

end

theorem childCachePrefix_ne (source : Value ν) : childCachePrefix site source ≠ "" := by
  intro h
  have hlist := congrArg String.toList h
  unfold childCachePrefix at hlist
  split at hlist <;> simp at hlist

theorem marks_embed (h : Marks pre wf indices (sourceVariables source)) (stepId : StepId)
    (childVariables : Value ν) :
    Marks (childCachePrefix stepId source) wf []
      (embedChildVariables stepId childVariables source) := by
  constructor
  · rw [embedChildVariables, lookupEntry_childDefaults (by decide), lookupEntry_insertEntry_self,
      if_neg (childCachePrefix_ne stepId source)]
  · rw [embedChildVariables, lookupEntry_childDefaults (by decide),
      lookupEntry_insertEntry_ne (by decide),
      lookupEntry_passOn (by decide), lookupEntry_passOn (by decide), h.workflow]
    exact lookupEntry_insertEntry_self _ _ _
  · rw [embedChildVariables, lookupEntry_childDefaults (by decide),
      lookupEntry_insertEntry_ne (by decide),
      lookupEntry_passOn (by decide), lookupEntry_passOn (by decide),
      lookupEntry_passOn (by decide), lookupEntry_insertEntry_ne (by decide)]
    rfl

/-- The declared variables of an artifact do not set what keys are made from. -/
def HonestDeclared (declared : Entries ν) : Prop :=
  lookupEntry "_cache_key_prefix" declared = none ∧ lookupEntry "_loop_indices" declared = none

theorem marks_directCoreVariables
    (h : HonestDeclared declared) (wf : String) :
    Marks "" wf [] (directCoreVariables wf declared) where
  pre := by rw [directCoreVariables, lookupEntry_insertEntry_ne (by decide), h.1, if_pos rfl]
  workflow := by rw [directCoreVariables, lookupEntry_insertEntry_self]
  indices := by rw [directCoreVariables, lookupEntry_insertEntry_ne (by decide), h.2, if_pos rfl]

theorem agentScopeInput_eq (input source : Value ν) :
    agentScopeInput site input source = .object [("data", input),
      ("variables", .object [("_cache_key_prefix", .string (childCachePrefix site source))])] := by
  simp only [agentScopeInput, Value.obj, ofEntries, foldl_cons, foldl_nil, insertEntry]
  rw [if_neg (by decide), if_neg (by decide)]

/-- The envelope of a composed child brings the prefix of its site. -/
theorem marks_composed (r : DurableRun ν) (frames : List Frame)
    (h : HonestDeclared declared) (wf site : String) (input source : Value ν)
    (hsmall : SmallMarks (childCachePrefix site source) wf []) :
    Marks (childCachePrefix site source) wf [] (sourceVariables
      (r.build frames (agentScopeInput site input source) (directCoreVariables wf declared))) := by
  have hcore := marks_directCoreVariables h wf
  have hunwrap : unwrapEnvelope (agentScopeInput site input source)
      (.object (directCoreVariables wf declared)) = (input, .object (insertEntry "_cache_key_prefix"
        (.string (childCachePrefix site source)) (directCoreVariables wf declared))) := by
    rw [agentScopeInput_eq, ← mergeRuntimeVariables_prefix]
    rfl
  refine marks_scopeSource hunwrap ⟨?_, ?_, ?_⟩ hsmall
  · rw [lookupEntry_insertEntry_self, if_neg (childCachePrefix_ne site source)]
  · rw [lookupEntry_insertEntry_ne (by decide)]
    exact hcore.workflow
  · rw [lookupEntry_insertEntry_ne (by decide)]
    exact hcore.indices

theorem honestData_agentScopeInput (input source : Value ν) :
    HonestData (childCachePrefix site source) (agentScopeInput site input source) := by
  intro runtimeVars hruntime
  rw [agentScopeInput_eq] at hruntime
  refine Or.inr ⟨childCachePrefix_ne site source, ?_⟩
  cases hruntime
  rfl

end Frames

end Scopes

end Runtara
