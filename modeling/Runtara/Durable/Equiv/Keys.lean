/-
  The key of an execution is the text of its address.

  `Honest` is what this needs of a run: the data of no scope brings a prefix of its own, the
  variables of loops and the declared ones do not set what keys are made from, and the prefix stays
  below the size at which values are interned. Then the source of every scope has the marks of its
  frames (`scopeMarks`), and the builders make the text of the address (`key_toList`).
-/
import Runtara.Durable.Equiv.Scopes

namespace Runtara

open Json Text List

/-! ### Prefixes -/

/-- The prefix inside a chain of sites. -/
def prefixString (root : String) (sites : List (Site × List UInt32)) : String :=
  if sites = [] then "" else root ++ "::" ++ String.ofList (chain sites)

theorem prefixString_ne {root : String} {sites : List (Site × List UInt32)} (h : sites ≠ []) :
    prefixString root sites ≠ "" := by
  rw [prefixString, if_neg h]
  intro hempty
  have hlist := congrArg String.toList hempty
  simp at hlist

theorem chain_append {sites : List (Site × List UInt32)} (h : sites ≠ []) (s : Site × List UInt32) :
    chain (sites ++ [s]) = chain sites ++ '_' :: '_' :: siteText s := by
  rw [chain, map_append, map_singleton, joinDoubled_append (by simpa using h)
    (cons_ne_nil _ _), joinDoubled_singleton]
  rfl

theorem childCachePrefix_eq {ν : Type} [NumberOps ν] [DecimalU64 ν] {root wf site : String}
    {sites : List (Site × List UInt32)} {indices : List UInt32} {source : Value ν} {s : Site}
    (h : Marks (prefixString root sites) wf indices (sourceVariables source))
    (hwf : sites = [] → wf = root) (hsite : site.toList = s.text) :
    childCachePrefix site source = prefixString root (sites ++ [(s, indices)]) := by
  have htext : (site ++ indicesSuffix "" source).toList = siteText (s, indices) := by
    rw [String.toList_append, hsite, h.indicesSuffix_toList]
    rfl
  rw [childCachePrefix, h.cacheKeyPrefix_eq, h.workflowId_eq]
  conv_rhs => rw [prefixString, if_neg (by simp)]
  by_cases hsites : sites = []
  · rw [hsites, prefixString, if_pos rfl, if_pos rfl, hwf hsites, nil_append, chain,
      map_singleton, joinDoubled_singleton, ← htext, String.ofList_toList, String.append_assoc]
  · rw [if_neg (prefixString_ne hsites), prefixString, if_neg hsites, chain_append hsites]
    apply String.toList_inj.mp
    simp only [String.toList_append, String.toList_ofList] at htext ⊢
    rw [← htext]
    simp

/-! ### Sizes -/

/-- A bound on the bytes of the prefix: the names, and for every loop around a call an index of at
most ten digits. -/
def scopeBytes (root : String) (sites : List (Site × List UInt32)) : ℕ :=
  root.utf8ByteSize + (sites.map fun s => String.utf8Len s.1.text + 11 * s.2.length + 4).sum

theorem utf8Len_of_isDigit {cs : List Char} (h : ∀ c ∈ cs, c.isDigit = true) :
    String.utf8Len cs = cs.length := by
  induction cs with
  | nil => rfl
  | cons c cs ih =>
    rw [forall_mem_cons] at h
    have hsize : c.utf8Size = 1 := by
      have hdigit := h.1
      simp only [Char.isDigit, Bool.and_eq_true, decide_eq_true_eq] at hdigit
      exact if_pos (UInt32.le_trans hdigit.2 (by decide))
    rw [String.utf8Len_cons, ih h.2, hsize, length_cons]

theorem utf8Len_digits (n : UInt32) : String.utf8Len (digits n) ≤ 10 := by
  unfold digits
  rw [utf8Len_of_isDigit fun c hc => Nat.isDigit_of_mem_toDigits (by decide) (by decide) hc]
  refine (Nat.length_toDigits_le_iff (by decide) (by decide)).mpr (lt_trans n.toNat_lt ?_)
  decide

theorem utf8Len_joined (indices : List UInt32) :
    String.utf8Len ([','].intercalate (indices.map digits)) ≤ 11 * indices.length := by
  induction indices with
  | nil => exact le_refl 0
  | cons i indices ih =>
    have hi := utf8Len_digits i
    cases indices with
    | nil =>
      rw [map_singleton, intercalate_singleton, length_singleton]
      omega
    | cons j indices =>
      have hcomma : String.utf8Len [','] = 1 := by decide
      rw [map_cons, map_cons, intercalate_cons_cons, String.utf8Len_append,
        String.utf8Len_append, hcomma, length_cons]
      rw [map_cons] at ih
      omega

theorem utf8Len_siteText (s : Site × List UInt32) :
    String.utf8Len (siteText s) ≤ String.utf8Len s.1.text + 11 * s.2.length + 2 := by
  rw [siteText, String.utf8Len_append]
  split
  · rw [String.utf8Len_nil]
    omega
  · have hjoined := utf8Len_joined s.2
    have hopen : Char.utf8Size '[' = 1 := by decide
    have hclose : String.utf8Len [']'] = 1 := by decide
    rw [bracketed, String.utf8Len_cons, String.utf8Len_append, hopen, hclose]
    omega

theorem utf8Len_chain (sites : List (Site × List UInt32)) (h : sites ≠ []) :
    String.utf8Len (chain sites) + 2
      ≤ (sites.map fun s => String.utf8Len s.1.text + 11 * s.2.length + 4).sum := by
  induction sites with
  | nil => exact absurd rfl h
  | cons s sites ih =>
    have hs := utf8Len_siteText s
    rw [map_cons, sum_cons, chain, map_cons]
    by_cases hsites : sites = []
    · rw [hsites, map_nil, joinDoubled_singleton, map_nil, sum_nil]
      omega
    · have hunder : Char.utf8Size '_' = 1 := by decide
      have hrest := ih hsites
      rw [chain] at hrest
      rw [joinDoubled_cons _ (by simpa using hsites), String.utf8Len_append, String.utf8Len_cons,
        String.utf8Len_cons, hunder]
      omega

theorem utf8ByteSize_prefixString (root : String) (sites : List (Site × List UInt32)) :
    (prefixString root sites).utf8ByteSize ≤ scopeBytes root sites := by
  unfold prefixString scopeBytes
  split
  · exact Nat.zero_le _
  · next h =>
    have hchain := utf8Len_chain sites h
    have hcolons : "::".utf8ByteSize = 2 := by decide
    rw [String.utf8ByteSize_append, String.utf8ByteSize_append, hcolons,
      String.utf8ByteSize_ofList]
    omega

/-! ### Frames -/

variable {f : Frame}

theorem sitesOf_of_none (h : f.site? = none) (frames : List Frame) :
    sitesOf (f :: frames) = sitesOf frames := by
  rw [sitesOf, h, Option.map_none, Option.toList_none, append_nil]

theorem indicesOf_of_none (h : f.site? = none) (frames : List Frame) :
    indicesOf (f :: frames) = indicesOf frames ++ f.index?.toList := by
  rw [indicesOf, h, Option.isSome_none, if_neg Bool.false_ne_true]

theorem sitesOf_of_some {site : Site} (h : f.site? = some site) (frames : List Frame) :
    sitesOf (f :: frames) = sitesOf frames ++ [(site, indicesOf frames)] := by
  rw [sitesOf, h, Option.map_some, Option.toList_some]

theorem indicesOf_of_some {site : Site} (h : f.site? = some site)
    (frames : List Frame) : indicesOf (f :: frames) = [] := by
  rw [indicesOf, h, Option.isSome_some, if_pos rfl]

/-! ### Honest runs -/

/-- The innermost frame enters another artifact, with an input envelope. -/
def entersWithEnvelope : List Frame → Bool
  | .composed _ :: _ => true
  | .composedTool _ _ _ :: _ => true
  | _ => false

/-- The data has no envelope with a prefix in it. -/
def PlainData {ν : Type} (data : Value ν) : Prop :=
  ∀ runtimeVars, data.get "variables" = some (.object runtimeVars) →
    lookupEntry "_cache_key_prefix" runtimeVars = none

/-- What the run brings does not interfere with the keys of the program. -/
structure DurableRun.Honest {ν : Type} (P : Program) (r : DurableRun ν) : Prop where
  workflowId : ∀ frames p, Located P frames p → r.workflowId frames = p.artifact.workflowId
  data : ∀ frames, entersWithEnvelope frames = false → PlainData (r.data frames)
  extra : ∀ frames, HonestExtra (r.extra frames)
  declared : ∀ frames, frames = [] ∨ entersWithEnvelope frames = true →
    HonestDeclared (r.declared frames)
  breakpoint : ∀ (e : Execution) data, r.breakpointData e = some data →
    PlainData data ∧ entersWithEnvelope e.frames = false
  size : ∀ frames p, Located P frames p →
    scopeBytes P.root.workflowId (sitesOf frames) + 2 < wfrefThresholdBytes ∧
    p.artifact.workflowId.utf8ByteSize + 2 < wfrefThresholdBytes ∧
    9 * (indicesOf frames).length + 2 < wfrefThresholdBytes

theorem scopeParts_eq (root scopeId : String) (sites : List (Site × List UInt32))
    (indices : List UInt32) (operation : Operation) :
    (Address.mk sites indices operation scopeId).scopeParts root
      = if operation.rooted then if sites = [] then [root.toList] else [root.toList, chain sites]
        else if sites = [] then [] else [root.toList, chain sites] := by
  unfold Address.scopeParts
  cases operation.rooted <;> rfl

variable {p : Place} {operation : Operation}

section Runs

variable {ν : Type} [NumberOps ν] [DecimalU64 ν] {P : Program} {r : DurableRun ν}

omit [NumberOps ν] [DecimalU64 ν] in
theorem PlainData.honest {data : Value ν} (h : PlainData data) (pre : String) :
    HonestData pre data := fun runtimeVars hruntime => Or.inl (h runtimeVars hruntime)

omit [NumberOps ν] [DecimalU64 ν] in
theorem DurableRun.Honest.small (hr : r.Honest P) {frames : List Frame}
    (h : Located P frames p) :
    SmallMarks (prefixString P.root.workflowId (sitesOf frames)) p.artifact.workflowId
      (indicesOf frames) := by
  obtain ⟨hpre, hwf, hindices⟩ := hr.size frames p h
  have hbytes := utf8ByteSize_prefixString P.root.workflowId (sitesOf frames)
  exact ⟨by omega, hwf, hindices⟩

/-- Outside of children the run is in the root artifact. -/
theorem artifact_of_sites {frames : List Frame} (h : Located P frames p)
    (hsites : sitesOf frames = []) : p.artifact.workflowId = P.root.workflowId := by
  induction h with
  | root => rfl
  | @enter frames p f p' h henter ih =>
    rw [sitesOf, append_eq_nil_iff] at hsites
    cases henter with
    | split | whileLoop | onWait => exact ih hsites.1
    | _ => cases hsites.2

/-- The marks of a scope: those of its source, of the data and, unless it was entered with an
envelope, of its variables. -/
structure ScopeMarks (P : Program) (r : DurableRun ν) (frames : List Frame) (p : Place) : Prop where
  source : Marks (prefixString P.root.workflowId (sitesOf frames)) p.artifact.workflowId
    (indicesOf frames) (sourceVariables (r.source frames))
  data : HonestData (prefixString P.root.workflowId (sitesOf frames)) (r.scope frames).1
  variables' : entersWithEnvelope frames = false →
    Marks (prefixString P.root.workflowId (sitesOf frames)) p.artifact.workflowId
      (indicesOf frames) (r.scope frames).2

omit [DecimalU64 ν] in
/-- From the marks of the variables to those of the source. -/
theorem scopeMarks_of_variables (hr : r.Honest P) {frames : List Frame} (h : Located P frames p)
    (hdata : HonestData (prefixString P.root.workflowId (sitesOf frames)) (r.scope frames).1)
    (hvars : Marks (prefixString P.root.workflowId (sitesOf frames)) p.artifact.workflowId
      (indicesOf frames) (r.scope frames).2) : ScopeMarks P r frames p :=
  ⟨marks_build r frames hvars hdata (hr.small h), hdata, fun _ => hvars⟩

theorem toolSite_toList (aiStepId : StepId) (label : String) (call : UInt32) :
    (toolSite aiStepId label call).toList = (Site.tool aiStepId label call).text := by
  simp only [toolSite, String.toList_append, Site.text]
  show _ ++ (Nat.repr call.toNat).toList = _
  rw [Nat.toList_repr]
  simp [digits]

omit [DecimalU64 ν] in
/-- A composed child gets the prefix of its site in its input. -/
theorem scopeMarks_composed (hr : r.Honest P) {frames : List Frame} {s : Site}
    {artifact : Artifact} (h : Located P (f :: frames) (.ofArtifact artifact))
    (hsite : f.site? = some s) (hroot : entersWithEnvelope (f :: frames) = true) {site : String}
    (hpre : childCachePrefix site (r.source frames)
      = prefixString P.root.workflowId (sitesOf frames ++ [(s, indicesOf frames)]))
    (hscope : r.scope (f :: frames)
      = (agentScopeInput site (r.data (f :: frames)) (r.source frames),
        directCoreVariables (r.workflowId (f :: frames)) (r.declared (f :: frames)))) :
    ScopeMarks P r (f :: frames) (.ofArtifact artifact) := by
  have hsmall := hr.small h
  rw [sitesOf_of_some hsite, indicesOf_of_some hsite, ← hpre] at hsmall
  refine ⟨?_, ?_, fun hnot => ?_⟩
  · rw [DurableRun.source, hscope, hr.workflowId _ _ h, sitesOf_of_some hsite,
      indicesOf_of_some hsite, ← hpre]
    exact marks_composed r _ (hr.declared (f :: frames) (Or.inr hroot)) _ _ _ _ hsmall
  · rw [hscope, sitesOf_of_some hsite, ← hpre]
    exact honestData_agentScopeInput _ _ _
  · rw [hroot] at hnot
    cases hnot

/-- **The marks of a scope** are those of its frames. -/
theorem scopeMarks (hr : r.Honest P) {frames : List Frame} (h : Located P frames p) :
    ScopeMarks P r frames p := by
  induction h with
  | root =>
    refine scopeMarks_of_variables hr .root ((hr.data [] rfl).honest _) ?_
    have hcore := marks_directCoreVariables (hr.declared [] (Or.inl rfl)) (r.workflowId [])
    rw [hr.workflowId [] _ .root] at hcore
    rw [DurableRun.scope, hr.workflowId [] _ .root]
    exact hcore
  | @enter frames p f p' hlocated henter ih =>
    have hlocated' := Located.enter hlocated henter
    have hsite : ∀ {site : String} (s : Site), site.toList = s.text →
        childCachePrefix site (r.source frames)
          = prefixString P.root.workflowId (sitesOf frames ++ [(s, indicesOf frames)]) :=
      fun s hs => childCachePrefix_eq ih.source (artifact_of_sites hlocated) hs
    have hstep : ∀ stepId : StepId, childCachePrefix stepId (r.source frames)
        = prefixString P.root.workflowId (sitesOf frames ++ [(.step stepId, indicesOf frames)]) :=
      fun stepId => hsite (.step stepId) rfl
    cases henter with
    | @split stepId _ _ _ index =>
      refine scopeMarks_of_variables hr hlocated' ((hr.data _ rfl).honest _) ?_
      rw [sitesOf_of_none rfl, indicesOf_of_none rfl, DurableRun.scope, ← DurableRun.source]
      dsimp only
      exact marks_split ih.source (hr.extra (.split stepId index :: frames)) stepId
        (r.data (.split stepId index :: frames)) index
    | @whileLoop stepId _ _ _ index =>
      refine scopeMarks_of_variables hr hlocated' ((hr.data _ rfl).honest _) ?_
      rw [sitesOf_of_none rfl, indicesOf_of_none rfl, DurableRun.scope, ← DurableRun.source]
      dsimp only
      exact marks_while ih.source (hr.extra (.whileLoop stepId index :: frames)) stepId
        (r.outputs (.whileLoop stepId index :: frames)) index
    | @onWait stepId _ _ =>
      refine scopeMarks_of_variables hr hlocated' ?_ ?_
      · rw [sitesOf_of_none rfl, DurableRun.scope]
        exact ih.data
      · rw [sitesOf_of_none rfl, indicesOf_of_none rfl, DurableRun.scope, ← DurableRun.source]
        dsimp only [Frame.index?, Option.toList_none]
        rw [append_nil]
        exact marks_onWait ih.source r.instanceId _
    | @embed stepId _ _ _ =>
      refine scopeMarks_of_variables hr hlocated' ((hr.data _ rfl).honest _) ?_
      rw [sitesOf_of_some rfl, indicesOf_of_some rfl, ← hstep stepId, DurableRun.scope,
        ← DurableRun.source]
      exact marks_embed ih.source stepId (.object (r.declared (.embed stepId :: frames)))
    | @embedTool _ _ stepId _ _ _ call =>
      refine scopeMarks_of_variables hr hlocated' ((hr.data _ rfl).honest _) ?_
      rw [sitesOf_of_some rfl, indicesOf_of_some rfl, ← hstep stepId, DurableRun.scope,
        ← DurableRun.source]
      exact marks_embed ih.source stepId (.object (r.declared (.embedTool stepId call :: frames)))
    | @composed stepId _ _ artifact =>
      exact scopeMarks_composed hr hlocated' rfl rfl (hstep stepId)
        (by rw [DurableRun.scope, DurableRun.source])
    | @composedTool aiStepId label _ _ _ artifact call =>
      exact scopeMarks_composed hr hlocated' rfl rfl
        (hsite (.tool aiStepId label call) (toolSite_toList aiStepId label call))
        (by rw [DurableRun.scope, DurableRun.source])

/-! ### The texts of the keys -/

section Texts

variable {root wf : String} {sites : List (Site × List UInt32)} {indices : List UInt32}
  {source : Value ν} (h : Marks (prefixString root sites) wf indices (sourceVariables source))
include h

omit [DecimalU64 ν] in
theorem Marks.prefixed_toList (hsites : sites ≠ []) (base : String) :
    (prefixed source base).toList
      = root.toList ++ ':' :: ':' :: (chain sites ++ ':' :: ':' :: base.toList) := by
  rw [prefixed, h.cacheKeyPrefix_eq, if_neg (prefixString_ne hsites), prefixString, if_neg hsites]
  simp [String.toList_append]

omit [DecimalU64 ν] in
theorem Marks.prefixed_eq (hsites : sites = []) (base : String) : prefixed source base = base := by
  rw [prefixed, h.cacheKeyPrefix_eq, hsites, prefixString, if_pos rfl, if_pos rfl]

variable {ps : List (List Char)}

omit [DecimalU64 ν] in
theorem Marks.prefixed_parts {base : String} {p : List Char}
    (hbase : base.toList = joinDoubled ':' (p :: ps)) :
    (prefixed source base).toList = joinDoubled ':'
      ((if sites = [] then [] else [root.toList, chain sites]) ++ p :: ps) := by
  by_cases hsites : sites = []
  · rw [h.prefixed_eq hsites, hbase, if_pos hsites, nil_append]
  · rw [h.prefixed_toList hsites, hbase, if_neg hsites, cons_append, cons_append,
      nil_append, joinDoubled_cons _ (cons_ne_nil _ _),
      joinDoubled_cons _ (cons_ne_nil _ _)]

theorem Marks.bracketPart_tail : (indicesSuffix "::" source).toList
    = (bracketPart indices).flatMap fun q => ':' :: ':' :: q := by
  rw [h.indicesSuffix_toList, bracketPart]
  split
  · rfl
  · simp

theorem Marks.underPart_tail : (joinedIndicesSuffix "::" source).toList
    = (underPart indices).flatMap fun q => ':' :: ':' :: q := by
  rw [h.joinedIndicesSuffix_toList, underPart]
  split
  · rfl
  · simp

theorem Marks.slashText_eq : (waitLoopIndicesSuffix source).toList = slashText indices := by
  rw [waitLoopIndicesSuffix, h.indicesSuffix_toList, slashText]
  split
  · rfl
  · simp

theorem Marks.rooted_parts (hwf : sites = [] → wf = root) {base : String} {p : List Char}
    (hbase : base.toList = joinDoubled ':' (p :: ps)) :
    (rootedCacheKey base source).toList = joinDoubled ':'
      ((if sites = [] then [root.toList] else [root.toList, chain sites]) ++
        (p :: ps ++ bracketPart indices)) := by
  rw [rootedCacheKey, h.cacheKeyPrefix_eq, h.workflowId_eq]
  by_cases hsites : sites = []
  · rw [hsites, prefixString, if_pos rfl, if_pos rfl, if_pos rfl, hwf hsites]
    simp [String.toList_append, hbase, joinDoubled_eq, h.bracketPart_tail]
  · rw [if_neg (prefixString_ne hsites), prefixString, if_neg hsites, if_neg hsites]
    simp [String.toList_append, hbase, joinDoubled_eq, h.bracketPart_tail]

theorem Marks.cacheKey_toList (hwf : sites = [] → wf = root) (operation : CachedOperation)
    (derived : Derived) (scopeId : String) :
    (DurableRun.cacheKey source operation).toList = joinDoubled ':'
      ((Address.mk sites indices (.cached operation derived) scopeId).scopeParts root ++
        (operation.parts ++ bracketPart indices)) := by
  rw [scopeParts_eq]
  cases operation with
  | agent | split =>
    refine h.rooted_parts hwf ?_
    simp [String.toList_append, joinDoubled_eq]
  | embed stepId =>
    refine h.prefixed_parts ?_
    simp [String.toList_append, joinDoubled_eq, h.bracketPart_tail]

theorem Marks.signalId_toList {segment instanceId : String}
    (hsignal : operation.isSignal = true) (hrooted : operation.rooted = false)
    (hparts : localParts indices operation = [segment.toList ++ slashText indices]) :
    (signalId instanceId segment source).toList
      = (Address.mk sites indices operation wf).text root instanceId := by
  rw [Address.text, if_pos hsignal, Address.parts, scopeParts_eq, hrooted, hparts, signalId,
    h.workflowId_eq, String.toList_append, h.slashText_eq]
  by_cases hsites : sites = []
  · rw [h.prefixed_eq hsites, hsites]
    simp [String.toList_append, joinDoubled_eq]
  · simp [String.toList_append, joinDoubled_eq, h.prefixed_toList hsites, hsites]

omit [DecimalU64 ν] in
/-- The key of an operation that is prefixed inside of children only. -/
theorem Marks.prefixed_text {base instanceId scopeId : String} {p : List Char}
    (hsignal : operation.isSignal = false) (hrooted : operation.rooted = false)
    (hparts : localParts indices operation = p :: ps)
    (hbase : base.toList = joinDoubled ':' (p :: ps)) : (prefixed source base).toList
      = (Address.mk sites indices operation scopeId).text root instanceId := by
  rw [Address.text, if_neg (by simp [hsignal]), Address.parts, scopeParts_eq, hrooted, hparts]
  exact h.prefixed_parts hbase

end Texts

/-- The source of a breakpoint has the marks of its scope, too. -/
theorem marks_breakpoint (hr : r.Honest P) {e : Execution} (h : Located P e.frames p) :
    Marks (prefixString P.root.workflowId (sitesOf e.frames)) p.artifact.workflowId
      (indicesOf e.frames) (sourceVariables (r.build e.frames
        ((r.breakpointData e).getD (r.scope e.frames).1) (r.scope e.frames).2)) := by
  have hscope := scopeMarks hr h
  cases hdata : r.breakpointData e with
  | none => exact hscope.source
  | some data =>
    obtain ⟨hplain, hframes⟩ := hr.breakpoint e data hdata
    exact marks_build r e.frames (hscope.variables' hframes) (hplain.honest _) (hr.small h)

/-- **The key of an execution is the text of its address.** -/
theorem key_toList (hr : r.Honest P) {e : Execution} (h : Located P e.frames p) :
    (r.key e).toList
      = (e.address p.artifact.workflowId).text P.root.workflowId r.instanceId := by
  have hmarks := (scopeMarks hr h).source
  have hwf := artifact_of_sites h
  obtain ⟨frames, operation⟩ := e
  unfold DurableRun.key Execution.address
  dsimp only at *
  cases operation with
  | cached operation derived =>
    have hkey := hmarks.cacheKey_toList hwf operation derived ""
    have htext : (Address.mk (sitesOf frames) (indicesOf frames) (.cached operation derived)
        "").text P.root.workflowId r.instanceId
        = (DurableRun.cacheKey (r.source frames) operation).toList
          ++ derived.parts.flatMap fun q => ':' :: ':' :: q := by
      rw [hkey, ← joinDoubled_append_tail (by cases operation <;> simp [CachedOperation.parts]),
        Address.text, if_neg (by simp [Operation.isSignal]), Address.parts, localParts,
        append_assoc, append_assoc]
    refine Eq.trans ?_ htext.symm
    cases derived with
    | result => simp [Derived.parts]
    | attempt number =>
      simp [Derived.parts, agentAttemptResultKey, String.toList_append, Nat.toList_repr, digits]
    | retrySleep number =>
      simp [Derived.parts, retrySleepKey, String.toList_append, Nat.toList_repr, digits]
  | delay stepId =>
    refine hmarks.prefixed_text rfl rfl rfl ?_
    simp [String.toList_append, joinDoubled_eq, hmarks.underPart_tail]
  | turn stepId iteration =>
    refine hmarks.prefixed_text rfl rfl rfl ?_
    simp [String.toList_append, joinDoubled_eq, hmarks.slashText_eq, turnText, digits]
  | breakpoint stepId =>
    have hbreak := marks_breakpoint hr (e := ⟨frames, .breakpoint stepId⟩) h
    refine hbreak.prefixed_text rfl rfl rfl ?_
    simp [String.toList_append, joinDoubled_eq, hbreak.underPart_tail]
  | wait stepId => exact hmarks.signalId_toList rfl rfl rfl
  | waitTool aiStepId label call =>
    exact hmarks.signalId_toList rfl rfl (by rw [toolSite_toList]; rfl)

end Runs

end Runtara
