/-
  What an `onError` handler sees of an agent failure.

  The envelope of an agent failure stands behind the ids of the step, the agent and the capability.
  `parseErrorEnvelope` looks for it at the first brace of the text, and reads it one level deeper
  than its attributes were read. So, if the ids have no brace, it is recovered exactly when the
  attributes are not nested as deep as a reader allows and their numbers are read back
  (`envelope_recovered_iff`).
-/
import Runtara.Failure.Equiv.Wrap
import Runtara.Reference.Equiv.Paths

namespace Runtara

open Json List

variable {ν : Type} [SerdeNumber ν]

def ensureStepId (stepId : String) (es : Entries ν) : Value ν :=
  .object (if (lookupEntry "stepId" es).isSome then es
    else insertEntry "stepId" (.string stepId) es)

/-- `parse_error_envelope`. Nothing is left of a text without a brace, which is no JSON either. -/
def parseErrorEnvelope (error stepId : String) : Value ν :=
  match fromSlice error with
  | some (.object es) => ensureStepId stepId es
  | _ =>
    match fromSlice (String.ofList (trimSpace (error.toList.dropWhile (· ≠ '{')))) with
    | some (.object es) => ensureStepId stepId es
    | _ => .obj [("message", .string error), ("stepId", .string stepId), ("code", .null),
        ("category", .string "unknown"), ("severity", .string "error")]

/-- The fields of an envelope that handlers read. -/
def envelopeFields : List String :=
  ["code", "message", "category", "severity", "retryAfterMs", "attributes"]

/-- What is parsed from the failure of the agent has the fields of its envelope. -/
def Recovered (ν : Type) [SerdeNumber ν] (a : AgentSite) (info : ErrorInfo) (stepId : String) :
    Prop :=
  ∀ field ∈ envelopeFields,
    (parseErrorEnvelope (agentErrorFromInfo a (agentErrorInfoEnvelope info : Value ν).text)
      stepId : Value ν).get field = (agentErrorInfoEnvelope info : Value ν).get field

/-- The prefix of an agent failure has no brace. -/
def AgentSite.Plain (a : AgentSite) : Prop :=
  ∀ id ∈ [a.stepId, a.agentId, a.capabilityId], '{' ∉ id.toList

/-! ### The envelope -/

section Envelope

variable (info : ErrorInfo)

/-- The entries of the envelope, as they are inserted. -/
def ErrorInfo.entries : Entries ν :=
  [("code", .string info.code), ("message", .string info.message),
    ("category", .string info.category), ("severity", .string info.severity),
    ("retryable", .bool info.retryable)]
  ++ (info.retryAfterMs.map fun ms => ("retryAfterMs", .number (SerdeNumber.ofU64 ms))).toList
  ++ ((info.attributes.bind fromSlice).map fun v => ("attributes", v)).toList

theorem nodup_entries : ((info.entries (ν := ν)).map Prod.fst).Nodup := by
  unfold ErrorInfo.entries
  cases info.retryAfterMs <;> cases info.attributes.bind (fromSlice (ν := ν)) <;> simp

/-- Only the attributes of an envelope have a structure. -/
theorem forall_entries {P : Value ν → Prop} (hstring : ∀ s, P (.string s))
    (hbool : ∀ b, P (.bool b)) (hnumber : ∀ n, P (.number (SerdeNumber.ofU64 n))) :
    (∀ e ∈ info.entries, P e.2) ↔ ∀ v ∈ info.attributes.bind fromSlice, P v := by
  unfold ErrorInfo.entries
  cases info.retryAfterMs <;> cases info.attributes.bind (fromSlice (ν := ν)) <;>
    simp [hstring, hbool, hnumber]

theorem sorted_agentErrorInfoEnvelope : (agentErrorInfoEnvelope info : Value ν).Sorted := by
  refine Value.sorted_obj ((forall_entries info ?_ ?_ ?_).mpr fun v hv => ?_)
  · exact fun _ => trivial
  · exact fun _ => trivial
  · exact fun _ => trivial
  · obtain ⟨text, -, hparse⟩ := Option.bind_eq_some_iff.mp hv
    exact (parse_sorted hparse).1

/-- The envelope is one level deeper than the attributes. -/
theorem depth_agentErrorInfoEnvelope_le :
    (agentErrorInfoEnvelope info : Value ν).depth ≤ recursionLimit ↔
      ∀ v ∈ info.attributes.bind (fromSlice (ν := ν)), v.depth < recursionLimit := by
  rw [show (agentErrorInfoEnvelope info : Value ν) = .obj info.entries from rfl,
    Value.depth_obj (nodup_entries info), Nat.succ_le_iff, recursionLimit, Nat.lt_succ_iff,
    Value.depthEntries_le]
  refine (forall_entries info (P := fun v => v.depth ≤ 126) ?_ ?_ ?_).trans
    (forall₂_congr fun v _ => Nat.lt_succ_iff.symm)
  · exact fun _ => Nat.zero_le _
  · exact fun _ => Nat.zero_le _
  · exact fun _ => Nat.zero_le _

theorem code_agentErrorInfoEnvelope :
    (agentErrorInfoEnvelope info : Value ν).get "code" = some (.string info.code) := by
  refine (lookupEntry_ofEntries ..).trans ?_
  cases info.retryAfterMs <;> cases info.attributes.bind (fromSlice (ν := ν)) <;> rfl

theorem attributes_agentErrorInfoEnvelope :
    (agentErrorInfoEnvelope info : Value ν).get "attributes" = info.attributes.bind fromSlice := by
  refine (lookupEntry_ofEntries ..).trans ?_
  cases info.retryAfterMs <;> cases info.attributes.bind (fromSlice (ν := ν)) <;> rfl

/-- A field of the envelope is read back if the attributes are. -/
theorem reread_get_agentErrorInfoEnvelope [LawfulU64 ν]
    (h : ∀ v ∈ info.attributes.bind (fromSlice (ν := ν)), v.reread = v) (field : String) :
    ((agentErrorInfoEnvelope info : Value ν).get field).map Value.reread
      = (agentErrorInfoEnvelope info).get field := by
  cases hget : (agentErrorInfoEnvelope info : Value ν).get field with
  | none => rfl
  | some v =>
    have hmem : (field, v) ∈ info.entries (ν := ν) := mem_ofEntries (mem_of_lookupEntry hget)
    refine congrArg some ((forall_entries info (P := fun v => v.reread = v) ?_ ?_ ?_).mpr h _ hmem)
    · exact fun _ => rfl
    · exact fun _ => rfl
    · exact fun n => congrArg Value.number (LawfulU64.reread_ofU64 n)

end Envelope

omit [SerdeNumber ν] in
theorem get_ensureStepId {stepId field : String} {es : Entries ν}
    (h : field ≠ "stepId") : (ensureStepId stepId es).get field = (Value.object es).get field := by
  unfold ensureStepId
  split
  · rfl
  · exact lookupEntry_insertEntry_ne h _ _

/-- What is left of an agent failure from the first brace on. -/
theorem trimSpace_agentErrorFromInfo {a : AgentSite} (ha : a.Plain) {es : Entries ν} :
    trimSpace ((agentErrorFromInfo a (Value.object es).text).toList.dropWhile (· ≠ '{'))
      = (Value.object es).text.toList := by
  have hplain : ∀ c ∈ ("Step " ++ a.stepId ++ " failed: Agent " ++ a.agentId ++ "::" ++
      a.capabilityId ++ ": ").toList, decide (c ≠ '{') = true := by
    rintro c hc
    rw [decide_eq_true_iff]
    rintro rfl
    simp only [String.toList_append, mem_append] at hc
    simp only [AgentSite.Plain, forall_mem_cons] at ha
    obtain ⟨hstep, hagent, hcapability, -⟩ := ha
    rcases hc with (((((hc | hc) | hc) | hc) | hc) | hc) | hc
    all_goals first | exact absurd hc ‹_› | exact absurd hc (by decide)
  have htext : (Value.object es).text.toList = '{' :: (commas (printEntries es) ++ ['}']) :=
    String.toList_ofList
  unfold agentErrorFromInfo
  rw [String.toList_append, dropWhile_append_of_pos hplain, htext, dropWhile_cons_of_neg (by simp)]
  have htrim := trim_eq (p := isWhiteSpace) (x := []) (y := [])
    (m := '{' :: (commas (printEntries es) ++ ['}'])) (fun _ hc => absurd hc not_mem_nil)
    fun _ hc => absurd hc not_mem_nil
  rw [nil_append, append_nil] at htrim
  refine htrim (fun c hc => ?_) (fun c hc => ?_) (cons_ne_nil _ _)
  · cases hc
    rfl
  · rw [← cons_append, getLast?_append, getLast?_singleton] at hc
    cases hc
    rfl

variable [LawfulNumber ν] [LawfulU64 ν]

/-- **The fields of the envelope are recovered if and only if its attributes are not nested as deep
as a reader allows and have only numbers that are read back, for all ids without a brace.** -/
theorem envelope_recovered_iff {a : AgentSite} (ha : a.Plain) (info : ErrorInfo)
    (stepId : String) :
    Recovered ν a info stepId ↔
      ∀ v ∈ info.attributes.bind (fromSlice (ν := ν)),
        v.depth < recursionLimit ∧ v.reread = v := by
  have hparse : fromSlice (String.ofList (trimSpace ((agentErrorFromInfo a
      (agentErrorInfoEnvelope info : Value ν).text).toList.dropWhile (· ≠ '{')))) =
      if (agentErrorInfoEnvelope info : Value ν).depth ≤ recursionLimit then
        some (agentErrorInfoEnvelope info : Value ν).reread else none := by
    rw [agentErrorInfoEnvelope, Value.obj, trimSpace_agentErrorFromInfo ha, String.ofList_toList]
    exact fromSlice_text (sorted_agentErrorInfoEnvelope info)
  unfold Recovered parseErrorEnvelope
  rw [fromSlice_agentErrorFromInfo, hparse]
  simp only [forall_and, ← depth_agentErrorInfoEnvelope_le]
  by_cases hdepth : (agentErrorInfoEnvelope info : Value ν).depth ≤ recursionLimit
  · -- the envelope is read, each field as it is read back
    have hread : ∀ field ∈ envelopeFields,
        (ensureStepId stepId ((ofEntries (info.entries (ν := ν))).map rereadEntry)).get field
          = ((agentErrorInfoEnvelope info : Value ν).get field).map Value.reread := by
      intro field hfield
      rw [get_ensureStepId (by rintro rfl; revert hfield; decide)]
      exact lookupEntry_map field Value.reread _
    rw [if_pos hdepth, agentErrorInfoEnvelope, Value.obj, reread_object]
    refine ⟨fun h => ⟨hdepth, fun v hv => ?_⟩, fun h field hfield => ?_⟩
    · have hfixed : ((agentErrorInfoEnvelope info : Value ν).get "attributes").map Value.reread
          = (agentErrorInfoEnvelope info).get "attributes" :=
        (hread "attributes" (by decide)).symm.trans (h "attributes" (by decide))
      rw [attributes_agentErrorInfoEnvelope, hv] at hfixed
      exact Option.some.inj hfixed
    · exact (hread field hfield).trans (reread_get_agentErrorInfoEnvelope info h.2 field)
  · rw [if_neg hdepth]
    refine ⟨fun h => ?_, fun h => absurd h.1 hdepth⟩
    have hcode := h "code" (by decide)
    rw [code_agentErrorInfoEnvelope] at hcode
    cases hcode.symm.trans (lookupEntry_ofEntries ..)

/-- An agent that does not find a page. -/
def notFound : ErrorInfo := ⟨"HTTP_404", "not found", "permanent", "error", false, none, none⟩

/-- The failure of an agent that gives a score. -/
def lowScore : ErrorInfo :=
  ⟨"LOW_SCORE", "score too low", "permanent", "error", false, some 500,
    some "\x7b\"score\":7\x7d"⟩

/-- A failure with a retry time and attributes is recovered. -/
theorem envelope_recovered_iff_fetch : AgentSite.Plain ⟨"fetch", "http", "get"⟩ ∧
    Recovered ℕ ⟨"fetch", "http", "get"⟩ lowScore "fetch" := by
  have hplain : AgentSite.Plain ⟨"fetch", "http", "get"⟩ := by
    unfold AgentSite.Plain
    decide
  have htext : "\x7b\"score\":7\x7d" = (Value.object [("score", .number 7)] : Value ℕ).text := by
    decide +kernel
  have hshallow : (Value.object [("score", .number 7)] : Value ℕ).depth ≤ recursionLimit := by
    decide
  have hparse : fromSlice "\x7b\"score\":7\x7d"
      = some (Value.object [("score", .number 7)] : Value ℕ) := by
    rw [htext, fromSlice_text (by simp [Value.Sorted, Value.SortedEntries, KeysSorted]),
      if_pos hshallow]
    rfl
  refine ⟨hplain, (envelope_recovered_iff hplain lowScore "fetch").mpr fun v hv => ?_⟩
  rw [show lowScore.attributes = some _ from rfl, Option.bind_some, hparse] at hv
  obtain rfl := Option.some.inj hv
  exact ⟨by decide, rfl⟩

/-- **The code of a failure is lost when the id of its step has a brace.** -/
theorem envelope_lost_behind_brace :
    ¬ Recovered ℕ ⟨"fetch \x7ba\x7d", "http", "get"⟩ notFound "fetch \x7ba\x7d" := by
  intro h
  have hcode := congrArg (·.bind Value.asStr) (h "code" (by decide))
  revert hcode
  decide +kernel

end Runtara
