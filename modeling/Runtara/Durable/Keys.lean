/-
  The keys of durable operations (`direct_json.rs`).

  Every durable operation is checkpointed under a key that its builder makes from the ids of the
  step and from three variables of the source: `_workflow_id`, `_cache_key_prefix`, which is set
  inside the children of a workflow, and `_loop_indices`, which is set inside `Split` and `While`.
  The second half of this file is how these variables are set: the variables of a loop iteration, of
  an `onWait` graph, of an embedded child, and the input envelope of a composed one.
-/
import Runtara.Interning.Arena
import Runtara.Plan.RunPlan

namespace Runtara

open Json

section Keys

variable {ν : Type} [NumberOps ν]

/-! ### Reading the source -/

/-- `source.get("variables").and_then(Value::as_object)`, with no entries if there are none. -/
def sourceVariables (source : Value ν) : Entries ν :=
  match source.get "variables" with
  | some (.object es) => es
  | _ => []

/-- `_cache_key_prefix`, empty if it is not set. -/
def cacheKeyPrefix (source : Value ν) : String :=
  ((lookupEntry "_cache_key_prefix" (sourceVariables source)).bind Value.asStr).getD ""

/-- `source_cache_key_prefix` applied to a key. -/
def prefixed (source : Value ν) (base : String) : String :=
  if cacheKeyPrefix source = "" then base else cacheKeyPrefix source ++ "::" ++ base

def workflowId (source : Value ν) : String :=
  ((lookupEntry "_workflow_id" (sourceVariables source)).bind Value.asStr).getD "root"

def loopIndices (source : Value ν) : List (Value ν) :=
  ((lookupEntry "_loop_indices" (sourceVariables source)).bind Value.asArray).getD []

/-- The indices in brackets after the given text, or nothing outside of loops. -/
def indicesSuffix (opening : String) (source : Value ν) : String :=
  if (loopIndices source).isEmpty then ""
  else opening ++ "[" ++ ",".intercalate ((loopIndices source).map Value.text) ++ "]"

/-- The indices joined by underscores, after the given text. -/
def joinedIndicesSuffix (opening : String) (source : Value ν) : String :=
  let indices := "_".intercalate
    (((loopIndices source).filterMap Value.asU64).map fun index => toString index.toNat)
  if indices = "" then "" else opening ++ indices

/-! ### The builders -/

/-- The key of an operation that is prefixed by the workflow id outside of children. -/
def rootedCacheKey (base : String) (source : Value ν) : String :=
  (if cacheKeyPrefix source = "" then workflowId source else cacheKeyPrefix source) ++ "::" ++ base
    ++ indicesSuffix "::" source

def agentCacheKey (agentId capabilityId : String) (stepId : StepId) (source : Value ν) : String :=
  rootedCacheKey ("agent::" ++ agentId ++ "::" ++ capabilityId ++ "::" ++ stepId) source

def splitCacheKey (stepId : StepId) (source : Value ν) : String :=
  rootedCacheKey ("split::" ++ stepId) source

def embedWorkflowCacheKey (stepId : StepId) (source : Value ν) : String :=
  prefixed source ("embed_workflow::" ++ stepId ++ indicesSuffix "::" source)

def breakpointKey (stepId : StepId) (source : Value ν) : String :=
  prefixed source ("breakpoint::" ++ stepId ++ joinedIndicesSuffix "::" source)

def delaySleepKey (stepId : StepId) (source : Value ν) : String :=
  prefixed source (stepId ++ joinedIndicesSuffix "::" source)

def waitLoopIndicesSuffix (source : Value ν) : String := indicesSuffix "/" source

def aiTurnCacheKey (stepId : StepId) (iteration : UInt32) (source : Value ν) : String :=
  prefixed source
    (stepId ++ ".turn." ++ toString iteration.toNat ++ waitLoopIndicesSuffix source)

/-- The signal id of a step segment. -/
def signalId (instanceId segment : String) (source : Value ν) : String :=
  instanceId ++ "/" ++ workflowId source ++ "/" ++ prefixed source segment
    ++ waitLoopIndicesSuffix source

def waitSignalId (stepId : StepId) (instanceId : String) (source : Value ν) : String :=
  signalId instanceId stepId source

/-- The site of a tool call: `{ai_step_id}.tool.{label}.{call_counter}`. -/
def toolSite (aiStepId : StepId) (label : String) (callCounter : UInt32) : String :=
  aiStepId ++ ".tool." ++ label ++ "." ++ toString callCounter.toNat

def aiWaitToolSignalId (stepId : StepId) (instanceId label : String) (callCounter : UInt32)
    (source : Value ν) : String :=
  signalId instanceId (toolSite stepId label callCounter) source

def childCachePrefix (site : String) (source : Value ν) : String :=
  if cacheKeyPrefix source = "" then workflowId source ++ "::" ++ site ++ indicesSuffix "" source
  else cacheKeyPrefix source ++ "__" ++ site ++ indicesSuffix "" source

/-! ### The variables of a scope -/

/-- `Map::extend`. -/
def extendEntries (es extra : Entries ν) : Entries ν :=
  extra.foldl (fun m e => insertEntry e.1 e.2 m) es

/-- Sets a key to the value it had, or removes it if it had none. -/
def restoreEntry (k : String) (v : Option (Value ν)) (es : Entries ν) :
    Entries ν :=
  match v with
  | some v => insertEntry k v es
  | none => removeEntry k es

/-- `json!(index)`. -/
def indexValue (index : UInt32) : Value ν := .number (SerdeNumber.ofU64 index.toUInt64)

/-- What a `variables` mapping evaluates to, put over the variables of the parent. -/
def authoredVariables (extra : Option (Value ν)) (es : Entries ν) :
    Entries ν :=
  match extra with
  | some (.object authored) => extendEntries es authored
  | _ => es

/-- The scope ids of an iteration. -/
def insertScopeIds (stepId : StepId) (index : UInt32) (es : Entries ν) :
    Entries ν :=
  let parentScopeId := (lookupEntry "_scope_id" es).getD .null
  let scopeId := (parentScopeId.asStr.getD "sc") ++ "_" ++ stepId ++ "_" ++ toString index.toNat
  insertEntry "_scope_id" (.string scopeId) (insertEntry "_parent_scope_id" parentScopeId es)

/-- The index stack with one more index. -/
def pushLoopIndex (source : Value ν) (index : UInt32) : Value ν :=
  .array (loopIndices source ++ [indexValue index])

def splitIterationVariables (stepId : StepId) (extra : Option (Value ν)) (source item : Value ν)
    (index : UInt32) : Entries ν :=
  let parent := sourceVariables source
  let es := authoredVariables extra parent
  let es := restoreEntry "_loop" (lookupEntry "_loop" parent) es
  let es := insertEntry "_loop_indices" (pushLoopIndex source index) es
  let es := insertEntry "_index" (indexValue index) es
  let es := insertEntry "_item" item es
  insertScopeIds stepId index es

def whileIterationVariables (stepId : StepId) (extra : Option (Value ν)) (source outputs : Value ν)
    (index : UInt32) : Entries ν :=
  let parent := sourceVariables source
  let es := authoredVariables extra parent
  let es := restoreEntry "_item" (lookupEntry "_item" parent) es
  let es := insertEntry "_loop_indices" (pushLoopIndex source index) es
  let es := insertEntry "_index" (indexValue index) es
  let es := removeEntry "_previousOutputs" es
  let es := if Value.isNull outputs then es else insertEntry "_previousOutputs" outputs es
  let es := insertEntry "_loop" (.obj [("index", indexValue index), ("outputs", outputs)]) es
  insertScopeIds stepId index es

def waitOnWaitVariables (instanceId signal : String) (source : Value ν) : Entries ν :=
  insertEntry "_instance_id" (.string instanceId)
    (insertEntry "_signal_id" (.string signal) (sourceVariables source))

/-- The value of a declared variable. -/
def declaredValue (declared : Value ν) : Value ν := (declared.get "value").getD declared

/-- The declared variables of a child, as far as their names are not private. -/
def childDefaults (es : Entries ν) : Value ν → Entries ν
  | .object defaults =>
    (defaults.filter fun e => e.1.toList.head? ≠ some '_').foldl
      (fun m e => insertAbsent e.1 (declaredValue e.2) m) es
  | _ => es

/-- A variable that is passed on to an embedded child. -/
def passOn (k : String) (v : Option (Value ν)) (es : Entries ν) :
    Entries ν :=
  match v with
  | some v => insertEntry k v es
  | none => es

def embedChildVariables (stepId : StepId) (childVariables source : Value ν) :
    Entries ν :=
  let parent := sourceVariables source
  let parentScopeId := (lookupEntry "_scope_id" parent).bind Value.asStr
  let es := insertEntry "_scope_id" (.string (parentScopeId.getD "sc" ++ "_" ++ stepId)) []
  let es := passOn "_workflow_id"
    (((lookupEntry "_workflow_id" parent).bind Value.asStr).map .string) es
  let es := passOn "_instance_id" (lookupEntry "_instance_id" parent) es
  let es := passOn "_tenant_id" (lookupEntry "_tenant_id" parent) es
  let es := insertEntry "_cache_key_prefix" (.string (childCachePrefix stepId source)) es
  childDefaults es childVariables

/-- `agent_scope_input` and `agent_tool_scope_input`: the input of a composed child in the envelope
that has the prefix of the site. -/
def agentScopeInput (site : String) (input source : Value ν) : Value ν :=
  .obj [("data", input),
    ("variables", .obj [("_cache_key_prefix", .string (childCachePrefix site source))])]

/-- `direct_core_variables_json`, of the declared variables with their values. -/
def directCoreVariables (workflowId : String) (declared : Entries ν) :
    Entries ν :=
  insertEntry "_workflow_id" (.string workflowId) declared

/-- The source that `build_source` makes of data, variables and steps. -/
def Arena.scopeSource (env : ProcessEnv) (contentHash : String → UInt64) (a : Arena)
    (data vars steps : Value ν) : Value ν :=
  let (data, vars) := unwrapEnvelope data vars
  let (data, a) := a.internContainer contentHash data
  let (vars, a) := a.internContainer contentHash (injectRuntimeIdentityVariables env vars)
  sourceEnvelope data vars (a.internContainer contentHash steps).1

end Keys

end Runtara
