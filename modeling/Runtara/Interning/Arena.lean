/-
  The arena of interned values.

  A run keeps its large values in an arena, as JSON texts under ids, and carries handles instead:
  objects with the id and the nonce of the run. Equal texts are kept once, found by a hash of the
  text. At the end of a loop iteration the entries that are not reachable from the given roots are
  freed. `buildSource` makes the source envelope of a step from the data, the variables and the
  step results, and interns what is large in each of them.
-/
import Runtara.Expr.Scope
import Runtara.Search.Mark

namespace Runtara

open Json

/-! ### Hash maps -/

section Maps

variable {κ α : Type} [DecidableEq κ]

def getKey (k : κ) (m : List (κ × α)) : Option α := (m.find? fun e => e.1 = k).map Prod.snd

def insertKey (k : κ) (a : α) (m : List (κ × α)) : List (κ × α) :=
  (k, a) :: m.filter fun e => e.1 ≠ k

end Maps

section Interning

variable {ν : Type} [NumberOps ν]

/-! ### Handles -/

mutual

/-- `collect_handle_ids`: the ids of the handles in a value, in the order in which they are
pushed. -/
def ValueStore.collectHandleIds (store : ValueStore) : Value ν → List UInt64
  | .array vs => store.collectItemIds vs
  | .object es =>
    match store.wfrefId (.object es) with
    | some id => [id]
    | none => store.collectEntryIds es
  | _ => []

def ValueStore.collectItemIds (store : ValueStore) : List (Value ν) → List UInt64
  | [] => []
  | v :: vs => store.collectHandleIds v ++ store.collectItemIds vs

def ValueStore.collectEntryIds (store : ValueStore) : List (String × Value ν) → List UInt64
  | [] => []
  | (_, v) :: es => store.collectHandleIds v ++ store.collectEntryIds es

end

def makeWfref (nonce id : UInt64) : Value ν :=
  .obj [("$wfref", .number (SerdeNumber.ofU64 id)), ("$wfnonce", .number (SerdeNumber.ofU64 nonce))]

def wfrefThresholdBytes : ℕ := 16 * 1024

mutual

def estimateJsonSize : Value ν → ℕ
  | .null => 4
  | .bool _ => 5
  | .number _ => 8
  | .string text => text.utf8ByteSize + 2
  | .array vs => 2 + estimateItemsSize vs
  | .object es => 2 + estimateEntriesSize es

def estimateItemsSize : List (Value ν) → ℕ
  | [] => 0
  | v :: vs => estimateJsonSize v + 1 + estimateItemsSize vs

def estimateEntriesSize : List (String × Value ν) → ℕ
  | [] => 0
  | (k, v) :: es => k.utf8ByteSize + 4 + estimateJsonSize v + estimateEntriesSize es

end

/-! ### The arena -/

/-- `StoreEntry`: the text of a value and the handles in it. -/
structure StoreEntry where
  bytes : String
  nested : List UInt64

/-- `ValueStore` with the nonce of the run. `nextId` counts the ids given; an id is its `u64`. -/
structure Arena where
  nonce : UInt64
  entries : List (UInt64 × StoreEntry)
  contentIndex : List (UInt64 × UInt64)
  nextId : ℕ

namespace Arena

/-- `reset_value_store`, with the fresh nonce. -/
def reset (nonce : UInt64) : Arena where
  nonce := nonce
  entries := []
  contentIndex := []
  nextId := 0

/-- What references and templates read of the arena. -/
def store (a : Arena) : ValueStore where
  nonce := a.nonce
  entries := a.entries.map fun e => (e.1, e.2.bytes)

/-- The id of an entry with exactly this text, if the hash leads to one. -/
def existing (a : Arena) (hash : UInt64) (bytes : String) : Option UInt64 :=
  (getKey hash a.contentIndex).filter fun id =>
    (getKey id a.entries).any fun entry => entry.bytes = bytes

def internIfLarge (contentHash : String → UInt64) (a : Arena) (value : Value ν) :
    Value ν × Arena :=
  if (a.store.wfrefId value).isSome || estimateJsonSize value < wfrefThresholdBytes then (value, a)
  else
    let bytes := value.text
    match a.existing (contentHash bytes) bytes with
    | some id => (makeWfref a.nonce id, a)
    | none =>
      let id := UInt64.ofNat a.nextId
      (makeWfref a.nonce id,
        { a with
          entries := insertKey id ⟨bytes, a.store.collectHandleIds value⟩ a.entries
          contentIndex := insertKey (contentHash bytes) id a.contentIndex
          nextId := a.nextId + 1 })

def internScopeEntries (contentHash : String → UInt64) (a : Arena) :
    List (String × Value ν) → List (String × Value ν) × Arena
  | [] => ([], a)
  | (k, v) :: es =>
    let (v, a) := a.internIfLarge contentHash v
    let (es, a) := a.internScopeEntries contentHash es
    ((k, v) :: es, a)

/-- The handles inside the value of an id. -/
def nested (a : Arena) (id : UInt64) : List UInt64 :=
  ((getKey id a.entries).map StoreEntry.nested).getD []

/-- The mark phase of `value_store_retain` from the handles of the roots. -/
def marked (a : Arena) (work : List UInt64) : List UInt64 :=
  Search.mark a.nested (a.entries.map Prod.fst) work

variable (ν) in
/-- The handles of the roots, unless one of the roots is no JSON. -/
def rootIds (a : Arena) (roots : List String) : Option (List UInt64) :=
  (roots.mapM (fromSlice (ν := ν))).map fun values => values.flatMap a.store.collectHandleIds

def sweep (a : Arena) (marked : List UInt64) : Arena :=
  { a with
    entries := a.entries.filter fun e => e.1 ∈ marked
    contentIndex := a.contentIndex.filter fun e => e.2 ∈ marked }

variable (ν) in
def valueStoreRetain (a : Arena) (roots : List String) : Arena :=
  match a.rootIds ν roots with
  | none => a
  | some work =>
    if a.entries.isEmpty then a else a.sweep (a.marked work)

end Arena

/-! ### The source envelope -/

/-- The environment of the process, and the message of `serde_json` for a text it refuses. -/
structure ProcessEnv where
  instanceId : Option String
  tenantId : Option String
  serdeError : String → String

/-- `Map::entry(k).or_insert(v)`. -/
def insertAbsent (k : String) (v : Value ν) (es : Entries ν) :
    Entries ν :=
  if (lookupEntry k es).isSome then es else insertEntry k v es

def injectRuntimeIdentityVariables (env : ProcessEnv) : Value ν → Value ν
  | .object es =>
    .object (insertAbsent "_tenant_id" (.string (env.tenantId.getD "unknown"))
      (insertAbsent "_instance_id" (.string (env.instanceId.getD "unknown")) es))
  | v => v

/-- The runtime variables that may replace declared ones. -/
def overridable (key : String) : Bool := key.toList.head? ≠ some '_' || key = "_cache_key_prefix"

def mergeRuntimeVariables (runtimeVars defaults : Entries ν) :
    Entries ν :=
  (runtimeVars.filter fun e => overridable e.1).foldl (fun m e => insertEntry e.1 e.2 m) defaults

/-- The data inside the input envelope, and the variables with those of the envelope. -/
def unwrapEnvelope (data vars : Value ν) : Value ν × Value ν :=
  match data.get "data" with
  | none => (data, vars)
  | some inner =>
    match data.get "variables", vars with
    | some (.object runtimeVars), .object defaults =>
      (inner, .object (mergeRuntimeVariables runtimeVars defaults))
    | _, _ => (inner, vars)

def iterationContext (vars : Value ν) : Option (Value ν) := do
  let indices ← (vars.get "_loop_indices").bind Value.asArray
  let index ← (vars.get "_index").or indices.getLast?
  some (.obj [("index", index), ("indices", .array indices),
    ("item", (vars.get "_item").getD .null)])

def optionalField (k : String) (v : Option (Value ν)) : Entries ν :=
  match v with
  | some v => [(k, v)]
  | none => []

def sourceEnvelope (data vars steps : Value ν) : Value ν :=
  .obj ([("data", data), ("variables", vars), ("steps", steps)]
    ++ optionalField "__error" (steps.get "__error")
    ++ optionalField "error" (steps.get "__error")
    ++ [("workflow", .obj [("inputs", .obj [("data", data), ("variables", vars)])])]
    ++ optionalField "iteration" (iterationContext vars)
    ++ optionalField "loop" (vars.get "_loop")
    ++ optionalField "item" (vars.get "_item"))

/-- Interns the entries of a scope container that is an object. -/
def Arena.internContainer (contentHash : String → UInt64) (a : Arena) (container : Value ν) :
    Value ν × Arena :=
  match container with
  | .object es => ((.object (a.internScopeEntries contentHash es).1),
      (a.internScopeEntries contentHash es).2)
  | _ => (container, a)

/-- `build_source` up to the serialization of the envelope. -/
def Arena.buildEnvelope (env : ProcessEnv) (contentHash : String → UInt64) (a : Arena)
    (data vars steps : String) : Except String (Value ν) × Arena :=
  match (fromSlice data : Option (Value ν)) with
  | none => (.error ("failed to parse data: " ++ env.serdeError data), a)
  | some dataValue =>
    match (fromSlice vars : Option (Value ν)) with
    | none => (.error ("failed to parse variables: " ++ env.serdeError vars), a)
    | some varsValue =>
      let (dataValue, varsValue) := unwrapEnvelope dataValue varsValue
      let varsValue := injectRuntimeIdentityVariables env varsValue
      match (fromSlice steps : Option (Value ν)) with
      | none => (.error ("failed to parse steps: " ++ env.serdeError steps), a)
      | some stepsValue =>
        let (dataValue, a) := a.internContainer contentHash dataValue
        let (varsValue, a) := a.internContainer contentHash varsValue
        let (stepsValue, a) := a.internContainer contentHash stepsValue
        (.ok (sourceEnvelope dataValue varsValue stepsValue), a)

variable (ν) in
def Arena.buildSource (env : ProcessEnv) (contentHash : String → UInt64) (a : Arena)
    (data vars steps : String) : Except String String × Arena :=
  let (result, a) := a.buildEnvelope (ν := ν) env contentHash data vars steps
  (result.map Value.text, a)

end Interning

end Runtara
