/-
  The input of a step from its mapping (`DirectJsonRuntime::apply_mapping`).

  The mapping of an agent is evaluated like every other one. Its result is then searched for
  reference envelopes, `{valueType: "reference", value: "<path>"}`, which are resolved against the
  source, and a top-level immediate envelope is replaced by what it holds. Both passes see the
  evaluated mapping only: what the workflow's author wrote and what a reference found look the
  same to them.

  A resolved envelope is searched again, so data that refers to itself keeps the first pass going
  for ever. `fuel` bounds the depth of its recursion.
-/
import Runtara.Expr.Compiled

namespace Runtara

open Json

variable {ν : Type}

/-! ### Envelopes -/

/-- The `valueType` of an object, if it is a text. -/
def envelopeType (es : Entries ν) : Option String :=
  (lookupEntry "valueType" es).bind Value.asStr

def isReferenceEnvelope (es : Entries ν) : Bool :=
  envelopeType es = some "reference" && ((lookupEntry "value" es).bind Value.asStr).isSome

def isQualifiedWorkflowPath (path : String) : Bool :=
  ((path.toList.splitOn '.').head?.map String.ofList).any fun root =>
    root ∈ ["data", "variables", "workflow", "steps", "loop", "item", "iteration"]

def isUnqualifiedReferenceEnvelope (es : Entries ν) : Bool :=
  match (lookupEntry "value" es).bind Value.asStr with
  | none => false
  | some path => isReferenceEnvelope es && !isQualifiedWorkflowPath path

def isFieldArgumentOperator (op : String) : Bool :=
  String.ofList (op.toList.map Char.toUpper) ∈
    ["EQ", "NE", "GT", "GTE", "LT", "LTE", "STARTS_WITH", "ENDS_WITH", "CONTAINS", "IN", "NOT_IN",
      "IS_DEFINED", "IS_EMPTY", "IS_NOT_EMPTY", "SIMILARITY_GTE", "MATCH", "COSINE_DISTANCE_LTE",
      "L2_DISTANCE_LTE"]

/-- A test on objects, which no other value passes. -/
def onObject (test : List (String × Value ν) → Bool) : Value ν → Bool
  | .object es => test es
  | _ => false

/-! ### Nested references -/

/-- Which arguments of an operation stay as they are, by position: unqualified references in the
arguments of a function, and the column that a condition operator names first. `none` if the
object is no operation with arguments. -/
def keptArguments (es : Entries ν) : Option (ℕ → Value ν → Bool) :=
  if ((lookupEntry "arguments" es).bind Value.asArray).isNone then none
  else if ((lookupEntry "fn" es).bind Value.asStr).isSome then
    some fun _ arg => onObject isUnqualifiedReferenceEnvelope arg
  else
    ((lookupEntry "op" es).bind Value.asStr).map fun op index arg =>
      index = 0 && isFieldArgumentOperator op && onObject isReferenceEnvelope arg

/-- `f` on the arguments that are not kept, from the given position on. -/
def visitArguments (kept : ℕ → Value ν → Bool) (f : Value ν → Option (Value ν)) :
    ℕ → List (Value ν) → Option (List (Value ν))
  | _, [] => some []
  | index, arg :: args =>
    (if kept index arg then some arg else f arg).bind fun arg' =>
      (visitArguments kept f (index + 1) args).map (arg' :: ·)

/-- What becomes of the field `k` of an object that is no reference envelope: an immediate
envelope is entered at its value, an operation at its arguments, anything else everywhere. -/
def visitField (f : Value ν → Option (Value ν)) (es : Entries ν) (k : String)
    (v : Value ν) : Option (Value ν) :=
  if envelopeType es = some "immediate" then
    if k = "value" then f v else some v
  else
    match keptArguments es, v with
    | some kept, .array args =>
      if k = "arguments" then (visitArguments kept f 0 args).map .array else some v
    | some _, v => some v
    | none, v => f v

/-- `g` on every field, by its name. -/
def visitEntries (g : String → Value ν → Option (Value ν)) (es : Entries ν) :
    Option (Entries ν) :=
  es.mapM fun e => (g e.1 e.2).map fun v => (e.1, v)

variable [NumberOps ν]

/-- What a reference envelope is replaced by, before its value is searched in turn. -/
def resolveEnvelope (scope : Scope ν) (es : Entries ν) : Value ν :=
  ((applyReference scope (.object es)).toOption).getD .null

/-- An immediate envelope that holds `v`. -/
def immediateEnvelope (v : Value ν) : Entries ν :=
  insertEntry "value" v (insertEntry "valueType" (.string "immediate") [])

/-- `resolve_nested_references`; `none` when it needs more than the given depth. -/
def resolveNestedReferences (scope : Scope ν) : ℕ → Value ν → Option (Value ν)
  | 0, _ => none
  | fuel + 1, .object es =>
    if isReferenceEnvelope es then
      (resolveNestedReferences scope fuel (resolveEnvelope scope es)).map fun v =>
        .object (immediateEnvelope v)
    else (visitEntries (visitField (resolveNestedReferences scope fuel) es) es).map .object
  | fuel + 1, .array items => (items.mapM (resolveNestedReferences scope fuel)).map .array
  | _ + 1, v => some v

/-- What an immediate envelope with a value holds; other values as they are. -/
def unwrapImmediateEnvelope (v : Value ν) : Value ν :=
  match v with
  | .object es =>
    if envelopeType es = some "immediate" then (lookupEntry "value" es).getD (.object es)
    else .object es
  | v => v

def unwrapTopLevelImmediateEnvelopes (v : Value ν) : Value ν :=
  match v with
  | .object es => .object (es.map fun e => (e.1, unwrapImmediateEnvelope e.2))
  | v => v

/-! ### Mappings of a manifest -/

/-- A mapping of the manifest, with what it is for. -/
structure DirectMapping (ν : Type) where
  purpose : String
  value : Value ν

def unwrapFinishOutputs (output : Value ν) : Value ν :=
  match output with
  | .object es => if es.length = 1 then (lookupEntry "outputs" es).getD output else output
  | output => output

/-- `apply_mapping`, with the mappings of the manifest by their id. -/
def applyMapping (mappings : ℕ → Option (DirectMapping ν)) (scope : Scope ν) (fuel mappingId : ℕ) :
    Option (Except String (Value ν)) :=
  match mappings mappingId with
  | none => some (.error ("unknown direct mapping id " ++ toString mappingId))
  | some mapping =>
    match (compileInputMapping scope.engine mapping.value).eval scope with
    | .error message => some (.error message)
    | .ok output =>
      let output :=
        if mapping.purpose = "finish.inputMapping" then unwrapFinishOutputs output else output
      if mapping.purpose = "agent.inputMapping" then
        (resolveNestedReferences scope fuel output).map fun resolved =>
          .ok (unwrapTopLevelImmediateEnvelopes resolved)
      else some (.ok output)

end Runtara
