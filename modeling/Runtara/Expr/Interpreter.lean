/-
  The interpreter of conditions and mappings (`eval_condition_expression`, `apply_input_mapping`).

  Expressions are JSON values that are read while they are evaluated, so every malformed part is
  an error at the time it is reached. The recursion goes into the `arguments` of an operation and
  the `value` of a composite mapping.
-/
import Runtara.Expr.Scope

namespace Runtara

open Json

variable {ν : Type}

/-! ### Parts of an expression are smaller -/

variable {k : String} {v : Value ν}

theorem sizeOf_lookupEntry {es : Entries ν} (h : lookupEntry k es = some v) :
    sizeOf v < sizeOf es := by
  obtain ⟨e, hfind, rfl⟩ := Option.map_eq_some_iff.mp h
  have hmem := List.sizeOf_lt_of_mem (List.mem_of_find?_eq_some hfind)
  have hpair : sizeOf e.2 < sizeOf e := by
    cases e
    simp only [Prod.mk.sizeOf_spec]
    omega
  omega

theorem sizeOf_get {w : Value ν} (h : v.get k = some w) : sizeOf w < sizeOf v := by
  cases v with
  | object es =>
    have hlt := sizeOf_lookupEntry h
    simp only [Value.object.sizeOf_spec]
    omega
  | _ => cases h

theorem sizeOf_getArray {vs : List (Value ν)} (h : (v.get k).bind Value.asArray = some vs) :
    sizeOf vs < sizeOf v := by
  obtain ⟨w, hw, hvs⟩ := Option.bind_eq_some_iff.mp h
  have hlt := sizeOf_get hw
  cases w with
  | array items =>
    obtain rfl := Option.some.inj hvs
    simp only [Value.array.sizeOf_spec] at hlt
    omega
  | _ => cases hvs

/-! ### Mappings -/

variable [NumberOps ν]

def applyReference (scope : Scope ν) (map : Value ν) : Except String (Value ν) :=
  match (map.get "value").bind Value.asStr with
  | none => .error "reference mapping value must be a string path"
  | some path => do
    let default := map.get "default"
    let value ← resolveLookup
      (lookupSegmentsDetailed scope.store scope.source (pathToSegments path)) default
    coerceReferenceValue value ((map.get "type").bind Value.asStr) default

mutual

def applyMappingValue (scope : Scope ν) (value : Value ν) : Except String (Value ν) :=
  match value with
  | .object es =>
    match ((Value.object es).get "valueType").bind Value.asStr with
    | none => .error "mapping value missing valueType"
    | some valueType =>
      if valueType = "reference" then applyReference scope (.object es)
      else if valueType = "immediate" then .ok (((Value.object es).get "value").getD .null)
      else if valueType = "composite" then
        match _h : (Value.object es).get "value" with
        | some composite => applyComposite scope composite
        | none => .error "composite mapping value must be an object or array"
      else if valueType = "template" then
        match ((Value.object es).get "value").bind Value.asStr with
        | none => .error "template mapping value must be a string"
        | some template =>
          (scope.engine.renderTemplate template (scope.store.materialize scope.source)).map
            .string
      else .error ("unsupported mapping valueType '" ++ valueType ++ "'")
  | _ => .error "mapping value must be an object"
termination_by (sizeOf value, 0)
decreasing_by exact Prod.Lex.left _ _ (sizeOf_get _h)

def applyComposite (scope : Scope ν) (value : Value ν) : Except String (Value ν) :=
  match value with
  | .object es => (applyFields scope es []).map .object
  | .array vs => (applyItems scope vs).map .array
  | _ => .error "composite mapping value must be an object or array"
termination_by (sizeOf value, 0)

/-- The fields of a composite object, in order, added to `output`. -/
def applyFields (scope : Scope ν) (es : Entries ν) (output : Entries ν) :
    Except String (Entries ν) :=
  match es with
  | [] => .ok output
  | (key, child) :: es => do
    let value ← applyMappingValue scope child
    applyFields scope es (insertEntry key value output)
termination_by (sizeOf es, 0)

/-- The items of a composite array, in order. -/
def applyItems (scope : Scope ν) (vs : List (Value ν)) : Except String (List (Value ν)) :=
  match vs with
  | [] => .ok []
  | v :: vs => do
    let value ← applyMappingValue scope v
    let values ← applyItems scope vs
    .ok (value :: values)
termination_by (sizeOf vs, 0)

end

/-- The entries of an input mapping, in order, inserted into `output` under their dotted keys. -/
def applyEntries (scope : Scope ν) :
    List (String × Value ν) → List (String × Value ν) → Except String (List (String × Value ν))
  | [], output => .ok output
  | (key, child) :: es, output => do
    let value ← applyMappingValue scope child
    applyEntries scope es (insertNested output key value)

def applyInputMapping (scope : Scope ν) (mapping : Value ν) : Except String (Value ν) :=
  match mapping with
  | .object es => (applyEntries scope es []).map .object
  | _ => .error "input mapping must be a JSON object"

/-! ### Conditions -/

def isConditionOperation (expr : Value ν) : Bool :=
  (expr.get "op").isSome || (expr.get "type").bind Value.asStr = some "operation"

def evalConditionValue (scope : Scope ν) (value : Value ν) : Except String (Value ν) :=
  if (value.get "type").bind Value.asStr = some "value" then
    if (value.get "valueType").isSome then applyMappingValue scope value
    else
      match value.get "value" with
      | some inner => applyMappingValue scope inner
      | none => applyMappingValue scope value
  else applyMappingValue scope value

/-- The operators that only a query can evaluate. -/
def queryOnlyOperators : List String :=
  ["SIMILARITY_GTE", "MATCH", "COSINE_DISTANCE_LTE", "L2_DISTANCE_LTE"]

def queryOnlyMessage (op : String) : String :=
  "condition operator '" ++ op ++
    "' is only valid inside object-model query conditions; the workflow runtime cannot evaluate it"

/-- The comparison of `eval_comparison`. -/
def compareNumbers (op : String) (left right : Float) : Bool :=
  if op = "GT" then right < left
  else if op = "GTE" then right ≤ left
  else if op = "LT" then left < right
  else if op = "LTE" then left ≤ right
  else false

/-- `eval_comparison` on the evaluated arguments. -/
def comparison (op : String) (left right : Value ν) : Bool :=
  match toNumber left with
  | none => false
  | some l =>
    match toNumber right with
    | none => false
    | some r => compareNumbers op l r

/-- `eval_equality` on the evaluated arguments. -/
def equality (op : String) (left right : Value ν) : Bool :=
  if op = "NE" then !valuesEqual left right else valuesEqual left right

/-- `eval_string_match` on the evaluated arguments. -/
def stringMatch (op : String) (left right : Value ν) : Bool :=
  match left.asStr with
  | none => false
  | some l =>
    match right.asStr with
    | none => false
    | some r =>
      if op = "STARTS_WITH" then r.toList.isPrefixOf l.toList else r.toList.isSuffixOf l.toList

/-- `eval_array_match` on the evaluated arguments. -/
def arrayMatch (op : String) (left right : Value ν) : Bool :=
  let matched :=
    if op = "CONTAINS" then
      left.asArray.any fun items => items.any fun item => valuesEqual item right
    else if op = "IN" ∨ op = "NOT_IN" then
      right.asArray.any fun items => items.any fun item => valuesEqual left item
    else false
  if op = "NOT_IN" then !matched else matched

mutual

/-- `eval_condition_expression`, and `eval_condition_argument_as_bool`, which is the same. -/
def evalConditionExpression (scope : Scope ν) (expr : Value ν) : Except String Bool :=
  if isConditionOperation expr then evalConditionOperation scope expr
  else (evalConditionValue scope expr).map isTruthy
termination_by (sizeOf expr, 2)

def evalConditionOperation (scope : Scope ν) (expr : Value ν) : Except String Bool :=
  match (expr.get "op").bind Value.asStr with
  | none => .error "condition operation missing op"
  | some op =>
    match _h : (expr.get "arguments").bind Value.asArray with
    | none => .error "condition operation missing arguments"
    | some args => evalOperator scope op args
termination_by (sizeOf expr, 1)
decreasing_by exact Prod.Lex.left _ _ (sizeOf_getArray _h)

/-- The operators of `eval_condition_operation`. -/
def evalOperator (scope : Scope ν) (op : String) (args : List (Value ν)) : Except String Bool :=
  if op = "AND" then evalAnd scope true args
  else if op = "OR" then evalOr scope false args
  else if op = "NOT" then
    match args with
    | arg :: _ => (evalConditionExpression scope arg).map (!·)
    | [] => .ok true
  else if op = "GT" ∨ op = "GTE" ∨ op = "LT" ∨ op = "LTE" then
    evalPair scope (comparison op) args
  else if op = "EQ" ∨ op = "NE" then evalPair scope (equality op) args
  else if op = "STARTS_WITH" ∨ op = "ENDS_WITH" then evalPair scope (stringMatch op) args
  else if op = "CONTAINS" ∨ op = "IN" ∨ op = "NOT_IN" then evalPair scope (arrayMatch op) args
  else if op = "LENGTH" then (evalLengthAsValue scope args).map lengthHolds
  else if op = "IS_DEFINED" then
    match args with
    | arg :: _ => (evalConditionArgumentAsValue scope arg).map (!Value.isNull ·)
    | [] => .ok false
  else if op = "IS_EMPTY" then
    match args with
    | arg :: _ => (evalConditionArgumentAsValue scope arg).map isEmptyValue
    | [] => .ok true
  else if op = "IS_NOT_EMPTY" then
    match args with
    | arg :: _ => (evalConditionArgumentAsValue scope arg).map isNotEmptyValue
    | [] => .ok false
  else if op ∈ queryOnlyOperators then .error (queryOnlyMessage op)
  else .error ("unsupported condition operator '" ++ op ++ "'")
termination_by (sizeOf args, 1)

/-- The fold of `AND`: once false, nothing is evaluated. -/
def evalAnd (scope : Scope ν) (acc : Bool) (args : List (Value ν)) : Except String Bool :=
  match args with
  | [] => .ok acc
  | arg :: args => do
    let acc ← if !acc then .ok false else evalConditionExpression scope arg
    evalAnd scope acc args
termination_by (sizeOf args, 0)

/-- The fold of `OR`: once true, nothing is evaluated. -/
def evalOr (scope : Scope ν) (acc : Bool) (args : List (Value ν)) : Except String Bool :=
  match args with
  | [] => .ok acc
  | arg :: args => do
    let acc ← if acc then .ok true else evalConditionExpression scope arg
    evalOr scope acc args
termination_by (sizeOf args, 0)

/-- The operators on two arguments, which are false if there are fewer. -/
def evalPair (scope : Scope ν) (test : Value ν → Value ν → Bool) (args : List (Value ν)) :
    Except String Bool :=
  match args with
  | a :: b :: _ => do
    let left ← evalConditionArgumentAsValue scope a
    let right ← evalConditionArgumentAsValue scope b
    .ok (test left right)
  | _ => .ok false
termination_by (sizeOf args, 0)

def evalLengthAsValue (scope : Scope ν) (args : List (Value ν)) : Except String (Value ν) :=
  match args with
  | [] => .ok (.number (NumberOps.ofI64 0))
  | arg :: _ => do
    let value ← evalConditionArgumentAsValue scope arg
    .ok (.number (NumberOps.ofI64 (lengthOf value)))
termination_by (sizeOf args, 0)

def evalConditionArgumentAsValue (scope : Scope ν) (arg : Value ν) : Except String (Value ν) :=
  if isConditionOperation arg then
    if (arg.get "op").bind Value.asStr = some "LENGTH" then
      match _h : (arg.get "arguments").bind Value.asArray with
      | some args => evalLengthAsValue scope args
      | none => .error "LENGTH condition missing arguments"
    else (evalConditionExpression scope arg).map .bool
  else evalConditionValue scope arg
termination_by (sizeOf arg, 3)
decreasing_by
  · exact Prod.Lex.left _ _ (sizeOf_getArray _h)
  · exact Prod.Lex.right _ (by decide)

end

end Runtara
