/-
  Compiled conditions and mappings (`compile_condition`, `compile_input_mapping`).

  An expression is read once into a form that is evaluated without looking at the JSON again.
  Compilation does not fail: what the interpreter would report when it gets there is kept as an
  error node.
-/
import Runtara.Expr.Interpreter

namespace Runtara

open Json

variable {ν : Type}

/-! ### Compiled forms -/

/-- Numeric comparisons. -/
inductive CmpOp where
  | gt | gte | lt | lte
deriving DecidableEq, Repr

/-- Searches in an array. -/
inductive ArrKind where
  | contains | isIn | notIn
deriving DecidableEq, Repr

/-- A reference with its path split. -/
structure CompiledReference (ν : Type) where
  segments : List String
  default : Option (Value ν)
  typeHint : Option String

/-- A compiled mapping value, with templates in `τ`. A composite is an object or an array. -/
inductive CompiledMapping (ν τ : Type) where
  | reference (r : CompiledReference ν)
  | immediate (v : Value ν)
  | compositeObject (fields : List (String × CompiledMapping ν τ))
  | compositeArray (items : List (CompiledMapping ν τ))
  | template (t : τ)
  | error (message : String)

mutual

/-- A compiled condition. -/
inductive CompiledCondition (ν τ : Type) where
  | op (o : CompiledOp ν τ)
  | truthy (m : CompiledMapping ν τ)

/-- A compiled operation. -/
inductive CompiledOp (ν τ : Type) where
  | and (args : List (CompiledCondition ν τ))
  | or (args : List (CompiledCondition ν τ))
  | not (arg : Option (CompiledCondition ν τ))
  | compare (op : CmpOp) (args : List (CompiledArgValue ν τ))
  | equality (ne : Bool) (args : List (CompiledArgValue ν τ))
  | stringMatch (ends : Bool) (args : List (CompiledArgValue ν τ))
  | arrayMatch (kind : ArrKind) (args : List (CompiledArgValue ν τ))
  | lengthBool (args : List (CompiledArgValue ν τ))
  | isDefined (arg : Option (CompiledArgValue ν τ))
  | isEmpty (arg : Option (CompiledArgValue ν τ))
  | isNotEmpty (arg : Option (CompiledArgValue ν τ))
  | error (message : String)

/-- A compiled argument that is evaluated to a value; `lengthValue none` is a `LENGTH` without
arguments. -/
inductive CompiledArgValue (ν τ : Type) where
  | lengthValue (args : Option (List (CompiledArgValue ν τ)))
  | condition (c : CompiledCondition ν τ)
  | value (m : CompiledMapping ν τ)

end

/-- A compiled input mapping. -/
inductive CompiledInputMapping (ν τ : Type) where
  | entries (es : List (String × CompiledMapping ν τ))
  | error (message : String)

/-! ### Compilation -/

/-- The `reference` arm of `compile_mapping`. -/
def compileReference (map : Value ν) (τ : Type) : CompiledMapping ν τ :=
  match (map.get "value").bind Value.asStr with
  | some path =>
    .reference ⟨pathToSegments path, map.get "default", (map.get "type").bind Value.asStr⟩
  | none => .error "reference mapping value must be a string path"

/-- The `template` arm of `compile_mapping`: the template is parsed here, and a syntax error
kept. -/
def compileTemplate (engine : TemplateEngine ν) (template : String) :
    CompiledMapping ν engine.Compiled :=
  match engine.parse template with
  | .ok compiled => .template compiled
  | .error err => .error err

mutual

def compileMapping (engine : TemplateEngine ν) (value : Value ν) :
    CompiledMapping ν engine.Compiled :=
  match value with
  | .object es =>
    match ((Value.object es).get "valueType").bind Value.asStr with
    | none => .error "mapping value missing valueType"
    | some valueType =>
      if valueType = "reference" then compileReference (.object es) engine.Compiled
      else if valueType = "immediate" then .immediate (((Value.object es).get "value").getD .null)
      else if valueType = "composite" then
        match _h : (Value.object es).get "value" with
        | some composite => compileComposite engine composite
        | none => .error "composite mapping value must be an object or array"
      else if valueType = "template" then
        match ((Value.object es).get "value").bind Value.asStr with
        | some template => compileTemplate engine template
        | none => .error "template mapping value must be a string"
      else .error ("unsupported mapping valueType '" ++ valueType ++ "'")
  | _ => .error "mapping value must be an object"
termination_by (sizeOf value, 0)
decreasing_by exact Prod.Lex.left _ _ (sizeOf_get _h)

def compileComposite (engine : TemplateEngine ν) (value : Value ν) :
    CompiledMapping ν engine.Compiled :=
  match value with
  | .object es => .compositeObject (compileFields engine es)
  | .array vs => .compositeArray (compileItems engine vs)
  | _ => .error "composite mapping value must be an object or array"
termination_by (sizeOf value, 0)

def compileFields (engine : TemplateEngine ν) (es : Entries ν) :
    List (String × CompiledMapping ν engine.Compiled) :=
  match es with
  | [] => []
  | (key, child) :: es => (key, compileMapping engine child) :: compileFields engine es
termination_by (sizeOf es, 0)

def compileItems (engine : TemplateEngine ν) (vs : List (Value ν)) :
    List (CompiledMapping ν engine.Compiled) :=
  match vs with
  | [] => []
  | v :: vs => compileMapping engine v :: compileItems engine vs
termination_by (sizeOf vs, 0)

end

def compileInputMapping (engine : TemplateEngine ν) (mapping : Value ν) :
    CompiledInputMapping ν engine.Compiled :=
  match mapping with
  | .object es => .entries (es.map fun e => (e.1, compileMapping engine e.2))
  | _ => .error "input mapping must be a JSON object"

def compileValue (engine : TemplateEngine ν) (value : Value ν) :
    CompiledMapping ν engine.Compiled :=
  if (value.get "type").bind Value.asStr = some "value" then
    if (value.get "valueType").isSome then compileMapping engine value
    else
      match value.get "value" with
      | some inner => compileMapping engine inner
      | none => compileMapping engine value
  else compileMapping engine value

mutual

def compileCondition (engine : TemplateEngine ν) (expr : Value ν) :
    CompiledCondition ν engine.Compiled :=
  if isConditionOperation expr then .op (compileOp engine expr)
  else .truthy (compileValue engine expr)
termination_by (sizeOf expr, 2)

def compileOp (engine : TemplateEngine ν) (expr : Value ν) : CompiledOp ν engine.Compiled :=
  match (expr.get "op").bind Value.asStr with
  | none => .error "condition operation missing op"
  | some op =>
    match _h : (expr.get "arguments").bind Value.asArray with
    | none => .error "condition operation missing arguments"
    | some args => compileOperator engine op args
termination_by (sizeOf expr, 1)
decreasing_by exact Prod.Lex.left _ _ (sizeOf_getArray _h)

/-- The operators of `compile_op`. -/
def compileOperator (engine : TemplateEngine ν) (op : String) (args : List (Value ν)) :
    CompiledOp ν engine.Compiled :=
  if op = "AND" then .and (compileConditions engine args)
  else if op = "OR" then .or (compileConditions engine args)
  else if op = "NOT" then
    match args with
    | arg :: _ => .not (some (compileCondition engine arg))
    | [] => .not none
  else if op = "GT" then .compare .gt (compileArgValues engine args)
  else if op = "GTE" then .compare .gte (compileArgValues engine args)
  else if op = "LT" then .compare .lt (compileArgValues engine args)
  else if op = "LTE" then .compare .lte (compileArgValues engine args)
  else if op = "EQ" then .equality false (compileArgValues engine args)
  else if op = "NE" then .equality true (compileArgValues engine args)
  else if op = "STARTS_WITH" then .stringMatch false (compileArgValues engine args)
  else if op = "ENDS_WITH" then .stringMatch true (compileArgValues engine args)
  else if op = "CONTAINS" then .arrayMatch .contains (compileArgValues engine args)
  else if op = "IN" then .arrayMatch .isIn (compileArgValues engine args)
  else if op = "NOT_IN" then .arrayMatch .notIn (compileArgValues engine args)
  else if op = "LENGTH" then .lengthBool (compileArgValues engine args)
  else if op = "IS_DEFINED" then
    match args with
    | arg :: _ => .isDefined (some (compileArgValue engine arg))
    | [] => .isDefined none
  else if op = "IS_EMPTY" then
    match args with
    | arg :: _ => .isEmpty (some (compileArgValue engine arg))
    | [] => .isEmpty none
  else if op = "IS_NOT_EMPTY" then
    match args with
    | arg :: _ => .isNotEmpty (some (compileArgValue engine arg))
    | [] => .isNotEmpty none
  else if op ∈ queryOnlyOperators then .error (queryOnlyMessage op)
  else .error ("unsupported condition operator '" ++ op ++ "'")
termination_by (sizeOf args, 1)

def compileConditions (engine : TemplateEngine ν) (args : List (Value ν)) :
    List (CompiledCondition ν engine.Compiled) :=
  match args with
  | [] => []
  | arg :: args => compileCondition engine arg :: compileConditions engine args
termination_by (sizeOf args, 0)

def compileArgValues (engine : TemplateEngine ν) (args : List (Value ν)) :
    List (CompiledArgValue ν engine.Compiled) :=
  match args with
  | [] => []
  | arg :: args => compileArgValue engine arg :: compileArgValues engine args
termination_by (sizeOf args, 0)

def compileArgValue (engine : TemplateEngine ν) (arg : Value ν) :
    CompiledArgValue ν engine.Compiled :=
  if isConditionOperation arg then
    if (arg.get "op").bind Value.asStr = some "LENGTH" then
      match _h : (arg.get "arguments").bind Value.asArray with
      | some args => .lengthValue (some (compileArgValues engine args))
      | none => .lengthValue none
    else .condition (compileCondition engine arg)
  else .value (compileValue engine arg)
termination_by (sizeOf arg, 3)
decreasing_by
  · exact Prod.Lex.left _ _ (sizeOf_getArray _h)
  · exact Prod.Lex.right _ (by decide)

end

/-! ### Evaluation -/

variable [NumberOps ν]

def CompiledReference.resolve (scope : Scope ν) (r : CompiledReference ν) :
    Except String (Value ν) := do
  let value ← resolveLookup (lookupSegmentsDetailed scope.store scope.source r.segments) r.default
  coerceReferenceValue value r.typeHint r.default

mutual

def CompiledMapping.eval (scope : Scope ν) :
    CompiledMapping ν scope.engine.Compiled → Except String (Value ν)
  | .reference r => r.resolve scope
  | .immediate v => .ok v
  | .compositeObject fields => (evalFields scope fields []).map .object
  | .compositeArray items => (evalItems scope items).map .array
  | .template t => (scope.engine.render t (scope.store.materialize scope.source)).map .string
  | .error message => .error message

def evalFields (scope : Scope ν) : List (String × CompiledMapping ν scope.engine.Compiled) →
    Entries ν → Except String (Entries ν)
  | [], output => .ok output
  | (key, child) :: fields, output => do
    let value ← child.eval scope
    evalFields scope fields (insertEntry key value output)

def evalItems (scope : Scope ν) :
    List (CompiledMapping ν scope.engine.Compiled) → Except String (List (Value ν))
  | [] => .ok []
  | item :: items => do
    let value ← item.eval scope
    let values ← evalItems scope items
    .ok (value :: values)

end

def evalEntries (scope : Scope ν) : List (String × CompiledMapping ν scope.engine.Compiled) →
    Entries ν → Except String (Entries ν)
  | [], output => .ok output
  | (key, child) :: es, output => do
    let value ← child.eval scope
    evalEntries scope es (insertNested output key value)

def CompiledInputMapping.eval (scope : Scope ν) :
    CompiledInputMapping ν scope.engine.Compiled → Except String (Value ν)
  | .entries es => (evalEntries scope es []).map .object
  | .error message => .error message

/-- The comparison of `CompiledOp::Compare`. -/
def CmpOp.holds (op : CmpOp) (left right : Float) : Bool :=
  match op with
  | .gt => right < left
  | .gte => right ≤ left
  | .lt => left < right
  | .lte => left ≤ right

/-- `CompiledOp::Compare` on the evaluated arguments. -/
def CmpOp.test (op : CmpOp) (left right : Value ν) : Bool :=
  match toNumber left, toNumber right with
  | some l, some r => op.holds l r
  | _, _ => false

/-- `CompiledOp::StringMatch` on the evaluated arguments. -/
def stringTest (ends : Bool) (left right : Value ν) : Bool :=
  match left.asStr, right.asStr with
  | some l, some r => if ends then r.toList.isSuffixOf l.toList else r.toList.isPrefixOf l.toList
  | _, _ => false

/-- `CompiledOp::ArrayMatch` on the evaluated arguments. -/
def ArrKind.test (kind : ArrKind) (left right : Value ν) : Bool :=
  let matched := match kind with
    | .contains => left.asArray.any fun items => items.any fun item => valuesEqual item right
    | .isIn => right.asArray.any fun items => items.any fun item => valuesEqual left item
    | .notIn => right.asArray.any fun items => items.any fun item => valuesEqual left item
  if kind = .notIn then !matched else matched

mutual

def CompiledCondition.eval (scope : Scope ν) :
    CompiledCondition ν scope.engine.Compiled → Except String Bool
  | .op o => o.eval scope
  | .truthy m => (m.eval scope).map isTruthy

def CompiledOp.eval (scope : Scope ν) : CompiledOp ν scope.engine.Compiled → Except String Bool
  | .and args => evalAllOf scope true args
  | .or args => evalAnyOf scope false args
  | .not (some arg) => (arg.eval scope).map (!·)
  | .not none => .ok true
  | .compare op args => evalTest scope op.test args
  | .equality ne args =>
    evalTest scope (fun l r => if ne then !valuesEqual l r else valuesEqual l r) args
  | .stringMatch ends args => evalTest scope (stringTest ends) args
  | .arrayMatch kind args => evalTest scope kind.test args
  | .lengthBool args => (compiledLengthValue scope args).map lengthHolds
  | .isDefined (some arg) => (arg.eval scope).map (!Value.isNull ·)
  | .isDefined none => .ok false
  | .isEmpty (some arg) => (arg.eval scope).map isEmptyValue
  | .isEmpty none => .ok true
  | .isNotEmpty (some arg) => (arg.eval scope).map isNotEmptyValue
  | .isNotEmpty none => .ok false
  | .error message => .error message

def evalAllOf (scope : Scope ν) :
    Bool → List (CompiledCondition ν scope.engine.Compiled) → Except String Bool
  | acc, [] => .ok acc
  | acc, arg :: args => do
    let acc ← if !acc then .ok false else arg.eval scope
    evalAllOf scope acc args

def evalAnyOf (scope : Scope ν) :
    Bool → List (CompiledCondition ν scope.engine.Compiled) → Except String Bool
  | acc, [] => .ok acc
  | acc, arg :: args => do
    let acc ← if acc then .ok true else arg.eval scope
    evalAnyOf scope acc args

def evalTest (scope : Scope ν) (test : Value ν → Value ν → Bool) :
    List (CompiledArgValue ν scope.engine.Compiled) → Except String Bool
  | a :: b :: _ => do
    let left ← a.eval scope
    let right ← b.eval scope
    .ok (test left right)
  | _ => .ok false

def compiledLengthValue (scope : Scope ν) :
    List (CompiledArgValue ν scope.engine.Compiled) → Except String (Value ν)
  | [] => .ok (.number (NumberOps.ofI64 0))
  | arg :: _ => do
    let value ← arg.eval scope
    .ok (.number (NumberOps.ofI64 (lengthOf value)))

def CompiledArgValue.eval (scope : Scope ν) :
    CompiledArgValue ν scope.engine.Compiled → Except String (Value ν)
  | .lengthValue (some args) => compiledLengthValue scope args
  | .lengthValue none => .error "LENGTH condition missing arguments"
  | .condition c => (c.eval scope).map .bool
  | .value m => m.eval scope

end

end Runtara
