/-
  Compiled expressions agree with the interpreter.

  The two evaluators recurse in the same way over the expression, so they are compared part by
  part: mappings first (`eval_compileMapping`), then operations (`eval_compileOp`), each from the
  agreement on smaller expressions.
-/
import Runtara.Expr.Compiled

namespace Runtara

open Json

variable {ν : Type}

/-! ### Tests on two values -/

theorem stringTest_eq (ends : Bool) (name : String) (h : ends = decide (name ≠ "STARTS_WITH")) :
    (stringTest ends : Value ν → Value ν → Bool) = stringMatch name := by
  funext left right
  subst h
  unfold stringTest stringMatch
  cases left.asStr with
  | none => rfl
  | some l =>
    cases right.asStr with
    | none => rfl
    | some r =>
      simp only [decide_eq_true_eq]
      by_cases hstarts : name = "STARTS_WITH"
      · rw [if_pos hstarts, if_neg (not_not_intro hstarts)]
      · rw [if_neg hstarts, if_pos hstarts]

variable [NumberOps ν]

theorem comparison_eq (op : CmpOp) (name : String)
    (h : ∀ l r, compareNumbers name l r = op.holds l r) :
    (op.test : Value ν → Value ν → Bool) = comparison name := by
  funext left right
  unfold CmpOp.test comparison
  cases toNumber left with
  | none => rfl
  | some l =>
    cases toNumber right with
    | none => rfl
    | some r => exact (h l r).symm

theorem equality_eq (ne : Bool) (name : String) (h : ne = decide (name = "NE")) :
    (fun l r : Value ν => if ne then !valuesEqual l r else valuesEqual l r) = equality name := by
  funext left right
  subst h
  unfold equality
  by_cases hne : name = "NE"
  · rw [if_pos hne, if_pos (decide_eq_true hne)]
  · rw [if_neg hne, if_neg (by rw [decide_eq_true_eq]; exact hne)]

theorem arrayTest_contains :
    (ArrKind.contains.test : Value ν → Value ν → Bool) = arrayMatch "CONTAINS" := by
  funext left right
  simp [ArrKind.test, arrayMatch]

theorem arrayTest_isIn : (ArrKind.isIn.test : Value ν → Value ν → Bool) = arrayMatch "IN" := by
  funext left right
  simp [ArrKind.test, arrayMatch]

theorem arrayTest_notIn :
    (ArrKind.notIn.test : Value ν → Value ν → Bool) = arrayMatch "NOT_IN" := by
  funext left right
  simp [ArrKind.test, arrayMatch]

variable (scope : Scope ν)

/-! ### Mappings -/

theorem eval_compileReference (map : Value ν) :
    (compileReference map scope.engine.Compiled).eval scope = applyReference scope map := by
  unfold compileReference applyReference
  cases (map.get "value").bind Value.asStr with
  | none | some => rfl

/-- A template that is parsed first renders as one that is not, and a syntax error is the same. -/
theorem eval_compileTemplate (template : String) :
    (compileTemplate scope.engine template).eval scope
      = (scope.engine.renderTemplate template (scope.store.materialize scope.source)).map
          .string := by
  unfold compileTemplate
  rw [scope.engine.renderTemplate_eq]
  cases scope.engine.parse template with
  | ok | error => rfl

/-- A composite value, given what is known of its parts. The two sides are unfolded one after the
other: each has its own dependent match on the same field. -/
theorem eval_compileMapping_composite {es : Entries ν}
    (htype : ((Value.object es).get "valueType").bind Value.asStr = some "composite")
    (hparts : ∀ composite, (Value.object es).get "value" = some composite →
      (compileComposite scope.engine composite).eval scope = applyComposite scope composite) :
    (compileMapping scope.engine (.object es)).eval scope
      = applyMappingValue scope (.object es) := by
  rw [compileMapping.eq_def]
  simp only [htype]
  rw [if_neg (by decide), if_neg (by decide), if_pos trivial]
  split
  · next composite hget =>
    rw [hparts composite hget, applyMappingValue.eq_def]
    simp only [htype]
    rw [if_neg (by decide), if_neg (by decide), if_pos trivial]
    split
    · next composite' hget' => rw [Option.some.inj (hget.symm.trans hget')]
    · next hnone => rw [hget] at hnone; cases hnone
  · next hget =>
    rw [applyMappingValue.eq_def]
    simp only [htype]
    rw [if_neg (by decide), if_neg (by decide), if_pos trivial]
    split
    · next composite' hget' => rw [hget] at hget'; cases hget'
    · rfl

mutual

theorem eval_compileMapping (value : Value ν) :
    (compileMapping scope.engine value).eval scope = applyMappingValue scope value := by
  cases value with
  | object es =>
    by_cases hcomposite : ((Value.object es).get "valueType").bind Value.asStr = some "composite"
    · refine eval_compileMapping_composite scope hcomposite fun composite hget => ?_
      have hlt := sizeOf_get hget
      exact eval_compileComposite composite
    rw [compileMapping.eq_def, applyMappingValue.eq_def]
    simp only
    cases htype : ((Value.object es).get "valueType").bind Value.asStr with
    | none => rfl
    | some valueType =>
      have hcomposite : valueType ≠ "composite" := fun h => hcomposite (by rw [htype, h])
      simp only
      by_cases hreference : valueType = "reference"
      · rw [if_pos hreference, if_pos hreference]
        exact eval_compileReference scope _
      rw [if_neg hreference, if_neg hreference]
      by_cases himmediate : valueType = "immediate"
      · rw [if_pos himmediate, if_pos himmediate]
        rfl
      rw [if_neg himmediate, if_neg himmediate]
      rw [if_neg hcomposite, if_neg hcomposite]
      by_cases htemplate : valueType = "template"
      · rw [if_pos htemplate, if_pos htemplate]
        cases ((Value.object es).get "value").bind Value.asStr with
        | none => rfl
        | some template =>
          exact eval_compileTemplate scope template
      rw [if_neg htemplate, if_neg htemplate]
      rfl
  | _ =>
    rw [compileMapping.eq_def, applyMappingValue.eq_def]
    rfl
termination_by (sizeOf value, 0)
decreasing_by exact Prod.Lex.left _ _ hlt

theorem eval_compileComposite (value : Value ν) :
    (compileComposite scope.engine value).eval scope = applyComposite scope value := by
  rw [compileComposite.eq_def, applyComposite.eq_def]
  cases value with
  | object es => simp only [CompiledMapping.eval, evalFields_compileFields es]
  | array vs => simp only [CompiledMapping.eval, evalItems_compileItems vs]
  | _ => rfl
termination_by (sizeOf value, 0)

theorem evalFields_compileFields (es : Entries ν) (output : Entries ν) :
    evalFields scope (compileFields scope.engine es) output = applyFields scope es output := by
  rw [compileFields.eq_def, applyFields.eq_def]
  match es with
  | [] => rfl
  | (key, child) :: es =>
    have hrest := fun output => evalFields_compileFields es output
    simp only [evalFields, eval_compileMapping child, hrest]
termination_by (sizeOf es, 0)

theorem evalItems_compileItems (vs : List (Value ν)) :
    evalItems scope (compileItems scope.engine vs) = applyItems scope vs := by
  rw [compileItems.eq_def, applyItems.eq_def]
  match vs with
  | [] => rfl
  | v :: vs => simp only [evalItems, eval_compileMapping v, evalItems_compileItems vs]
termination_by (sizeOf vs, 0)

end

theorem evalEntries_compile (es : Entries ν) (output : Entries ν) :
    evalEntries scope (es.map fun e => (e.1, compileMapping scope.engine e.2)) output
      = applyEntries scope es output := by
  induction es generalizing output with
  | nil => rfl
  | cons e es ih =>
    simp only [List.map_cons, evalEntries, applyEntries, eval_compileMapping, ih]

theorem eval_compileInputMapping (mapping : Value ν) :
    (compileInputMapping scope.engine mapping).eval scope = applyInputMapping scope mapping := by
  cases mapping with
  | object es =>
    simp only [compileInputMapping, CompiledInputMapping.eval, applyInputMapping,
      evalEntries_compile]
  | _ => rfl

theorem eval_compileValue (value : Value ν) :
    (compileValue scope.engine value).eval scope = evalConditionValue scope value := by
  unfold compileValue evalConditionValue
  split
  · split
    · exact eval_compileMapping scope value
    · cases value.get "value" with
      | none => exact eval_compileMapping scope value
      | some inner => exact eval_compileMapping scope inner
  · exact eval_compileMapping scope value

/-! ### Conditions -/

mutual

theorem eval_compileCondition (expr : Value ν) :
    (compileCondition scope.engine expr).eval scope = evalConditionExpression scope expr := by
  rw [compileCondition.eq_def, evalConditionExpression.eq_def]
  split
  · exact eval_compileOp expr
  · simp only [CompiledCondition.eval, eval_compileValue]
termination_by (sizeOf expr, 2)

theorem eval_compileOp (expr : Value ν) :
    (compileOp scope.engine expr).eval scope = evalConditionOperation scope expr := by
  rw [compileOp.eq_def]
  cases hop : (expr.get "op").bind Value.asStr with
  | none =>
    rw [evalConditionOperation.eq_def, hop]
    rfl
  | some op =>
    simp only
    split
    · next hargs =>
      rw [evalConditionOperation.eq_def, hop]
      simp only
      split
      · rfl
      · next args' hargs' => rw [hargs] at hargs'; cases hargs'
    next args hargs =>
    rw [evalConditionOperation.eq_def, hop]
    simp only
    split
    · next hnone => rw [hargs] at hnone; cases hnone
    next args' hargs' =>
    obtain rfl : args = args' := Option.some.inj (hargs.symm.trans hargs')
    have hlt := sizeOf_getArray hargs
    exact eval_compileOperator op args
termination_by (sizeOf expr, 1)

theorem eval_compileOperator (op : String) (args : List (Value ν)) :
    (compileOperator scope.engine op args).eval scope = evalOperator scope op args := by
  rw [compileOperator.eq_def, evalOperator.eq_def]
  by_cases hand : op = "AND"
  · rw [if_pos hand, if_pos hand]
    exact evalAllOf_compileConditions true args
  rw [if_neg hand, if_neg hand]
  by_cases hor : op = "OR"
  · rw [if_pos hor, if_pos hor]
    exact evalAnyOf_compileConditions false args
  rw [if_neg hor, if_neg hor]
  by_cases hnot : op = "NOT"
  · rw [if_pos hnot, if_pos hnot]
    match args with
    | [] => rfl
    | arg :: args => simp only [CompiledOp.eval, eval_compileCondition arg]
  rw [if_neg hnot, if_neg hnot]
  -- the interpreter takes the operators of a kind together
  by_cases hcompare : op = "GT" ∨ op = "GTE" ∨ op = "LT" ∨ op = "LTE"
  · rw [if_pos hcompare, ← evalTest_compileArgValues _ args]
    rcases hcompare with rfl | rfl | rfl | rfl
    · rw [← comparison_eq .gt "GT" fun _ _ => rfl]
      rfl
    · rw [← comparison_eq .gte "GTE" fun _ _ => rfl]
      rfl
    · rw [← comparison_eq .lt "LT" fun _ _ => rfl]
      rfl
    · rw [← comparison_eq .lte "LTE" fun _ _ => rfl]
      rfl
  rw [if_neg hcompare]
  simp only [not_or] at hcompare
  obtain ⟨hgt, hgte, hlt, hlte⟩ := hcompare
  rw [if_neg hgt, if_neg hgte, if_neg hlt, if_neg hlte]
  by_cases hequality : op = "EQ" ∨ op = "NE"
  · rw [if_pos hequality, ← evalTest_compileArgValues _ args]
    rcases hequality with rfl | rfl
    · rw [← equality_eq false "EQ" rfl]
      rfl
    · rw [← equality_eq true "NE" rfl]
      rfl
  rw [if_neg hequality]
  simp only [not_or] at hequality
  rw [if_neg hequality.1, if_neg hequality.2]
  by_cases hstring : op = "STARTS_WITH" ∨ op = "ENDS_WITH"
  · rw [if_pos hstring, ← evalTest_compileArgValues _ args]
    rcases hstring with rfl | rfl
    · rw [← stringTest_eq false "STARTS_WITH" rfl]
      rfl
    · rw [← stringTest_eq true "ENDS_WITH" rfl]
      rfl
  rw [if_neg hstring]
  simp only [not_or] at hstring
  rw [if_neg hstring.1, if_neg hstring.2]
  by_cases harray : op = "CONTAINS" ∨ op = "IN" ∨ op = "NOT_IN"
  · rw [if_pos harray, ← evalTest_compileArgValues _ args]
    rcases harray with rfl | rfl | rfl
    · rw [← arrayTest_contains]
      rfl
    · rw [← arrayTest_isIn]
      rfl
    · rw [← arrayTest_notIn]
      rfl
  rw [if_neg harray]
  simp only [not_or] at harray
  rw [if_neg harray.1, if_neg harray.2.1, if_neg harray.2.2]
  by_cases hlength : op = "LENGTH"
  · rw [if_pos hlength, if_pos hlength]
    simp only [CompiledOp.eval, compiledLengthValue_compileArgValues args]
  rw [if_neg hlength, if_neg hlength]
  by_cases hdefined : op = "IS_DEFINED"
  · rw [if_pos hdefined, if_pos hdefined]
    match args with
    | [] => rfl
    | arg :: args => simp only [CompiledOp.eval, eval_compileArgValue arg]
  rw [if_neg hdefined, if_neg hdefined]
  by_cases hempty : op = "IS_EMPTY"
  · rw [if_pos hempty, if_pos hempty]
    match args with
    | [] => rfl
    | arg :: args => simp only [CompiledOp.eval, eval_compileArgValue arg]
  rw [if_neg hempty, if_neg hempty]
  by_cases hnotEmpty : op = "IS_NOT_EMPTY"
  · rw [if_pos hnotEmpty, if_pos hnotEmpty]
    match args with
    | [] => rfl
    | arg :: args => simp only [CompiledOp.eval, eval_compileArgValue arg]
  rw [if_neg hnotEmpty, if_neg hnotEmpty]
  split <;> rfl
termination_by (sizeOf args, 1)

theorem evalAllOf_compileConditions (acc : Bool) (args : List (Value ν)) :
    evalAllOf scope acc (compileConditions scope.engine args) = evalAnd scope acc args := by
  rw [compileConditions.eq_def, evalAnd.eq_def]
  match args with
  | [] => rfl
  | arg :: args =>
    have hrest := fun acc => evalAllOf_compileConditions acc args
    simp only [evalAllOf, eval_compileCondition arg, hrest]
termination_by (sizeOf args, 0)

theorem evalAnyOf_compileConditions (acc : Bool) (args : List (Value ν)) :
    evalAnyOf scope acc (compileConditions scope.engine args) = evalOr scope acc args := by
  rw [compileConditions.eq_def, evalOr.eq_def]
  match args with
  | [] => rfl
  | arg :: args =>
    have hrest := fun acc => evalAnyOf_compileConditions acc args
    simp only [evalAnyOf, eval_compileCondition arg, hrest]
termination_by (sizeOf args, 0)

theorem evalTest_compileArgValues (test : Value ν → Value ν → Bool) (args : List (Value ν)) :
    evalTest scope test (compileArgValues scope.engine args) = evalPair scope test args := by
  rw [evalPair.eq_def]
  match args with
  | [] | [a] => simp only [compileArgValues, evalTest]
  | a :: b :: args =>
    simp only [compileArgValues, evalTest, eval_compileArgValue a, eval_compileArgValue b]
termination_by (sizeOf args, 0)

theorem compiledLengthValue_compileArgValues (args : List (Value ν)) :
    compiledLengthValue scope (compileArgValues scope.engine args) =
      evalLengthAsValue scope args := by
  rw [evalLengthAsValue.eq_def]
  match args with
  | [] => simp only [compileArgValues, compiledLengthValue]
  | a :: args => simp only [compileArgValues, compiledLengthValue, eval_compileArgValue a]
termination_by (sizeOf args, 0)

theorem eval_compileArgValue (arg : Value ν) :
    (compileArgValue scope.engine arg).eval scope = evalConditionArgumentAsValue scope arg := by
  rw [compileArgValue.eq_def]
  by_cases hoperation : isConditionOperation arg
  · rw [if_pos hoperation]
    by_cases hlength : (arg.get "op").bind Value.asStr = some "LENGTH"
    · rw [if_pos hlength]
      split
      · next args hargs =>
        have hlt := sizeOf_getArray hargs
        rw [evalConditionArgumentAsValue.eq_def, if_pos hoperation, if_pos hlength]
        split
        · next args' hargs' =>
          obtain rfl : args = args' := Option.some.inj (hargs.symm.trans hargs')
          simp only [CompiledArgValue.eval, compiledLengthValue_compileArgValues args]
        · next hnone => rw [hargs] at hnone; cases hnone
      · next hargs =>
        rw [evalConditionArgumentAsValue.eq_def, if_pos hoperation, if_pos hlength]
        split
        · next args' hargs' => rw [hargs] at hargs'; cases hargs'
        · rfl
    · rw [if_neg hlength, evalConditionArgumentAsValue.eq_def, if_pos hoperation, if_neg hlength]
      simp only [CompiledArgValue.eval, eval_compileCondition arg]
  · rw [if_neg hoperation, evalConditionArgumentAsValue.eq_def, if_neg hoperation]
    simp only [CompiledArgValue.eval, eval_compileValue]
termination_by (sizeOf arg, 3)

end

/-- **Compiled expressions agree with the interpreter**: for every JSON value taken as a condition
or as an input mapping, well formed or not, and every source, evaluating the compiled form gives
the result of the interpreter, be it a value or an error message. -/
theorem compiled_eq_interpreter (expr : Value ν) :
    (compileCondition scope.engine expr).eval scope = evalConditionExpression scope expr
      ∧ (compileMapping scope.engine expr).eval scope = applyMappingValue scope expr
      ∧ (compileInputMapping scope.engine expr).eval scope = applyInputMapping scope expr :=
  ⟨eval_compileCondition scope expr, eval_compileMapping scope expr,
    eval_compileInputMapping scope expr⟩

end Runtara
