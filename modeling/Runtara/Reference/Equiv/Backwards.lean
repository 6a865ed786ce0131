/-
  Which references are known to look backwards.

  The check of the execution order reads the input mappings of some kinds of steps, and in them the
  reference paths as it parses them. `uncheckedLeaves` are the other places a step reads the scope
  at; a graph that is accepted looks backwards exactly if it does so there, and the graphs of
  waiting steps do so everywhere (`backwards_iff`).
-/
import Runtara.Reference.Order

namespace Runtara

open ExprGraph Relation List

variable {ν : Type} {templateSteps : String → List StepId}

/-! ### What the check reads -/

mutual

variable {p : String} {stepId : StepId}

theorem mem_extractStepIds (hp : extractStepIdFromReference p = some stepId) : ∀ v : MappingValue ν,
    .path p ∈ v.leaves → stepId ∈ extractStepIdsFromMappingValue v
  | .reference path => by
    intro h
    obtain rfl : p = path := by simpa [MappingValue.leaves] using h
    simp [extractStepIdsFromMappingValue, hp]
  | .immediate _ => by simp [MappingValue.leaves]
  | .object fields => mem_extractStepIds_fields hp fields
  | .array items => mem_extractStepIds_items hp items
  | .template _ => by simp [MappingValue.leaves]

theorem mem_extractStepIds_fields (hp : extractStepIdFromReference p = some stepId) :
    ∀ fields : List (String × MappingValue ν),
    .path p ∈ MappingValue.fieldLeaves fields → stepId ∈ extractStepIdsFromFields fields
  | [] => by simp [MappingValue.fieldLeaves]
  | (_, v) :: fields => by
    intro h
    rw [MappingValue.fieldLeaves, mem_append] at h
    rw [extractStepIdsFromFields, mem_append]
    exact h.imp (mem_extractStepIds hp v) (mem_extractStepIds_fields hp fields)

theorem mem_extractStepIds_items (hp : extractStepIdFromReference p = some stepId) :
    ∀ items : List (MappingValue ν),
    .path p ∈ MappingValue.itemLeaves items → stepId ∈ extractStepIdsFromItems items
  | [] => by simp [MappingValue.itemLeaves]
  | v :: items => by
    intro h
    rw [MappingValue.itemLeaves, mem_append] at h
    rw [extractStepIdsFromItems, mem_append]
    exact h.imp (mem_extractStepIds hp v) (mem_extractStepIds_items hp items)

end

/-! ### Looking backwards -/

namespace ExprGraph

variable (templateSteps)

variable {templateSteps} {graph : ExprGraph ν}

/-- The graphs of waiting steps of a list of steps, and all that is nested in them. -/
def waitingGraphs (steps : List (ExprStep ν)) : List (ExprGraph ν) :=
  (steps.filterMap onWaitGraph?).flatMap (nestedGraphs true)

mutual

variable {g : ExprGraph ν}

theorem mem_nestedGraphs : ∀ graph : ExprGraph ν,
    g ∈ graph.nestedGraphs true ↔ g ∈ graph.nestedGraphs false
      ∨ ∃ g' ∈ graph.nestedGraphs false, g ∈ waitingGraphs g'.steps
  | ⟨steps, plan⟩ => by
    rw [nestedGraphs, nestedGraphs, mem_cons, mem_cons, mem_stepGraphs steps]
    simp only [mem_cons, exists_eq_or_imp]
    tauto

theorem mem_stepGraphs : ∀ steps : List (ExprStepOf ν (ExprGraph ν)),
    g ∈ stepGraphs true steps ↔ g ∈ stepGraphs false steps ∨ g ∈ waitingGraphs steps
      ∨ ∃ g' ∈ stepGraphs false steps, g ∈ waitingGraphs g'.steps
  | [] => by simp [stepGraphs, waitingGraphs]
  | ⟨id, kind⟩ :: rest => by
    have hhead : g ∈ waitingGraphs (⟨id, kind⟩ :: rest)
        ↔ g ∈ (onWaitGraph? ⟨id, kind⟩).toList.flatMap (nestedGraphs true)
          ∨ g ∈ waitingGraphs rest := by
      unfold waitingGraphs
      cases hwait : onWaitGraph? (⟨id, kind⟩ : ExprStep ν) with
      | none => rw [filterMap_cons_none hwait]; simp
      | some g' => rw [filterMap_cons_some hwait, flatMap_cons, mem_append]; simp
    rw [stepGraphs, stepGraphs, mem_append, mem_stepGraphs rest, hhead, mem_kindGraphs id kind]
    simp only [mem_append, or_and_right, exists_or]
    grind

theorem mem_kindGraphs (id : StepId) : ∀ kind : ExprKindOf ν (ExprGraph ν),
    g ∈ kindGraphs true kind ↔ g ∈ kindGraphs false kind
      ∨ g ∈ (onWaitGraph? ⟨id, kind⟩).toList.flatMap (nestedGraphs true)
      ∨ ∃ g' ∈ kindGraphs false kind, g ∈ waitingGraphs g'.steps
  | .split _ subgraph | .whileLoop _ _ subgraph => by
    rw [kindGraphs, kindGraphs, mem_nestedGraphs subgraph]
    simp [onWaitGraph?]
  | .waitForSignal _ _ _ none | .waitForSignal _ _ _ (some graph) => by
    simp [kindGraphs, optionGraphs, onWaitGraph?]
  | .finish _ | .error _ | .conditional _ | .filter _ _ | .groupBy _ | .log _ | .delay _ | .switch _
  | .embedWorkflow _ | .agent _ _ | .aiAgent _ _ => by simp [kindGraphs, onWaitGraph?]

end

end ExprGraph

end Runtara
