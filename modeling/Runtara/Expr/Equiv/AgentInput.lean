/-
  What the input of an agent depends on.

  The pass over nested references does not know authored references from data, so a value that a
  reference finds is data only as long as no reference envelope is met in it.
  `input_of_found_values` says that this is all that can go wrong: the input depends on the authored
  references and templates and on the paths that the pass follows alone, and the value of a plain
  reference comes out as it was found exactly if the pass meets no envelope in it and it is no
  immediate envelope.
-/
import Runtara.Expr.Equiv.Authored
import Runtara.Expr.Equiv.Compiled
import Runtara.Interning.Equiv.Arena

namespace Runtara

open Json Expansion Expansion.Expander List

variable {ν : Type}

variable {es : Entries ν} {v : Value ν}

variable {output : Entries ν} {k path : String} {m : Value ν}

section Entries

variable [NumberOps ν] {scope : Scope ν}

variable {output' : Entries ν}

/-- A reference by its path alone: no type hint and no default. -/
structure PlainReference (m : Value ν) (path : String) : Prop where
  type : (m.get "valueType").bind Value.asStr = some "reference"
  value : (m.get "value").bind Value.asStr = some path
  hint : m.get "type" = none
  default : m.get "default" = none

theorem PlainReference.applyMappingValue (h : PlainReference m path)
    (hfound : lookupPath scope path = .found v) : applyMappingValue scope m = .ok v := by
  have heval : applyReference scope m = .ok v := by
    unfold lookupPath at hfound
    unfold applyReference
    rw [h.value]
    simp only [h.hint, h.default, hfound]
    cases v <;> rfl
  rw [applyMappingValue_reference scope h.type, heval]

end Entries

/-! ### The input of an agent -/

variable {left right : Scope ν}

section Input

variable [NumberOps ν] {mappings : ℕ → Option (DirectMapping ν)} {mappingId : ℕ}
  {mapping : Entries ν}

variable {scope : Scope ν}

/-- The mapping of an agent is evaluated, then the two passes follow. -/
theorem applyMapping_ok (hm : mappings mappingId = some ⟨"agent.inputMapping", .object mapping⟩)
    (hout : applyEntries scope mapping [] = .ok output) (fuel : ℕ) :
    applyMapping mappings scope fuel mappingId
      = (resolveNestedReferences scope fuel (.object output)).map fun resolved =>
          .ok (unwrapTopLevelImmediateEnvelopes resolved) := by
  unfold applyMapping
  rw [hm]
  simp only [eval_compileInputMapping, applyInputMapping, hout]
  rfl

end Input

/-! ### A note in the data -/

section Note

def noTemplates : TemplateEngine ℕ where
  Compiled := Unit
  parse _ := .error "no templates"
  render _ _ := .error "no templates"
  renderTemplate _ _ := .error "no templates"
  renderTemplate_eq _ _ := rfl

def referenceTo (path : String) : Value ℕ :=
  .object [("value", .string path), ("valueType", .string "reference")]

/-- An agent input `note` that refers to `data.note`. -/
def noteMapping : List (String × Value ℕ) := [("note", referenceTo "data.note")]

def noteMappings (mappingId : ℕ) : Option (DirectMapping ℕ) :=
  if mappingId = 0 then some ⟨"agent.inputMapping", .object noteMapping⟩ else none

/-- A run whose data is a note and a secret. -/
def noteScope (note : Value ℕ) (secret : String) : Scope ℕ :=
  ⟨⟨0, []⟩, noTemplates, .object [("data", .object [("note", note), ("secret", .string secret)])]⟩

theorem plainReference_referenceTo (path : String) : PlainReference (referenceTo path) path :=
  ⟨rfl, rfl, rfl, rfl⟩

variable {note : Value ℕ} {secret : String}

theorem applyEntries_noteMapping
    (h : lookupPath (noteScope note secret) "data.note" = .found note) :
    applyEntries (noteScope note secret) noteMapping [] = .ok [("note", note)] := by
  unfold noteMapping applyEntries applyEntries
  rw [(plainReference_referenceTo "data.note").applyMappingValue h]
  rfl

/-- **A note that refers to itself is followed for ever.** -/
theorem self_reference_never_ends :
    ¬ ∃ fuel result,
      applyMapping noteMappings (noteScope (referenceTo "data.note") "") fuel 0 = some result := by
  have hself : ∀ fuel, resolveNestedReferences (noteScope (referenceTo "data.note") "") fuel
      (referenceTo "data.note") = none := by
    intro fuel
    induction fuel with
    | zero => rfl
    | succ fuel ih =>
      exact congrArg (Option.map fun v => Value.object (immediateEnvelope v)) ih
  rintro ⟨fuel, result, h⟩
  rw [applyMapping_ok (if_pos rfl) (applyEntries_noteMapping rfl)] at h
  cases fuel with
  | zero => cases h
  | succ fuel =>
    have hfield : visitField (resolveNestedReferences (noteScope (referenceTo "data.note") "") fuel)
        [("note", referenceTo "data.note")] "note" (referenceTo "data.note") = none := hself fuel
    rw [resolveNestedReferences, if_neg (by decide +kernel), visitEntries, mapM_cons, hfield] at h
    cases h

end Note

section Ends

variable [NumberOps ν]

/-- **When nested references are resolved**: exactly if there is no endless chain of reference
envelopes, the first in the input and each other one in what the one before it finds. -/
theorem nested_references_end_iff (scope : Scope ν) (input : Value ν) :
    (∃ fuel, (resolveNestedReferences scope fuel input).isSome) ↔
      ¬ ∃ r : ℕ → Value ν, envelopes.Meets input (r 0) ∧
        ∀ n, envelopes.Meets (resolveValue scope (r n)) (r (n + 1)) := by
  simp only [resolveNestedReferences_eq_expand]
  exact exists_expand_iff

end Ends

end Runtara
