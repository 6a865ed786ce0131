/-
  References do not see handles.

  `lookup_segments_detailed` resolves the handles on its way, so that it finds in a scope what it
  finds in the materialized scope. A handle whose value was collected is the exception: it is left
  as it is, where `materialize` has null, and a path that goes on with one of the two keys of a
  handle can tell the difference.
-/
import Runtara.Interning.Equiv.Materialize

namespace Runtara

open Json

section

variable {ν : Type} [NumberOps ν] {s : ValueStore}

namespace ValueStore

/-! ### Live values -/

variable (ν) in
/-- The id and all that is inside its value are in the store. -/
def LiveId (s : ValueStore) (id : UInt64) : Prop :=
  ∀ id', Relation.ReflTransGen (s.Inside ν) id id' → (s.stored (ν := ν) id').isSome

/-- No handle in the value dangles, nor one inside the value of a handle. -/
def Live (s : ValueStore) (v : Value ν) : Prop := s.AllHandles (s.LiveId ν) v

variable {v : Value ν} {id : UInt64}

theorem Live.stored {w : Value ν} (hv : s.Live v) (hid : s.wfrefId v = some id)
    (hw : s.stored id = some w) : s.Live w := by
  have hlive : s.LiveId ν id :=
    hv id (by rw [collectHandleIds_handle hid]; exact List.mem_cons_self)
  exact fun id' hid' id'' h => hlive id'' (.head ⟨w, hw, hid'⟩ h)

theorem Live.exists_stored (hv : s.Live v) (hid : s.wfrefId v = some id) :
    ∃ w : Value ν, s.stored id = some w := by
  have hlive : s.LiveId ν id :=
    hv id (by rw [collectHandleIds_handle hid]; exact List.mem_cons_self)
  exact Option.isSome_iff_exists.mp (hlive id .refl)

/-- The path reads nothing of a handle itself: no handle dangles, or the path does not have the
keys of a handle. -/
def Readable (s : ValueStore) (path : List String) (v : Value ν) : Prop :=
  s.Live v ∨ "$wfref" ∉ path ∧ "$wfnonce" ∉ path

/-! ### One segment -/

theorem derefHandle_of_wfrefId (h : s.wfrefId v = none) : s.derefHandle v = v := by
  rw [derefHandle, h]
  rfl

theorem derefHandle_materialize (hs : s.WellFormed ν) (v : Value ν) :
    s.derefHandle (s.materialize v) = s.materialize v :=
  derefHandle_of_wfrefId (wfrefId_materialize hs v)

theorem materialize_materialize (hs : s.WellFormed ν) (v : Value ν) :
    s.materialize (s.materialize v) = s.materialize v :=
  materialize_of_collectHandleIds (collectHandleIds_materialize hs v)

/-- What is indexed in a materialized value. -/
def Descent.materialize (s : ValueStore) : Descent ν → Descent ν
  | .child v => .child (s.materialize v)
  | .absent => .absent
  | .mismatch => .mismatch

/-- A segment leads to the same place in the materialized value. -/
theorem descend_materialize (hs : s.Ordered ν) (hv : s.wfrefId v = none) (segment : String) :
    descend (s.materialize v) segment = Descent.materialize s (descend v segment) := by
  cases v with
  | object es =>
    rw [materialize_object hs hv]
    simp only [descend, lookupEntry_map]
    cases lookupEntry segment es <;> rfl
  | array vs =>
    rw [materialize_array hs]
    simp only [descend, List.length_map]
    split
    · cases arrayIndex segment vs.length with
      | none => rfl
      | some i =>
        simp only [Option.bind_some, List.getElem?_map]
        cases vs[i]? <;> rfl
    · rfl
  | _ => rw [materialize_leaf] <;> first | rfl | (intro _ h; cases h)

variable {segment : String}

/-- Only an array has a mismatch, and the message does not depend on its items. -/
theorem mismatchMessage_materialize (hs : s.Ordered ν) (hmismatch : descend v segment = .mismatch)
    (segments : List String) (depth : ℕ) :
    mismatchMessage segments depth (s.materialize v) = mismatchMessage segments depth v := by
  cases v with
  | array vs =>
    rw [materialize_array hs]
    rfl
  | object es =>
    simp only [descend] at hmismatch
    split at hmismatch <;> cases hmismatch
  | _ => cases hmismatch

/-- The children of a value are as readable as the value. -/
theorem Readable.child {child : Value ν} {path : List String} (hv : s.Readable (segment :: path) v)
    (hchild : descend v segment = .child child) : s.Readable path child := by
  rcases hv with hlive | hpath
  · left
    cases v with
    | object es =>
      simp only [descend] at hchild
      split at hchild
      · next w hw =>
        cases hchild
        exact AllHandles.entries hlive _ (mem_of_lookupEntry hw)
      · cases hchild
    | array vs =>
      simp only [descend] at hchild
      split at hchild
      · split at hchild
        · next w hw =>
          cases hchild
          obtain ⟨i, _, hi⟩ := Option.bind_eq_some_iff.mp hw
          exact allHandles_array.mp hlive _ (List.mem_of_getElem? hi)
        · cases hchild
      · cases hchild
    | _ => cases hchild
  · exact Or.inr ⟨fun h => hpath.1 (List.mem_cons_of_mem _ h),
      fun h => hpath.2 (List.mem_cons_of_mem _ h)⟩

theorem descend_handle (hid : s.wfrefId v = some id) (href : segment ≠ "$wfref")
    (hnonce : segment ≠ "$wfnonce") : descend v segment = .absent := by
  cases v with
  | object es =>
    cases hlookup : lookupEntry segment es with
    | none => simp only [descend, hlookup]
    | some w =>
      rw [wfrefId_eq_none (mem_of_lookupEntry hlookup) href hnonce] at hid
      cases hid
  | _ => cases hid

/-! ### Paths -/

/-- The loop from a value with its handle resolved, against the materialized value. -/
theorem lookupFrom_derefHandle (hs : s.WellFormed ν) (segments path : List String) (depth : ℕ)
    (hv : s.Readable path v) : lookupFrom s segments depth path (s.derefHandle v)
      = lookupFrom s segments depth path (s.materialize v) := by
  induction path generalizing depth v with
  | nil =>
    rw [lookupFrom, lookupFrom, materialize_materialize hs]
    cases hid : s.wfrefId v with
    | none => rw [derefHandle_of_wfrefId hid]
    | some id =>
      rw [materialize_handle hs.ordered hid]
      unfold derefHandle
      rw [hid, Option.bind_some]
      cases hw : s.stored (ν := ν) id with
      | none =>
        rw [Option.getD_none, materialize_handle hs.ordered hid, hw]
      | some w => rfl
  | cons segment path ih =>
    -- a value that is no handle: its children are found and materialized alike
    have hplain : ∀ u : Value ν, s.wfrefId u = none → s.Readable (segment :: path) u →
        lookupFrom s segments depth (segment :: path) u
          = lookupFrom s segments depth (segment :: path) (s.materialize u) := by
      intro u hu hread
      rw [lookupFrom, lookupFrom, descend_materialize hs.ordered hu]
      cases hdescend : descend u segment with
      | child c =>
        simp only [Descent.materialize]
        rw [derefHandle_materialize hs]
        exact ih (depth + 1) (hread.child hdescend)
      | absent => rfl
      | mismatch =>
        simp only [Descent.materialize]
        rw [mismatchMessage_materialize hs.ordered hdescend]
    cases hid : s.wfrefId v with
    | none =>
      rw [derefHandle_of_wfrefId hid]
      exact hplain v hid hv
    | some id =>
      rw [materialize_handle hs.ordered hid]
      unfold derefHandle
      rw [hid, Option.bind_some]
      cases hw : s.stored (ν := ν) id with
      | some w => exact hplain w (hs.boxed id w hw).1 (hv.imp_left (·.stored hid hw))
      | none =>
        -- the handle dangles, so the path does not read its keys
        rcases hv with hlive | hpath
        · obtain ⟨w, hw'⟩ := hlive.exists_stored hid
          rw [hw] at hw'
          cases hw'
        · have habsent := descend_handle hid (fun h => hpath.1 (h ▸ List.mem_cons_self))
            fun h => hpath.2 (h ▸ List.mem_cons_self)
          rw [Option.getD_none, lookupFrom, habsent]
          rfl

/-- A path finds in a scope what it finds in the materialized scope. -/
theorem lookup_materialize (hs : s.WellFormed ν) {scope : Value ν} {path : List String}
    (hscope : s.Readable path scope) :
    lookupSegmentsDetailed s scope path = lookupSegmentsDetailed s (s.materialize scope) path := by
  unfold lookupSegmentsDetailed
  rw [derefHandle_materialize hs]
  exact lookupFrom_derefHandle hs path path 0 hscope

end ValueStore

end

end Runtara
