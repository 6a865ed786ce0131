/-
  Merge patches of a report definition (`apply_json_merge_patch` in `edit_ops.rs`).

  The function is meant to be MergePatch of RFC 7386. The two go through the members of a patch
  object alike (`foldMembers`) and differ where an object is patched into something that is none:
  RFC 7386 begins there with the empty object, and the function takes the patch as it is, with the
  null members in it. `merge_patch_iff` says that this is the only difference.
-/
import Runtara.Json.Value

namespace Runtara.ReportDsl

open Json List

variable {ν : Type}

/-! ### The two recursions -/

mutual

def applyJsonMergePatch (target : Value ν) : Value ν → Value ν
  | .object patch =>
    match target with
    | .object es => .object (applyMembers es patch)
    | _ => .object patch
  | patch => patch

/-- The loop over the members of a patch object. -/
def applyMembers (es : List (String × Value ν)) :
    List (String × Value ν) → List (String × Value ν)
  | [] => es
  | (key, .null) :: patch => applyMembers (removeEntry key es) patch
  | (key, v) :: patch =>
    applyMembers
      (insertEntry key (applyJsonMergePatch ((lookupEntry key es).getD .null) v) es) patch

end

/-- The members of an object, none for another value. -/
def members : Value ν → Entries ν
  | .object es => es
  | _ => []

mutual

/-- MergePatch of RFC 7386. -/
def mergePatch (target : Value ν) : Value ν → Value ν
  | .object patch => .object (mergeMembers (members target) patch)
  | patch => patch

/-- The loop of MergePatch. -/
def mergeMembers (es : List (String × Value ν)) :
    List (String × Value ν) → List (String × Value ν)
  | [] => es
  | (key, .null) :: patch => mergeMembers (removeEntry key es) patch
  | (key, v) :: patch =>
    mergeMembers (insertEntry key (mergePatch ((lookupEntry key es).getD .null) v) es) patch

end

/-! ### The loop -/

section Loop

variable {es patch : Entries ν} {f g : Value ν → Value ν → Value ν} {k : String}

/-- One member of a patch object, with `f` for what the member itself is patched to. -/
def foldMember (f : Value ν → Value ν → Value ν) (es : Entries ν)
    (e : String × Value ν) : Entries ν :=
  match e.2 with
  | .null => removeEntry e.1 es
  | v => insertEntry e.1 (f ((lookupEntry e.1 es).getD .null) v) es

/-- What becomes of a member: it goes if the patch is null, and is patched else. -/
def patchedMember (f : Value ν → Value ν → Value ν) (old : Option (Value ν)) :
    Value ν → Option (Value ν)
  | .null => none
  | v => some (f (old.getD .null) v)

theorem applyMembers_eq :
    applyMembers es patch = patch.foldl (foldMember applyJsonMergePatch) es := by
  induction patch generalizing es with
  | nil => rfl
  | cons e patch ih =>
    obtain ⟨key, v⟩ := e
    cases v <;> exact ih

theorem mergeMembers_eq : mergeMembers es patch = patch.foldl (foldMember mergePatch) es := by
  induction patch generalizing es with
  | nil => rfl
  | cons e patch ih =>
    obtain ⟨key, v⟩ := e
    cases v <;> exact ih

theorem lookupEntry_foldMember_ne {e : String × Value ν} (h : k ≠ e.1) :
    lookupEntry k (foldMember f es e) = lookupEntry k es := by
  unfold foldMember
  split
  · exact lookupEntry_removeEntry h es
  · exact lookupEntry_insertEntry_ne h _ es

theorem lookupEntry_foldMembers_ne (h : ∀ e ∈ patch, k ≠ e.1) :
    lookupEntry k (patch.foldl (foldMember f) es) = lookupEntry k es := by
  induction patch generalizing es with
  | nil => rfl
  | cons e patch ih =>
    rw [forall_mem_cons] at h
    rw [foldl_cons, ih h.2, lookupEntry_foldMember_ne h.1]

theorem lookupEntry_foldMembers (hpatch : KeysSorted patch) {v : Value ν} (hv : (k, v) ∈ patch) :
    lookupEntry k (patch.foldl (foldMember f) es) = patchedMember f (lookupEntry k es) v := by
  induction patch generalizing es with
  | nil => cases hv
  | cons e patch ih =>
    obtain ⟨hhead, hsorted⟩ := pairwise_cons.mp hpatch
    rw [foldl_cons]
    rcases mem_cons.mp hv with rfl | hv
    · rw [lookupEntry_foldMembers_ne fun e he => (hhead e he).ne]
      cases v with
      | null => exact lookupEntry_removeEntry_self k es
      | _ => exact lookupEntry_insertEntry_self k _ es
    · rw [ih hsorted hv, lookupEntry_foldMember_ne (hhead _ hv).ne']

/-- Two loops end alike exactly if they patch the members alike. -/
theorem foldMembers_inj (hpatch : KeysSorted patch) (hnull : ∀ v, f v .null = g v .null) :
    patch.foldl (foldMember f) es = patch.foldl (foldMember g) es ↔
      ∀ e ∈ patch, f ((lookupEntry e.1 es).getD .null) e.2
        = g ((lookupEntry e.1 es).getD .null) e.2 := by
  constructor
  · rintro h ⟨k, v⟩ he
    have hlookup := congrArg (lookupEntry k) h
    rw [lookupEntry_foldMembers hpatch he, lookupEntry_foldMembers hpatch he] at hlookup
    cases v with
    | null => exact hnull _
    | _ => exact Option.some.inj hlookup
  · intro h
    induction patch generalizing es with
    | nil => rfl
    | cons e patch ih =>
      obtain ⟨hhead, hsorted⟩ := pairwise_cons.mp hpatch
      rw [forall_mem_cons] at h
      have hstep : foldMember f es e = foldMember g es e := by
        unfold foldMember
        split
        · rfl
        · rw [h.1]
      rw [foldl_cons, foldl_cons, hstep]
      refine ih hsorted fun e' he' => ?_
      rw [lookupEntry_foldMember_ne (hhead e' he').ne']
      exact h.2 e' he'

end Loop

/-! ### Where the two agree -/

/-- An object has a null member: the value itself, or one that is reached from it through members
of objects. -/
inductive HasNull : Value ν → Prop
  | member {es : Entries ν} {k : String} (h : (k, .null) ∈ es) : HasNull (.object es)
  | inside {es : Entries ν} {e : String × Value ν} (he : e ∈ es) (h : HasNull e.2) :
      HasNull (.object es)

/-- Somewhere the patch puts an object with a null in it where the target has no object. -/
inductive Misplaced : Value ν → Value ν → Prop
  | here {target patch : Value ν} (htarget : ∀ es, target ≠ .object es) (h : HasNull patch) :
      Misplaced target patch
  | inside {es patch : Entries ν} {e : String × Value ν} (he : e ∈ patch)
      (h : Misplaced ((lookupEntry e.1 es).getD .null) e.2) : Misplaced (.object es) (.object patch)

theorem HasNull.exists_object {v : Value ν} (h : HasNull v) : ∃ es, v = .object es := by
  cases h <;> exact ⟨_, rfl⟩

theorem Misplaced.exists_object {target patch : Value ν} (h : Misplaced target patch) :
    ∃ es, patch = .object es := by
  cases h with
  | here _ h => exact h.exists_object
  | inside => exact ⟨_, rfl⟩

section Agreement

variable {target patch : Value ν}

theorem object_induct {P : Value ν → Prop} (other : ∀ v, (∀ es, v ≠ .object es) → P v)
    (object : ∀ es, (∀ e ∈ es, P e.2) → P (.object es)) (v : Value ν) : P v :=
  v.induct (fun v _ h => other v h) (fun _ _ => other _ fun _ h => by cases h) object

theorem patch_other (h : ∀ es, patch ≠ .object es) :
    applyJsonMergePatch target patch = patch ∧ mergePatch target patch = patch := by
  cases patch with
  | object es => exact absurd rfl (h es)
  | _ => exact ⟨rfl, rfl⟩

/-- Without an object to patch, MergePatch gives the patch itself exactly if it has no null. -/
theorem mergePatch_eq_self_iff (hpatch : patch.Sorted) (htarget : members target = []) :
    mergePatch target patch = patch ↔ ¬ HasNull patch := by
  induction patch using object_induct generalizing target with
  | other v hv =>
    exact iff_of_true (patch_other hv).2 fun h => h.exists_object.elim fun es hes => hv es hes
  | object es ih =>
    have hkeys := hpatch.1
    have hmembers : ∀ e ∈ es, (mergePatch .null e.2 = e.2 ↔ ¬ HasNull e.2) := fun e he =>
      ih e he (Value.sortedEntries_iff.mp hpatch.2 e he) rfl
    rw [mergePatch, htarget, mergeMembers_eq, Value.object.injEq]
    constructor
    · intro h hnull
      have hlookup : ∀ e ∈ es, patchedMember mergePatch none e.2 = some e.2 := fun e he => by
        rw [← lookupEntry_of_mem hkeys he, ← h]
        exact (@lookupEntry_foldMembers ν [] es mergePatch e.1 hkeys e.2 he).symm
      cases hnull with
      | member he => cases hlookup _ he
      | @inside _ e he hnull =>
        obtain ⟨fields, hfields⟩ := hnull.exists_object
        have hsome := hlookup e he
        rw [hfields] at hsome
        exact (hmembers e he).mp (hfields ▸ Option.some.inj hsome) hnull
    · intro h
      have hinsert : es.foldl (foldMember fun _ v => v) [] = ofEntries es := by
        refine foldl_ext _ _ _ fun entries ⟨k, v⟩ he => ?_
        cases v with
        | null => exact absurd (.member he) h
        | _ => rfl
      rw [(foldMembers_inj (g := fun _ v => v) hkeys fun _ => rfl).mpr fun e he =>
        (hmembers e he).mpr fun hnull => h (.inside he hnull), hinsert, ofEntries_of_sorted hkeys]

/-- **The function is MergePatch of RFC 7386** exactly for the patches that put no object with a
null in it where the target has no object. -/
theorem merge_patch_iff (hpatch : patch.Sorted) :
    applyJsonMergePatch target patch = mergePatch target patch ↔ ¬ Misplaced target patch := by
  induction patch using object_induct generalizing target with
  | other v hv =>
    refine iff_of_true ?_ fun h => h.exists_object.elim fun es hes => hv es hes
    rw [(patch_other hv).1, (patch_other hv).2]
  | object patch ih =>
    have hmembers : ∀ e ∈ patch, ∀ target, (applyJsonMergePatch target e.2 = mergePatch target e.2
        ↔ ¬ Misplaced target e.2) :=
      fun e he _ => ih e he (Value.sortedEntries_iff.mp hpatch.2 e he)
    by_cases htarget : ∃ es, target = .object es
    · obtain ⟨es, rfl⟩ := htarget
      have hloops := @foldMembers_inj ν es patch applyJsonMergePatch mergePatch hpatch.1
        fun _ => rfl
      rw [applyJsonMergePatch, mergePatch, applyMembers_eq, members, mergeMembers_eq,
        Value.object.injEq, hloops]
      constructor
      · intro h hmisplaced
        cases hmisplaced with
        | here htarget => exact htarget es rfl
        | inside he hmisplaced => exact (hmembers _ he _).mp (h _ he) hmisplaced
      · exact fun h e he => (hmembers e he _).mpr fun hmisplaced => h (.inside he hmisplaced)
    · rw [not_exists] at htarget
      have hother : applyJsonMergePatch target (.object patch) = .object patch
          ∧ members target = [] := by
        cases target with
        | object es => exact absurd rfl (htarget es)
        | _ => exact ⟨rfl, rfl⟩
      rw [hother.1, eq_comm, mergePatch_eq_self_iff hpatch hother.2, not_iff_not]
      refine ⟨.here htarget, fun h => ?_⟩
      cases h with
      | here _ h => exact h
      | inside => exact absurd rfl (htarget _)

end Agreement

/-- A null member is removed from an object that the target has. -/
theorem merge_patch_iff_removed :
    let target : Value ℕ := .object [("a", .object [("b", .number 1)])]
    let patch : Value ℕ := .object [("a", .object [("b", .null)])]
    applyJsonMergePatch target patch = .object [("a", .object [])] ∧
      (applyJsonMergePatch target patch = mergePatch target patch ↔ ¬ Misplaced target patch) :=
  ⟨rfl, merge_patch_iff
    ⟨pairwise_singleton _ _, ⟨pairwise_singleton _ _, trivial, trivial⟩, trivial⟩⟩

/-- **A null member remains** in an object that the target does not have. -/
theorem null_member_remains :
    applyJsonMergePatch (.object []) (.object [("a", .object [("b", .null)])])
        = (.object [("a", .object [("b", .null)])] : Value ℕ)
      ∧ mergePatch (.object []) (.object [("a", .object [("b", .null)])])
        = (.object [("a", .object [])] : Value ℕ) :=
  ⟨rfl, rfl⟩

end Runtara.ReportDsl
