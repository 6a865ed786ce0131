/-
  Handles and what they stand for.

  A store is well formed when the value under an id has only older handles in it, and is neither a
  handle nor a number. Then `materialize` is the recursion of the source (`materialize_handle`,
  `materialize_array`, `materialize_object`, `materialize_leaf`), facts about it are proved by
  `ValueStore.Ordered.induct`, its result has no handle (`collectHandleIds_materialize`), and it
  only depends on what the store has under the ids that can be reached (`materialize_congr`).
-/
import Runtara.Interning.Arena

namespace Runtara

open Json List

section

variable {ν : Type} [NumberOps ν] {s s' : ValueStore} (f : Value ν → Value ν) (vs : List (Value ν))

namespace ValueStore

/-! ### Handles -/

variable {es : Entries ν} {id : UInt64}

/-- A handle is an object with the two reserved keys and a number under each. -/
theorem wfrefId_eq_some (h : s.wfrefId (.object es) = some id) :
    ∃ m n : ν, SerdeNumber.asU64 m = some id ∧
      (es = [("$wfref", .number m), ("$wfnonce", .number n)]
        ∨ es = [("$wfnonce", .number n), ("$wfref", .number m)]) := by
  have hnumber : ∀ {k : String} {x : UInt64}, (lookupEntry k es).bind Value.asU64 = some x →
      ∃ n : ν, (k, Value.number n) ∈ es ∧ SerdeNumber.asU64 n = some x := by
    intro k x hx
    obtain ⟨v, hv, hx⟩ := Option.bind_eq_some_iff.mp hx
    cases v with
    | number n => exact ⟨n, mem_of_lookupEntry hv, hx⟩
    | _ => cases hx
  dsimp only [wfrefId] at h
  split at h
  · cases h
  next hlen =>
  split at h
  · next hnonce =>
    obtain ⟨n, hn, _⟩ := hnumber hnonce
    obtain ⟨m, hm, hid⟩ := hnumber h
    refine ⟨m, n, hid, ?_⟩
    -- two entries, and both keys are there
    obtain ⟨e₁, e₂, rfl⟩ := length_eq_two.mp (Decidable.not_not.mp hlen)
    simp only [mem_cons, not_mem_nil, or_false] at hm hn
    rcases hm with rfl | rfl <;> rcases hn with hn | hn
    · exact absurd (Prod.mk.inj hn).1 (by decide)
    · exact Or.inl (by rw [hn])
    · exact Or.inr (by rw [hn])
    · exact absurd (Prod.mk.inj hn).1 (by decide)
  · cases h

theorem wfrefId_eq_none {e : String × Value ν} (he : e ∈ es) (href : e.1 ≠ "$wfref")
    (hnonce : e.1 ≠ "$wfnonce") : s.wfrefId (.object es) = none := by
  cases hid : s.wfrefId (.object es) with
  | none => rfl
  | some id =>
    obtain ⟨m, n, _, rfl | rfl⟩ := wfrefId_eq_some hid <;>
    · simp only [mem_cons, not_mem_nil, or_false] at he
      rcases he with rfl | rfl
      · first | exact absurd rfl href | exact absurd rfl hnonce
      · first | exact absurd rfl href | exact absurd rfl hnonce

/-- Objects with the same keys and the same numbers under them are both handles or both none. -/
theorem wfrefId_forall₂ {es' : Entries ν}
    (h : List.Forall₂ (fun e e' => e'.1 = e.1 ∧ Value.asU64 e'.2 = Value.asU64 e.2) es es') :
    s.wfrefId (.object es') = s.wfrefId (.object es) := by
  have hlookup : ∀ k, (lookupEntry k es').bind Value.asU64
      = (lookupEntry k es).bind Value.asU64 := by
    intro k
    induction h with
    | nil => rfl
    | @cons e e' es es' he _ ih =>
      unfold lookupEntry at ih ⊢
      by_cases hk : e.1 = k
      · rw [find?_cons_of_pos (by simpa [he.1] using hk),
          find?_cons_of_pos (by simpa using hk)]
        exact he.2
      · rw [find?_cons_of_neg (by simpa [he.1] using hk),
          find?_cons_of_neg (by simpa using hk)]
        exact ih
  dsimp only [wfrefId]
  rw [hlookup, hlookup, h.length_eq]

theorem wfrefId_map {f : Value ν → Value ν} (hf : ∀ e ∈ es, Value.asU64 (f e.2) = Value.asU64 e.2) :
    s.wfrefId (.object (es.map fun e => (e.1, f e.2))) = s.wfrefId (.object es) :=
  wfrefId_forall₂ (forall₂_map_right_iff.mpr
    (forall₂_same.mpr fun e he => ⟨rfl, hf e he⟩))

theorem wfrefId_congr (hnonce : s.nonce = s'.nonce) (v : Value ν) : s.wfrefId v = s'.wfrefId v := by
  unfold wfrefId
  rw [hnonce]

section

attribute [local simp] collectHandleIds collectItemIds collectEntryIds
  materializeWith materializeItems materializeEntries

theorem collectItemIds_eq : s.collectItemIds vs = vs.flatMap s.collectHandleIds := by
  induction vs with
  | nil => rfl
  | cons v vs ih => simp [ih]

theorem collectEntryIds_eq (es : Entries ν) :
    s.collectEntryIds es = es.flatMap fun e => s.collectHandleIds e.2 := by
  induction es with
  | nil => rfl
  | cons e es ih => simp [ih]

theorem materializeItems_eq : s.materializeItems f vs = vs.map (s.materializeWith f) := by
  induction vs with
  | nil => rfl
  | cons v vs ih => simp [ih]

theorem materializeEntries_eq (es : Entries ν) :
    s.materializeEntries f es = es.map fun e => (e.1, s.materializeWith f e.2) := by
  induction es with
  | nil => rfl
  | cons e es ih => simp [ih]

end

variable {v : Value ν}

theorem collectHandleIds_handle (h : s.wfrefId v = some id) : s.collectHandleIds v = [id] := by
  cases v with
  | object es => rw [collectHandleIds, h]
  | _ => cases h

theorem collectHandleIds_object (h : s.wfrefId (.object es) = none) :
    s.collectHandleIds (.object es) = es.flatMap fun e => s.collectHandleIds e.2 := by
  rw [collectHandleIds, h]
  exact collectEntryIds_eq es

theorem collectHandleIds_array :
    s.collectHandleIds (.array vs) = vs.flatMap s.collectHandleIds := by
  rw [collectHandleIds, collectItemIds_eq]

theorem collectHandleIds_leaf (harray : ∀ vs, v ≠ .array vs) (hobject : ∀ es, v ≠ .object es) :
    s.collectHandleIds v = [] := by
  cases v with
  | array vs => exact absurd rfl (harray vs)
  | object es => exact absurd rfl (hobject es)
  | _ => rfl

theorem collectHandleIds_congr (hnonce : s.nonce = s'.nonce) (v : Value ν) :
    s.collectHandleIds v = s'.collectHandleIds v := by
  induction v using Value.induct with
  | leaf v harray hobject =>
    rw [collectHandleIds_leaf harray hobject, collectHandleIds_leaf harray hobject]
  | array vs ih =>
    rw [collectHandleIds_array, collectHandleIds_array]
    exact flatMap_congr ih
  | object es ih =>
    have hid := wfrefId_congr hnonce (.object es)
    cases h : s.wfrefId (.object es) with
    | some id => rw [collectHandleIds_handle h, collectHandleIds_handle (hid ▸ h)]
    | none =>
      rw [collectHandleIds_object h, collectHandleIds_object (hid ▸ h)]
      exact flatMap_congr ih

/-- Every handle in `v` has an id with `P`. -/
def AllHandles (s : ValueStore) (P : UInt64 → Prop) (v : Value ν) : Prop :=
  ∀ id ∈ s.collectHandleIds v, P id

section AllHandles

variable {P : UInt64 → Prop}

theorem allHandles_array {vs : List (Value ν)} :
    s.AllHandles P (.array vs) ↔ ∀ v ∈ vs, s.AllHandles P v := by
  simp only [AllHandles, collectHandleIds_array, mem_flatMap]
  exact ⟨fun h v hv id hid => h id ⟨v, hv, hid⟩, fun h id ⟨v, hv, hid⟩ => h v hv id hid⟩

theorem allHandles_object (hes : s.wfrefId (.object es) = none) :
    s.AllHandles P (.object es) ↔ ∀ e ∈ es, s.AllHandles P e.2 := by
  simp only [AllHandles, collectHandleIds_object hes, mem_flatMap]
  exact ⟨fun h e he id hid => h id ⟨e, he, hid⟩, fun h id ⟨e, he, hid⟩ => h e he id hid⟩

theorem allHandles_leaf (harray : ∀ vs, v ≠ .array vs) (hobject : ∀ es, v ≠ .object es) :
    s.AllHandles P v := by
  intro id hid
  rw [collectHandleIds_leaf harray hobject] at hid
  exact absurd hid not_mem_nil

theorem allHandles_number (n : ν) : s.AllHandles P (.number n) :=
  allHandles_leaf nofun nofun

/-- The fields of an object, be it a handle or not: those of a handle are numbers. -/
theorem AllHandles.entries (h : s.AllHandles P (.object es)) : ∀ e ∈ es, s.AllHandles P e.2 := by
  cases hid : s.wfrefId (.object es) with
  | none => exact (allHandles_object hid).mp h
  | some id =>
    obtain ⟨m, n, _, rfl | rfl⟩ := wfrefId_eq_some hid <;>
    · intro e he
      simp only [mem_cons, not_mem_nil, or_false] at he
      rcases he with rfl | rfl <;> exact allHandles_number _

theorem AllHandles.get {w : Value ν} {k : String} (h : s.AllHandles P v) (hw : v.get k = some w) :
    s.AllHandles P w := by
  cases v with
  | object es => exact h.entries _ (mem_of_lookupEntry hw)
  | _ => cases hw

end AllHandles

/-! ### Well-formed stores -/

variable (ν) in
/-- The value under an id only has older handles in it. -/
def Ordered (s : ValueStore) : Prop :=
  ∀ id (w : Value ν), s.stored id = some w → s.AllHandles (· < id) w

variable (ν) in
/-- Moreover no value in the store is a handle or a number. -/
structure WellFormed (s : ValueStore) : Prop where
  ordered : s.Ordered ν
  boxed : ∀ id (w : Value ν), s.stored id = some w → s.wfrefId w = none ∧ Value.asU64 w = none

/-- Induction along `materialize`: from the value of a handle to the handle, and from the parts of
any other value to the value. -/
theorem Ordered.induct (hs : s.Ordered ν) {P : Value ν → Prop}
    (leaf : ∀ v, (∀ vs, v ≠ .array vs) → (∀ es, v ≠ .object es) → P v)
    (array : ∀ vs, (∀ v ∈ vs, P v) → P (.array vs))
    (object : ∀ es, s.wfrefId (.object es) = none → (∀ e ∈ es, P e.2) → P (.object es))
    (handle : ∀ es id, s.wfrefId (.object es) = some id → (∀ w, s.stored id = some w → P w) →
      P (.object es))
    (v : Value ν) : P v := by
  -- on a bound of the ids in the value, and for each bound on the value
  suffices h : ∀ bound : ℕ, ∀ v : Value ν, s.AllHandles (·.toNat < bound) v → P v from
    h (2 ^ 64) v fun id _ => id.toNat_lt
  intro bound
  induction bound using Nat.strong_induction_on with
  | _ bound ihBound =>
  intro v
  induction v using Value.induct with
  | leaf v harray hobject => exact fun _ => leaf v harray hobject
  | array vs ih =>
    intro hv
    exact array vs fun v hmem => ih v hmem (allHandles_array.mp hv v hmem)
  | object es ih =>
    intro hv
    cases hid : s.wfrefId (.object es) with
    | none => exact object es hid fun e he => ih e he ((allHandles_object hid).mp hv e he)
    | some id =>
      have hlt : id.toNat < bound :=
        hv id (by rw [collectHandleIds_handle hid]; exact mem_cons_self)
      exact handle es id hid fun w hw =>
        ihBound id.toNat hlt w fun id' hid' => UInt64.lt_iff_toNat_lt.mp (hs id w hw id' hid')

/-! ### The recursion of `materialize` -/

theorem materializeWith_congr {f g : Value ν → Value ν} (v : Value ν)
    (h : s.AllHandles (fun id => (s.stored id).map f = (s.stored id).map g) v) :
    s.materializeWith f v = s.materializeWith g v := by
  induction v using Value.induct with
  | leaf v harray hobject =>
    cases v with
    | array vs => exact absurd rfl (harray vs)
    | object es => exact absurd rfl (hobject es)
    | _ => rfl
  | array vs ih =>
    rw [materializeWith, materializeWith, materializeItems_eq, materializeItems_eq]
    rw [map_congr_left fun v hv => ih v hv (allHandles_array.mp h v hv)]
  | object es ih =>
    rw [materializeWith, materializeWith]
    cases hid : s.wfrefId (.object es) with
    | some id =>
      have hsame := h id (by rw [collectHandleIds_handle hid]; exact mem_cons_self)
      simp only [hsame]
    | none =>
      have hes := (allHandles_object hid).mp h
      simp only [materializeEntries_eq]
      rw [map_congr_left fun e he => congrArg (Prod.mk e.1) (ih e he (hes e he))]

/-- How many entries have an id below `bound`. -/
def olderThan (s : ValueStore) (bound : ℕ) : ℕ := s.entries.countP fun e => e.1.toNat < bound

theorem mem_entries_of_stored {w : Value ν} (h : s.stored id = some w) :
    ∃ bytes, (id, bytes) ∈ s.entries ∧ fromSlice bytes = some w := by
  obtain ⟨bytes, hbytes, hw⟩ := Option.bind_eq_some_iff.mp h
  obtain ⟨e, he, rfl⟩ := Option.map_eq_some_iff.mp hbytes
  have hid : decide (e.1 = id) = true := by simpa only using find?_some he
  exact ⟨e.2, of_decide_eq_true hid ▸ mem_of_find?_eq_some he, hw⟩

/-- An id that is there is one that its own bound leaves out. -/
theorem olderThan_lt {bytes : String} (he : (id, bytes) ∈ s.entries) {bound : ℕ}
    (hlt : id.toNat < bound) : s.olderThan id.toNat < s.olderThan bound := by
  unfold olderThan
  generalize s.entries = entries at he
  induction entries with
  | nil => exact absurd he not_mem_nil
  | cons e es ih =>
    have hmono : es.countP (fun e => e.1.toNat < id.toNat)
        ≤ es.countP (fun e => e.1.toNat < bound) :=
      countP_mono_left fun e _ h => by
        simp only [decide_eq_true_eq] at h ⊢
        omega
    rw [countP_cons, countP_cons]
    rcases mem_cons.mp he with rfl | he
    · simp [hlt]
      omega
    · have hrest := ih he
      by_cases hfirst : e.1.toNat < id.toNat
      · simp [hfirst, Nat.lt_trans hfirst hlt]
        omega
      · simp [hfirst]
        omega

theorem materializeRounds_eq_with (k : ℕ) : s.materializeRounds (ν := ν) k =
    s.materializeWith (match k with | 0 => fun _ => .null | k + 1 => s.materializeRounds k) := by
  cases k <;> rfl

/-- With as many rounds as there are entries below the ids in a value, more rounds make no
difference. -/
theorem materializeRounds_eq (hs : s.Ordered ν) (bound : ℕ) :
    ∀ (v : Value ν), s.AllHandles (·.toNat < bound) v → ∀ m n, s.olderThan bound ≤ m →
      s.olderThan bound ≤ n → s.materializeRounds m v = s.materializeRounds n v := by
  induction bound using Nat.strong_induction_on with
  | _ bound ih =>
  intro v hv m n hm hn
  have hinner : ∀ id (w : Value ν), id.toNat < bound → s.stored id = some w →
      ∃ m' n', m = m' + 1 ∧ n = n' + 1 ∧
        s.materializeRounds m' w = s.materializeRounds n' w := by
    intro id w hlt hw
    obtain ⟨bytes, he, _⟩ := mem_entries_of_stored hw
    have hcount := olderThan_lt he hlt
    refine ⟨m - 1, n - 1, by omega, by omega, ?_⟩
    exact ih id.toNat hlt w (fun id' hid' => UInt64.lt_iff_toNat_lt.mp (hs id w hw id' hid'))
      _ _ (by omega) (by omega)
  rw [materializeRounds_eq_with m, materializeRounds_eq_with n]
  refine materializeWith_congr v fun id hid => ?_
  beta_reduce
  cases hw : s.stored (ν := ν) id with
  | none => rfl
  | some w =>
    obtain ⟨m', n', rfl, rfl, heq⟩ := hinner id w (hv id hid) hw
    exact congrArg some heq

/-- **`materialize` is the recursion of the source.** -/
theorem materialize_eq (hs : s.Ordered ν) (v : Value ν) :
    s.materialize v = s.materializeWith s.materialize v := by
  have hle : s.olderThan (2 ^ 64) ≤ s.entries.length := countP_le_length
  exact materializeRounds_eq hs (2 ^ 64) v (fun id _ => id.toNat_lt) s.entries.length
    (s.entries.length + 1) hle (by omega)

theorem materialize_leaf (harray : ∀ vs, v ≠ .array vs) (hobject : ∀ es, v ≠ .object es) :
    s.materialize v = v := by
  unfold materialize
  cases s.entries.length with
  | zero | succ =>
    cases v with
    | array vs => exact absurd rfl (harray vs)
    | object es => exact absurd rfl (hobject es)
    | _ => rfl

theorem materialize_array (hs : s.Ordered ν) (vs : List (Value ν)) :
    s.materialize (.array vs) = .array (vs.map s.materialize) := by
  rw [materialize_eq hs, materializeWith, materializeItems_eq]
  exact congrArg Value.array (map_congr_left fun v _ => (materialize_eq hs v).symm)

theorem materialize_object (hs : s.Ordered ν) (hes : s.wfrefId (.object es) = none) :
    s.materialize (.object es) = .object (es.map fun e => (e.1, s.materialize e.2)) := by
  rw [materialize_eq hs, materializeWith, hes]
  simp only [materializeEntries_eq]
  exact congrArg Value.object
    (map_congr_left fun e _ => congrArg (Prod.mk e.1) (materialize_eq hs e.2).symm)

theorem materialize_handle (hs : s.Ordered ν) (hid : s.wfrefId v = some id) :
    s.materialize v = ((s.stored id).map s.materialize).getD .null := by
  cases v with
  | object es => rw [materialize_eq hs, materializeWith, hid]
  | _ => cases hid

/-! ### Materialized values -/

theorem asU64_materialize (hs : s.WellFormed ν) (v : Value ν) :
    Value.asU64 (s.materialize v) = Value.asU64 v := by
  have hplain : ∀ v : Value ν, s.wfrefId v = none →
      Value.asU64 (s.materialize v) = Value.asU64 v := by
    intro v hv
    cases v with
    | array vs => rw [materialize_array hs.ordered]; rfl
    | object es => rw [materialize_object hs.ordered hv]; rfl
    | _ => rw [materialize_leaf] <;> nofun
  cases hid : s.wfrefId v with
  | none => exact hplain v hid
  | some id =>
    have hv : Value.asU64 v = none := by
      cases v with
      | object es => rfl
      | _ => cases hid
    rw [materialize_handle hs.ordered hid, hv]
    cases hw : s.stored (ν := ν) id with
    | none => rfl
    | some w =>
      obtain ⟨hnone, hnumber⟩ := hs.boxed id w hw
      exact (hplain w hnone).trans hnumber

/-- A materialized value has no handle in it, and is none. -/
theorem collectHandleIds_materialize (hs : s.WellFormed ν) (v : Value ν) :
    s.collectHandleIds (s.materialize v) = [] := by
  induction v using hs.ordered.induct with
  | leaf v harray hobject =>
    rw [materialize_leaf harray hobject]
    exact collectHandleIds_leaf harray hobject
  | array vs ih =>
    rw [materialize_array hs.ordered, collectHandleIds_array, flatMap_eq_nil_iff]
    exact fun w hw => by
      obtain ⟨v, hv, rfl⟩ := mem_map.mp hw
      exact ih v hv
  | object es hes ih =>
    rw [materialize_object hs.ordered hes]
    have hnone := (wfrefId_map (s := s) fun e _ => asU64_materialize hs e.2).trans hes
    rw [collectHandleIds_object hnone, flatMap_eq_nil_iff]
    exact fun e' he' => by
      obtain ⟨e, he, rfl⟩ := mem_map.mp he'
      exact ih e he
  | handle es id hid ih =>
    rw [materialize_handle hs.ordered hid]
    cases hw : s.stored (ν := ν) id with
    | none => rfl
    | some w => exact ih w hw

theorem wfrefId_of_collectHandleIds (hv : s.collectHandleIds v = []) : s.wfrefId v = none := by
  cases hid : s.wfrefId v with
  | none => rfl
  | some id =>
    rw [collectHandleIds_handle hid] at hv
    cases hv

theorem wfrefId_materialize (hs : s.WellFormed ν) (v : Value ν) :
    s.wfrefId (s.materialize v) = none :=
  wfrefId_of_collectHandleIds (collectHandleIds_materialize hs v)

theorem materializeWith_of_collectHandleIds
    (hv : s.collectHandleIds v = []) : s.materializeWith f v = v := by
  induction v using Value.induct with
  | leaf v harray hobject =>
    cases v with
    | array vs => exact absurd rfl (harray vs)
    | object es => exact absurd rfl (hobject es)
    | _ => rfl
  | array vs ih =>
    rw [collectHandleIds_array, flatMap_eq_nil_iff] at hv
    rw [materializeWith, materializeItems_eq, map_congr_left fun v hmem => ih v hmem (hv v hmem),
      map_id']
  | object es ih =>
    have hes := wfrefId_of_collectHandleIds hv
    rw [collectHandleIds_object hes, flatMap_eq_nil_iff] at hv
    have hsame : ∀ e ∈ es, (e.1, s.materializeWith f e.2) = e := fun e he => by
      rw [ih e he (hv e he)]
    rw [materializeWith, hes]
    dsimp only
    rw [materializeEntries_eq, map_congr_left hsame, map_id']

theorem materialize_of_collectHandleIds (hv : s.collectHandleIds v = []) : s.materialize v = v := by
  unfold materialize
  cases s.entries.length with
  | zero | succ => exact materializeWith_of_collectHandleIds _ hv

/-! ### What is reached -/

/-- The value under `id` has the handle `id'` in it. -/
def Inside (ν : Type) [NumberOps ν] (s : ValueStore) (id id' : UInt64) : Prop :=
  ∃ w : Value ν, s.stored id = some w ∧ id' ∈ s.collectHandleIds w

/-- Two stores that have the same under a set of ids with all that is inside them agree on the
values whose handles are in the set. -/
theorem materialize_congr (hnonce : s.nonce = s'.nonce) (hs : s.Ordered ν) (hs' : s'.Ordered ν)
    {P : UInt64 → Prop} (hsame : ∀ id, P id → s.stored (ν := ν) id = s'.stored id)
    (hclosed : ∀ id id', P id → s.Inside ν id id' → P id') (hv : s.AllHandles P v) :
    s.materialize v = s'.materialize v := by
  induction v using hs.induct with
  | leaf v harray hobject =>
    rw [materialize_leaf harray hobject, materialize_leaf harray hobject]
  | array vs ih =>
    rw [materialize_array hs, materialize_array hs']
    exact congrArg Value.array
      (map_congr_left fun v hmem => ih v hmem (allHandles_array.mp hv v hmem))
  | object es hes ih =>
    rw [materialize_object hs hes, materialize_object hs' ((wfrefId_congr hnonce _).symm.trans hes)]
    have hentries := (allHandles_object hes).mp hv
    exact congrArg Value.object
      (map_congr_left fun e he => congrArg (Prod.mk e.1) (ih e he (hentries e he)))
  | handle es id hid ih =>
    have hP : P id := hv id (by rw [collectHandleIds_handle hid]; exact mem_cons_self)
    rw [materialize_handle hs hid, materialize_handle hs' ((wfrefId_congr hnonce _).symm.trans hid),
      ← hsame id hP]
    cases hw : s.stored (ν := ν) id with
    | none => rfl
    | some w =>
      exact ih w hw fun id' hid' => hclosed id id' hP ⟨w, hw, hid'⟩

end ValueStore

end

end Runtara
