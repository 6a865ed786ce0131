/-
  What the calls on the arena keep.

  `Arena.Wf` is the invariant of the arena: ids are younger than the counter, the text of an entry
  reads back as a value, the recorded ids are the handles in that value, and they are older than the
  entry. Interning only adds to the arena (`Arena.Extends`) and gives a value that stands for the
  one it was given (`Stands`); collecting keeps what can be reached from the roots.
-/
import Runtara.Interning.Equiv.Lookup

namespace Runtara

open Json List

/-- Natural numbers with the conversions that stay exact. -/
instance : NumberOps ℕ where
  asI64 n := if n < 2 ^ 63 then some (Int64.ofNat n) else none
  ofI64 n := n.toInt.toNat
  asF64 n := some (Float.ofNat n)
  fromF64 x := if 0 ≤ x ∧ x < 1e18 ∧ x.floor == x then some x.toUInt64.toNat else none
  parseF64 text := text.toNat?.map Float.ofNat

/-! ### The source envelope -/

section Envelope

variable {ν : Type}

theorem reverse_optionalField (k : String) (v : Option (Value ν)) :
    (optionalField k v).reverse = optionalField k v := by
  cases v <;> rfl

theorem lookupEntry_optionalField {k k' : String} (h : k ≠ k') (v : Option (Value ν)) :
    lookupEntry k (optionalField k' v) = none := by
  cases v with
  | none => rfl
  | some v => exact lookupEntry_cons_ne h ..

variable (data vars steps : Value ν)

theorem get_data_sourceEnvelope : (sourceEnvelope data vars steps).get "data" = some data := by
  refine (lookupEntry_ofEntries ..).trans ?_
  simp [lookupEntry_append, reverse_optionalField, lookupEntry_optionalField, lookupEntry_cons_ne,
    lookupEntry_cons_self]

theorem get_variables_sourceEnvelope :
    (sourceEnvelope data vars steps).get "variables" = some vars := by
  refine (lookupEntry_ofEntries ..).trans ?_
  simp [lookupEntry_append, reverse_optionalField, lookupEntry_optionalField, lookupEntry_cons_ne,
    lookupEntry_cons_self]

theorem get_workflow_sourceEnvelope : (sourceEnvelope data vars steps).get "workflow" =
    some (.obj [("inputs", .obj [("data", data), ("variables", vars)])]) := by
  refine (lookupEntry_ofEntries ..).trans ?_
  simp [lookupEntry_append, reverse_optionalField, lookupEntry_optionalField, lookupEntry_cons_self]

end Envelope

/-! ### Maps -/

section Maps

variable {κ α : Type} [DecidableEq κ]

variable {k : κ}

theorem mem_of_getKey {a : α} {m : List (κ × α)} (h : getKey k m = some a) : (k, a) ∈ m := by
  obtain ⟨e, he, rfl⟩ := Option.map_eq_some_iff.mp h
  have hk : decide (e.1 = k) = true := by simpa only using find?_some he
  exact of_decide_eq_true hk ▸ mem_of_find?_eq_some he

theorem getKey_insertKey_self (k : κ) (a : α) (m : List (κ × α)) :
    getKey k (insertKey k a m) = some a := by
  simp [getKey, insertKey]

theorem getKey_filter {p : κ → Bool} (hk : p k = true) (m : List (κ × α)) :
    getKey k (m.filter fun e => p e.1) = getKey k m := by
  unfold getKey
  congr 1
  induction m with
  | nil => rfl
  | cons e m ih =>
    by_cases he : e.1 = k
    · rw [filter_cons_of_pos (by rw [he]; exact hk), find?_cons_of_pos (by simpa using he),
        find?_cons_of_pos (by simpa using he)]
    · rw [find?_cons_of_neg (by simpa using he)]
      cases hp : p e.1 with
      | true =>
        rw [filter_cons_of_pos (by exact hp), find?_cons_of_neg (by simpa using he), ih]
      | false => rw [filter_cons_of_neg (by simp [hp]), ih]

theorem getKey_insertKey_ne {k' : κ} (h : k' ≠ k) (a : α) (m : List (κ × α)) :
    getKey k' (insertKey k a m) = getKey k' m := by
  have hfilter := getKey_filter (p := fun x => decide (x ≠ k)) (by simpa using h) m
  rw [← hfilter]
  simp [getKey, insertKey, Ne.symm h]

end Maps

section Interning

variable {ν : Type} [NumberOps ν]

/-! ### Handles -/

theorem wfrefId_makeWfref [LawfulU64 ν] (s : ValueStore) (id : UInt64) :
    s.wfrefId (makeWfref s.nonce id : Value ν) = some id := by
  have hobject : (makeWfref s.nonce id : Value ν)
      = .object [("$wfnonce", .number (SerdeNumber.ofU64 s.nonce)),
          ("$wfref", .number (SerdeNumber.ofU64 id))] := by
    simp only [makeWfref, Value.obj, ofEntries, foldl_cons, foldl_nil, insertEntry]
    rw [if_pos (by decide)]
  have hnonce := LawfulU64.asU64_ofU64 (ν := ν) s.nonce
  have hid := LawfulU64.asU64_ofU64 (ν := ν) id
  rw [hobject]
  simp [ValueStore.wfrefId, lookupEntry, Value.asU64, hnonce, hid]

variable {v : Value ν}

theorem asU64_of_large (h : ¬estimateJsonSize v < wfrefThresholdBytes) : Value.asU64 v = none := by
  cases v with
  | number n => exact absurd (by decide : 8 < wfrefThresholdBytes) h
  | _ => rfl

namespace Arena

/-! ### The invariant -/

theorem stored_store (a : Arena) (id : UInt64) :
    a.store.stored (ν := ν) id = (getKey id a.entries).bind fun entry => fromSlice entry.bytes := by
  unfold ValueStore.stored store getKey
  simp only [find?_map, Option.map_map, Option.bind_map]
  rfl

variable (ν) in
/-- The invariant of the arena. -/
structure Wf (a : Arena) : Prop where
  young : ∀ e ∈ a.entries, e.1.toNat < a.nextId
  held : ∀ e ∈ a.entries, ∃ w : Value ν, fromSlice e.2.bytes = some w ∧
    e.2.nested = a.store.collectHandleIds w ∧ a.store.wfrefId w = none ∧ Value.asU64 w = none ∧
    a.store.AllHandles (· < e.1) w

theorem wf_reset (nonce : UInt64) : (Arena.reset nonce).Wf ν where
  young := fun _ he => absurd he not_mem_nil
  held := fun _ he => absurd he not_mem_nil

variable {a a' a'' : Arena}

variable {id : UInt64}

theorem Wf.of_stored (ha : a.Wf ν) {w : Value ν} (hw : a.store.stored id = some w) :
    id.toNat < a.nextId ∧ a.nested id = a.store.collectHandleIds w ∧ a.store.wfrefId w = none ∧
      Value.asU64 w = none ∧ a.store.AllHandles (· < id) w := by
  rw [stored_store] at hw
  obtain ⟨entry, hentry, hw⟩ := Option.bind_eq_some_iff.mp hw
  have hmem := mem_of_getKey hentry
  obtain ⟨w', hw', hnested, hrest⟩ := ha.held _ hmem
  obtain rfl : w' = w := Option.some.inj (hw'.symm.trans hw)
  refine ⟨ha.young _ hmem, ?_, hrest⟩
  rw [Arena.nested, hentry]
  exact hnested

theorem Wf.wellFormed (ha : a.Wf ν) : a.store.WellFormed ν where
  ordered := fun _ _ hw => (ha.of_stored hw).2.2.2.2
  boxed := fun _ _ hw => ⟨(ha.of_stored hw).2.2.1, (ha.of_stored hw).2.2.2.1⟩

/-- Every handle in the value was given out by this arena. -/
def Minted (a : Arena) (v : Value ν) : Prop := a.store.AllHandles (·.toNat < a.nextId) v

/-- A value that may be given to the arena: an ordered value that is nested no deeper than
`serde_json` reads and all whose numbers it reads back, with handles of this arena only. -/
structure Given (a : Arena) (v : Value ν) : Prop where
  sorted : v.Sorted
  depth : v.depth ≤ recursionLimit
  readsBack : v.reread = v
  minted : a.Minted v

theorem Given.fromSlice_text [LawfulNumber ν] (hv : a.Given v) : fromSlice v.text = some v := by
  rw [fromSlice, parse_text recursionLimit hv.sorted, if_pos hv.depth, hv.readsBack]

/-! ### Growth -/

/-- `a'` has what `a` has, under the same ids. -/
structure Extends (a a' : Arena) : Prop where
  nonce : a.nonce = a'.nonce
  nextId : a.nextId ≤ a'.nextId
  same : ∀ id : UInt64, id.toNat < a.nextId → getKey id a'.entries = getKey id a.entries

theorem Extends.refl (a : Arena) : a.Extends a := ⟨rfl, Nat.le_refl _, fun _ _ => rfl⟩

section

variable (h : a.Extends a')

include h

theorem Extends.trans (h' : a'.Extends a'') : a.Extends a'' where
  nonce := h.nonce.trans h'.nonce
  nextId := h.nextId.trans h'.nextId
  same := fun id hid => (h'.same id (hid.trans_le h.nextId)).trans (h.same id hid)

theorem Extends.stored (hid : id.toNat < a.nextId) :
    a'.store.stored (ν := ν) id = a.store.stored id := by
  rw [stored_store, stored_store, h.same id hid]

theorem Extends.collectHandleIds (v : Value ν) :
    a'.store.collectHandleIds v = a.store.collectHandleIds v := by
  have hnonce : a.store.nonce = a'.store.nonce := h.nonce
  exact (ValueStore.collectHandleIds_congr hnonce v).symm

theorem Extends.minted (hv : a.Minted v) : a'.Minted v := by
  intro id hid
  rw [h.collectHandleIds] at hid
  exact (hv id hid).trans_le h.nextId

theorem Extends.given (hv : a.Given v) : a'.Given v :=
  ⟨hv.sorted, hv.depth, hv.readsBack, h.minted hv.minted⟩

end

theorem Wf.inside (ha : a.Wf ν) {id' : UInt64} (h : a.store.Inside ν id id') :
    id'.toNat < a.nextId := by
  obtain ⟨w, hw, hid'⟩ := h
  have hlt : id' < id := (ha.of_stored hw).2.2.2.2 id' hid'
  exact (UInt64.lt_iff_toNat_lt.mp hlt).trans (ha.of_stored hw).1

theorem Extends.materialize (h : a.Extends a') (ha : a.Wf ν) (ha' : a'.Wf ν) (hv : a.Minted v) :
    a'.store.materialize v = a.store.materialize v :=
  (ValueStore.materialize_congr h.nonce ha.wellFormed.ordered ha'.wellFormed.ordered
    (fun _ hid => (h.stored hid).symm) (fun _ _ _ hinside => ha.inside hinside) hv).symm

theorem Extends.liveId (h : a.Extends a') (ha : a.Wf ν) (hid : id.toNat < a.nextId)
    (hlive : a.store.LiveId ν id) : a'.store.LiveId ν id := by
  -- whatever is inside in the larger arena was already inside
  have hinside : ∀ id', Relation.ReflTransGen (a'.store.Inside ν) id id' →
      id'.toNat < a.nextId ∧ Relation.ReflTransGen (a.store.Inside ν) id id' := by
    intro id' hpath
    induction hpath with
    | refl => exact ⟨hid, .refl⟩
    | tail _ hstep ih =>
      obtain ⟨w, hw, hmem⟩ := hstep
      rw [h.stored ih.1] at hw
      rw [h.collectHandleIds] at hmem
      exact ⟨ha.inside ⟨w, hw, hmem⟩, ih.2.tail ⟨w, hw, hmem⟩⟩
  intro id' hpath
  obtain ⟨hlt, hold⟩ := hinside id' hpath
  rw [h.stored hlt]
  exact hlive id' hold

theorem Extends.live (h : a.Extends a') (ha : a.Wf ν) (hv : a.Minted v) (hlive : a.store.Live v) :
    a'.store.Live v := by
  intro id hid
  rw [h.collectHandleIds] at hid
  exact h.liveId ha (hv id hid) (hlive id hid)

/-- `v'` in `a'` stands for `v` in `a`. -/
structure Stands (a : Arena) (v : Value ν) (a' : Arena) (v' : Value ν) : Prop where
  minted : a'.Minted v'
  same : a'.store.materialize v' = a.store.materialize v
  live : a.store.Live v → a'.store.Live v'
  asU64 : Value.asU64 v' = Value.asU64 v

theorem Stands.grow {v' : Value ν} (h : a.Stands v a' v') (ha' : a'.Wf ν) (ha'' : a''.Wf ν)
    (hgrow : a'.Extends a'') : a.Stands v a'' v' where
  minted := hgrow.minted h.minted
  same := (hgrow.materialize ha' ha'' h.minted).trans h.same
  live := fun hlive => hgrow.live ha' h.minted (h.live hlive)
  asU64 := h.asU64

theorem Stands.of_extends {v' : Value ν} (h : a'.Stands v a'' v') (ha : a.Wf ν) (ha' : a'.Wf ν)
    (hgrow : a.Extends a') (hv : a.Minted v) : a.Stands v a'' v' where
  minted := h.minted
  same := h.same.trans (hgrow.materialize ha ha' hv)
  live := fun hlive => h.live (hgrow.live ha hv hlive)
  asU64 := h.asU64

/-! ### Interning -/

section Intern

variable (hash : String → UInt64) {v : Value ν}

/-- What `intern_if_large` can do: keep the value, find its text, or store it. -/
theorem internIfLarge_cases (a : Arena) (v : Value ν) :
    a.internIfLarge hash v = (v, a) ∨
    (a.store.wfrefId v = none ∧ Value.asU64 v = none ∧
      ((∃ id entry, getKey id a.entries = some entry ∧ entry.bytes = v.text ∧
          a.internIfLarge hash v = (makeWfref a.nonce id, a)) ∨
        ∃ index, a.internIfLarge hash v = (makeWfref a.nonce (UInt64.ofNat a.nextId),
          { a with
            entries := insertKey (UInt64.ofNat a.nextId)
              ⟨v.text, a.store.collectHandleIds v⟩ a.entries
            contentIndex := index
            nextId := a.nextId + 1 }))) := by
  unfold internIfLarge
  split
  · exact Or.inl rfl
  next hlarge =>
  rw [Bool.or_eq_true, not_or, Bool.not_eq_true, Option.isSome_eq_false_iff,
    Option.isNone_iff_eq_none, decide_eq_true_eq] at hlarge
  refine Or.inr ⟨hlarge.1, asU64_of_large hlarge.2, ?_⟩
  dsimp only
  cases hexisting : a.existing (hash v.text) v.text with
  | none => exact Or.inr ⟨_, rfl⟩
  | some id =>
    obtain ⟨_, hany⟩ := Option.filter_eq_some_iff.mp hexisting
    cases hentry : getKey id a.entries with
    | none =>
      rw [hentry] at hany
      cases hany
    | some entry =>
      rw [hentry] at hany
      exact Or.inl ⟨id, entry, hentry, of_decide_eq_true hany, rfl⟩

theorem liveId_of_stored (hstored : a.store.stored id = some v) (hlive : a.store.Live v) :
    a.store.LiveId ν id := by
  intro id' hpath
  rcases hpath.cases_head with rfl | ⟨next, ⟨w, hw, hnext⟩, hrest⟩
  · rw [hstored]
    rfl
  · obtain rfl : v = w := Option.some.inj (hstored.symm.trans hw)
    exact hlive next hnext id' hrest

/-- The handle of an id stands for the value under the id. -/
theorem stands_makeWfref [LawfulU64 ν] (ha : a.Wf ν) (hstored : a.store.stored id = some v)
    (hnumber : Value.asU64 v = none) : a.Stands v a (makeWfref a.nonce id) := by
  have hid : a.store.wfrefId (makeWfref a.nonce id : Value ν) = some id :=
    wfrefId_makeWfref a.store id
  have hall : ∀ {P : UInt64 → Prop}, P id →
      a.store.AllHandles P (makeWfref a.nonce id : Value ν) := by
    intro P hP id' hid'
    rw [ValueStore.collectHandleIds_handle hid, mem_singleton] at hid'
    exact hid' ▸ hP
  refine ⟨hall (ha.of_stored hstored).1, ?_, fun hlive => hall (liveId_of_stored hstored hlive), ?_⟩
  · rw [ValueStore.materialize_handle ha.wellFormed.ordered hid, hstored]
    rfl
  · rw [hnumber]
    rfl

theorem stands_self (hv : a.Minted v) : a.Stands v a v := ⟨hv, rfl, id, rfl⟩

variable [LawfulNumber ν]

/-- The arena after a value is stored under a fresh id. -/
theorem wf_insert (ha : a.Wf ν) (hv : a.Given v) (hid : a.nextId + 1 ≤ 2 ^ 64)
    (hnone : a.store.wfrefId v = none) (hnumber : Value.asU64 v = none)
    (index : List (UInt64 × UInt64)) (ha' : a' = { a with
      entries := insertKey (UInt64.ofNat a.nextId) ⟨v.text, a.store.collectHandleIds v⟩ a.entries
      contentIndex := index
      nextId := a.nextId + 1 }) :
    a'.Wf ν ∧ a.Extends a' ∧ a'.store.stored (UInt64.ofNat a.nextId) = some v := by
  have htoNat : (UInt64.ofNat a.nextId).toNat = a.nextId :=
    UInt64.toNat_ofNat_of_lt' (Nat.lt_of_succ_le hid)
  have hextends : a.Extends a' := by
    subst ha'
    refine ⟨rfl, Nat.le_succ _, fun id hlt => getKey_insertKey_ne ?_ _ _⟩
    rintro rfl
    omega
  have hnonce : a'.store.nonce = a.store.nonce := hextends.nonce.symm
  refine ⟨⟨?_, ?_⟩, hextends, ?_⟩
  · intro e he
    subst ha'
    rcases mem_cons.mp he with rfl | he
    · exact Nat.lt_succ_of_le htoNat.le
    · exact (ha.young e (mem_of_mem_filter he)).trans (Nat.lt_succ_self _)
  · intro e he
    have hmem : e = (UInt64.ofNat a.nextId, ⟨v.text, a.store.collectHandleIds v⟩) ∨
        e ∈ a.entries := by
      subst ha'
      rcases mem_cons.mp he with rfl | he
      · exact Or.inl rfl
      · exact Or.inr (mem_of_mem_filter he)
    simp only [ValueStore.AllHandles, hextends.collectHandleIds, ValueStore.wfrefId_congr hnonce]
    rcases hmem with rfl | he
    · refine ⟨v, hv.fromSlice_text, rfl, hnone, hnumber, fun id hid => ?_⟩
      exact UInt64.lt_iff_toNat_lt.mpr ((hv.minted id hid).trans_eq htoNat.symm)
    · exact ha.held e he
  · subst ha'
    rw [stored_store, getKey_insertKey_self]
    exact hv.fromSlice_text

/-- **Interning**: the arena only grows, and what is carried stands for the value. -/
theorem stands_internIfLarge [LawfulU64 ν] (ha : a.Wf ν) (hv : a.Given v)
    (hid : (a.internIfLarge hash v).2.nextId ≤ 2 ^ 64) :
    (a.internIfLarge hash v).2.Wf ν ∧ a.Extends (a.internIfLarge hash v).2 ∧
      a.Stands v (a.internIfLarge hash v).2 (a.internIfLarge hash v).1 := by
  obtain hkeep | ⟨hnone, hnumber, ⟨id, entry, hentry, hbytes, hfound⟩ | ⟨index, hnew⟩⟩ :=
    internIfLarge_cases hash a v
  · rw [hkeep]
    exact ⟨ha, .refl a, stands_self hv.minted⟩
  · rw [hfound]
    refine ⟨ha, .refl a, stands_makeWfref ha ?_ hnumber⟩
    rw [stored_store, hentry, Option.bind_some, hbytes]
    exact hv.fromSlice_text
  · rw [hnew] at hid ⊢
    obtain ⟨hwf, hextends, hstored⟩ := wf_insert ha hv hid hnone hnumber index rfl
    exact ⟨hwf, hextends,
      (stands_makeWfref hwf hstored hnumber).of_extends ha hwf hextends hv.minted⟩

end Intern

end Arena

end Interning

end Runtara
