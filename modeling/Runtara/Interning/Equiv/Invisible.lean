/-
  Interning is invisible.

  Along any run of calls on the arena the invariant holds (`Run.wf`). From it: interning a value
  does not change what it stands for, a path finds in an interned scope what it finds in the
  materialized one, and collecting does not change what can be reached from the roots.

  Two things limit this. A handle whose value was collected is null when it is materialized, but it
  is itself to a path that goes on with one of its keys (`stale_handle_read`). And a value that is
  nested deeper than `serde_json` reads can be stored but not read back.
-/
import Runtara.Interning.Equiv.Source

namespace Runtara

open Json List

section Interning

variable {ν : Type} [NumberOps ν]

namespace Arena

variable {a : Arena}

/-! ### Collecting -/

variable (ν) in
/-- The id is in one of the roots, or inside the value of an id that is. -/
def ReachedFrom (a : Arena) (roots : List String) (id : UInt64) : Prop :=
  ∃ root ∈ roots, ∃ r : Value ν, fromSlice root = some r ∧
    ∃ id₀ ∈ a.store.collectHandleIds r, Relation.ReflTransGen (a.store.Inside ν) id₀ id

theorem mem_of_mapM {α β : Type} {f : α → Option β} {l : List α} {l' : List β}
    (h : l.mapM f = some l') {x : α} (hx : x ∈ l) {y : β} (hy : f x = some y) : y ∈ l' := by
  induction l generalizing l' with
  | nil => exact absurd hx not_mem_nil
  | cons z l ih =>
    rw [mapM_cons] at h
    obtain ⟨w, hw, h⟩ := Option.bind_eq_some_iff.mp h
    obtain ⟨ws, hws, h⟩ := Option.bind_eq_some_iff.mp h
    cases h
    rcases mem_cons.mp hx with rfl | hx
    · exact Option.some.inj (hw.symm.trans hy) ▸ mem_cons_self
    · exact mem_cons_of_mem _ (ih hws hx)

/-- What the collector can do: nothing, or sweep what it did not mark. -/
theorem valueStoreRetain_cases (a : Arena) (roots : List String) :
    a.valueStoreRetain ν roots = a ∨ ∃ work, a.rootIds ν roots = some work ∧
      a.valueStoreRetain ν roots = a.sweep (a.marked work) := by
  unfold valueStoreRetain
  cases a.rootIds ν roots with
  | none => exact Or.inl rfl
  | some work =>
    dsimp only
    split
    · exact Or.inl rfl
    · exact Or.inr ⟨work, rfl, rfl⟩

theorem wf_valueStoreRetain (ha : a.Wf ν) (roots : List String) :
    (a.valueStoreRetain ν roots).Wf ν := by
  obtain h | ⟨work, _, h⟩ := valueStoreRetain_cases (ν := ν) a roots
  · rw [h]
    exact ha
  · rw [h]
    refine ⟨fun e he => ha.young e (mem_of_mem_filter he), fun e he => ?_⟩
    obtain ⟨w, hw, hrest⟩ := ha.held e (mem_of_mem_filter he)
    have hnonce : (a.sweep (a.marked work)).store.nonce = a.store.nonce := rfl
    simp only [ValueStore.AllHandles, ValueStore.collectHandleIds_congr hnonce,
      ValueStore.wfrefId_congr hnonce]
    exact ⟨w, hw, hrest⟩

theorem nextId_valueStoreRetain (a : Arena) (roots : List String) :
    (a.valueStoreRetain ν roots).nextId = a.nextId := by
  obtain h | ⟨work, _, h⟩ := valueStoreRetain_cases (ν := ν) a roots
  · rw [h]
  · rw [h]
    rfl

theorem mem_marked (ha : a.Wf ν) {roots : List String} {work : List UInt64}
    (hwork : a.rootIds ν roots = some work) {id : UInt64} (hid : a.ReachedFrom ν roots id) :
    id ∈ a.marked work := by
  obtain ⟨root, hroot, r, hr, id₀, hid₀, hpath⟩ := hid
  obtain ⟨values, hvalues, rfl⟩ := Option.map_eq_some_iff.mp hwork
  have hstart : id₀ ∈ values.flatMap a.store.collectHandleIds :=
    mem_flatMap.mpr ⟨r, mem_of_mapM hvalues hroot hr, hid₀⟩
  have hnodes : ∀ x, x ∉ a.entries.map Prod.fst → a.nested x = [] := by
    intro x hx
    unfold nested
    cases hentry : getKey x a.entries with
    | none => rfl
    | some entry => exact absurd (mem_map_of_mem (mem_of_getKey hentry)) hx
  refine Search.mem_mark_of_reaches hnodes hstart (hpath.lift (fun x => x) ?_)
  rintro x y ⟨w, hw, hy⟩
  show y ∈ a.nested x
  rw [(ha.of_stored hw).2.1]
  exact hy

/-- **Collecting is exact**: an entry is kept exactly if its id is reached from the handles of the
roots, or if one of the roots is no JSON. -/
theorem mem_valueStoreRetain_iff (a : Arena) (roots : List String) (e : UInt64 × StoreEntry) :
    e ∈ (a.valueStoreRetain ν roots).entries ↔ e ∈ a.entries ∧
      ∀ work, a.rootIds ν roots = some work → ∃ id ∈ work, Search.Reaches a.nested id e.1 := by
  have hnodes (x) (hx : x ∉ a.entries.map Prod.fst) : a.nested x = [] := by
    rw [nested, getKey, find?_eq_none.mpr]
    · rfl
    · exact fun e he h => hx (mem_map.mpr ⟨e, he, of_decide_eq_true h⟩)
  unfold valueStoreRetain
  cases a.rootIds ν roots with
  | none => simp
  | some work =>
    dsimp only
    split
    · next hempty => simp [isEmpty_iff.mp hempty]
    · have hmarked : e.1 ∈ a.marked work ↔ _ := Search.mem_mark_iff hnodes
      simp [sweep, hmarked]

/-- **Collecting** does not change what is reached from the roots. -/
theorem materialize_valueStoreRetain (ha : a.Wf ν) (roots : List String) {v : Value ν}
    (hv : a.store.AllHandles (a.ReachedFrom ν roots) v) :
    (a.valueStoreRetain ν roots).store.materialize v = a.store.materialize v := by
  have hwf := wf_valueStoreRetain ha roots
  obtain h | ⟨work, hwork, h⟩ := valueStoreRetain_cases (ν := ν) a roots
  · rw [h]
  · rw [h] at hwf ⊢
    have hnonce : a.store.nonce = (a.sweep (a.marked work)).store.nonce := rfl
    refine (ValueStore.materialize_congr hnonce ha.wellFormed.ordered hwf.wellFormed.ordered
      (fun id hid => ?_) (fun id id' hid hinside => ?_) hv).symm
    · -- what is marked is kept
      have hmarked := decide_eq_true (mem_marked ha hwork hid)
      rw [stored_store, stored_store, sweep,
        getKey_filter (p := fun x => decide (x ∈ a.marked work)) hmarked]
    · obtain ⟨root, hroot, r, hr, id₀, hid₀, hpath⟩ := hid
      exact ⟨root, hroot, r, hr, id₀, hid₀, hpath.tail hinside⟩

end Arena

/-! ### Runs -/

variable (ν) in
/-- The calls that change the arena. -/
inductive InternCall where
  | internIfLarge (v : Value ν)
  | buildSource (data vars steps : String)
  | valueStoreRetain (roots : List String)

namespace InternCall

def run (env : ProcessEnv) (hash : String → UInt64) (a : Arena) : InternCall ν → Arena
  | .internIfLarge v => (a.internIfLarge hash v).2
  | .buildSource data vars steps => (a.buildSource ν env hash data vars steps).2
  | .valueStoreRetain roots => a.valueStoreRetain ν roots

/-- The values of the call have no forged handle, are nested no deeper than they can be read, and
have only numbers that are read back. -/
def Allowed (a : Arena) : InternCall ν → Prop
  | .internIfLarge v => a.Given v
  | .buildSource data vars steps =>
    ∀ text ∈ [data, vars, steps], ∀ w : Value ν, fromSlice text = some w →
      w.reread = w ∧ a.Minted w
  | .valueStoreRetain _ => True

end InternCall

/-- The calls of a run, one after the other. -/
inductive InternRun (env : ProcessEnv) (hash : String → UInt64) :
    Arena → List (InternCall ν) → Arena → Prop where
  | nil (a : Arena) : InternRun env hash a [] a
  | cons {a a' : Arena} {c : InternCall ν} {cs : List (InternCall ν)} (allowed : c.Allowed a)
    (rest : InternRun env hash (c.run env hash a) cs a') : InternRun env hash a (c :: cs) a'

section Runs

variable {env : ProcessEnv} {hash : String → UInt64} {a a' : Arena} {cs : List (InternCall ν)}

theorem InternCall.nextId_le (c : InternCall ν) : a.nextId ≤ (c.run env hash a).nextId := by
  cases c with
  | internIfLarge v => exact Arena.nextId_le_internIfLarge hash a v
  | buildSource data vars steps => exact Arena.nextId_le_buildEnvelope hash a env data vars steps
  | valueStoreRetain roots => exact (Arena.nextId_valueStoreRetain a roots).ge

theorem InternRun.nextId_le (h : InternRun env hash a cs a') : a.nextId ≤ a'.nextId := by
  induction h with
  | nil a => exact Nat.le_refl _
  | cons _ _ ih => exact (InternCall.nextId_le _).trans ih

variable [LawfulNumber ν] [LawfulU64 ν]

theorem InternCall.wf {c : InternCall ν} (ha : a.Wf ν) (hc : c.Allowed a)
    (hid : (c.run env hash a).nextId ≤ 2 ^ 64) : (c.run env hash a).Wf ν := by
  cases c with
  | internIfLarge v => exact (Arena.stands_internIfLarge hash ha hc hid).1
  | buildSource data vars steps => exact (Arena.stands_buildEnvelope hash env ha hc hid).1
  | valueStoreRetain roots => exact Arena.wf_valueStoreRetain ha roots

theorem InternRun.wf (h : InternRun env hash a cs a') (ha : a.Wf ν) (hid : a'.nextId ≤ 2 ^ 64) :
    a'.Wf ν := by
  induction h with
  | nil a => exact ha
  | cons allowed rest ih => exact ih (InternCall.wf ha allowed (rest.nextId_le.trans hid)) hid

/-- **Interning is invisible**, in every arena that a run reaches with at most `2 ^ 64` ids given.
Interning a value does not change what it stands for; a path finds in a scope, and in the scope
with its entries interned, what it finds in the materialized scope, if no handle in the scope
dangles or the path does not have the keys of a handle; the envelope that `build_source` makes of
inputs without dangling handles has none; and collecting does not change any value whose handles
are all reached from the roots. -/
theorem interning_invisible {nonce : UInt64} (hrun : InternRun env hash (.reset nonce) cs a)
    (hid : a.nextId ≤ 2 ^ 64) :
    (∀ v : Value ν, a.Given v → (a.internIfLarge hash v).2.nextId ≤ 2 ^ 64 →
      (a.internIfLarge hash v).2.store.materialize (a.internIfLarge hash v).1
        = a.store.materialize v) ∧
    (∀ (scope : Value ν) (path : List String), a.store.Readable path scope →
      lookupSegmentsDetailed a.store scope path
        = lookupSegmentsDetailed a.store (a.store.materialize scope) path) ∧
    (∀ (scope : Value ν) (path : List String), a.Given scope → a.store.Readable path scope →
      (a.internContainer hash scope).2.nextId ≤ 2 ^ 64 →
      lookupSegmentsDetailed (a.internContainer hash scope).2.store
          (a.internContainer hash scope).1 path
        = lookupSegmentsDetailed (a.internContainer hash scope).2.store
          (a.store.materialize scope) path) ∧
    (∀ (data vars steps : String) (source : Value ν) (a' : Arena),
      a.buildEnvelope env hash data vars steps = (.ok source, a') → a'.nextId ≤ 2 ^ 64 →
      (∀ text ∈ [data, vars, steps], ∀ w : Value ν, fromSlice text = some w →
        w.reread = w ∧ a.Minted w ∧ a.store.Live w) →
      ∀ path, lookupSegmentsDetailed a'.store source path
        = lookupSegmentsDetailed a'.store (a'.store.materialize source) path) ∧
    (∀ (roots : List String) (v : Value ν), a.store.AllHandles (a.ReachedFrom ν roots) v →
      (a.valueStoreRetain ν roots).store.materialize v = a.store.materialize v) := by
  have ha : a.Wf ν := hrun.wf (Arena.wf_reset nonce) hid
  refine ⟨fun v hv hid' => (Arena.stands_internIfLarge hash ha hv hid').2.2.same,
    fun scope path hread => ValueStore.lookup_materialize ha.wellFormed hread,
    fun scope path hscope hread hid' => ?_,
    fun data vars steps source a' hbuild hid' hall path => ?_,
    fun roots v hv => Arena.materialize_valueStoreRetain ha roots hv⟩
  · obtain ⟨hwf, hext, hstands⟩ := Arena.stands_internContainer hash ha hscope.minted
      ((hereditary_given a).fieldsHave hscope).entries hid'
    rw [← hstands.same]
    exact ValueStore.lookup_materialize hwf.wellFormed (hread.imp_left hstands.live)
  · have hinputs : ∀ text ∈ [data, vars, steps], ∀ w : Value ν, fromSlice text = some w →
        w.reread = w ∧ a.Minted w := fun text htext w hw =>
      ⟨(hall text htext w hw).1, (hall text htext w hw).2.1⟩
    have hspec := Arena.stands_buildEnvelope hash env ha hinputs
    rw [hbuild] at hspec
    obtain ⟨hwf, _, hsource⟩ := hspec hid'
    have hlive := (hsource source rfl).2 fun text htext w hw => (hall text htext w hw).2.2
    exact ValueStore.lookup_materialize hwf.wellFormed (Or.inl hlive)

/-- **Handles form no cycle** in an arena that a run reaches, since values hold older ones only. So
the recursion of `materialize` ends, and no handle is left in what it returns. -/
theorem materialize_ends {nonce : UInt64} (hrun : InternRun env hash (.reset nonce) cs a)
    (hid : a.nextId ≤ 2 ^ 64) : a.store.Ordered ν ∧ ∀ v : Value ν,
      a.store.materialize v = a.store.materializeWith a.store.materialize v ∧
      a.store.collectHandleIds (a.store.materialize v) = [] := by
  have hs := (hrun.wf (Arena.wf_reset nonce) hid).wellFormed
  exact ⟨hs.ordered, fun v => ⟨ValueStore.materialize_eq hs.ordered v,
    ValueStore.collectHandleIds_materialize hs v⟩⟩

end Runs

end Interning

/-! ### Values that are not read back -/

def largeValue : Value ℕ := .array (List.replicate 4000 .null)

def nestValue : ℕ → Value ℕ → Value ℕ
  | 0, v => v
  | n + 1, v => .array [nestValue n v]

theorem estimate_largeValue : wfrefThresholdBytes ≤ estimateJsonSize largeValue := by
  decide +kernel

theorem estimate_nestValue (n : ℕ) (v : Value ℕ) :
    estimateJsonSize v ≤ estimateJsonSize (nestValue n v) := by
  induction n with
  | zero => exact Nat.le_refl _
  | succ n ih =>
    simp only [nestValue, estimateJsonSize, estimateItemsSize]
    omega

theorem depth_nestValue (n : ℕ) (v : Value ℕ) : (nestValue n v).depth = n + v.depth := by
  induction n with
  | zero => rw [nestValue, Nat.zero_add]
  | succ n ih =>
    rw [nestValue, Value.depth, Value.depthItems, Value.depthItems, ih, Nat.max_zero]
    omega

theorem sorted_nestValue (n : ℕ) {v : Value ℕ} (hv : v.Sorted) : (nestValue n v).Sorted := by
  induction n with
  | zero => exact hv
  | succ n ih => exact ⟨ih, trivial⟩

theorem allHandles_nestValue {s : ValueStore} {P : UInt64 → Prop} (n : ℕ) {v : Value ℕ}
    (hv : s.AllHandles P v) : s.AllHandles P (nestValue n v) := by
  induction n with
  | zero => exact hv
  | succ n ih =>
    refine ValueStore.allHandles_array.mpr fun w hw => ?_
    rw [mem_singleton.mp hw]
    exact ih

theorem sorted_largeValue : largeValue.Sorted :=
  Value.sortedItems_iff.mpr fun v hv => by
    rw [eq_of_mem_replicate hv]
    exact trivial

theorem depth_largeValue : largeValue.depth = 1 := by
  have hitems : Value.depthItems (List.replicate 4000 (.null : Value ℕ)) ≤ 0 :=
    Value.depthItems_le.mpr fun v hv => by
      rw [eq_of_mem_replicate hv]
      exact Nat.le_refl _
  rw [largeValue, Value.depth, Nat.le_zero.mp hitems]

theorem reread_largeValue : largeValue.reread = largeValue := by
  rw [largeValue, reread_array, map_replicate]
  rfl

theorem allHandles_largeValue (s : ValueStore) (P : UInt64 → Prop) : s.AllHandles P largeValue :=
  ValueStore.allHandles_array.mpr fun v hv => by
    rw [eq_of_mem_replicate hv]
    exact ValueStore.allHandles_leaf nofun nofun

/-- A large array that is not stored yet is stored under the next id. -/
theorem internIfLarge_array (a : Arena) (hash : String → UInt64) {vs : List (Value ℕ)}
    (hlarge : wfrefThresholdBytes ≤ estimateJsonSize (.array vs))
    (hnew : ∀ e ∈ a.entries, e.2.bytes ≠ Value.text (.array vs)) :
    a.internIfLarge hash (.array vs) = (makeWfref a.nonce (UInt64.ofNat a.nextId),
      { nonce := a.nonce
        entries := insertKey (UInt64.ofNat a.nextId)
          ⟨Value.text (.array vs), a.store.collectHandleIds (.array vs)⟩ a.entries
        contentIndex := insertKey (hash (Value.text (.array vs))) (UInt64.ofNat a.nextId)
          a.contentIndex
        nextId := a.nextId + 1 }) := by
  have hexisting : a.existing (hash (Value.text (.array vs))) (Value.text (.array vs)) = none := by
    refine Option.filter_eq_none_iff.mpr fun id _ => ?_
    cases hentry : getKey id a.entries with
    | none => exact Bool.false_ne_true
    | some entry => simpa using hnew _ (mem_of_getKey hentry)
  unfold Arena.internIfLarge
  rw [if_neg]
  · simp only [hexisting]
  · rw [Bool.or_eq_true, not_or, decide_eq_true_eq]
    exact ⟨nofun, Nat.not_lt.mpr hlarge⟩

theorem internIfLarge_reset (nonce : UInt64) (hash : String → UInt64) {vs : List (Value ℕ)}
    (hlarge : wfrefThresholdBytes ≤ estimateJsonSize (.array vs)) :
    (Arena.reset nonce).internIfLarge hash (.array vs) = (makeWfref nonce 0,
      { nonce := nonce
        entries := [(0, ⟨Value.text (.array vs),
          (Arena.reset nonce).store.collectHandleIds (.array vs)⟩)]
        contentIndex := [(hash (Value.text (.array vs)), 0)]
        nextId := 1 }) :=
  internIfLarge_array (Arena.reset nonce) hash hlarge fun _ he => absurd he not_mem_nil

theorem materialize_unread {a : Arena}
    (h : ∀ e ∈ a.entries, (fromSlice e.2.bytes : Option (Value ℕ)) = none) (id : UInt64) :
    a.store.materialize (makeWfref a.nonce id : Value ℕ) = .null := by
  have hnone : ∀ id, a.store.stored (ν := ℕ) id = none := by
    intro id
    rw [Arena.stored_store]
    cases hentry : getKey id a.entries with
    | none => rfl
    | some entry => exact h _ (mem_of_getKey hentry)
  have hordered : a.store.Ordered ℕ := by
    intro id w hw
    rw [hnone] at hw
    cases hw
  have hid : a.store.wfrefId (makeWfref a.nonce id : Value ℕ) = some id :=
    wfrefId_makeWfref a.store id
  rw [ValueStore.materialize_handle hordered hid, hnone]
  rfl

/-- No environment and a hash under which all texts collide. -/
def bareEnv : ProcessEnv := ⟨none, none, fun _ => ""⟩

def collidingHash : String → UInt64 := fun _ => 0

/-- The arena after the large value was stored and collected. -/
def emptiedArena : Arena :=
  ((Arena.reset 7).internIfLarge collidingHash largeValue).2.valueStoreRetain ℕ []

/-- A scope that still has the handle. -/
def staleScope : Value ℕ :=
  .object [("x", ((Arena.reset 7).internIfLarge collidingHash largeValue).1)]

theorem emptiedArena_eq : emptiedArena = ⟨7, [], [], 1⟩ := by
  unfold emptiedArena largeValue
  rw [internIfLarge_reset 7 collidingHash estimate_largeValue]
  show Arena.sweep _ (Arena.marked _ []) = _
  rw [Arena.marked, Search.mark_nil]
  rfl

theorem staleScope_eq : staleScope = .object [("x", .object [("$wfnonce", .number 7),
    ("$wfref", .number 0)])] := by
  unfold staleScope largeValue
  rw [internIfLarge_reset 7 collidingHash estimate_largeValue]
  rfl

theorem given_largeValue : (Arena.reset 7).Given largeValue :=
  ⟨sorted_largeValue, by rw [depth_largeValue]; decide, reread_largeValue,
    allHandles_largeValue _ _⟩

theorem run_emptiedArena : InternRun bareEnv collidingHash (.reset 7)
    [.internIfLarge largeValue, .valueStoreRetain []] emptiedArena :=
  .cons given_largeValue (.cons trivial (.nil _))

/-- **A collected handle can be read.** A large value is interned and collected; in a scope that
still has its handle the path `x.$wfref` finds the id, where the materialized scope has nothing.
And a value nested too deep to be read back stands for null once it is interned. -/
theorem stale_handle_read :
    InternRun bareEnv collidingHash (.reset 7)
      [.internIfLarge largeValue, .valueStoreRetain []] emptiedArena ∧
    emptiedArena.Minted staleScope ∧
    lookupSegmentsDetailed emptiedArena.store staleScope ["x", "$wfref"] = .found (.number 0) ∧
    lookupSegmentsDetailed emptiedArena.store (emptiedArena.store.materialize staleScope)
      ["x", "$wfref"] = .absent ∧
    (nestValue 127 largeValue).Sorted ∧ (Arena.reset 7).Minted (nestValue 127 largeValue) ∧
    ((Arena.reset 7).internIfLarge collidingHash (nestValue 127 largeValue)).2.store.materialize
      ((Arena.reset 7).internIfLarge collidingHash (nestValue 127 largeValue)).1 = .null ∧
    (Arena.reset 7).store.materialize (nestValue 127 largeValue) ≠ .null := by
  have hdeep : (nestValue 127 largeValue).depth = 128 := by
    rw [depth_nestValue, depth_largeValue]
  have hsorted := sorted_nestValue 127 sorted_largeValue
  have hlarge := estimate_largeValue.trans (estimate_nestValue 127 largeValue)
  refine ⟨run_emptiedArena, ?_, ?_, ?_, hsorted, allHandles_nestValue 127
    (allHandles_largeValue _ _), ?_, ?_⟩
  · rw [emptiedArena_eq, staleScope_eq]
    intro id hid
    obtain rfl : id = 0 := mem_singleton.mp hid
    decide
  · rw [emptiedArena_eq, staleScope_eq]
    rfl
  · rw [emptiedArena_eq, staleScope_eq]
    rfl
  · have hunread : (fromSlice (nestValue 127 largeValue).text : Option (Value ℕ)) = none := by
      rw [fromSlice, parse_text recursionLimit hsorted, if_neg (by rw [hdeep]; decide)]
    have hshape : nestValue 127 largeValue = .array [nestValue 126 largeValue] := rfl
    rw [hshape] at hlarge hunread ⊢
    rw [internIfLarge_reset 7 collidingHash hlarge]
    refine materialize_unread (fun e he => ?_) 0
    rw [mem_singleton.mp he]
    exact hunread
  · rw [nestValue, ValueStore.materialize_array (Arena.wf_reset 7).wellFormed.ordered]
    intro hnull
    cases hnull

/-! ### A stored value with a stored handle in it -/

/-- The arena with the large value. -/
def firstArena : Arena := ⟨7, [(0, ⟨largeValue.text, []⟩)], [(0, 0)], 1⟩

/-- A large value that starts with the handle of the first one. -/
def outerValue : Value ℕ := .array (makeWfref 7 0 :: List.replicate 4000 .null)

/-- The arena with both values: the outer one is stored under the id 1, although the two texts have
the same hash. -/
def pairArena : Arena :=
  ⟨7, [(1, ⟨outerValue.text, [0]⟩), (0, ⟨largeValue.text, []⟩)], [(0, 1)], 2⟩

def outerScope : Value ℕ := .object [("x", makeWfref 7 1)]

theorem collectHandleIds_nulls (s : ValueStore) (n : ℕ) :
    (List.replicate n (.null : Value ℕ)).flatMap s.collectHandleIds = [] :=
  flatMap_eq_nil_iff.mpr fun v hv => by
    rw [eq_of_mem_replicate hv]
    exact ValueStore.collectHandleIds_leaf nofun nofun

theorem internIfLarge_largeValue :
    (Arena.reset 7).internIfLarge collidingHash largeValue = (makeWfref 7 0, firstArena) := by
  unfold firstArena
  rw [largeValue, internIfLarge_reset 7 collidingHash estimate_largeValue,
    ValueStore.collectHandleIds_array, collectHandleIds_nulls]
  rfl

theorem outerValue_text_ne : largeValue.text ≠ outerValue.text := by
  intro h
  have hchars := congrArg (fun text : String => text.toList.take 2) h
  simp only [Value.text, String.toList_ofList] at hchars
  revert hchars
  decide +kernel

theorem estimate_outerValue : wfrefThresholdBytes ≤ estimateJsonSize outerValue := by
  decide +kernel

theorem collectHandleIds_outerValue {s : ValueStore} (hs : s.nonce = 7) :
    s.collectHandleIds outerValue = [0] := by
  rw [outerValue, ValueStore.collectHandleIds_array, flatMap_cons, collectHandleIds_nulls,
    ValueStore.collectHandleIds_handle (hs ▸ wfrefId_makeWfref s 0), append_nil]

theorem internIfLarge_outerValue :
    firstArena.internIfLarge collidingHash outerValue = (makeWfref 7 1, pairArena) := by
  have hnew : ∀ e ∈ firstArena.entries, e.2.bytes ≠ outerValue.text := by
    intro e he
    rw [mem_singleton.mp he]
    exact outerValue_text_ne
  have hids : firstArena.store.collectHandleIds outerValue = [0] := collectHandleIds_outerValue rfl
  unfold outerValue at hids hnew
  rw [outerValue, internIfLarge_array _ collidingHash estimate_outerValue hnew, hids]
  rfl

/-- The items of the outer value are the handle and nulls. -/
theorem forall_outerValue {P : Value ℕ → Prop} (hhandle : P (makeWfref 7 0)) (hnull : P .null) :
    ∀ v ∈ makeWfref 7 0 :: List.replicate 4000 (.null : Value ℕ), P v :=
  forall_mem_cons.mpr ⟨hhandle, fun _ hv => (eq_of_mem_replicate hv).symm ▸ hnull⟩

theorem given_outerValue : firstArena.Given outerValue where
  sorted := by
    refine Value.sortedItems_iff.mpr (forall_outerValue (Value.sorted_obj ?_) trivial)
    simp [Value.Sorted]
  depth := by
    have hitems : ∀ v ∈ makeWfref 7 0 :: List.replicate 4000 (.null : Value ℕ), v.depth ≤ 1 :=
      forall_outerValue (by decide) (by decide)
    have hdepth := Value.depthItems_le.mpr hitems
    rw [outerValue, Value.depth, recursionLimit]
    omega
  readsBack := by
    rw [outerValue, reread_array, map_cons, map_replicate]
    rfl
  minted := fun id hid => by
    rw [collectHandleIds_outerValue rfl, mem_singleton] at hid
    rw [hid]
    decide

theorem run_pairArena : InternRun bareEnv collidingHash (.reset 7)
    [.internIfLarge largeValue, .internIfLarge outerValue] pairArena := by
  refine .cons given_largeValue ?_
  rw [InternCall.run, internIfLarge_largeValue]
  refine .cons given_outerValue ?_
  rw [InternCall.run, internIfLarge_outerValue]
  exact .nil _

/-- At an arena with both values: a path through the two handles finds what it finds in the
materialized scope. -/
theorem interning_invisible_pair :
    InternRun bareEnv collidingHash (.reset 7)
      [.internIfLarge largeValue, .internIfLarge outerValue] pairArena ∧
    pairArena.nextId ≤ 2 ^ 64 ∧ pairArena.entries.map (·.2.nested) = [[0], []] ∧
    lookupSegmentsDetailed pairArena.store outerScope ["x", "0", "1"]
      = lookupSegmentsDetailed pairArena.store (pairArena.store.materialize outerScope)
        ["x", "0", "1"] := by
  have hid : pairArena.nextId ≤ 2 ^ 64 := (by decide : 2 ≤ 2 ^ 64)
  refine ⟨run_pairArena, hid, rfl, ?_⟩
  exact (interning_invisible run_pairArena hid).2.1 outerScope ["x", "0", "1"] (Or.inr (by decide))

/-- The handle in the stored value is resolved as well. -/
theorem materialize_ends_pair : pairArena.entries.map (·.2.nested) = [[0], []] ∧
    pairArena.store.collectHandleIds outerScope = [1] ∧
    pairArena.store.collectHandleIds (pairArena.store.materialize outerScope) = [] := by
  refine ⟨rfl, ?_, ((materialize_ends run_pairArena (by decide : 2 ≤ 2 ^ 64)).2 outerScope).2⟩
  rfl

end Runtara
