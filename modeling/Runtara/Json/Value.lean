/-
  JSON values.

  An object is an association list in strictly increasing key order, which is how an ordered map
  holds it; `insertEntry` is the map's insertion. Numbers are left to a parameter.
-/
import Mathlib.Data.List.Induction
import Mathlib.Data.String.Basic

namespace Json

open List

/-- A JSON value with numbers in `ν`. -/
inductive Value (ν : Type) where
  | null
  | bool (b : Bool)
  | number (n : ν)
  | string (s : String)
  | array (items : List (Value ν))
  | object (entries : List (String × Value ν))

/-- The members of an object. -/
abbrev Entries (ν : Type) := List (String × Value ν)

/-! ### Association lists in key order -/

variable {k : String}

section Entries

variable {α : Type}

/-- Sets the value of `k`, keeping the keys in order. -/
def insertEntry (k : String) (a : α) : List (String × α) → List (String × α)
  | [] => [(k, a)]
  | (k', a') :: es =>
    if k < k' then (k, a) :: (k', a') :: es
    else if k = k' then (k, a) :: es
    else (k', a') :: insertEntry k a es

def lookupEntry (k : String) (es : List (String × α)) : Option α :=
  (es.find? fun e => e.1 = k).map Prod.snd

/-- `Map::remove`. -/
def removeEntry (k : String) (es : List (String × α)) : List (String × α) :=
  es.filter fun e => e.1 ≠ k

/-- The keys of `es` are strictly increasing. -/
def KeysSorted (es : List (String × α)) : Prop := es.Pairwise fun e e' => e.1 < e'.1

/-- The ordered map of a list of entries, later ones winning. -/
def ofEntries (es : List (String × α)) : List (String × α) :=
  es.foldl (fun m e => insertEntry e.1 e.2 m) []

variable {es : List (String × α)} {e : String × α}

theorem mem_insertEntry {a : α} (h : e ∈ insertEntry k a es) : e = (k, a) ∨ e ∈ es := by
  induction es with
  | nil =>
    rw [insertEntry, mem_singleton] at h
    exact Or.inl h
  | cons e' es ih =>
    obtain ⟨k', a'⟩ := e'
    rw [insertEntry] at h
    split at h
    · exact mem_cons.mp h
    · split at h
      · rcases mem_cons.mp h with h | h
        · exact Or.inl h
        · exact Or.inr (mem_cons_of_mem _ h)
      · rcases mem_cons.mp h with h | h
        · exact Or.inr (h ▸ mem_cons_self)
        · exact (ih h).imp_right (mem_cons_of_mem _)

theorem KeysSorted.insertEntry (h : KeysSorted es) (k : String) (a : α) :
    KeysSorted (insertEntry k a es) := by
  induction es with
  | nil => exact pairwise_singleton _ _
  | cons e' es ih =>
    obtain ⟨k', a'⟩ := e'
    obtain ⟨hhead, htail⟩ := pairwise_cons.mp h
    rw [Json.insertEntry]
    split
    case isTrue hlt =>
      refine pairwise_cons.mpr ⟨fun e he => ?_, h⟩
      rcases mem_cons.mp he with rfl | he
      · exact hlt
      · exact lt_trans hlt (hhead e he)
    case isFalse hge =>
      split
      case isTrue heq =>
        subst heq
        exact pairwise_cons.mpr ⟨hhead, htail⟩
      case isFalse hne =>
        refine pairwise_cons.mpr ⟨fun e he => ?_, ih htail⟩
        rcases mem_insertEntry he with rfl | he
        · exact lt_of_le_of_ne (not_lt.mp hge) (Ne.symm hne)
        · exact hhead e he

theorem insertEntry_of_lt (a : α) (h : ∀ e ∈ es, e.1 < k) :
    insertEntry k a es = es ++ [(k, a)] := by
  induction es with
  | nil => rfl
  | cons e' es ih =>
    obtain ⟨k', a'⟩ := e'
    have hlt : k' < k := h _ mem_cons_self
    rw [insertEntry, if_neg (not_lt_of_gt hlt), if_neg (ne_of_gt hlt),
      ih fun e he => h e (mem_cons_of_mem _ he), cons_append]

/-- Entries that are already in order are the map they make. -/
theorem ofEntries_of_sorted (h : KeysSorted es) : ofEntries es = es := by
  -- over the entries still to come: they extend the map built so far
  suffices hrun : ∀ m : List (String × α), KeysSorted (m ++ es) →
      es.foldl (fun m e => insertEntry e.1 e.2 m) m = m ++ es from hrun [] h
  clear h
  induction es with
  | nil =>
    intro m _
    rw [foldl_nil, append_nil]
  | cons e es ih =>
    intro m hm
    have hlt : ∀ e' ∈ m, e'.1 < e.1 := fun e' he' =>
      (pairwise_append.mp hm).2.2 e' he' e mem_cons_self
    have hstep := ih (m ++ [e]) (append_cons m e es ▸ hm)
    rw [foldl_cons, insertEntry_of_lt e.2 hlt, hstep, append_assoc, singleton_append]

theorem keysSorted_ofEntries (es : List (String × α)) : KeysSorted (ofEntries es) := by
  suffices hrun : ∀ m : List (String × α), KeysSorted m →
      KeysSorted (es.foldl (fun m e => insertEntry e.1 e.2 m) m) from hrun [] List.Pairwise.nil
  induction es with
  | nil => exact fun m hm => hm
  | cons e es ih => exact fun m hm => ih _ (hm.insertEntry e.1 e.2)

theorem mem_ofEntries (h : e ∈ ofEntries es) : e ∈ es := by
  suffices hrun : ∀ m : List (String × α),
      e ∈ es.foldl (fun m e => insertEntry e.1 e.2 m) m → e ∈ m ∨ e ∈ es from
    (hrun [] h).resolve_left not_mem_nil
  clear h
  induction es with
  | nil => exact fun m hm => Or.inl hm
  | cons e' es ih =>
    intro m hm
    rcases ih _ hm with hm | hm
    · rcases mem_insertEntry hm with rfl | hm
      · exact Or.inr mem_cons_self
      · exact Or.inl hm
    · exact Or.inr (mem_cons_of_mem _ hm)

theorem mem_of_lookupEntry {a : α} (h : lookupEntry k es = some a) : (k, a) ∈ es := by
  obtain ⟨e, he, rfl⟩ := Option.map_eq_some_iff.mp h
  have hk : decide (e.1 = k) = true := by
    simpa only using find?_some he
  exact of_decide_eq_true hk ▸ mem_of_find?_eq_some he

theorem lookupEntry_eq_none : lookupEntry k es = none ↔ ∀ e ∈ es, e.1 ≠ k := by
  simp [lookupEntry, find?_eq_none]

theorem lookupEntry_map {β : Type} (k : String) (f : α → β) (es : List (String × α)) :
    lookupEntry k (es.map fun e => (e.1, f e.2)) = (lookupEntry k es).map f := by
  simp only [lookupEntry, find?_map, Option.map_map]
  rfl

theorem mem_insertEntry_self (k : String) (a : α) (es : List (String × α)) :
    (k, a) ∈ insertEntry k a es := by
  induction es with
  | nil => exact mem_cons_self
  | cons e es ih =>
    obtain ⟨k', a'⟩ := e
    rw [insertEntry]
    split
    · exact mem_cons_self
    · split
      · exact mem_cons_self
      · exact mem_cons_of_mem _ ih

theorem mem_insertEntry_of_mem (a : α) (he : e ∈ es) (hne : e.1 ≠ k) : e ∈ insertEntry k a es := by
  induction es with
  | nil => exact absurd he not_mem_nil
  | cons e' es ih =>
    obtain ⟨k', a'⟩ := e'
    rw [insertEntry]
    split
    · exact mem_cons_of_mem _ he
    · rcases mem_cons.mp he with rfl | he
      · rw [if_neg (Ne.symm hne)]
        exact mem_cons_self
      · split
        · exact mem_cons_of_mem _ he
        · exact mem_cons_of_mem _ (ih he)

theorem exists_key_ofEntries (he : e ∈ es) : ∃ e' ∈ ofEntries es, e'.1 = e.1 := by
  -- over the entries still to come: the key is already in the map, or it comes
  suffices h : ∀ m : List (String × α), (∃ e' ∈ m, e'.1 = e.1) ∨ e ∈ es →
      ∃ e' ∈ es.foldl (fun m e => insertEntry e.1 e.2 m) m, e'.1 = e.1 from h [] (Or.inr he)
  clear he
  induction es with
  | nil => exact fun m h => h.resolve_right not_mem_nil
  | cons e₁ es ih =>
    intro m h
    refine ih _ ?_
    by_cases hkey : e₁.1 = e.1
    · exact Or.inl ⟨_, mem_insertEntry_self e₁.1 e₁.2 m, hkey⟩
    · rcases h with ⟨e', he', hk⟩ | h
      · exact Or.inl ⟨e', mem_insertEntry_of_mem e₁.2 he' (hk ▸ Ne.symm hkey), hk⟩
      · exact Or.inr ((mem_cons.mp h).resolve_left fun heq => hkey (heq ▸ rfl))

theorem lookupEntry_cons_self (k : String) (a : α) (es : List (String × α)) :
    lookupEntry k ((k, a) :: es) = some a := by
  unfold lookupEntry
  rw [find?_cons_of_pos (by rw [decide_eq_true_eq]), Option.map_some]

theorem lookupEntry_cons_ne {k' : String} (h : k ≠ k') (a : α) (es : List (String × α)) :
    lookupEntry k ((k', a) :: es) = lookupEntry k es := by
  unfold lookupEntry
  rw [find?_cons_of_neg (by rw [decide_eq_true_eq]; exact Ne.symm h)]

theorem lookupEntry_insertEntry_self (k : String) (a : α) (es : List (String × α)) :
    lookupEntry k (insertEntry k a es) = some a := by
  induction es with
  | nil => exact lookupEntry_cons_self k a []
  | cons e es ih =>
    obtain ⟨k', a'⟩ := e
    rw [insertEntry]
    split
    · exact lookupEntry_cons_self k a _
    · split
      · exact lookupEntry_cons_self k a _
      · next hne => rw [lookupEntry_cons_ne hne, ih]

theorem lookupEntry_insertEntry_ne {k' : String} (h : k ≠ k') (a : α) (es : List (String × α)) :
    lookupEntry k (insertEntry k' a es) = lookupEntry k es := by
  induction es with
  | nil => exact lookupEntry_cons_ne h a []
  | cons e es ih =>
    obtain ⟨k₁, a₁⟩ := e
    rw [insertEntry]
    split
    · exact lookupEntry_cons_ne h a _
    · split
      · next heq => rw [lookupEntry_cons_ne h, lookupEntry_cons_ne (heq ▸ h)]
      · by_cases hk : k = k₁
        · rw [hk, lookupEntry_cons_self, lookupEntry_cons_self]
        · rw [lookupEntry_cons_ne hk, lookupEntry_cons_ne hk, ih]

theorem lookupEntry_removeEntry_self (k : String) (es : List (String × α)) :
    lookupEntry k (removeEntry k es) = none :=
  lookupEntry_eq_none.mpr fun _ he => of_decide_eq_true (mem_filter.mp he).2

theorem lookupEntry_removeEntry {k' : String} (h : k ≠ k') (es : List (String × α)) :
    lookupEntry k (removeEntry k' es) = lookupEntry k es := by
  have hkey : ∀ e : String × α, (e.1 ≠ k' ∧ e.1 = k) ↔ e.1 = k :=
    fun _ => and_iff_right_of_imp fun he => he ▸ h
  simp only [lookupEntry, removeEntry, find?_filter, decide_eq_true_eq, hkey]

theorem lookupEntry_of_mem {a : α} (h : KeysSorted es) (he : (k, a) ∈ es) :
    lookupEntry k es = some a := by
  induction es with
  | nil => cases he
  | cons e es ih =>
    obtain ⟨hhead, htail⟩ := pairwise_cons.mp h
    rcases mem_cons.mp he with rfl | he
    · exact lookupEntry_cons_self k a es
    · rw [lookupEntry_cons_ne (hhead _ he).ne', ih htail he]

theorem lookupEntry_append (k : String) (es es' : List (String × α)) :
    lookupEntry k (es ++ es') = (lookupEntry k es).or (lookupEntry k es') := by
  rw [lookupEntry, find?_append, Option.map_or]
  rfl

/-- The last entry with a key is the one that is found. -/
theorem lookupEntry_ofEntries (k : String) (es : List (String × α)) :
    lookupEntry k (ofEntries es) = lookupEntry k es.reverse := by
  induction es using reverseRecOn with
  | nil => rfl
  | append_singleton es e ih =>
    rw [ofEntries, foldl_append, reverse_append, reverse_singleton, singleton_append]
    by_cases hk : k = e.1
    · rw [hk, lookupEntry_cons_self]
      exact lookupEntry_insertEntry_self ..
    · rw [lookupEntry_cons_ne hk, ← ih]
      exact lookupEntry_insertEntry_ne hk ..

end Entries

namespace Value

variable {ν : Type}

def get (v : Value ν) (k : String) : Option (Value ν) :=
  match v with
  | .object es => lookupEntry k es
  | _ => none

def asStr : Value ν → Option String
  | .string s => some s
  | _ => none

def asArray : Value ν → Option (List (Value ν))
  | .array vs => some vs
  | _ => none

/-- The object with the given entries, later ones winning. -/
def obj (es : Entries ν) : Value ν := .object (ofEntries es)

/-- Induction over a value, with what is known of all its items or fields. -/
theorem induct {P : Value ν → Prop}
    (leaf : ∀ v, (∀ vs, v ≠ .array vs) → (∀ es, v ≠ .object es) → P v)
    (array : ∀ vs, (∀ v ∈ vs, P v) → P (.array vs))
    (object : ∀ es, (∀ e ∈ es, P e.2) → P (.object es)) (v : Value ν) : P v := by
  match v with
  | .null | .bool _ | .number _ | .string _ => exact leaf _ nofun nofun
  | .array vs => exact array vs fun v hv => induct leaf array object v
  | .object es => exact object es fun e he => induct leaf array object e.2
termination_by sizeOf v
decreasing_by
  · have := sizeOf_lt_of_mem hv
    simp only [Value.array.sizeOf_spec]
    omega
  · have := sizeOf_lt_of_mem he
    obtain ⟨k, v⟩ := e
    simp only [Value.object.sizeOf_spec, Prod.mk.sizeOf_spec] at this ⊢
    omega

/-! ### Nesting -/

mutual

/-- How many arrays and objects are nested in each other. -/
def depth : Value ν → ℕ
  | .array vs => depthItems vs + 1
  | .object es => depthEntries es + 1
  | _ => 0

def depthItems : List (Value ν) → ℕ
  | [] => 0
  | v :: vs => max v.depth (depthItems vs)

def depthEntries : List (String × Value ν) → ℕ
  | [] => 0
  | (_, v) :: es => max v.depth (depthEntries es)

end

theorem depthItems_le {vs : List (Value ν)} {n : ℕ} :
    depthItems vs ≤ n ↔ ∀ v ∈ vs, v.depth ≤ n := by
  induction vs with
  | nil => simp [depthItems]
  | cons v vs ih => rw [depthItems, Nat.max_le, ih, forall_mem_cons]

variable {es : Entries ν}

theorem depthEntries_le {n : ℕ} : depthEntries es ≤ n ↔ ∀ e ∈ es, e.2.depth ≤ n := by
  induction es with
  | nil => simp [depthEntries]
  | cons e es ih => rw [depthEntries, Nat.max_le, ih, forall_mem_cons]

theorem depthEntries_insertEntry (v : Value ν) (hk : ∀ e ∈ es, e.1 ≠ k) :
    depthEntries (insertEntry k v es) = max v.depth (depthEntries es) := by
  induction es with
  | nil => rfl
  | cons e es ih =>
    obtain ⟨k', v'⟩ := e
    have hne : k ≠ k' := (hk _ mem_cons_self).symm
    rw [insertEntry, if_neg hne]
    split
    · rfl
    · rw [depthEntries, depthEntries, ih fun e he => hk e (mem_cons_of_mem _ he),
        Nat.max_left_comm]

/-- An object of distinct fields is one level deeper than its deepest field. -/
theorem depth_obj (h : (es.map Prod.fst).Nodup) : (obj es).depth = depthEntries es + 1 := by
  -- over the fields still to come: none of them is in the map built so far
  suffices hrun : ∀ m : Entries ν, (∀ e ∈ es, ∀ e' ∈ m, e'.1 ≠ e.1) →
      depthEntries (es.foldl (fun m e => insertEntry e.1 e.2 m) m)
        = max (depthEntries m) (depthEntries es) by
    rw [obj, ofEntries, depth, hrun [] fun _ _ _ he' => absurd he' not_mem_nil, depthEntries,
      Nat.zero_max]
  induction es with
  | nil => exact fun m _ => (Nat.max_zero _).symm
  | cons e es ih =>
    intro m hm
    rw [map_cons, nodup_cons] at h
    have hfresh : ∀ e₁ ∈ es, ∀ e₂ ∈ insertEntry e.1 e.2 m, e₂.1 ≠ e₁.1 := by
      intro e₁ h₁ e₂ h₂
      rcases mem_insertEntry h₂ with rfl | h₂
      · exact fun heq => h.1 (heq ▸ mem_map_of_mem h₁)
      · exact hm e₁ (mem_cons_of_mem _ h₁) e₂ h₂
    rw [foldl_cons, ih h.2 _ hfresh, depthEntries_insertEntry e.2 (hm e mem_cons_self),
      depthEntries, Nat.max_left_comm, Nat.max_assoc, Nat.max_comm (depthEntries m)]

/-! ### Well-formedness -/

mutual

/-- Every object in the value has its keys in order. -/
def Sorted : Value ν → Prop
  | .array vs => SortedItems vs
  | .object es => KeysSorted es ∧ SortedEntries es
  | _ => True

def SortedItems : List (Value ν) → Prop
  | [] => True
  | v :: vs => v.Sorted ∧ SortedItems vs

def SortedEntries : List (String × Value ν) → Prop
  | [] => True
  | (_, v) :: es => v.Sorted ∧ SortedEntries es

end

theorem sortedItems_iff {vs : List (Value ν)} : SortedItems vs ↔ ∀ v ∈ vs, v.Sorted := by
  induction vs with
  | nil => simp [SortedItems]
  | cons v vs ih => rw [SortedItems, ih, forall_mem_cons]

theorem sortedEntries_iff : SortedEntries es ↔ ∀ e ∈ es, e.2.Sorted := by
  induction es with
  | nil => simp [SortedEntries]
  | cons e es ih => rw [SortedEntries, ih, forall_mem_cons]

theorem sorted_obj (h : ∀ e ∈ es, e.2.Sorted) : (obj es).Sorted := by
  refine ⟨keysSorted_ofEntries es, sortedEntries_iff.mpr fun e he => h e (mem_ofEntries he)⟩

end Value

end Json
