/-
  The order of virtual rows (`virtual_compare_values`, `sort_virtual_aggregate_rows` and
  `virtual_min_max_value` in `virtual_aggregate.rs`).

  Two integers are compared as floats and an integer and a string as texts, so the order is not
  transitive: `10`, `"5"` and `9` are each at most the next. `orderly_iff` says on which sets of
  values it orders the rows.
-/
import Mathlib.Algebra.Order.Ring.Int
import Mathlib.Data.List.Induction
import Mathlib.Data.String.Basic
import Mathlib.Data.Set.Defs
import Mathlib.Order.WithBot

namespace Runtara.ReportDsl

open Std (TransCmp OrientedOrd ReflOrd isLE_compare)

/-! ### The comparison -/

/-- A JSON value that is no array and no object, with integers for its numbers. -/
inductive Scalar where
  | null
  | bool (b : Bool)
  | integer (n : ℤ)
  | string (s : String)
  deriving DecidableEq

/-- `as_f64` of an integer: the nearest number of 53 bits, of two the even one. -/
def asF64 (n : ℤ) : ℤ :=
  let unit := 2 ^ (n.natAbs.log2 - 52)
  let q := n.natAbs / unit
  let r := n.natAbs % unit
  n.sign * ↑((if 2 * r < unit ∨ 2 * r = unit ∧ q % 2 = 0 then q else q + 1) * unit)

def virtualValueSortKey : Scalar → String
  | .string s => s
  | .bool b => toString b
  | .integer n => toString n
  | .null => ""

/-- `virtual_compare_values`, which answers for any two of these values. -/
def virtualCompareValues : Scalar → Scalar → Ordering
  | .null, .null => .eq
  | .null, _ => .gt
  | _, .null => .lt
  | .integer n, .integer m => compare (asF64 n) (asF64 m)
  | .string s, .string t => compare s t
  | .bool a, .bool b => compare a b
  | a, b => compare (virtualValueSortKey a) (virtualValueSortKey b)

/-- Less or equal under `virtual_compare_values`. -/
instance : LE Scalar := ⟨fun a b => (virtualCompareValues a b).isLE⟩

instance : DecidableLE Scalar := fun _ _ => inferInstanceAs (Decidable (_ = true))

/-! ### Minimum, maximum and the sort -/

/-- The functions `virtual_min_max_value` is called for. -/
inductive AggregateFn where
  | min
  | max

def shouldReplace (fn : AggregateFn) (value selected : Scalar) : Bool :=
  match fn with
  | .min => virtualCompareValues value selected = .lt
  | .max => virtualCompareValues value selected = .gt

/-- The loop of `virtual_min_max_value`. -/
def select (fn : AggregateFn) (selected : Scalar) (values : List Scalar) : Scalar :=
  values.foldl (fun selected v => if shouldReplace fn v selected then v else selected) selected

/-- `virtual_min_max_value`, of the values the rows have for the column. -/
def virtualMinMaxValue (fn : AggregateFn) (column : List (Option Scalar)) : Scalar :=
  match (column.filterMap id).filter (· ≠ .null) with
  | [] => .null
  | first :: values => select fn first values

structure AggregateOrderBy where
  column : String
  descending : Bool

structure AggregateRequest where
  groupBy : List String
  orderBy : List AggregateOrderBy

/-- The cells the rows are compared by, and whether downwards. -/
def rowOrder (columns : List String) (request : AggregateRequest) :
    Except String (List (ℕ × Bool)) :=
  if request.orderBy.isEmpty then .ok ((List.range request.groupBy.length).map (·, false))
  else request.orderBy.mapM fun o =>
    -- of two columns with one name the map keeps the later
    match columns.zipIdx.reverse.lookup o.column with
    | some index => .ok (index, o.descending)
    | none => .error s!"Aggregate orderBy references unavailable field '{o.column}'"

/-- The comparison of two rows by one cell. -/
def compareCells (o : ℕ × Bool) (left right : List Scalar) : Ordering :=
  let ordering := virtualCompareValues (left.getD o.1 .null) (right.getD o.1 .null)
  if o.2 then ordering.swap else ordering

/-- The closure `sort_by` is given. -/
def compareRows : List (ℕ × Bool) → List Scalar → List Scalar → Ordering
  | [], _, _ => .eq
  | o :: order, left, right => (compareCells o left right).then (compareRows order left right)

def sortVirtualAggregateRows (rows : List (List Scalar)) (columns : List String)
    (request : AggregateRequest) : Except String (List (List Scalar)) :=
  (rowOrder columns request).map fun order =>
    rows.mergeSort fun left right => (compareRows order left right).isLE

/-- The comparison puts the values of `S`, and rows of them, in order. -/
structure Orderly (S : Set Scalar) : Prop where
  total : ∀ a ∈ S, ∀ b ∈ S, a ≤ b ∨ b ≤ a
  trans : ∀ a ∈ S, ∀ b ∈ S, ∀ c ∈ S, a ≤ b → b ≤ c → a ≤ c
  sorted : ∀ rows columns request order, (∀ row ∈ rows, ∀ v ∈ row, v ∈ S) →
    rowOrder columns request = .ok order →
    ∃ sorted, sortVirtualAggregateRows rows columns request = .ok sorted ∧
      sorted.Perm rows ∧ sorted.Pairwise fun left right => (compareRows order left right).isLE
  minMax : ∀ fn column column', (∀ v, some v ∈ column → v ∈ S) → column.Perm column' →
    virtualMinMaxValue fn column = virtualMinMaxValue fn column'

/-! ### When it is an order -/

/-- What a value is compared by with one that is no integer, null coming last. -/
def textOf : Scalar → WithTop String
  | .null => ⊤
  | a => virtualValueSortKey a

def Scalar.isInteger : Scalar → Bool
  | .integer _ => true
  | _ => false

/-- No other value of `S` lies as a text between two integers that are the other way round as
    floats or has the text of another value, and no two integers of `S` are one float. -/
structure Separate (S : Set Scalar) : Prop where
  between : ∀ n m, ∀ v ∈ S, .integer n ∈ S → .integer m ∈ S → ¬ v.isInteger →
    textOf (.integer n) ≤ textOf v → textOf v ≤ textOf (.integer m) → asF64 n ≤ asF64 m
  texts : ∀ a ∈ S, ∀ b ∈ S, ¬ a.isInteger → textOf a = textOf b → a = b
  floats : ∀ n m, .integer n ∈ S → .integer m ∈ S → asF64 n = asF64 m → n = m

variable {S : Set Scalar} {a b c : Scalar} {fn : AggregateFn}

theorem Scalar.exists_integer (h : a.isInteger) : ∃ n, a = .integer n := by
  cases a <;> simp_all [isInteger]

theorem compare_swap (a b : Scalar) :
    virtualCompareValues a b = (virtualCompareValues b a).swap := by
  cases a <;> cases b <;> first | rfl | exact OrientedOrd.eq_swap

theorem le_texts (h : ¬ (a.isInteger ∧ b.isInteger)) : a ≤ b ↔ textOf a ≤ textOf b := by
  have keys {s t : String} : (compare s t).isLE ↔ (s : WithTop String) ≤ t := by
    rw [WithTop.coe_le_coe, Ordering.isLE_iff_ne_gt]
    exact compare_le_iff_le
  cases a <;> cases b
  case integer.integer => exact absurd ⟨rfl, rfl⟩ h
  case null.null | bool.null | integer.null | string.null => exact iff_of_true rfl le_top
  case null.bool | null.integer | null.string =>
    exact iff_of_false nofun (WithTop.not_top_le_coe _)
  case bool.bool b b' =>
    have : (compare b b').isLE ↔ (compare (toString b) (toString b')).isLE := by
      cases b <;> cases b' <;> decide
    exact this.trans keys
  all_goals exact keys

theorem le_integers {n m : ℤ} : Scalar.integer n ≤ .integer m ↔ asF64 n ≤ asF64 m :=
  isLE_compare

theorem le_total (a b : Scalar) : a ≤ b ∨ b ≤ a := by
  show (virtualCompareValues a b).isLE ∨ (virtualCompareValues b a).isLE
  rw [compare_swap b a]
  cases virtualCompareValues a b <;> simp

/-! ### Separate values are in order -/

abbrev RowsOf (S : Set Scalar) := {row : List Scalar // ∀ v ∈ row, v ∈ S}

section

variable (hS : Separate S)

include hS

theorem Separate.insert_null : Separate (insert .null S) where
  between n m v hv hn hm hi h h' := by
    rcases hv with rfl | hv
    · cases h'
    · exact hS.between n m v hv (hn.resolve_left nofun) (hm.resolve_left nofun) hi h h'
  texts a ha b hb hi h := by
    rcases ha with rfl | ha <;> rcases hb with rfl | hb
    · rfl
    · cases b <;> first | rfl | cases h
    · cases a <;> first | rfl | cases h
    · exact hS.texts a ha b hb hi h
  floats n m hn hm := hS.floats n m (hn.resolve_left nofun) (hm.resolve_left nofun)

/-- Two integers with another value between their texts are in the order of their texts. -/
theorem Separate.eq_of_between {n m : ℤ} (hn : .integer n ∈ S) (hm : .integer m ∈ S) (ha : a ∈ S)
    (ia : ¬ a.isInteger) (h : textOf (.integer n) ≤ textOf a) (h' : textOf a ≤ textOf (.integer m))
    (hf : asF64 m ≤ asF64 n) : n = m :=
  hS.floats n m hn hm ((hS.between n m a ha hn hm ia h h').antisymm hf)

theorem le_trans (ha : a ∈ S) (hb : b ∈ S) (hc : c ∈ S) (hab : a ≤ b) (hbc : b ≤ c) : a ≤ c := by
  by_cases ib : b.isInteger
  · obtain ⟨m, rfl⟩ := Scalar.exists_integer ib
    by_cases ia : a.isInteger <;> by_cases ic : c.isInteger
    · obtain ⟨n, rfl⟩ := Scalar.exists_integer ia
      obtain ⟨k, rfl⟩ := Scalar.exists_integer ic
      exact le_integers.2 ((le_integers.1 hab).trans (le_integers.1 hbc))
    · obtain ⟨n, rfl⟩ := Scalar.exists_integer ia
      have ht := (le_texts fun h => ic h.2).1 hbc
      refine (le_texts fun h => ic h.2).2 (not_lt.1 fun h => ?_)
      obtain rfl := hS.eq_of_between hb ha hc ic ht h.le (le_integers.1 hab)
      exact h.not_ge ht
    · obtain ⟨k, rfl⟩ := Scalar.exists_integer ic
      have ht := (le_texts fun h => ia h.1).1 hab
      refine (le_texts fun h => ia h.1).2 (not_lt.1 fun h => ?_)
      obtain rfl := hS.eq_of_between hc hb ha ia h.le ht (le_integers.1 hbc)
      exact h.not_ge ht
    · exact (le_texts fun h => ia h.1).2
        (((le_texts fun h => ia h.1).1 hab).trans ((le_texts fun h => ic h.2).1 hbc))
  · have h := (le_texts fun h => ib h.2).1 hab
    have h' := (le_texts fun h => ib h.1).1 hbc
    by_cases hi : a.isInteger ∧ c.isInteger
    · obtain ⟨n, rfl⟩ := Scalar.exists_integer hi.1
      obtain ⟨k, rfl⟩ := Scalar.exists_integer hi.2
      exact le_integers.2 (hS.between n k b hb ha hc ib h h')
    · exact (le_texts hi).2 (h.trans h')

theorem le_antisymm (ha : a ∈ S) (hb : b ∈ S) (hab : a ≤ b) (hba : b ≤ a) : a = b := by
  by_cases hi : a.isInteger ∧ b.isInteger
  · obtain ⟨n, rfl⟩ := Scalar.exists_integer hi.1
    obtain ⟨m, rfl⟩ := Scalar.exists_integer hi.2
    rw [hS.floats n m ha hb ((le_integers.1 hab).antisymm (le_integers.1 hba))]
  · have h := ((le_texts hi).1 hab).antisymm ((le_texts fun h => hi h.symm).1 hba)
    by_cases ia : a.isInteger
    · exact (hS.texts b hb a ha (fun ib => hi ⟨ia, ib⟩) h.symm).symm
    · exact hS.texts a ha b hb ia h

theorem transCmp_cells (o : ℕ × Bool) :
    TransCmp fun left right : RowsOf S => compareCells o left.1 right.1 := by
  have cell (row : RowsOf S) : row.1.getD o.1 .null ∈ insert .null S := by
    rw [List.getD_eq_getElem?_getD]
    cases h : row.1[o.1]? with
    | none => exact .inl rfl
    | some v => exact .inr (row.2 v (List.mem_of_getElem? h))
  have trans {a b c : RowsOf S} := le_trans hS.insert_null (cell a) (cell b) (cell c)
  obtain ⟨i, descending⟩ := o
  cases descending with
  | false => exact { eq_swap := compare_swap _ _, isLE_trans := trans }
  | true =>
    simp only [compareCells, if_true, ← compare_swap]
    exact { eq_swap := compare_swap _ _, isLE_trans := fun h h' => trans h' h }

/-- The comparison of rows is transitive, whichever cells it goes by. -/
theorem transCmp_rows (order : List (ℕ × Bool)) :
    TransCmp fun left right : RowsOf S => compareRows order left.1 right.1 := by
  induction order with
  | nil => exact { eq_swap := rfl, isLE_trans := fun _ _ => rfl }
  | cons o order ih =>
    have := transCmp_cells hS o
    exact inferInstanceAs (TransCmp (compareLex (fun left right : RowsOf S =>
      compareCells o left.1 right.1) fun left right => compareRows order left.1 right.1))

theorem sorted_rows {rows : List (List Scalar)} (h : ∀ row ∈ rows, ∀ v ∈ row, v ∈ S)
    (order : List (ℕ × Bool)) :
    (rows.mergeSort fun left right => (compareRows order left right).isLE).Pairwise
      fun left right => (compareRows order left right).isLE := by
  have hrows := transCmp_rows hS order
  rw [← List.attachWith_map_subtype_val h, ← @List.map_mergeSort _ _
    (fun left right : RowsOf S => (compareRows order left.1 right.1).isLE) _ _ _
    fun _ _ _ _ => rfl, List.pairwise_map]
  apply List.pairwise_mergeSort
  · exact fun _ _ _ => hrows.isLE_trans
  · intro a b
    rw [hrows.eq_swap (a := b)]
    cases compareRows order a.1 b.1 <;> rfl

end

/-! ### Minimum and maximum -/

theorem replaces_min : shouldReplace .min b a ↔ ¬ a ≤ b := by
  show _ ↔ ¬ (virtualCompareValues a b).isLE
  rw [shouldReplace, compare_swap a b]
  cases virtualCompareValues b a <;> decide

theorem replaces_max : shouldReplace .max b a ↔ ¬ b ≤ a := by
  show _ ↔ ¬ (virtualCompareValues b a).isLE
  rw [shouldReplace]
  cases virtualCompareValues b a <;> decide

theorem not_replaces_of_replaces (h : shouldReplace fn b a) : ¬ shouldReplace fn a b := by
  cases fn with
  | min => exact fun h' => (le_total a b).elim (replaces_min.1 h) (replaces_min.1 h')
  | max => exact fun h' => (le_total a b).elim (replaces_max.1 h') (replaces_max.1 h)

section

variable (hS : Separate S)

include hS

theorem not_replaces_trans (ha : a ∈ S) (hb : b ∈ S) (hc : c ∈ S) (h : ¬ shouldReplace fn b a)
    (h' : ¬ shouldReplace fn c b) : ¬ shouldReplace fn c a := by
  cases fn with
  | min =>
    rw [replaces_min, not_not] at *
    exact le_trans hS ha hb hc h h'
  | max =>
    rw [replaces_max, not_not] at *
    exact le_trans hS hc hb ha h' h

theorem eq_of_not_replaces (ha : a ∈ S) (hb : b ∈ S) (h : ¬ shouldReplace fn b a)
    (h' : ¬ shouldReplace fn a b) : a = b := by
  cases fn with
  | min =>
    rw [replaces_min, not_not] at *
    exact le_antisymm hS ha hb h h'
  | max =>
    rw [replaces_max, not_not] at *
    exact le_antisymm hS ha hb h' h

/-- What the loop selects is one of the values, and none of them would replace it. -/
theorem select_spec (values : List Scalar) (h : ∀ v ∈ a :: values, v ∈ S) :
    select fn a values ∈ a :: values ∧
      ∀ v ∈ a :: values, ¬ shouldReplace fn v (select fn a values) := by
  have refl (v : Scalar) : ¬ shouldReplace fn v v := fun h => not_replaces_of_replaces h h
  induction values using List.reverseRecOn with
  | nil => exact ⟨List.mem_cons_self, fun v hv => List.mem_singleton.1 hv ▸ refl v⟩
  | append_singleton values b ih =>
    rw [← List.cons_append, List.forall_mem_append, List.forall_mem_singleton] at *
    obtain ⟨hmem, hkeep⟩ := ih h.1
    have hround : select fn a (values ++ [b]) =
        if shouldReplace fn b (select fn a values) then b else select fn a values := by
      rw [select, List.foldl_append]
      rfl
    rw [hround]
    split
    case isTrue hr =>
      exact ⟨by simp, fun v hv => not_replaces_trans hS h.2 (h.1 _ hmem) (h.1 v hv)
        (not_replaces_of_replaces hr) (hkeep v hv), refl b⟩
    case isFalse hr => exact ⟨List.mem_append_left _ hmem, hkeep, hr⟩

theorem minMax_perm {column column' : List (Option Scalar)} (h : ∀ v, some v ∈ column → v ∈ S)
    (hp : column.Perm column') : virtualMinMaxValue fn column = virtualMinMaxValue fn column' := by
  have hp' := (hp.filterMap id).filter (· ≠ .null)
  have hmem : ∀ v ∈ (column.filterMap id).filter (· ≠ .null), v ∈ S := fun v hv =>
    h v (by simpa using (List.mem_filter.1 hv).1)
  rw [virtualMinMaxValue, virtualMinMaxValue]
  generalize (column.filterMap id).filter (· ≠ .null) = l at hp' hmem
  generalize (column'.filterMap id).filter (· ≠ .null) = l' at hp'
  match l, l', hp' with
  | [], [], _ => rfl
  | [], _ :: _, hp' | _ :: _, [], hp' => exact absurd hp'.length_eq nofun
  | a :: l, b :: l', hp' =>
    obtain ⟨ha, hka⟩ := select_spec hS l hmem
    obtain ⟨hb, hkb⟩ := select_spec hS l' fun v hv => hmem v (hp'.mem_iff.2 hv)
    rw [← hp'.mem_iff] at hb
    exact eq_of_not_replaces hS (hmem _ ha) (hmem _ hb) (hka _ hb) (hkb _ (hp'.mem_iff.1 ha))

theorem Separate.orderly : Orderly S where
  total a _ b _ := le_total a b
  trans _ ha _ hb _ hc := le_trans hS ha hb hc
  sorted rows columns request order hrows horder :=
    ⟨_, by rw [sortVirtualAggregateRows, horder]; rfl, List.mergeSort_perm _ _,
      sorted_rows hS hrows order⟩
  minMax _ _ _ := minMax_perm hS

end

/-- Of two values neither of which is less, each is the minimum of the two when it comes first. -/
theorem Orderly.eq_of_le (h : Orderly S) (ha : a ∈ S) (hb : b ∈ S) (hab : a ≤ b) (hba : b ≤ a) :
    a = b := by
  rcases eq_or_ne a .null with rfl | na
  · cases b <;> first | rfl | cases hab
  rcases eq_or_ne b .null with rfl | nb
  · cases a <;> first | rfl | cases hba
  have hmin := h.minMax .min [some a, some b] [some b, some a] (by simp [ha, hb]) (.swap ..)
  have nab := mt replaces_min.1 (not_not.2 hab)
  have nba := mt replaces_min.1 (not_not.2 hba)
  simpa [virtualMinMaxValue, select, na, nb, nab, nba] using hmin

/-- **The comparison of virtual rows orders the values of a set exactly when they are
    separate**: it is total and transitive on them, the sort leaves every pair of rows in order,
    and the minimum and the maximum of a column do not depend on the order of the rows. -/
theorem orderly_iff (S : Set Scalar) : Orderly S ↔ Separate S := by
  refine ⟨fun h => ⟨fun n m v hv hn hm iv h₁ h₂ => ?_, fun a ha b hb ia ht => ?_,
    fun n m hn hm e => ?_⟩, fun hS => hS.orderly⟩
  · have hle : .integer n ≤ v := (le_texts fun h => iv h.2).2 h₁
    exact le_integers.1 (h.trans _ hn _ hv _ hm hle ((le_texts fun h => iv h.1).2 h₂))
  · exact h.eq_of_le ha hb ((le_texts fun h => ia h.1).2 ht.le)
      ((le_texts fun h => ia h.2).2 ht.ge)
  · exact Scalar.integer.inj (h.eq_of_le hn hm (le_integers.2 e.le) (le_integers.2 e.ge))

/-- `10`, `"5"` and `9` are each at most the next, and `10` is not at most `9`. The minimum of
    two integers with one float is the one that comes first. -/
theorem ten_five_nine :
    (Scalar.integer 10 ≤ .string "5" ∧ Scalar.string "5" ≤ .integer 9 ∧
      ¬ Scalar.integer 10 ≤ .integer 9) ∧
    virtualMinMaxValue .min [some (.integer (2 ^ 53)), some (.integer (2 ^ 53 + 1))] =
      .integer (2 ^ 53) ∧
    virtualMinMaxValue .min [some (.integer (2 ^ 53 + 1)), some (.integer (2 ^ 53))] =
      .integer (2 ^ 53 + 1) := by
  decide +kernel

end Runtara.ReportDsl
