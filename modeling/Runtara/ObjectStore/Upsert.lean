/-
  Bulk upserts (`upsert_instances`, `create_instances_extended` in upsert mode).

  The rows of a request are grouped by the columns they update, each group is cut into chunks, and
  each chunk is one `INSERT ... ON CONFLICT` statement; one transaction runs them all. The groups
  are the entries of a hash map, so their order is an argument (`order`), and so is the chunk size.

  A table is the multiset of its live rows, a row gives each column a value or `NULL`. The automatic
  columns are left out: ids are fresh, so a conflict column `id` never matches anything, and the
  time stamps are those of the transaction. `others` are the constraints of the table besides `NOT
  NULL` and the unique index of the conflict columns. The default of a column is any SQL expression,
  which is evaluated anew for each row; the rows that a transaction handles are counted, and an
  expression is what it gives for each count.
-/
import Mathlib.Data.Multiset.Count
import Mathlib.Data.Multiset.MapFold

namespace Runtara

namespace ObjectStore

variable {J V : Type}

/-- A column, as far as writing goes. `read` is `validate_value` followed by `bind_value`. -/
structure Column (J V : Type) where
  name : String
  generated : Bool
  nullable : Bool
  defaultValue : Option (ℕ → Option V)
  read : J → Option (Option V)

/-- The properties of an instance. -/
abbrev Properties (J : Type) := String → Option J

abbrev Row (V : Type) := String → Option V

abbrev Table (V : Type) := Multiset (Row V)

/-- The table a request writes to, and the conflict columns. -/
structure Target (J V : Type) where
  columns : List (Column J V)
  conflict : List String
  others : Table V → Bool

/-! ### Rows -/

inductive Slot (J : Type) where
  | default
  | typedNull
  | value (v : J)

def classifySlot (col : Column J V) (props : Properties J) : Slot J :=
  match props col.name with
  | none => if col.defaultValue.isSome then .default else .typedNull
  | some v => .value v

/-- The value of a slot in the row that is handled `count`-th. -/
def slotValue (col : Column J V) (count : ℕ) : Slot J → Option V
  | .default => col.defaultValue.bind (· count)
  | .typedNull => none
  | .value v => (col.read v).getD none

namespace Target

/-- A `VALUES` tuple: the row it makes when it is handled. -/
def valuesTuple (T : Target J V) (props : Properties J) (count : ℕ) : Row V := fun c =>
  (T.columns.find? fun col => col.name == c && !col.generated).elim none fun col =>
    slotValue col count (classifySlot col props)

def updateSignature (T : Target J V) (props : Properties J) : List String :=
  (T.columns.filter fun col =>
    !T.conflict.contains col.name && (props col.name).isSome).map Column.name

/-! ### Statements -/

/-- The rows conflict on the unique index: `NULL` is not equal to anything. -/
def SameKey (T : Target J V) (r x : Row V) : Prop := ∀ c ∈ T.conflict, r c ≠ none ∧ r c = x c

instance [DecidableEq V] (T : Target J V) (r x : Row V) : Decidable (T.SameKey r x) :=
  inferInstanceAs (Decidable (∀ c ∈ T.conflict, r c ≠ none ∧ r c = x c))

def notNull (T : Target J V) (x : Row V) : Bool :=
  T.columns.all fun col => col.generated || col.nullable || (x col.name).isSome

end Target

/-- `DO UPDATE SET c = EXCLUDED.c` for the given columns. -/
def setFrom (sets : List String) (x r : Row V) : Row V := fun c => if c ∈ sets then x c else r c

/-- An `INSERT ... ON CONFLICT` statement; without `update` it is `DO NOTHING`. -/
structure Insert (V : Type) where
  rows : List (ℕ → Row V)
  sets : List String
  update : Bool

variable [DecidableEq V]

namespace Target

/-- One row of a statement that has handled the rows `done`. -/
def execRow (T : Target J V) (stmt : Insert V) (done : List (Row V)) (x : Row V)
    (live : Table V) : Option (Table V) :=
  if T.notNull x = false then none
  else if 0 < live.countP (T.SameKey · x) then
    if stmt.update = false then some live
    else if ∃ y ∈ done, T.SameKey y x then none
    else some (live.map fun r => if T.SameKey r x then setFrom stmt.sets x r else r)
  else some (x ::ₘ live)

def execRows (T : Target J V) (stmt : Insert V) :
    List (Row V) → List (ℕ → Row V) → Table V × ℕ → Option (Table V × ℕ)
  | _, [], state => some state
  | done, x :: xs, (live, count) =>
    ((T.execRow stmt done (x count) live).filter T.others).bind fun live =>
      T.execRows stmt (x count :: done) xs (live, count + 1)

/-- A statement. A generated column can not be set. -/
def execInsert (T : Target J V) (state : Table V × ℕ) (stmt : Insert V) :
    Option (Table V × ℕ) :=
  if T.columns.any fun col => col.generated && stmt.sets.contains col.name then none
  else T.execRows stmt [] stmt.rows state

end Target

/-! ### Bulk requests -/

structure BulkConfig where
  bulkRequestLimit : ℕ
  updatedAt : Bool

def chunks {α : Type} (size : ℕ) : List α → List (List α)
  | [] => []
  | x :: xs => (x :: xs.take (size - 1)) :: chunks size (xs.drop (size - 1))
termination_by xs => xs.length
decreasing_by simp only [List.length_drop, List.length_cons]; omega

def groupInserts (config : BulkConfig) (T : Target J V) (size : ℕ) (instances : List (Properties J))
    (signature : List String) : List (Insert V) :=
  (chunks size (instances.filter fun props => T.updateSignature props = signature)).map
    fun chunk => ⟨chunk.map T.valuesTuple, signature, !signature.isEmpty || config.updatedAt⟩

def runGroups (config : BulkConfig) (T : Target J V) (order : List (List String)) (size : ℕ)
    (instances : List (Properties J)) (live : Table V) : Option (Table V) :=
  ((order.flatMap (groupInserts config T size instances)).foldlM T.execInsert (live, 0)).map
    Prod.fst

end ObjectStore

end Runtara
