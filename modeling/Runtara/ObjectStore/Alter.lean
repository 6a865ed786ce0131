/-
  Changing the columns of a schema (`update_schema` in `store.rs`, `sql/ddl.rs`).

  An update validates the declared renames, refuses to drop columns unless it is allowed to, and
  runs the statements of `generate_alter_table_with_renames` and `generate_alter_indexes` in one
  transaction, which it commits if the table then has the new columns. A statement is given by its
  parts; a default is an SQL expression, which goes into the statement as it is. What Postgres does
  with the cells is left open (`Engine`).
-/
import Mathlib.Data.List.Sort

namespace Runtara.ObjectStore

/-! ### Columns -/

inductive VectorIndexMethod where
  | hnsw
  | ivfFlat (lists : UInt32)
deriving DecidableEq

inductive ColumnType where
  | string
  | integer
  | decimal (precision scale : UInt8)
  | boolean
  | timestamp
  | json
  | enum (values : List String)
  | tsvector (sourceColumn language : String)
  | vector (dimension : UInt32) (indexMethod : Option VectorIndexMethod)
deriving DecidableEq

def ColumnType.isGenerated : ColumnType → Bool
  | tsvector _ _ => true
  | _ => false

inductive TextIndexKind where
  | none
  | trigram
deriving DecidableEq

structure ColumnDefinition where
  name : String
  columnType : ColumnType
  nullable : Bool
  unique : Bool
  defaultValue : Option String
  textIndex : TextIndexKind
deriving DecidableEq

structure ColumnRename where
  fromName : String
  toName : String

structure IndexDefinition where
  name : String
  columns : List String
  unique : Bool
deriving DecidableEq

/-! ### Statements -/

/-- The suffixes of the names of the indexes that come with a column. -/
inductive ColumnIndex where
  | uniqueLive
  | trgm
  | fts
  | hnsw
  | ivf
deriving DecidableEq

inductive Statement where
  | renameColumn (fromName toName : String)
  | addColumn (column : ColumnDefinition)
  | dropColumn (name : String)
  | alterType (name : String) (columnType : ColumnType)
  | alterNullable (name : String) (nullable : Bool)
  | alterDefault (name : String) (defaultValue : Option String)
  | renameIndex (index : ColumnIndex) (fromName toName : String)
  | createIndex (index : ColumnIndex) (name : String)
  | dropIndex (index : ColumnIndex) (name : String)
  | createSchemaIndex (index : IndexDefinition)
  | dropSchemaIndex (index : IndexDefinition)
deriving DecidableEq

/-- The indexes that are created and dropped with a column. -/
def ColumnDefinition.indexes (c : ColumnDefinition) : List ColumnIndex :=
  (if c.unique then [.uniqueLive] else []) ++
    (if c.textIndex = .trigram then [.trgm] else []) ++
    match c.columnType with
    | .tsvector _ _ => [.fts]
    | _ => []

/-- `rename_column_indexes`, which knows the index of a vector as well. -/
def renameColumnIndexes (c : ColumnDefinition) (toName : String) : List Statement :=
  (c.indexes ++ match c.columnType with
    | .vector _ (some .hnsw) => [.hnsw]
    | .vector _ (some (.ivfFlat _)) => [.ivf]
    | _ => []).map fun index => .renameIndex index c.name toName

def hasColumn (columns : List ColumnDefinition) (name : String) : Bool :=
  columns.any fun c => c.name = name

section Generator

variable (old new : List ColumnDefinition) (renames : List ColumnRename)

def renameStatements (r : ColumnRename) : List Statement :=
  if r.fromName = r.toName then []
  else ((old.find? fun c => c.name = r.fromName).elim [] fun c => renameColumnIndexes c r.toName) ++
    [.renameColumn r.fromName r.toName]

def addStatements (c : ColumnDefinition) : List Statement :=
  if renames.any (fun r => r.toName = c.name) || hasColumn old c.name then []
  else .addColumn c :: c.indexes.map fun index => .createIndex index c.name

/-- A column that is in no rename and not in the new list. -/
def isDropped (c : ColumnDefinition) : Bool :=
  !renames.any (fun r => r.fromName = c.name) && !hasColumn new c.name

def dropStatements (c : ColumnDefinition) : List Statement :=
  if isDropped new renames c then
    c.indexes.map (fun index => .dropIndex index c.name) ++ [.dropColumn c.name]
  else []

/-- The old column that a new one is compared with: the source of a rename to it, or its name. -/
def oldMatch (name : String) : Option ColumnDefinition :=
  let fromName := ((renames.reverse.find? fun r => r.toName = name).map (·.fromName)).getD name
  old.find? fun c => c.name = fromName

def modifyStatements (c : ColumnDefinition) : List Statement :=
  match oldMatch old renames c.name with
  | none => []
  | some o =>
    (if o.columnType ≠ c.columnType then [.alterType c.name c.columnType] else []) ++
    (if o.nullable ≠ c.nullable then [.alterNullable c.name c.nullable] else []) ++
    (if o.defaultValue ≠ c.defaultValue then [.alterDefault c.name c.defaultValue] else []) ++
    (if o.unique ≠ c.unique then
      [if c.unique then .createIndex .uniqueLive c.name else .dropIndex .uniqueLive c.name]
    else [])

def generateAlterTableWithRenames : List Statement :=
  renames.flatMap (renameStatements old) ++ new.flatMap (addStatements old renames) ++
    old.flatMap (dropStatements new renames) ++ new.flatMap (modifyStatements old renames)

end Generator

def generateAlterIndexes (old new : List IndexDefinition) : List Statement :=
  (old.filter fun i => new.find? (fun j => j.name = i.name) ≠ some i).map .dropSchemaIndex ++
    (new.filter fun i => old.find? (fun j => j.name = i.name) ≠ some i).map .createSchemaIndex

/-! ### The request -/

structure Schema where
  name : String
  tableName : String
  columns : List ColumnDefinition
  indexes : Option (List IndexDefinition)

structure UpdateSchemaRequest where
  columns : Option (List ColumnDefinition)
  indexes : Option (List IndexDefinition)
  columnRenames : List ColumnRename
  allowDestructive : Bool

inductive UpdateError where
  | validation (message : String)
  | database (message : String)
  /-- Postgres refuses a statement. -/
  | refused (statement : Statement)
deriving DecidableEq

section Request

variable (existing : Schema) (new : List ColumnDefinition) (renames : List ColumnRename)

/-- What is wrong with a declared rename. -/
def renameError (r : ColumnRename) : Option String :=
  if r.fromName = r.toName then none
  else if !hasColumn existing.columns r.fromName then
    some s!"column rename source '{r.fromName}' does not exist on schema '{existing.name}'"
  else if !hasColumn new r.toName then
    some s!"column rename target '{r.toName}' is not present in the new column list"
  else if hasColumn existing.columns r.toName then
    some s!"column rename target '{r.toName}' already exists on schema '{existing.name}'"
  else none

/-- A source or target that is in two renames, with those before it. -/
def duplicateError (before : List ColumnRename) : List ColumnRename → Option String
  | [] => none
  | r :: rest =>
    if before.any fun p => p.fromName = r.fromName then
      some s!"duplicate column rename source '{r.fromName}'"
    else if before.any fun p => p.toName = r.toName then
      some s!"duplicate column rename target '{r.toName}'"
    else duplicateError (before ++ [r]) rest

/-- The guard against dropped columns. -/
def destructiveError (allowDestructive : Bool) : Option String :=
  let dropped := (existing.columns.filter (isDropped new renames)).map (·.name)
  if allowDestructive || dropped.isEmpty then none
  else some ("update would drop column(s) [" ++ ", ".intercalate dropped ++
    s!"] on schema '{existing.name}', losing their data; declare a rename via " ++
    "`column_renames` or set `allow_destructive = true` to proceed")

/-- The statements about columns, or why the request is refused. -/
def columnStatements (request : UpdateSchemaRequest) : Except UpdateError (List Statement) :=
  match request.columns with
  | none => .ok []
  | some new =>
    match (request.columnRenames.findSome? (renameError existing new)).or
        ((duplicateError [] request.columnRenames).or
          (destructiveError existing new request.columnRenames request.allowDestructive)) with
    | some message => .error (.validation message)
    | none => .ok (generateAlterTableWithRenames existing.columns new request.columnRenames)

def indexStatements (request : UpdateSchemaRequest) : List Statement :=
  request.indexes.elim [] (generateAlterIndexes (existing.indexes.getD []))

/-- `verify_table_has_expected_columns`, for the columns of the table that are not generated. -/
def missingColumnsError (actual : List String) : Option String :=
  let expected := (new.filter fun c => !c.columnType.isGenerated).map (·.name)
  let missing := (expected.filter (· ∉ actual)).dedup.insertionSort (· ≤ ·)
  if missing.isEmpty then none
  else some (s!"schema update verification failed for table '{existing.tableName}': " ++
    "missing expected columns: " ++ ", ".intercalate missing)

end Request

/-! ### The table -/

/-- The columns of a table with their cells. -/
abbrev Columns (κ : Type) := List (String × κ)

/-- What the statements depend on besides the names of the columns: whether one is refused, the
cells of a new column, the conversion of cells to another type, and which columns the catalogue
lists as not generated. -/
structure Engine (κ : Type) where
  refuses : Columns κ → Statement → Bool
  added : ColumnDefinition → κ
  convert : ColumnType → κ → κ
  stored : Columns κ → List String

namespace Engine

variable {κ : Type} (E : Engine κ)

/-- One statement. -/
def exec (T : Columns κ) (s : Statement) : Except UpdateError (Columns κ) :=
  if E.refuses T s then .error (.refused s)
  else match s with
    | .renameColumn fromName toName =>
      .ok (T.map fun e => (if e.1 = fromName then toName else e.1, e.2))
    | .addColumn c => .ok (T ++ [(c.name, E.added c)])
    | .dropColumn name => .ok (T.filter fun e => e.1 ≠ name)
    | .alterType name columnType =>
      .ok (T.map fun e => (e.1, if e.1 = name then E.convert columnType e.2 else e.2))
    | _ => .ok T

/-- The statements of a transaction. -/
def run : Columns κ → List Statement → Except UpdateError (Columns κ)
  | T, [] => .ok T
  | T, s :: ss => do
    let T' ← E.exec T s
    run T' ss

/-- `update_schema`, as far as it changes the table. Without `.ok` nothing is committed. -/
def updateSchema (T : Columns κ) (existing : Schema) (request : UpdateSchemaRequest) :
    Except UpdateError (Columns κ) := do
  let ss ← columnStatements existing request
  let T' ← E.run T (ss ++ indexStatements existing request)
  match request.columns.bind fun new => missingColumnsError existing new (E.stored T') with
  | some message => .error (.database message)
  | none => .ok T'

end Engine

end Runtara.ObjectStore
