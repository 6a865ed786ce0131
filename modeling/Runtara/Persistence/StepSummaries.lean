/-
  Step summaries (`op_list_step_summaries`, `op_count_step_summaries`).

  A step writes a start event and an end event into the log of its instance. A summary pairs the two
  by a left join on the step and its scope; the count repeats the join over fewer columns. Both
  backends have the same queries up to how a value of the payload is read.

  An event is given with the values that the queries extract from its payload. A debug event always
  names its step: the record of a summary has no room for a missing one.
-/
import Runtara.Failure.Payload
import Runtara.Sql.Join

namespace Runtara

namespace StepSummaries

open Json

/-! ### Events -/

inductive Subtype where
  | stepDebugStart
  | stepDebugEnd
deriving DecidableEq, Repr

/-- A value that `json_extract` gives; Postgres reads everything as text. -/
inductive Cell where
  | text (s : String)
  | integer (n : ℤ)
deriving DecidableEq, Repr

/-- A debug event of an instance. The fields from `stepName` on are those that only one of the two
kinds carries; `createdAt` is in milliseconds. -/
structure Event where
  id : ℕ
  subtype : Subtype
  createdAt : ℤ
  stepId : String
  scopeId : Option String
  parentScopeId : Option String
  stepType : Option String
  stepName : Option String
  inputs : Option String
  outputs : Option String
  error : Option String
  outputError : Option Cell
  launchedAtMs : Option ℤ
  settledAtMs : Option ℤ
deriving DecidableEq, Repr

inductive Dialect where
  | postgres
  | sqlite
deriving DecidableEq, Repr

inductive StepStatus where
  | running
  | completed
  | failed
deriving DecidableEq, Repr

inductive EventSortOrder where
  | desc
  | asc
deriving DecidableEq, Repr

structure ListStepSummariesFilter where
  sortOrder : EventSortOrder
  status : Option StepStatus
  stepType : Option String
  scopeId : Option String
  parentScopeId : Option String
  rootScopesOnly : Bool
  stepIds : Option (List String)

def stepStatusFilterStr : StepStatus → String
  | .running => "running"
  | .completed => "completed"
  | .failed => "failed"

def parseStepStatus (s : String) : StepStatus :=
  if s = "running" then .running else if s = "failed" then .failed else .completed

/-! ### Conditions of the queries -/

/-- `column = $n`, kept only if it is true: a `NULL` column is not equal to anything. -/
def equals (column : Option String) (value : String) : Bool := column == some value

/-- `$n IS NULL OR column = $n`. -/
def passes (value column : Option String) : Bool := value.all (equals column)

/-- The output envelope reports an error. -/
def outputFailed : Dialect → Option Cell → Bool
  | .postgres, cell => cell == some (.text "true")
  | .sqlite, cell => cell == some (.integer 1) || cell == some (.text "true")

/-- The `status` of a row with an end event. -/
def endStatus (dialect : Dialect) (error : Option String) (outputError : Option Cell) : String :=
  if error.any (· != "null") then "failed"
  else if outputFailed dialect outputError then "failed"
  else "completed"

/-- `duration_ms` of a time span: the milliseconds field of an interval leaves out whole minutes. -/
def durationMs : Dialect → ℤ → ℤ
  | .postgres, span => span.tmod 60000
  | .sqlite, span => span

/-! ### The list query -/

structure SeRow where
  id : ℕ
  startedAt : ℤ
  stepId : String
  stepType : Option String
  scopeId : Option String
  parentScopeId : Option String

structure EeRow where
  endId : ℕ
  completedAt : ℤ
  stepId : String
  scopeId : Option String
  error : Option String
  outputError : Option Cell

structure PageRow where
  id : ℕ
  endId : Option ℕ
  stepId : String
  stepType : Option String
  scopeId : Option String
  parentScopeId : Option String
  startedAt : ℤ
  completedAt : Option ℤ
  error : Option String
  status : String
  durationMs : Option ℤ

def starts (log : List Event) : List Event := log.filter fun e => e.subtype = .stepDebugStart

def ends (log : List Event) : List Event := log.filter fun e => e.subtype = .stepDebugEnd

def seRow (e : Event) : SeRow :=
  ⟨e.id, e.createdAt, e.stepId, e.stepType, e.scopeId, e.parentScopeId⟩

def eeRow (e : Event) : EeRow :=
  ⟨e.id, e.createdAt, e.stepId, e.scopeId, e.error, e.outputError⟩

def pairedRow (dialect : Dialect) (r : SeRow × Option EeRow) : PageRow where
  id := r.1.id
  endId := r.2.map EeRow.endId
  stepId := r.1.stepId
  stepType := r.1.stepType
  scopeId := r.1.scopeId
  parentScopeId := r.1.parentScopeId
  startedAt := r.1.startedAt
  completedAt := r.2.map EeRow.completedAt
  error := r.2.bind EeRow.error
  status := r.2.elim "running" fun e => endStatus dialect e.error e.outputError
  durationMs := r.2.map fun e => durationMs dialect (e.completedAt - r.1.startedAt)

def paired (dialect : Dialect) (log : List Event) : List PageRow :=
  (Sql.leftJoin (fun s e => s.stepId == e.stepId && s.scopeId.getD "" == e.scopeId.getD "")
    ((starts log).map seRow) ((ends log).map eeRow)).map (pairedRow dialect)

/-- The `WHERE` of `page`. -/
def pageFilter (filter : ListStepSummariesFilter) (r : PageRow) : Bool :=
  passes (filter.status.map stepStatusFilterStr) (some r.status)
    && passes filter.stepType r.stepType
    && passes filter.scopeId r.scopeId
    && passes filter.parentScopeId r.parentScopeId
    && (!filter.rootScopesOnly || r.parentScopeId.isNone)
    && filter.stepIds.all fun ids => ids.contains r.stepId

/-- `ORDER BY id`; rows with one id come in the order of the join. -/
def orderById (order : EventSortOrder) (rows : List PageRow) : List PageRow :=
  match order with
  | .asc => rows.mergeSort fun r r' => r.id ≤ r'.id
  | .desc => rows.mergeSort fun r r' => r'.id ≤ r.id

def page (dialect : Dialect) (log : List Event) (filter : ListStepSummariesFilter)
    (limit offset : ℕ) : List PageRow :=
  ((orderById filter.sortOrder ((paired dialect log).filter (pageFilter filter))).drop offset).take
    limit

structure StepSummaryRecord (ν : Type) where
  stepId : String
  stepName : Option String
  stepType : String
  status : StepStatus
  startedAt : ℤ
  completedAt : Option ℤ
  durationMs : Option ℤ
  launchedAtMs : Option ℤ
  settledAtMs : Option ℤ
  inputs : Option (Value ν)
  outputs : Option (Value ν)
  error : Option (Value ν)
  scopeId : Option String
  parentScopeId : Option String

section Records

variable {ν : Type} [SerdeNumber ν]

def decodeJsonText (text : Option String) : Option (Value ν) := text.bind fromSlice

def errorFromOutputEnvelope (output : Option (Value ν)) : Option (Value ν) :=
  output.bind fun output =>
    match output.get "_error" with
    | some (.bool true) =>
      some ((output.get "error").getD (.string "Step output reported _error=true"))
    | _ => none

/-- A row of the query as a record, with the two events it is joined back to. The error is that of
the end event, or else the one that its output reports. -/
def recordOf (p : PageRow) (s : Event) (e : Option Event) : StepSummaryRecord ν where
  stepId := p.stepId
  stepName := s.stepName
  stepType := p.stepType.getD ""
  status := parseStepStatus p.status
  startedAt := p.startedAt
  completedAt := p.completedAt
  durationMs := p.durationMs
  launchedAtMs := e.bind Event.launchedAtMs
  settledAtMs := e.bind Event.settledAtMs
  inputs := decodeJsonText s.inputs
  outputs := decodeJsonText (e.bind Event.outputs)
  error := (decodeJsonText p.error).orElse fun _ =>
    errorFromOutputEnvelope (decodeJsonText (e.bind Event.outputs))
  scopeId := p.scopeId
  parentScopeId := p.parentScopeId

def findEvent (log : List Event) (id : ℕ) : Option Event := log.find? fun e => e.id = id

variable (ν) in
def opListStepSummaries (dialect : Dialect) (log : List Event) (filter : ListStepSummariesFilter)
    (limit offset : ℕ) : List (StepSummaryRecord ν) :=
  (page dialect log filter limit offset).filterMap fun p =>
    (findEvent log p.id).map fun s => recordOf p s (p.endId.bind (findEvent log))

end Records

/-! ### The count query -/

structure StartRow where
  stepId : String
  stepType : Option String
  scopeId : Option String
  parentScopeId : Option String

structure EndRow where
  stepId : String
  scopeId : Option String
  error : Option String
  outputError : Option Cell

structure CountRow where
  stepId : String
  stepType : Option String
  scopeId : Option String
  parentScopeId : Option String
  status : String

def startRow (e : Event) : StartRow := ⟨e.stepId, e.stepType, e.scopeId, e.parentScopeId⟩

def endRow (e : Event) : EndRow := ⟨e.stepId, e.scopeId, e.error, e.outputError⟩

def countRow (dialect : Dialect) (r : StartRow × Option EndRow) : CountRow where
  stepId := r.1.stepId
  stepType := r.1.stepType
  scopeId := r.1.scopeId
  parentScopeId := r.1.parentScopeId
  status := r.2.elim "running" fun e => endStatus dialect e.error e.outputError

def countFilter (filter : ListStepSummariesFilter) (r : CountRow) : Bool :=
  passes (filter.status.map stepStatusFilterStr) (some r.status)
    && passes filter.stepType r.stepType
    && passes filter.scopeId r.scopeId
    && passes filter.parentScopeId r.parentScopeId
    && (!filter.rootScopesOnly || r.parentScopeId.isNone)
    && filter.stepIds.all fun ids => ids.contains r.stepId

def opCountStepSummaries (dialect : Dialect) (log : List Event) (filter : ListStepSummariesFilter) :
    ℕ :=
  ((Sql.leftJoin (fun s e => s.stepId == e.stepId && s.scopeId.getD "" == e.scopeId.getD "")
    ((starts log).map startRow) ((ends log).map endRow)).map (countRow dialect)).countP
      (countFilter filter)

end StepSummaries

end Runtara
