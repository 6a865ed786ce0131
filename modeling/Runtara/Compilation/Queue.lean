/-
  The compilation queue.

  A list of keys in the order of processing, the set of the keys that are pending, and the full
  requests by key. An enqueue is one script; the worker pops a key, reads its request, compiles, and
  removes the key from the set and the request from the hash, each by a command of its own. The
  worker may stop at any point, and a new one first puts the pending keys that are not in the list
  back into it. Commands do not fail. The event that the worker emits for analytics is left out.

  The world also records what has happened (`log`) and how far the worker has come (`phase`); no
  command depends on them.
-/
import Runtara.Machine.Tasks
import Mathlib.Data.Int.Notation
import Mathlib.Logic.Function.Basic

namespace Runtara.Compilation

open Tasks (Prog)

structure CompilationRequest where
  tenantId : String
  workflowId : String
  version : Int32
  forceRecompile : Bool
deriving DecidableEq, Repr

namespace CompilationRequest

def uniqueKey (r : CompilationRequest) : String :=
  r.tenantId ++ ":" ++ r.workflowId ++ ":" ++ toString r.version

/-- The sign of a number, and its digits. -/
def sign : List Char → Bool × List Char
  | '-' :: digits => (true, digits)
  | '+' :: digits => (false, digits)
  | digits => (false, digits)

/-- `str::parse::<i32>`: an optional sign, digits, and a value that fits. -/
def parseI32 (text : List Char) : Option Int32 :=
  let (negative, digits) := sign text
  if digits.isEmpty || !digits.all Char.isDigit then none
  else
    let magnitude : ℤ := Nat.ofDigitChars 10 digits 0
    let value := if negative then -magnitude else magnitude
    if Int32.minValue.toInt ≤ value ∧ value ≤ Int32.maxValue.toInt then some (Int32.ofInt value)
    else none

/-- A text up to its first colon, and what follows it. -/
def splitColon (text : List Char) : Option (List Char × List Char) :=
  match text.dropWhile (· ≠ ':') with
  | _ :: rest => some (text.takeWhile (· ≠ ':'), rest)
  | [] => none

/-- `from_unique_key`: the key is split at its first two colons. -/
def fromUniqueKey (key : String) : Option CompilationRequest := do
  let (tenantId, rest) ← splitColon key.toList
  let (workflowId, version) ← splitColon rest
  let version ← parseI32 version
  pure ⟨String.ofList tenantId, String.ofList workflowId, version, false⟩

/-- Both are requests for the same version of the same workflow. -/
def sameTarget (r s : CompilationRequest) : Bool :=
  r.tenantId = s.tenantId ∧ r.workflowId = s.workflowId ∧ r.version = s.version

end CompilationRequest

/-! ### The worker -/

/-- The commands of the worker, and the compilation. -/
inductive Op where
  | smembers
  | lrange
  | rpush (key : String)
  | blpop
  | hget (key : String)
  /-- the moment at which `compile_workflow` reads the definition -/
  | compileWorkflow (request : CompilationRequest)
  | srem (key : String)
  | hdel (key : String)
deriving DecidableEq, Repr

@[reducible] def Op.Ret : Op → Type
  | .smembers => List String
  | .lrange => List String
  | .rpush _ => Unit
  | .blpop => Option String
  | .hget _ => Option CompilationRequest
  | .compileWorkflow _ => Unit
  | .srem _ => Unit
  | .hdel _ => Unit

abbrev Calls := Prog Op Op.Ret

def ask (op : Op) : Calls op.Ret := Prog.ask op

/-- What `dequeue` returns. -/
inductive Dequeued where
  | request (r : CompilationRequest)
  /-- nothing within the timeout -/
  | empty
  | parseError (key : String)
deriving DecidableEq, Repr

def dequeue : Calls Dequeued := do
  match ← ask .blpop with
  | none => pure .empty
  | some key => do
    let payload ← ask (.hget key)
    match payload.or (CompilationRequest.fromUniqueKey key) with
    | some request => pure (.request request)
    | none => pure (.parseError key)

def complete (request : CompilationRequest) : Calls Unit := do
  ask (.srem request.uniqueKey)
  ask (.hdel request.uniqueKey)

/-- Puts keys back into the list. -/
def requeue : List String → Calls Unit
  | [] => pure ()
  | key :: keys => do
    ask (.rpush key)
    requeue keys

def recoverOrphaned : Calls Unit := do
  let pending ← ask .smembers
  if pending.isEmpty then pure ()
  else do
    let queued ← ask .lrange
    requeue (pending.filter fun key => key ∉ queued)

/-- The loop of the worker, which is told to shut down after `n` rounds. -/
def rounds : ℕ → Calls Unit
  | 0 => pure ()
  | n + 1 => do
    match ← dequeue with
    | .request request => do
      ask (.compileWorkflow request)
      complete request
      rounds n
    | .empty => rounds n
    | .parseError _ => rounds n

/-- `run`. -/
def worker (n : ℕ) : Calls Unit := do
  recoverOrphaned
  rounds n

/-! ### The system -/

/-- What has happened. -/
inductive Entry where
  | enqueued (request : CompilationRequest)
  /-- the definition was read for the request -/
  | compiled (request : CompilationRequest)
  | edited (tenantId workflowId : String) (version : Int32)
deriving DecidableEq, Repr

/-- How far the worker has come with a key. -/
inductive Phase where
  | idle
  | popped (key : String)
  | loaded (request : CompilationRequest)
  | compiled (request : CompilationRequest)
  /-- the key is no longer in the set -/
  | removed (request : CompilationRequest)
deriving DecidableEq, Repr

structure World where
  /-- `runtara:compilation:queue` -/
  queue : List String
  /-- `runtara:compilation:pending` -/
  pending : List String
  /-- `runtara:compilation:requests` -/
  requests : String → Option CompilationRequest
  phase : Phase
  /-- the newest entry first -/
  log : List Entry

namespace World

/-- The script of `enqueue`. -/
def enqueue (w : World) (r : CompilationRequest) : World :=
  let key := r.uniqueKey
  let log := .enqueued r :: w.log
  if key ∈ w.pending then
    if r.forceRecompile then
      { w with requests := Function.update w.requests key (some r), log }
    else { w with log }
  else
    { w with
      pending := key :: w.pending
      requests := Function.update w.requests key (some r)
      queue := w.queue ++ [key]
      log }

end World

/-- How far the worker has come after a command. -/
def Phase.after (p : Phase) : (op : Op) → op.Ret → Phase
  | .blpop, some key => .popped key
  | .hget key, payload =>
    match payload.or (CompilationRequest.fromUniqueKey key) with
    | some request => .loaded request
    | none => .idle
  | .compileWorkflow request, _ => .compiled request
  | .srem _, _ =>
    match p with
    | .compiled request => .removed request
    | p => p
  | .hdel _, _ => .idle
  | _, _ => p

/-- What a command returns, and what it does to the list, the set, the hash and the log. -/
def command : (op : Op) → World → op.Ret × World
  | .smembers, w => (w.pending, w)
  | .lrange, w => (w.queue, w)
  | .rpush key, w => ((), { w with queue := w.queue ++ [key] })
  | .blpop, w =>
    match w.queue with
    | [] => (none, w)
    | key :: queue => (some key, { w with queue })
  | .hget key, w => (w.requests key, w)
  | .compileWorkflow r, w => ((), { w with log := .compiled r :: w.log })
  | .srem key, w => ((), { w with pending := w.pending.filter (· ≠ key) })
  | .hdel key, w => ((), { w with requests := Function.update w.requests key none })

abbrev Task := Tasks.Task Op Op.Ret Unit

/-- A command of the worker. -/
def exec (_ : Unit) (op : Op) (_ : Unit) (w : World) :
    Option (op.Ret × Unit × World × List Task) :=
  let res := command op w
  some (res.1, (), { res.2 with phase := w.phase.after op res.1 }, [])

/-- What happens besides the worker's commands. -/
inductive Outside where
  | enqueue (request : CompilationRequest)
  | edit (tenantId workflowId : String) (version : Int32)
  /-- a worker starts, if none is running -/
  | start (n : ℕ)
  /-- the worker stops at once -/
  | crash

def outside : Outside → World → List Task → Option (World × List Task)
  | .enqueue r, w, ts => some (w.enqueue r, ts)
  | .edit tenantId workflowId version, w, ts =>
    some ({ w with log := .edited tenantId workflowId version :: w.log }, ts)
  | .start n, w, ts => if ts.all fun t => t.prog.isDone then some (w, [⟨(), worker n⟩]) else none
  | .crash, w, _ => some ({ w with phase := .idle }, [])

/-- The queue and its worker. -/
@[reducible] def compilation : Tasks.System Op Op.Ret where
  World := World
  Tag := Unit
  Choice := Unit
  Outside := Outside
  exec := exec
  outside := outside

abbrev Config := compilation.Config

abbrev Move := compilation.Move

def initial : Config := ⟨⟨[], [], fun _ => none, .idle, []⟩, []⟩

/-- Nothing is waiting, and nothing is being compiled. -/
def World.quiet (w : World) : Bool :=
  w.queue.isEmpty && w.pending.isEmpty && match w.phase with
    | .popped _ | .loaded _ | .compiled _ => false
    | .idle | .removed _ => true

/-- The compilation serves a request: it is of the same target, and forced if it has to be. -/
def Entry.serves (r : CompilationRequest) : Entry → Bool
  | .compiled s => s.sameTarget r && (!r.forceRecompile || s.forceRecompile)
  | _ => false

/-- Every enqueued request was followed by a compilation that serves it. -/
def Served (log : List Entry) : Prop :=
  ∀ newer r older, log = newer ++ .enqueued r :: older → ∃ e ∈ newer, e.serves r = true

end Runtara.Compilation
