/-
  Start requests for one instance id.

  `handle_start_instance` in full: the checks of the image, the row of the instance with its tenant,
  the association with an image, and the response. Any number of requests run at the same time;
  registration is an insert with a primary key, and every other statement succeeds. What the
  requests do not share (the input, the environment variables, the time limit) is left out, as are
  the texts of the errors of others that a response quotes.

  A tag records how far its request has come (`StartPhase`); no call depends on it.
-/
import Runtara.Machine.Tasks

namespace Runtara.Environment.Start

open Tasks (Prog)

/-- `StartInstanceRequest`, for one instance id. -/
structure Request where
  tenantId : String
  imageId : String
deriving DecidableEq, Repr

/-- `StartInstanceResponse`. -/
structure Response where
  success : Bool
  instanceId : String := ""
  deduplicated : Bool := false
  error : Option String := none
deriving DecidableEq, Repr

/-- What the requests find and do not change. -/
structure Settings where
  /-- the id that all requests carry, which is not empty -/
  instanceId : String
  /-- the tenant of a registered image -/
  images : String → Option String
  /-- the artifact of a registered image is a file -/
  isFile : String → Bool

/-- The calls. -/
inductive Op where
  /-- `ImageRegistry::get`: the tenant of the image -/
  | getImage (imageId : String)
  /-- `get_instance`: the tenant of the row -/
  | getInstance
  | getInstanceImageId
  /-- `bundle_path.is_file()` -/
  | isFile (imageId : String)
  /-- whether the row is inserted; if not, the id is taken -/
  | registerInstance (tenantId : String)
  | associateInstanceImage (imageId : String)
  /-- whether there is a handle -/
  | launchDetached
  /-- `ContainerRegistry::register`, `update_instance_status` and `spawn_container_monitor` -/
  | recordLaunch
  /-- `complete_instance` with status `failed` -/
  | completeInstance
  | reply (response : Response)
deriving DecidableEq, Repr

@[reducible] def Op.Ret : Op → Type
  | .getImage _ => Option String
  | .getInstance => Option String
  | .getInstanceImageId => Option String
  | .isFile _ => Bool
  | .registerInstance _ => Bool
  | .associateInstanceImage _ => Unit
  | .launchDetached => Bool
  | .recordLaunch => Unit
  | .completeInstance => Unit
  | .reply _ => Unit

abbrev Calls := Prog Op Op.Ret

def ask (op : Op) : Calls op.Ret := Prog.ask op

variable (cfg : Settings) (request : Request)

/-- The refusal with an error. -/
def refusal (error : String) : Response := { success := false, error := some error }

/-- The refusal of an id that is taken. -/
def alreadyExists : Response := refusal ("Instance '" ++ cfg.instanceId ++ "' already exists")

def existingStartResponse : Calls (Option Response) := do
  match ← ask .getInstance with
  | none => pure none
  | some tenant =>
    if tenant ≠ request.tenantId then pure (some (alreadyExists cfg))
    else do
      match ← ask .getInstanceImageId with
      | some image =>
        if image = request.imageId then
          pure (some { success := true, instanceId := cfg.instanceId, deduplicated := true })
        else pure (some (alreadyExists cfg))
      -- a row without an association is no proof that this start was accepted
      | none => pure (some (alreadyExists cfg))

/-- The end of `handle_start_instance`, after the row has been inserted. -/
def launch : Calls Response := do
  ask (.associateInstanceImage request.imageId)
  if ← ask .launchDetached then do
    ask .recordLaunch
    pure { success := true, instanceId := cfg.instanceId }
  else do
    ask .completeInstance
    pure { success := false, instanceId := cfg.instanceId, error := some "Launch failed" }

def handleStartInstance : Calls Response := do
  if request.imageId.isEmpty then pure (refusal "image_id is required")
  else do
    match ← ask (.getImage request.imageId) with
    | none => pure (refusal ("Image '" ++ request.imageId ++ "' not found"))
    | some tenant =>
      if tenant ≠ request.tenantId then
        pure (refusal ("Image '" ++ request.imageId ++ "' not found"))
      else do
        match ← existingStartResponse cfg request with
        | some response => pure response
        | none => do
          if !(← ask (.isFile request.imageId)) then
            pure (refusal ("Image '" ++ request.imageId ++ "' artifact not found"))
          else do
            if !(← ask (.registerInstance request.tenantId)) then do
              match ← existingStartResponse cfg request with
              | some response => pure response
              | none => pure (refusal "Failed to create instance")
            else launch cfg request

def program : Calls Unit := do
  let response ← handleStartInstance cfg request
  ask (.reply response)

/-! ### The system -/

/-- Why a request is refused. -/
inductive Refusal where
  /-- its image is not there, not its tenant's, or has no artifact -/
  | image
  /-- the row is of another tenant, or associated with another image -/
  | taken
  /-- the row has no association -/
  | missing
  /-- the id was taken, and then there was no row -/
  | vanished
deriving DecidableEq, Repr

/-- How far a request has come. -/
inductive Phase where
  | arrived
  /-- the image is the tenant's -/
  | imageFound
  /-- and its artifact is there -/
  | artifactFound
  /-- the id is taken -/
  | collided
  /-- the row is of the tenant of the request -/
  | owned
  | reserved
  | associated
  | launched (ok : Bool)
  | deduplicated
  | refused (why : Refusal)
deriving DecidableEq, Repr

namespace Phase

def after (request : Request) (p : Phase) : (op : Op) → op.Ret → Phase
  | .getImage _, tenant =>
    if tenant = some request.tenantId then imageFound else refused .image
  | .getInstance, row =>
    match row with
    | some tenant => if tenant = request.tenantId then owned else refused .taken
    | none => if p = collided then refused .vanished else p
  | .getInstanceImageId, association =>
    match association with
    | some image => if image = request.imageId then deduplicated else refused .taken
    | none => refused .missing
  | .isFile _, found => if found then artifactFound else refused .image
  | .registerInstance _, inserted => if inserted then reserved else collided
  | .associateInstanceImage _, _ => associated
  | .launchDetached, ok => launched ok
  | .recordLaunch, _ => p
  | .completeInstance, _ => p
  | .reply _, _ => p

/-- The request has inserted the row. -/
def winner : Phase → Bool
  | reserved | associated | launched _ => true
  | _ => false

end Phase

/-- What is known of a request. -/
structure Tag where
  request : Request
  phase : Phase
  answer : Option Response := none
deriving DecidableEq, Repr

abbrev Task := Tasks.Task Op Op.Ret Tag

/-- What the requests share: the tenant of the row, and the image it is associated with. -/
structure World where
  row : Option String
  association : Option String
deriving DecidableEq, Repr

/-- A call; the launch may fail. -/
def exec (tag : Tag) : (op : Op) → Bool → World → Option (op.Ret × Tag × World × List Task)
  | .getImage id, _, w =>
    let r := cfg.images id
    some (r, { tag with phase := tag.phase.after tag.request (.getImage id) r }, w, [])
  | .getInstance, _, w =>
    some (w.row, { tag with phase := tag.phase.after tag.request .getInstance w.row }, w, [])
  | .getInstanceImageId, _, w =>
    some (w.association,
      { tag with phase := tag.phase.after tag.request .getInstanceImageId w.association }, w, [])
  | .isFile id, _, w =>
    let r := cfg.isFile id
    some (r, { tag with phase := tag.phase.after tag.request (.isFile id) r }, w, [])
  | .registerInstance tenant, _, w =>
    let inserted := w.row.isNone
    some (inserted,
      { tag with phase := tag.phase.after tag.request (.registerInstance tenant) inserted },
      { w with row := w.row.or (some tenant) }, [])
  | .associateInstanceImage id, _, w =>
    some ((), { tag with phase := tag.phase.after tag.request (.associateInstanceImage id) () },
      { w with association := some id }, [])
  | .launchDetached, ok, w =>
    some (ok, { tag with phase := tag.phase.after tag.request .launchDetached ok }, w, [])
  | .recordLaunch, _, w => some ((), tag, w, [])
  | .completeInstance, _, w => some ((), tag, w, [])
  | .reply response, _, w => some ((), { tag with answer := some response }, w, [])

/-- The phase in which a request arrives. -/
def Request.arrival (request : Request) : Phase :=
  if request.imageId.isEmpty then .refused .image else .arrived

def arrive (request : Request) (w : World) (ts : List Task) : Option (World × List Task) :=
  some (w, ts ++ [⟨{ request, phase := request.arrival }, program cfg request⟩])

/-- The start requests for an id. -/
@[reducible] def starts : Tasks.System Op Op.Ret where
  World := World
  Tag := Tag
  Choice := Bool
  Outside := Request
  exec := exec cfg
  outside := arrive cfg

abbrev Config := (starts cfg).Config

abbrev Move := (starts cfg).Move

/-- An id without requests in flight: it is new, or there is a row. -/
def initial (row : Option (String × Option String)) : Config cfg :=
  ⟨⟨row.map Prod.fst, row.bind Prod.snd⟩, []⟩

end Runtara.Environment.Start
