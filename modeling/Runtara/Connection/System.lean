/-
  The requests on one connection.

  Credential resolutions, OAuth callbacks and edits run at the same time. They share the row of the
  connection and the provider (`Store`), and within a process the caches of tokens and of failed
  refreshes and the locks (`Memory`). Every statement, every request to the provider and every look
  at the memory is one step. `updated_at` is a version that tells all writes apart.

  A tag records what its request has come to (`Phase`) and the version of the row it has read; the
  store records the tokens that were sent in refreshes, what edits and callbacks have given to the
  parameters and the grants they have removed. No call depends on these.
-/
import Runtara.Connection.Parameters
import Runtara.Machine.Tasks

namespace Runtara.Connection

open Tasks (Prog)

/-- `AuthResolutionError`: whether it is one that only a new authorization can mend. -/
structure RefreshError where
  reauth : Bool
deriving DecidableEq, Repr

structure CachedAccessToken where
  accessToken : String
  expiresAt : Option ℕ
deriving DecidableEq, Repr

/-! ### Calls -/

/-- The calls that stay within the process. -/
inductive MemoryOp where
  | now
  | cachedToken (key : String)
  | cacheToken (key : String) (token : CachedAccessToken)
  | invalidate (key : String)
  | lock (key : String)
  | unlock (key : String)
  | refreshError (key : String)
  | recordRefreshError (key : String) (at_ : ℕ) (error : RefreshError)
  | clearRefreshError (key : String)

/-- The calls that leave it: the statements and the requests to the provider. -/
inductive StoreOp where
  /-- `get_connection`: the version of the row -/
  | getConnection
  | getWithParameters
  /-- `refresh_oauth_access_token` -/
  | refresh (refreshToken : String)
  | exchangeCode
  /-- whether a row was affected -/
  | persistRefreshedOauth (parameters : Params) (expectedHash newHash : Option String)
  | updateParametersAndStatus (parameters : Params)
  /-- whether a row was affected -/
  | update (parameters : Option Params) (expectedVersion : ℕ)
  | updateStatus

inductive Op where
  | memory (op : MemoryOp)
  | store (op : StoreOp)

@[reducible] def MemoryOp.Ret : MemoryOp → Type
  | .now => ℕ
  | .cachedToken _ => Option CachedAccessToken
  | .refreshError _ => Option (ℕ × RefreshError)
  | _ => Unit

@[reducible] def StoreOp.Ret : StoreOp → Type
  | .getConnection => ℕ
  | .getWithParameters => Params
  | .refresh _ => Except RefreshError TokenResponse
  | .exchangeCode => Option GrantResponse
  | .persistRefreshedOauth .. => Bool
  | .updateParametersAndStatus _ => Unit
  | .update .. => Bool
  | .updateStatus => Unit

@[reducible] def Op.Ret : Op → Type
  | .memory op => op.Ret
  | .store op => op.Ret

abbrev Calls := Prog Op Op.Ret

def memory (op : MemoryOp) : Calls op.Ret := Prog.ask (Op.memory op)

def store (op : StoreOp) : Calls op.Ret := Prog.ask (Op.store op)

/-! ### Resolutions -/

/-- Times are in nanoseconds. -/
def second : ℕ := 1000000000

def tokenIsFresh (now : ℕ) (expiresAt : Option ℕ) : Bool :=
  expiresAt.any fun expiry => now + 300 * second < expiry

/-- A token with its expiry, if it is fresh. -/
def freshToken (token : Option CachedAccessToken) : Calls (Option String) :=
  match token with
  | none => pure none
  | some token => do
    let now ← memory .now
    pure (if tokenIsFresh now token.expiresAt then some token.accessToken else none)

def getFreshCachedToken (key : String) : Calls (Option String) := do
  let entry ← memory (.cachedToken key)
  freshToken entry

def recentRefreshError (key : String) : Calls (Option RefreshError) := do
  match ← memory (.refreshError key) with
  | none => pure none
  | some (at_, error) => do
    let now ← memory .now
    pure (if now < at_ + 5 * second then some error else none)

/-- What is resolved: the access token, and the answer if there was a refresh. -/
structure Resolved where
  accessToken : String
  rotated : Option TokenResponse
deriving DecidableEq, Repr

/-- What `resolve_deferred_auth` does with the lock. -/
def refreshLocked (auth : DeferredAuth) : Calls (Except RefreshError Resolved) := do
  match ← getFreshCachedToken auth.cacheKey with
  | some token => pure (.ok ⟨token, none⟩)
  | none => do
    match ← recentRefreshError auth.cacheKey with
    | some error => pure (.error error)
    | none => do
      match ← store (.refresh auth.refreshToken) with
      | .ok response => do
        memory (.clearRefreshError auth.cacheKey)
        memory (.cacheToken auth.cacheKey ⟨response.accessToken, response.expiresAt⟩)
        pure (.ok ⟨response.accessToken, some response⟩)
      | .error error => do
        let now ← memory .now
        memory (.recordRefreshError auth.cacheKey now error)
        pure (.error error)

def resolveDeferredAuth (auth : DeferredAuth) : Calls (Except RefreshError Resolved) := do
  match ← freshToken (auth.fallbackAccessToken.map (⟨·, auth.fallbackExpiresAt⟩)) with
  | some token => do
    memory (.cacheToken auth.cacheKey ⟨token, auth.fallbackExpiresAt⟩)
    pure (.ok ⟨token, none⟩)
  | none => do
    match ← getFreshCachedToken auth.cacheKey with
    | some token => pure (.ok ⟨token, none⟩)
    | none => do
      memory (.lock auth.cacheKey)
      let outcome ← refreshLocked auth
      memory (.unlock auth.cacheKey)
      pure outcome

variable (cfg : Settings)

/-- `persist_rotated_credentials`; a write that affects no row counts as a success. -/
def persistRotatedCredentials (params : Params) (rotated : TokenResponse) : Calls Unit := do
  let _ ← store (.persistRefreshedOauth (mergeRotated cfg params rotated)
    ((params.text "refresh_token").map cfg.refreshTokenHash)
    ((newRefreshToken params rotated).map cfg.refreshTokenHash))
  pure ()

def maybeFlipNeedsReauth (error : RefreshError) : Calls Unit :=
  if error.reauth then store .updateStatus else pure ()

def resolveConnectionAuth (params : Params) : Calls Unit :=
  match describeOauthRefreshAuth cfg params with
  | none => pure ()
  | some auth => do
    match ← resolveDeferredAuth auth with
    | .error error => maybeFlipNeedsReauth error
    | .ok resolved =>
      match resolved.rotated with
      | none => pure ()
      | some rotated => persistRotatedCredentials cfg params rotated

/-- A credential resolution: the row is read, then resolved. -/
def resolution : Calls Unit := do
  let params ← store .getWithParameters
  resolveConnectionAuth cfg params

/-! ### Callbacks and edits -/

/-- `handle_callback`, for a state token that was found. -/
def handleCallback (query : String → Option String) : Calls Unit := do
  let params ← store .getWithParameters
  if (params.text "client_id").isNone || (params.text "client_secret").isNone ||
      (cfg.descriptor.tokenUrl params).isEmpty then pure ()
  else do
    match ← store .exchangeCode with
    | none => pure ()
    | some response =>
      match extraCallbackValues query cfg.descriptor.extraCallbackParams with
      | .error _ => pure ()
      | .ok entries =>
        store (.updateParametersAndStatus ((storeGrant cfg params response).setAll entries))

/-- `update_connection`, as far as it concerns the parameters. -/
def updateConnection (version : ℕ) (patch : Option ConnectionParameterPatch) : Calls Unit := do
  let current ← store .getConnection
  if version ≠ current then pure ()
  else
    match patch with
    | none => do
      let _ ← store (.update none version)
      pure ()
    | some patch => do
      let oldParams ← store .getWithParameters
      match editedParams cfg.descriptor patch oldParams with
      | .error _ => pure ()
      | .ok (params, reconnect) => do
        let written ← store (.update (some params) version)
        if written && reconnect then memory (.invalidate (cfg.descriptor.tokenUrl oldParams))
        else pure ()

/-- What is asked of the connection. -/
inductive Request where
  | resolve
  | callback (query : String → Option String)
  | edit (version : ℕ) (patch : Option ConnectionParameterPatch)

def program : Request → Calls Unit
  | .resolve => resolution cfg
  | .callback query => handleCallback cfg query
  | .edit version patch => updateConnection cfg version patch

/-! ### The store -/

/-- The row of the connection. -/
structure Row where
  params : Params
  refreshTokenHash : Option String
  version : ℕ

/-- The provider: the tokens it has issued, each for a grant, and the refresh token that is
valid. -/
structure Provider where
  issued : List (String × ℕ)
  grants : ℕ
  valid : Option String
deriving DecidableEq, Repr

namespace Provider

def grantOf (p : Provider) (token : String) : Option ℕ := p.issued.lookup token

/-- New tokens are issued for a grant, if they are new. -/
def issue (p : Provider) (tokens : List String) (grant : ℕ) : Option Provider :=
  if tokens.all fun token => (p.grantOf token).isNone then
    some { p with issued := tokens.map (fun token => (token, grant)) ++ p.issued }
  else none

def refresh (p : Provider) (token : String) (response : TokenResponse) : Option Provider :=
  match p.grantOf token with
  | none => none
  | some grant =>
    if (cfg.oneTime && p.valid ≠ some token) || (cfg.rotates && response.refreshToken.isNone) then
      none
    else
      (p.issue (response.accessToken :: response.refreshToken.toList) grant).map fun p =>
        { p with valid := response.refreshToken.or p.valid }

/-- A code is exchanged for a new grant. A provider that rotates refresh tokens issues one. -/
def exchange (p : Provider) (response : GrantResponse) : Option Provider :=
  let refreshToken := response.refreshToken.bind Param.asStr
  if cfg.rotates && refreshToken.isNone then none
  else
    (p.issue response.tokens p.grants).map fun q =>
      { q with grants := p.grants + 1, valid := refreshToken.or p.valid }

end Provider

/-- What all processes share, and what is recorded. -/
structure Store where
  row : Row
  provider : Provider
  /-- the refresh tokens that were sent, the last one first -/
  sent : List String
  /-- what edits and callbacks have given to the parameters -/
  given : Params
  /-- the grants that an edit has removed or a callback has replaced -/
  dead : List ℕ

/-- What the surroundings decide. -/
inductive Choice where
  | none
  /-- some time passes -/
  | tick (d : ℕ)
  | answer (response : TokenResponse)
  | failed (error : RefreshError)
  | granted (response : GrantResponse)

/-- What a request gives to the parameters. -/
def Request.gives : Request → Params → Params
  | .resolve, params => params
  | .callback query, params =>
    match extraCallbackValues query cfg.descriptor.extraCallbackParams with
    | .ok entries => params.setAll entries
    | .error _ => params
  | .edit _ patch, params => PatchOp.applyAll (patch.elim [] ConnectionParameterPatch.ops) params

namespace Store

/-- The parameters are written by an edit or a callback. -/
def write (s : Store) (request : Request) (params : Params) : Store :=
  { s with
    row := { s.row with params, version := s.row.version + 1 }
    given := request.gives cfg s.given
    dead := (s.row.params.tokens.filter (· ∉ params.tokens)).filterMap s.provider.grantOf
      ++ s.dead }

/-- The row is written without its parameters. -/
def touch (s : Store) : Store := { s with row := { s.row with version := s.row.version + 1 } }

end Store

/-- What a call returns and does to the store. -/
def StoreOp.run (request : Request) : (op : StoreOp) → Choice → Store → Option (op.Ret × Store)
  | .getConnection, _, s => some (s.row.version, s)
  | .getWithParameters, _, s => some (s.row.params, s)
  | .refresh token, .answer response, s =>
    (s.provider.refresh cfg token response).map fun provider =>
      (.ok response, { s with provider, sent := token :: s.sent })
  | .refresh token, .failed error, s => some (.error error, { s with sent := token :: s.sent })
  | .refresh _, _, _ => none
  | .exchangeCode, .granted response, s =>
    (s.provider.exchange cfg response).map fun provider => (some response, { s with provider })
  | .exchangeCode, _, s => some (none, s)
  | .persistRefreshedOauth parameters expectedHash newHash, _, s =>
    if s.row.refreshTokenHash = none ∨ s.row.refreshTokenHash = expectedHash then
      some (true, { s with row := ⟨parameters, newHash, s.row.version + 1⟩ })
    else some (false, s)
  | .updateParametersAndStatus parameters, _, s => some ((), s.write cfg request parameters)
  | .update parameters expectedVersion, _, s =>
    if s.row.version = expectedVersion then
      match parameters with
      | some parameters => some (true, s.write cfg request parameters)
      | none => some (true, s.touch)
    else some (false, s)
  | .updateStatus, _, s => some ((), s.touch)

/-! ### The memory of the process -/

structure Memory where
  clock : ℕ
  cache : String → Option CachedAccessToken
  locked : String → Bool
  errors : String → Option (ℕ × RefreshError)

def MemoryOp.run : (op : MemoryOp) → Choice → Memory → Option (op.Ret × Memory)
  | .now, .tick d, m => some (m.clock + d, { m with clock := m.clock + d })
  | .now, _, m => some (m.clock, m)
  | .cachedToken key, _, m => some (m.cache key, m)
  | .cacheToken key token, _, m =>
    some ((), { m with cache := Function.update m.cache key (some token) })
  | .invalidate key, _, m => some ((), { m with cache := Function.update m.cache key none })
  -- a lock that is taken is waited for
  | .lock key, _, m =>
    if m.locked key then none
    else some ((), { m with locked := Function.update m.locked key true })
  | .unlock key, _, m => some ((), { m with locked := Function.update m.locked key false })
  | .refreshError key, _, m => some (m.errors key, m)
  | .recordRefreshError key at_ error, _, m =>
    some ((), { m with errors := Function.update m.errors key (some (at_, error)) })
  | .clearRefreshError key, _, m =>
    some ((), { m with errors := Function.update m.errors key none })

/-! ### The system -/

/-- What a request has come to. -/
inductive Phase where
  | arrived
  /-- an edit whose version was the row's -/
  | checked
  /-- the row has been read -/
  | read (params : Params)
  /-- the token has been refreshed -/
  | rotated (params : Params) (response : TokenResponse)
  /-- the code has been exchanged, and the query has all that is required -/
  | granted (params : Params) (response : GrantResponse)
  /-- an edit has been written, or refused -/
  | updated
  | ended

/-- The query of a callback has all that is required. -/
def Request.complete : Request → Bool
  | .callback query => (extraCallbackValues query cfg.descriptor.extraCallbackParams).isOk
  | _ => true

def Phase.after (request : Request) (p : Phase) : (op : StoreOp) → op.Ret → Phase
  | .getConnection, current =>
    match request with
    | .edit version _ => if version = current then .checked else .ended
    | _ => .ended
  | .getWithParameters, params => .read params
  | .refresh _, .ok response =>
    match p with
    | .read params => .rotated params response
    | _ => .ended
  | .refresh _, .error _ => p
  | .exchangeCode, some response =>
    match p with
    | .read params => if request.complete cfg then .granted params response else .ended
    | _ => .ended
  | .exchangeCode, none => .ended
  | .persistRefreshedOauth .., _ => .ended
  | .updateParametersAndStatus _, _ => .ended
  | .update .., _ => .updated
  | .updateStatus, _ => .ended

/-- What is known of a request. -/
structure Tag where
  request : Request
  phase : Phase := .arrived
  /-- the version of the row that was read -/
  version : ℕ := 0

def Tag.after (tag : Tag) (op : StoreOp) (r : op.Ret) (s : Store) : Tag :=
  { tag with
    phase := tag.phase.after cfg tag.request op r
    version := match op with
      | .getWithParameters => s.row.version
      | _ => tag.version }

abbrev Task := Tasks.Task Op Op.Ret Tag

structure World where
  store : Store
  memory : Memory

def exec (tag : Tag) : (op : Op) → Choice → World → Option (op.Ret × Tag × World × List Task)
  | .memory op, choice, w =>
    (op.run choice w.memory).map fun res => (res.1, tag, { w with memory := res.2 }, [])
  | .store op, choice, w =>
    (op.run cfg tag.request choice w.store).map fun res =>
      (res.1, tag.after cfg op res.1 w.store, { w with store := res.2 }, [])

/-- What happens besides. -/
inductive Outside where
  | arrive (request : Request)
  /-- the process starts again -/
  | restart

def outside : Outside → World → List Task → Option (World × List Task)
  | .arrive request, w, ts => some (w, ts ++ [⟨{ request }, program cfg request⟩])
  | .restart, w, _ =>
    some ({ w with memory := ⟨w.memory.clock, fun _ => none, fun _ => false, fun _ => none⟩ }, [])

/-- The requests on a connection. -/
@[reducible] def connection : Tasks.System Op Op.Ret where
  World := World
  Tag := Tag
  Choice := Choice
  Outside := Outside
  exec := exec cfg
  outside := outside cfg

abbrev Config := (connection cfg).Config

abbrev Move := (connection cfg).Move

/-- A row with the tokens of one grant, of which the refresh token is valid. -/
def Store.initial (row : Row) : Store where
  row := row
  provider := ⟨row.params.tokens.map fun token => (token, 0), 1, row.params.text "refresh_token"⟩
  sent := []
  given := row.params
  dead := []

def initial (row : Row) : Config cfg :=
  ⟨⟨.initial row, ⟨0, fun _ => none, fun _ => false, fun _ => none⟩⟩, []⟩

def Config.quiet (c : Config cfg) : Bool := c.tasks.all fun t => t.prog.isDone

/-! ### A connection -/

/-- A connection type with nothing to edit. -/
def plainDescriptor : Descriptor where
  fields := []
  extraCallbackParams := []
  tokenUrl _ := "token"
  issues _ := none
  fields_plain := nofun
  extra_plain := nofun

/-- Its settings, with tokens that are their own hashes. -/
def plainSettings (oneTime : Bool) : Settings where
  descriptor := plainDescriptor
  refreshTokenHash := id
  toRfc3339 := toString
  parseRfc3339 := String.toNat?
  oneTime := oneTime
  rotates := true

/-- The parameters of a connection before it is authorized. -/
def plainParams : Params :=
  Params.setAll (fun _ => none) [("client_id", .text "client"), ("client_secret", .text "secret")]

/-- A row with a refresh token that has never been refreshed. -/
def authorizedRow : Row := ⟨plainParams.set "refresh_token" (.text "r0"), none, 0⟩

/-- The inputs of a resolution that looks around for some calls, refreshes and writes the answer. -/
def refreshInputs (oneTime : Bool) (i looks : ℕ) (response : TokenResponse) :
    List (Tasks.System.Input (connection (plainSettings oneTime))) :=
  List.replicate looks (.task i .none) ++ .task i (.answer response) ::
    List.replicate 4 (.task i .none)

end Runtara.Connection
