/-
  What one step of a request does.

  A request keeps to the order of its calls (`requestProtocol`): what it writes is computed from the
  parameters it has read and from the answer of the provider. A step changes the store only by one
  of its statements or a request to the provider (`Runs`).
-/
import Runtara.Connection.System

namespace Runtara.Connection

open List

open Tasks (Prog Protocol forall_mem_concat forall_mem_set)

variable {cfg : Settings} {request : Request}

/-! ### The order of the calls -/

/-- What a request may ask of the store when it has come so far. -/
def Phase.may (cfg : Settings) (request : Request) (p : Phase) : StoreOp → Prop
  | .getConnection => p = .arrived
  | .getWithParameters =>
    p = .checked ∨ p = .arrived ∧ ∀ version patch, request ≠ .edit version patch
  | .refresh token =>
    request = .resolve ∧ ∃ params, p = .read params ∧ params.text "refresh_token" = some token
  | .exchangeCode => (∃ query, request = .callback query) ∧ ∃ params, p = .read params
  | .persistRefreshedOauth parameters expectedHash newHash =>
    request = .resolve ∧ ∃ params response, p = .rotated params response ∧
      parameters = mergeRotated cfg params response ∧
      expectedHash = (params.text "refresh_token").map cfg.refreshTokenHash ∧
      newHash = (newRefreshToken params response).map cfg.refreshTokenHash
  | .updateParametersAndStatus parameters =>
    ∃ params response query entries, p = .granted params response ∧ request = .callback query ∧
      extraCallbackValues query cfg.descriptor.extraCallbackParams = .ok entries ∧
      parameters = (storeGrant cfg params response).setAll entries
  | .update none version => request = .edit version none ∧ p = .checked
  | .update (some parameters) version =>
    ∃ params patch reconnect, p = .read params ∧ request = .edit version (some patch) ∧
      editedParams cfg.descriptor patch params = .ok (parameters, reconnect)
  | .updateStatus => request = .resolve ∧ ∃ params, p = .read params

/-- A request that has ended calls nothing. -/
def Phase.allows (cfg : Settings) (request : Request) (p : Phase) : Op → Prop
  | .memory _ => p ≠ .ended
  | .store op => p.may cfg request op

def Phase.next (cfg : Settings) (request : Request) (p : Phase) : (op : Op) → op.Ret → Phase
  | .memory _, _ => p
  | .store op, r => p.after cfg request op r

/-- Nothing is left to be written. -/
def Phase.settled : Phase → Bool
  | .rotated _ _ => false
  | .granted _ _ => false
  | _ => true

def requestProtocol (cfg : Settings) (request : Request) : Protocol Op Op.Ret Phase where
  allowed := Phase.allows cfg request
  next p op r p' := p' = p.next cfg request op r

variable {op : StoreOp}

section Follows

variable {α : Type} {post : Phase → α → Prop} {p : Phase}

theorem follows_memory {op : MemoryOp} {f : op.Ret → Calls α} (hp : p ≠ .ended)
    (h : ∀ r, (f r).Follows (requestProtocol cfg request) post p) :
    (memory op >>= f).Follows (requestProtocol cfg request) post p := by
  refine ⟨hp, ?_⟩
  rintro r _ rfl
  exact h r

theorem follows_store {f : op.Ret → Calls α} (hop : p.may cfg request op)
    (h : ∀ r, (f r).Follows (requestProtocol cfg request) post (p.after cfg request op r)) :
    (store op >>= f).Follows (requestProtocol cfg request) post p := by
  refine ⟨hop, ?_⟩
  rintro r _ rfl
  exact h r

theorem follows_last (hop : p.may cfg request op)
    (h : ∀ r, (p.after cfg request op r).settled = true) :
    (store op).Follows (requestProtocol cfg request) (fun q _ => q.settled = true) p := by
  refine ⟨hop, ?_⟩
  rintro r _ rfl
  exact h r

theorem freshToken_follows (hp : p ≠ .ended) (token : Option CachedAccessToken) :
    (freshToken token).Follows (requestProtocol cfg request) (fun q _ => q = p) p := by
  cases token with
  | none => exact rfl
  | some token => exact follows_memory hp fun _ => rfl

theorem getFreshCachedToken_follows (hp : p ≠ .ended) (key : String) :
    (getFreshCachedToken key).Follows (requestProtocol cfg request) (fun q _ => q = p) p :=
  follows_memory hp fun entry => freshToken_follows hp entry

theorem recentRefreshError_follows (hp : p ≠ .ended) (key : String) :
    (recentRefreshError key).Follows (requestProtocol cfg request) (fun q _ => q = p) p := by
  refine follows_memory hp fun entry => ?_
  cases entry with
  | none => exact rfl
  | some entry => exact follows_memory hp fun _ => rfl

/-- What a resolution has come to with its outcome. -/
def resolvedPhase (params : Params) : Except RefreshError Resolved → Phase
  | .ok ⟨_, some response⟩ => .rotated params response
  | _ => .read params

variable {params : Params} {auth : DeferredAuth}

theorem refreshLocked_follows (hauth : params.text "refresh_token" = some auth.refreshToken) :
    (refreshLocked auth).Follows (requestProtocol cfg .resolve)
      (fun q outcome => q = resolvedPhase params outcome) (.read params) := by
  have hread : Phase.read params ≠ .ended := nofun
  refine ((getFreshCachedToken_follows hread _).mono fun q token hq => ?_).bind
  obtain rfl := hq
  cases token with
  | some token => exact rfl
  | none =>
    refine ((recentRefreshError_follows hread _).mono fun q error hq => ?_).bind
    obtain rfl := hq
    cases error with
    | some error => exact rfl
    | none =>
      refine follows_store ⟨rfl, params, rfl, hauth⟩ fun answer => ?_
      cases answer with
      | ok | error => exact follows_memory nofun fun _ => follows_memory nofun fun _ => rfl

theorem resolveDeferredAuth_follows
    (hauth : params.text "refresh_token" = some auth.refreshToken) :
    (resolveDeferredAuth auth).Follows (requestProtocol cfg .resolve)
      (fun q outcome => q = resolvedPhase params outcome) (.read params) := by
  have hread : Phase.read params ≠ .ended := nofun
  refine ((freshToken_follows hread _).mono fun q token hq => ?_).bind
  obtain rfl := hq
  cases token with
  | some token => exact follows_memory hread fun _ => rfl
  | none =>
    refine ((getFreshCachedToken_follows hread _).mono fun q token hq => ?_).bind
    obtain rfl := hq
    cases token with
    | some token => exact rfl
    | none =>
      refine follows_memory hread fun _ => ((refreshLocked_follows hauth).mono ?_).bind
      rintro _ outcome rfl
      refine follows_memory ?_ fun _ => rfl
      unfold resolvedPhase
      split <;> nofun

theorem refreshToken_of_describe (h : describeOauthRefreshAuth cfg params = some auth) :
    params.text "refresh_token" = some auth.refreshToken := by
  obtain ⟨token, hrefresh, h⟩ := Option.bind_eq_some_iff.mp h
  obtain ⟨_, -, h⟩ := Option.bind_eq_some_iff.mp h
  obtain ⟨_, -, h⟩ := Option.bind_eq_some_iff.mp h
  dsimp only at h
  split at h
  · cases h
  · cases h
    exact hrefresh

theorem resolveConnectionAuth_follows (params : Params) :
    (resolveConnectionAuth cfg params).Follows (requestProtocol cfg .resolve)
      (fun q _ => q.settled = true) (.read params) := by
  unfold resolveConnectionAuth
  cases hauth : describeOauthRefreshAuth cfg params with
  | none => exact rfl
  | some auth =>
    refine ((resolveDeferredAuth_follows (refreshToken_of_describe hauth)).mono ?_).bind
    rintro _ outcome rfl
    match outcome with
    | .error error =>
      dsimp only [maybeFlipNeedsReauth]
      split
      · exact follows_last ⟨rfl, params, rfl⟩ fun _ => rfl
      · exact rfl
    | .ok ⟨_, none⟩ => exact rfl
    | .ok ⟨_, some response⟩ =>
      exact follows_store ⟨rfl, params, response, rfl, rfl, rfl, rfl⟩ fun _ => rfl

theorem resolution_follows :
    (resolution cfg).Follows (requestProtocol cfg .resolve)
      (fun q _ => q.settled = true) .arrived :=
  follows_store (Or.inr ⟨rfl, nofun⟩) resolveConnectionAuth_follows

theorem handleCallback_follows (query : String → Option String) :
    (handleCallback cfg query).Follows (requestProtocol cfg (.callback query))
      (fun q _ => q.settled = true) .arrived := by
  refine follows_store (Or.inr ⟨rfl, nofun⟩) fun params => ?_
  split
  · exact rfl
  · refine follows_store ⟨⟨query, rfl⟩, params, rfl⟩ fun answer => ?_
    cases answer with
    | none => exact rfl
    | some response =>
      cases hentries : extraCallbackValues query cfg.descriptor.extraCallbackParams with
      | error error =>
        have hincomplete : ¬ Request.complete cfg (.callback query) = true := by
          dsimp only [Request.complete]
          rw [hentries]
          nofun
        exact (congrArg Phase.settled (if_neg hincomplete)).trans rfl
      | ok entries =>
        have hcomplete : Request.complete cfg (.callback query) = true := by
          dsimp only [Request.complete]
          rw [hentries]
          rfl
        refine follows_last ⟨params, response, query, entries, ?_, rfl, hentries, rfl⟩ fun _ => rfl
        exact if_pos hcomplete

theorem updateConnection_follows (version : ℕ) (patch : Option ConnectionParameterPatch) :
    (updateConnection cfg version patch).Follows (requestProtocol cfg (.edit version patch))
      (fun q _ => q.settled = true) .arrived := by
  refine follows_store rfl fun current => ?_
  split
  · rename_i hversion
    exact (congrArg Phase.settled (if_neg hversion)).trans rfl
  · rename_i hversion
    rw [not_not] at hversion
    have hchecked : Phase.after cfg (.edit version patch) .arrived .getConnection current =
        .checked :=
      if_pos hversion
    rw [hchecked]
    cases patch with
    | none => exact follows_store ⟨rfl, rfl⟩ fun _ => rfl
    | some patch =>
      refine follows_store (Or.inl rfl) fun params => ?_
      cases hedited : editedParams cfg.descriptor patch params with
      | error error => exact rfl
      | ok edited =>
        obtain ⟨parameters, reconnect⟩ := edited
        refine follows_store ⟨params, patch, reconnect, rfl, rfl, hedited⟩ fun written => ?_
        split
        · refine ⟨nofun, ?_⟩
          rintro _ _ rfl
          rfl
        · exact rfl

theorem program_follows (cfg : Settings) (request : Request) :
    (program cfg request).Follows (requestProtocol cfg request)
      (fun q _ => q.settled = true) .arrived := by
  cases request with
  | resolve => exact resolution_follows
  | callback query => exact handleCallback_follows query
  | edit version patch => exact updateConnection_follows version patch

end Follows

/-- The task keeps to the order of its request. -/
def Task.Obeys (cfg : Settings) (t : Task) : Prop :=
  t.prog.Follows (requestProtocol cfg t.tag.request) (fun q _ => q.settled = true) t.tag.phase

theorem Phase.not_may_ended : ¬ Phase.may cfg request .ended op := by
  intro h
  cases op with
  | getConnection => cases h
  | getWithParameters =>
    rcases h with h | ⟨h, -⟩
    · cases h
    · cases h
  | refresh token =>
    obtain ⟨-, _, h, -⟩ := h
    cases h
  | exchangeCode =>
    obtain ⟨-, _, h⟩ := h
    cases h
  | persistRefreshedOauth parameters expectedHash newHash =>
    obtain ⟨-, _, _, h, -⟩ := h
    cases h
  | updateParametersAndStatus parameters =>
    obtain ⟨_, _, _, _, h, -⟩ := h
    cases h
  | update parameters version =>
    cases parameters with
    | none =>
      obtain ⟨-, h⟩ := h
      cases h
    | some parameters =>
      obtain ⟨_, _, _, h, -⟩ := h
      cases h
  | updateStatus =>
    obtain ⟨-, _, h⟩ := h
    cases h

variable {t : Task}

theorem Task.Obeys.isDone (h : Task.Obeys cfg t) (hended : t.tag.phase = .ended) :
    t.prog.isDone = true := by
  unfold Task.Obeys at h
  rw [hended] at h
  cases hprog : t.prog with
  | done a => rfl
  | call op next =>
    rw [hprog] at h
    cases op with
    | memory op => exact absurd rfl h.1
    | store op => exact absurd h.1 Phase.not_may_ended

/-- A request that has returned leaves nothing to be written. -/
theorem Task.Obeys.settled (h : Task.Obeys cfg t) (hdone : t.prog.isDone = true) :
    t.tag.phase.settled = true := by
  unfold Task.Obeys at h
  cases hprog : t.prog with
  | done a =>
    rw [hprog] at h
    exact h
  | call op next =>
    rw [hprog] at hdone
    cases hdone

/-! ### What a call does to the store -/

/-- The outcomes of `StoreOp.run`, one by one. -/
inductive Runs (cfg : Settings) (request : Request) (s : Store) :
    (op : StoreOp) → op.Ret → Store → Prop
  | getConnection : Runs cfg request s .getConnection s.row.version s
  | getWithParameters : Runs cfg request s .getWithParameters s.row.params s
  | refreshed {token : String} {response : TokenResponse} {provider : Provider}
      (h : s.provider.refresh cfg token response = some provider) :
    Runs cfg request s (.refresh token) (.ok response) { s with provider, sent := token :: s.sent }
  | refreshFailed {token : String} {error : RefreshError} :
    Runs cfg request s (.refresh token) (.error error) { s with sent := token :: s.sent }
  | exchanged {response : GrantResponse} {provider : Provider}
      (h : s.provider.exchange cfg response = some provider) :
    Runs cfg request s .exchangeCode (some response) { s with provider }
  | exchangeFailed : Runs cfg request s .exchangeCode none s
  | persisted {parameters : Params} {expectedHash newHash : Option String}
      (h : s.row.refreshTokenHash = none ∨ s.row.refreshTokenHash = expectedHash) :
    Runs cfg request s (.persistRefreshedOauth parameters expectedHash newHash) true
      { s with row := ⟨parameters, newHash, s.row.version + 1⟩ }
  | notPersisted {parameters : Params} {expectedHash newHash : Option String}
      (h : ¬ (s.row.refreshTokenHash = none ∨ s.row.refreshTokenHash = expectedHash)) :
    Runs cfg request s (.persistRefreshedOauth parameters expectedHash newHash) false s
  | updatedParameters {parameters : Params} :
    Runs cfg request s (.updateParametersAndStatus parameters) () (s.write cfg request parameters)
  | updated {parameters : Params} {version : ℕ} (h : s.row.version = version) :
    Runs cfg request s (.update (some parameters) version) true (s.write cfg request parameters)
  | touched {version : ℕ} (h : s.row.version = version) :
    Runs cfg request s (.update none version) true s.touch
  | conflict {parameters : Option Params} {version : ℕ} (h : s.row.version ≠ version) :
    Runs cfg request s (.update parameters version) false s
  | updatedStatus : Runs cfg request s .updateStatus () s.touch

theorem runs_of_run {choice : Choice} {s s' : Store} {r : op.Ret}
    (h : op.run cfg request choice s = some (r, s')) : Runs cfg request s op r s' := by
  cases op with
  | getConnection =>
    cases h
    exact .getConnection
  | getWithParameters =>
    cases h
    exact .getWithParameters
  | refresh token =>
    cases choice with
    | answer response =>
      obtain ⟨provider, hprovider, hres⟩ := Option.map_eq_some_iff.mp h
      cases hres
      exact .refreshed hprovider
    | failed error =>
      cases h
      exact .refreshFailed
    | _ => cases h
  | exchangeCode =>
    cases choice with
    | granted response =>
      obtain ⟨provider, hprovider, hres⟩ := Option.map_eq_some_iff.mp h
      cases hres
      exact .exchanged hprovider
    | _ =>
      cases h
      exact .exchangeFailed
  | persistRefreshedOauth parameters expectedHash newHash =>
    dsimp only [StoreOp.run] at h
    split at h
    · rename_i hguard
      cases h
      exact .persisted hguard
    · rename_i hguard
      cases h
      exact .notPersisted hguard
  | updateParametersAndStatus parameters =>
    cases h
    exact .updatedParameters
  | update parameters version =>
    dsimp only [StoreOp.run] at h
    split at h
    · rename_i hversion
      cases parameters with
      | none =>
        cases h
        exact .touched hversion
      | some parameters =>
        cases h
        exact .updated hversion
    · rename_i hversion
      cases h
      exact .conflict hversion
  | updateStatus =>
    cases h
    exact .updatedStatus

/-! ### Moves -/

/-- What a move can be. -/
inductive Change (m : Move cfg) : Prop
  /-- a request looks at the memory -/
  | memory (i : ℕ) (tag : Tag) (op : MemoryOp) (next : op.Ret → Calls Unit) (r : op.Ret)
      (hcaller : m.caller = some (tag, .memory op))
      (htask : m.before.tasks[i]? = some ⟨tag, .call (.memory op) next⟩)
      (hstore : m.after.world.store = m.before.world.store)
      (htasks : m.after.tasks = m.before.tasks.set i ⟨tag, next r⟩)
  /-- a request asks the store -/
  | store (i : ℕ) (tag : Tag) (op : StoreOp) (next : op.Ret → Calls Unit) (r : op.Ret)
      (choice : Choice) (hinput : m.input = .task i choice)
      (hcaller : m.caller = some (tag, .store op))
      (htask : m.before.tasks[i]? = some ⟨tag, .call (.store op) next⟩)
      (hrun : op.run cfg tag.request choice m.before.world.store = some (r, m.after.world.store))
      (htasks : m.after.tasks =
        m.before.tasks.set i ⟨tag.after cfg op r m.before.world.store, next r⟩)
  /-- a request arrives -/
  | arrive (request : Request) (hinput : m.input = .outside (.arrive request))
      (hcaller : m.caller = none)
      (hstore : m.after.world.store = m.before.world.store)
      (htasks : m.after.tasks = m.before.tasks ++ [⟨{ request }, program cfg request⟩])
  /-- the process starts again -/
  | restart (hinput : m.input = .outside .restart) (hcaller : m.caller = none)
      (hstore : m.after.world.store = m.before.world.store) (htasks : m.after.tasks = [])

theorem Move.change {m : Move cfg} (hm : m.Valid) : Change m := by
  obtain ⟨before, input, after⟩ := m
  cases input with
  | task i choice =>
    have hstep : Tasks.System.step before (.task i choice) = some after := hm
    dsimp only [Tasks.System.step] at hstep
    split at hstep
    case h_1 tag op next htask =>
      have hcaller : Tasks.System.Move.caller ⟨before, .task i choice, after⟩ = some (tag, op) := by
        dsimp only [Tasks.System.Move.caller]
        rw [htask]
      cases op with
      | memory op =>
        split at hstep
        case h_1 r tag' w started hexec =>
          obtain ⟨⟨r', memory⟩, -, hres⟩ := Option.map_eq_some_iff.mp hexec
          cases hres
          cases hstep
          exact .memory i tag op next r' hcaller htask rfl (append_nil _)
        case h_2 => cases hstep
      | store op =>
        split at hstep
        case h_1 r tag' w started hexec =>
          obtain ⟨⟨r', s⟩, hrun, hres⟩ := Option.map_eq_some_iff.mp hexec
          cases hres
          cases hstep
          exact .store i tag op next r' choice rfl hcaller htask hrun (append_nil _)
        case h_2 => cases hstep
    case h_2 => cases hstep
  | outside o =>
    cases o with
    | arrive request =>
      have hafter : _ = after := Option.some.inj hm
      exact .arrive request rfl rfl (hafter ▸ rfl) (hafter ▸ rfl)
    | restart =>
      have hafter : _ = after := Option.some.inj hm
      exact .restart rfl rfl (hafter ▸ rfl) (hafter ▸ rfl)

/-- Every task keeps to the order of its request. -/
def Orderly (c : Config cfg) : Prop := ∀ t ∈ c.tasks, Task.Obeys cfg t

theorem initial_orderly (row : Row) : Orderly (initial cfg row) :=
  fun _ ht => absurd ht not_mem_nil

/-- The rest of a program keeps to the order after a call of the store. -/
theorem Task.Obeys.store {tag : Tag} {next : op.Ret → Calls Unit}
    (h : Task.Obeys cfg ⟨tag, .call (.store op) next⟩) (r : op.Ret) (s : Store) :
    Task.Obeys cfg ⟨tag.after cfg op r s, next r⟩ := h.2 r _ rfl

theorem Move.orderly {m : Move cfg} (hm : m.Valid) (h : Orderly m.before) : Orderly m.after := by
  unfold Orderly
  cases Move.change hm with
  | memory i tag op next r hcaller htask hstore htasks =>
    rw [htasks]
    exact forall_mem_set h ((h _ (mem_of_getElem? htask)).2 r _ rfl)
  | store i tag op next r choice hinput hcaller htask hrun htasks =>
    rw [htasks]
    exact forall_mem_set h ((h _ (mem_of_getElem? htask)).store r _)
  | arrive request hinput hcaller hstore htasks =>
    rw [htasks]
    exact forall_mem_concat h (program_follows cfg request)
  | restart hinput hcaller hstore htasks =>
    rw [htasks]
    exact fun t ht => absurd ht not_mem_nil

/-! ### The provider -/

namespace Provider

variable {p p' : Provider} {token : String} {tokens : List String} {grant g : ℕ}

theorem grantOf_issue (h : p.issue tokens g = some p') (hgrant : p.grantOf token = some grant) :
    p'.grantOf token = some grant := by
  unfold issue at h
  split at h
  · rename_i hfresh
    cases h
    have hnot : ∀ t ∈ tokens, token ≠ t := by
      rintro t ht rfl
      have hnone := all_eq_true.mp hfresh token ht
      rw [hgrant] at hnone
      cases hnone
    clear hfresh
    unfold grantOf
    dsimp only
    induction tokens with
    | nil => exact hgrant
    | cons t tokens ih =>
      rw [map_cons, cons_append, lookup_cons,
        beq_eq_false_iff_ne.mpr (hnot t mem_cons_self)]
      exact ih fun t ht => hnot t (mem_cons_of_mem _ ht)
  · cases h

theorem grantOf_issue_new (h : p.issue tokens g = some p') (htoken : token ∈ tokens) :
    p.grantOf token = none ∧ p'.grantOf token = some g := by
  unfold issue at h
  split at h
  · rename_i hfresh
    cases h
    refine ⟨Option.isNone_iff_eq_none.mp (all_eq_true.mp hfresh token htoken), ?_⟩
    clear hfresh
    unfold grantOf
    dsimp only
    induction tokens with
    | nil => cases htoken
    | cons t tokens ih =>
      rw [map_cons, cons_append, lookup_cons]
      split
      · rfl
      · rename_i hne
        refine ih ((mem_cons.mp htoken).resolve_left fun heq => ?_)
        rw [heq, beq_self_eq_true] at hne
        cases hne
  · cases h

theorem issue_keeps (h : p.issue tokens g = some p') :
    p'.grants = p.grants ∧ p'.valid = p.valid := by
  unfold issue at h
  split at h
  · cases h
    exact ⟨rfl, rfl⟩
  · cases h

/-- A refresh that is answered. -/
structure Refreshed (cfg : Settings) (p : Provider) (token : String) (response : TokenResponse)
    (p' : Provider) : Prop where
  same : ∃ g, p.grantOf token = some g ∧
    ∀ t ∈ response.accessToken :: response.refreshToken.toList,
      p.grantOf t = none ∧ p'.grantOf t = some g
  keeps : ∀ t g, p.grantOf t = some g → p'.grantOf t = some g
  grants : p'.grants = p.grants
  valid : p'.valid = response.refreshToken.or p.valid
  oneTime : cfg.oneTime = true → p.valid = some token
  rotates : cfg.rotates = true → response.refreshToken.isSome = true

theorem refreshed_of_refresh {response : TokenResponse}
    (h : p.refresh cfg token response = some p') : Refreshed cfg p token response p' := by
  unfold refresh at h
  split at h
  · cases h
  rename_i g hg
  split at h
  · cases h
  rename_i hok
  rw [Bool.or_eq_true, not_or] at hok
  obtain ⟨q, hissue, hq⟩ := Option.map_eq_some_iff.mp h
  cases hq
  obtain ⟨hgrants, hvalid⟩ := issue_keeps hissue
  have hkeeps : ∀ t g, p.grantOf t = some g → q.grantOf t = some g :=
    fun t g ht => grantOf_issue hissue ht
  have hnew : ∀ t ∈ response.accessToken :: response.refreshToken.toList,
      p.grantOf t = none ∧ q.grantOf t = some g := fun t ht => grantOf_issue_new hissue ht
  refine ⟨⟨g, hg, hnew⟩, hkeeps, hgrants, by rw [hvalid], fun hone => ?_, fun hrot => ?_⟩
  · by_contra hne
    exact hok.1 (by rw [hone, Bool.true_and]; exact decide_eq_true hne)
  · cases hnone : response.refreshToken with
    | some _ => rfl
    | none =>
      rw [hrot, hnone] at hok
      exact absurd rfl hok.2

/-- A code that is exchanged. -/
structure Exchanged (cfg : Settings) (p : Provider) (response : GrantResponse) (p' : Provider) :
    Prop where
  fresh : ∀ t ∈ response.tokens, p.grantOf t = none ∧ p'.grantOf t = some p.grants
  keeps : ∀ t g, p.grantOf t = some g → p'.grantOf t = some g
  grants : p'.grants = p.grants + 1
  valid : p'.valid = (response.refreshToken.bind Param.asStr).or p.valid
  rotated : cfg.rotates = true → ∃ token, response.refreshToken.bind Param.asStr = some token

theorem exchanged_of_exchange {response : GrantResponse} (h : p.exchange cfg response = some p') :
    Exchanged cfg p response p' := by
  unfold exchange at h
  dsimp only at h
  split at h
  · cases h
  rename_i hrotates
  obtain ⟨q, hissue, hq⟩ := Option.map_eq_some_iff.mp h
  cases hq
  have hkeeps : ∀ t g, p.grantOf t = some g → q.grantOf t = some g :=
    fun t g ht => grantOf_issue hissue ht
  have hnew : ∀ t ∈ response.tokens, p.grantOf t = none ∧ q.grantOf t = some p.grants :=
    fun t ht => grantOf_issue_new hissue ht
  refine ⟨hnew, hkeeps, rfl, rfl, fun hrot => Option.isSome_iff_exists.mp ?_⟩
  rw [hrot, Bool.true_and, Bool.not_eq_true, Option.isNone_eq_false_iff] at hrotates
  exact hrotates

end Provider

end Runtara.Connection
