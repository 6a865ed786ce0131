/-
  The parameters of a connection.

  What the service computes of them without touching the database: the parameters that an edit, an
  OAuth callback and a token refresh write, and the token request that is described by the stored
  ones. The parameters are one JSON object; of its values only texts are looked at.

  The descriptor of a connection type declares the fields that can be edited. None of them is a
  token, and neither is anything that a callback captures besides.
-/
import Mathlib.Logic.Function.Basic
import Runtara.Reference.Schema

namespace Runtara.Connection

open List

/-- The value of a parameter: a text, or any other JSON value. -/
inductive Param where
  | text (s : String)
  | other (n : ℕ)
deriving DecidableEq, Repr

/-- `connection_parameters`. -/
abbrev Params := String → Option Param

/-- What the OAuth flow stores among the parameters. -/
def tokenKeys : List String :=
  ["access_token", "refresh_token", "token_expires_at", "authorized_at"]

def Param.asStr : Param → Option String
  | .text s => some s
  | .other _ => none

namespace Params

variable (params : Params)

def text (key : String) : Option String :=
  match params key with
  | some (.text s) => some s
  | _ => none

def set (key : String) (value : Param) : Params := Function.update params key (some value)

/-- The insertion of a value that may be missing. -/
def setIfSome (key : String) : Option Param → Params
  | some value => params.set key value
  | none => params

def remove (key : String) : Params := Function.update params key none

def setAll (entries : List (String × Param)) : Params :=
  entries.foldl (fun p e => p.set e.1 e.2) params

/-- The grant is removed. -/
def clearTokens : Params :=
  (((params.remove "access_token").remove "refresh_token").remove "token_expires_at").remove
    "authorized_at"

def tokens : List String :=
  (params.text "access_token").toList ++ (params.text "refresh_token").toList

end Params

/-! ### Descriptors -/

inductive FieldAccessMode where
  | readWrite
  | read
  | write
deriving DecidableEq, Repr

/-- A field of a connection type. -/
structure Field where
  name : String
  isSecret : Bool := false
  access : FieldAccessMode := .readWrite
  clearable : Bool := false
  requiresReauthorization : Bool := false
deriving DecidableEq, Repr

structure ExtraCallbackParam where
  paramName : String
  queryName : String
  required : Bool
deriving DecidableEq, Repr

/-- A connection type with an OAuth flow. -/
structure Descriptor where
  fields : List Field
  extraCallbackParams : List ExtraCallbackParam
  /-- the token endpoint of `resolve_effective_oauth_config` -/
  tokenUrl : Params → String
  /-- what `analyze_form` and `validate_connection_parameters` find wrong -/
  issues : Params → Option String
  fields_plain : ∀ f ∈ fields, f.name ∉ tokenKeys
  extra_plain : ∀ e ∈ extraCallbackParams, e.paramName ∉ tokenKeys

/-- What a connection is run with. The provider accepts only the refresh token that is valid if its
tokens are for one use, and answers a refresh with a new one if it rotates them. -/
structure Settings where
  descriptor : Descriptor
  refreshTokenHash : String → String
  toRfc3339 : ℕ → String
  parseRfc3339 : String → Option ℕ
  oneTime : Bool
  rotates : Bool

/-! ### Edits -/

/-- What a patch does with one field. -/
inductive PatchOp where
  | set (value : Param)
  | write (value : Param)
  | clear
deriving DecidableEq, Repr

structure ConnectionParameterPatch where
  set : List (String × Param) := []
  write : List (String × Param) := []
  clear : List String := []
deriving DecidableEq, Repr

/-- The operations in the order in which they are applied. -/
def ConnectionParameterPatch.ops (patch : ConnectionParameterPatch) : List (String × PatchOp) :=
  patch.set.map (fun e => (e.1, .set e.2)) ++ patch.write.map (fun e => (e.1, .write e.2)) ++
    patch.clear.map fun name => (name, .clear)

/-- `value.as_str().is_none_or(|value| value.trim().is_empty())`. -/
def Param.isBlank : Param → Bool
  | .text s => s.toList.all isWhiteSpace
  | .other _ => true

namespace PatchOp

/-- Why the operation is refused for the field. -/
def refusal (field : Field) (name : String) : PatchOp → Option String
  | .set _ =>
    if field.isSecret || field.access ≠ .readWrite then
      some s!"Connection field '{name}' cannot be set"
    else none
  | .write value =>
    if field.access ≠ .write then some s!"Connection field '{name}' is not write-only"
    else if field.isSecret && value.isBlank then
      some s!"Replacement secret '{name}' must be a non-blank string"
    else none
  | .clear =>
    let canClear :=
      if field.isSecret then field.access = .write && field.clearable
      else field.access = .readWrite
    if canClear then none else some s!"Connection field '{name}' cannot be cleared"

def apply (params : Params) (name : String) : PatchOp → Params
  | .set value => params.set name value
  | .write value => params.set name value
  | .clear => params.remove name

end PatchOp

/-- The loops of `apply_connection_parameter_patch_to_meta`. -/
def applyOps (d : Descriptor) :
    List (String × PatchOp) → List String → Params → Except String Params
  | [], _, params => .ok params
  | (name, op) :: ops, touched, params =>
    match d.fields.find? fun f => f.name = name with
    | none => .error s!"Unknown connection field '{name}'"
    | some field =>
      if name ∈ touched then
        .error s!"Connection field '{name}' appears in multiple patch operations"
      else
        match op.refusal field name with
        | some error => .error error
        | none => applyOps d ops (name :: touched) (op.apply params name)

/-- `apply_connection_parameter_patch`, with the validation that follows it. -/
def applyConnectionParameterPatch (d : Descriptor) (existing : Params)
    (patch : ConnectionParameterPatch) : Except String Params :=
  match applyOps d patch.ops [] existing with
  | .error error => .error error
  | .ok merged =>
    match d.issues merged with
    | some issue => .error issue
    | none => .ok merged

/-- A field that the grant depends on has changed. -/
def authorizationChangeRequiresReconnect (d : Descriptor) (patch : ConnectionParameterPatch)
    (oldParams merged : Params) : Bool :=
  d.fields.any fun f =>
    (patch.ops.any fun e => e.1 = f.name) && f.requiresReauthorization &&
      oldParams f.name ≠ merged f.name

/-- The parameters that an edit writes, and whether it removes the grant. -/
def editedParams (d : Descriptor) (patch : ConnectionParameterPatch) (oldParams : Params) :
    Except String (Params × Bool) :=
  match applyConnectionParameterPatch d oldParams patch with
  | .error error => .error error
  | .ok merged =>
    if authorizationChangeRequiresReconnect d patch oldParams merged then
      .ok (merged.clearTokens, true)
    else .ok (merged, false)

/-! ### Callbacks -/

/-- The answer to a code exchange, with the times it is stamped with. The two tokens may be missing,
and may be any JSON values. -/
structure GrantResponse where
  accessToken : Option Param
  refreshToken : Option Param
  expiresAt : Option ℕ
  authorizedAt : ℕ
deriving DecidableEq, Repr

def GrantResponse.tokens (response : GrantResponse) : List String :=
  (response.accessToken.bind Param.asStr).toList ++ (response.refreshToken.bind Param.asStr).toList

/-- `merge_extra_callback_params`: what is captured of the query. -/
def extraCallbackValues (query : String → Option String) :
    List ExtraCallbackParam → Except String (List (String × Param))
  | [] => .ok []
  | e :: es =>
    match query e.queryName with
    | some value =>
      match extraCallbackValues query es with
      | .ok entries => .ok ((e.paramName, .text value) :: entries)
      | .error error => .error error
    | none => if e.required then .error e.queryName else extraCallbackValues query es

/-- The grant among the parameters. A token that the answer lacks is left as it was. -/
def storeGrant (cfg : Settings) (params : Params) (response : GrantResponse) : Params :=
  ((((params.setIfSome "access_token" response.accessToken).setIfSome
    "refresh_token" response.refreshToken).setIfSome
      "token_expires_at" (response.expiresAt.map fun t => .text (cfg.toRfc3339 t))).set
        "authorized_at" (.text (cfg.toRfc3339 response.authorizedAt)))

/-! ### Refreshes -/

/-- `TokenResponse`, of a refresh. -/
structure TokenResponse where
  accessToken : String
  refreshToken : Option String
  expiresAt : Option ℕ
deriving DecidableEq, Repr

/-- The refresh token after a refresh: a provider may leave it out. -/
def newRefreshToken (params : Params) (rotated : TokenResponse) : Option String :=
  rotated.refreshToken.or (params.text "refresh_token")

/-- The merged parameters of `persist_rotated_credentials`. -/
def mergeRotated (cfg : Settings) (params : Params) (rotated : TokenResponse) : Params :=
  ((params.set "access_token" (.text rotated.accessToken)).setIfSome
    "refresh_token" ((newRefreshToken params rotated).map .text)).setIfSome
      "token_expires_at" (rotated.expiresAt.map fun t => .text (cfg.toRfc3339 t))

/-- `DeferredAuth::OAuth2RefreshToken`, of one connection: the token endpoint tells its cache keys
apart. -/
structure DeferredAuth where
  cacheKey : String
  refreshToken : String
  fallbackAccessToken : Option String
  fallbackExpiresAt : Option ℕ
deriving DecidableEq, Repr

def describeOauthRefreshAuth (cfg : Settings) (params : Params) : Option DeferredAuth := do
  let refreshToken ← params.text "refresh_token"
  let _ ← params.text "client_id"
  let _ ← params.text "client_secret"
  let tokenUrl := cfg.descriptor.tokenUrl params
  if tokenUrl.isEmpty then none
  else
    some
      { cacheKey := tokenUrl
        refreshToken
        fallbackAccessToken := params.text "access_token"
        fallbackExpiresAt := (params.text "token_expires_at").bind cfg.parseRfc3339 }

/-! ### What is read back -/

variable {entries : List (String × Param)}

namespace Params

variable {params : Params} {key key' : String} {value : Param}

@[simp] theorem set_self : params.set key value key = some value := Function.update_self ..

theorem set_of_ne (h : key' ≠ key) : params.set key value key' = params key' :=
  Function.update_of_ne h ..

theorem setIfSome_of_ne {value : Option Param} (h : key' ≠ key) :
    params.setIfSome key value key' = params key' := by
  cases value with
  | none => rfl
  | some value => exact set_of_ne h

@[simp] theorem remove_self : params.remove key key = none := Function.update_self ..

theorem remove_of_ne (h : key' ≠ key) : params.remove key key' = params key' :=
  Function.update_of_ne h ..

theorem text_congr {params' : Params} (h : params key = params' key) :
    params.text key = params'.text key := by
  unfold text
  rw [h]

theorem text_setIfSome {value : Option Param} : (params.setIfSome key value).text key =
    match value with
    | some value => value.asStr
    | none => params.text key := by
  cases value with
  | none => rfl
  | some value =>
    have hset : params.setIfSome key (some value) key = some value := set_self
    unfold text
    rw [hset]
    cases value <;> rfl

theorem text_of_eq {s : String} (h : params key = some (.text s)) : params.text key = some s := by
  unfold text
  rw [h]

theorem setAll_of_not_mem (h : ∀ e ∈ entries, e.1 ≠ key) :
    params.setAll entries key = params key := by
  unfold setAll
  induction entries generalizing params with
  | nil => rfl
  | cons e entries ih =>
    rw [foldl_cons, ih fun e he => h e (mem_cons_of_mem _ he),
      set_of_ne (h e mem_cons_self).symm]

/-- What entries set depends on the object only where they set nothing. -/
theorem setAll_congr {params' : Params} (h : params key = params' key) :
    params.setAll entries key = params'.setAll entries key := by
  unfold setAll
  induction entries generalizing params params' with
  | nil => exact h
  | cons e entries ih =>
    refine ih ?_
    dsimp only
    by_cases hkey : key = e.1
    · rw [hkey, set_self, set_self]
    · rw [set_of_ne hkey, set_of_ne hkey, h]

theorem clearTokens_of_plain (h : key ∉ tokenKeys) : params.clearTokens key = params key := by
  simp only [tokenKeys, mem_cons, not_mem_nil, or_false, not_or] at h
  obtain ⟨haccess, hrefresh, hexpires, hauthorized⟩ := h
  unfold clearTokens
  rw [remove_of_ne hauthorized, remove_of_ne hexpires, remove_of_ne hrefresh, remove_of_ne haccess]

theorem clearTokens_refreshToken : params.clearTokens.text "refresh_token" = none := by
  have h : params.clearTokens "refresh_token" = none := by
    unfold clearTokens
    rw [remove_of_ne (by decide), remove_of_ne (by decide), remove_self]
  unfold text
  rw [h]

theorem tokens_clearTokens : params.clearTokens.tokens = [] := by
  have h : params.clearTokens "access_token" = none := by
    unfold clearTokens
    rw [remove_of_ne (by decide), remove_of_ne (by decide), remove_of_ne (by decide), remove_self]
  unfold tokens
  rw [clearTokens_refreshToken, text, h]
  rfl

end Params

variable (response : GrantResponse) (rotated : TokenResponse)

section Merged

variable {cfg : Settings} {params : Params} {key : String}

theorem mergeRotated_of_plain (h : key ∉ tokenKeys) :
    mergeRotated cfg params rotated key = params key := by
  simp only [tokenKeys, mem_cons, not_mem_nil, or_false, not_or] at h
  obtain ⟨haccess, hrefresh, hexpires, -⟩ := h
  unfold mergeRotated
  rw [Params.setIfSome_of_ne hexpires, Params.setIfSome_of_ne hrefresh, Params.set_of_ne haccess]

theorem mergeRotated_accessToken :
    (mergeRotated cfg params rotated).text "access_token" = some rotated.accessToken := by
  apply Params.text_of_eq
  unfold mergeRotated
  rw [Params.setIfSome_of_ne (by decide), Params.setIfSome_of_ne (by decide), Params.set_self]

theorem mergeRotated_refreshToken :
    (mergeRotated cfg params rotated).text "refresh_token" = newRefreshToken params rotated := by
  unfold mergeRotated
  rw [Params.text_congr (Params.setIfSome_of_ne (by decide))]
  cases htoken : newRefreshToken params rotated with
  | some token => exact Params.text_of_eq Params.set_self
  | none =>
    have hnone : params.text "refresh_token" = none := (Option.or_eq_none_iff.mp htoken).2
    exact (Params.text_congr (Params.set_of_ne (by decide))).trans hnone

theorem storeGrant_of_plain (h : key ∉ tokenKeys) :
    storeGrant cfg params response key = params key := by
  simp only [tokenKeys, mem_cons, not_mem_nil, or_false, not_or] at h
  obtain ⟨haccess, hrefresh, hexpires, hauthorized⟩ := h
  unfold storeGrant
  rw [Params.set_of_ne hauthorized, Params.setIfSome_of_ne hexpires,
    Params.setIfSome_of_ne hrefresh, Params.setIfSome_of_ne haccess]

theorem storeGrant_accessToken : (storeGrant cfg params response).text "access_token" =
    match response.accessToken with
    | some value => value.asStr
    | none => params.text "access_token" := by
  refine (Params.text_congr ?_).trans Params.text_setIfSome
  unfold storeGrant
  rw [Params.set_of_ne (by decide), Params.setIfSome_of_ne (by decide),
    Params.setIfSome_of_ne (by decide)]

theorem storeGrant_refreshToken : (storeGrant cfg params response).text "refresh_token" =
    match response.refreshToken with
    | some value => value.asStr
    | none => params.text "refresh_token" := by
  have hkept : storeGrant cfg params response "refresh_token" = (params.setIfSome "access_token"
      response.accessToken).setIfSome "refresh_token" response.refreshToken "refresh_token" := by
    unfold storeGrant
    rw [Params.set_of_ne (by decide), Params.setIfSome_of_ne (by decide)]
  refine (Params.text_congr hkept).trans (Params.text_setIfSome.trans ?_)
  rw [Params.text_congr (Params.setIfSome_of_ne (by decide))]

theorem extraCallbackValues_plain {query : String → Option String} {es : List ExtraCallbackParam}
    (hes : ∀ e ∈ es, e.paramName ∉ tokenKeys) (h : extraCallbackValues query es = .ok entries) :
    ∀ e ∈ entries, e.1 ∉ tokenKeys := by
  induction es generalizing entries with
  | nil =>
    cases h
    intro e he
    cases he
  | cons e es ih =>
    have hrest : ∀ e ∈ es, e.paramName ∉ tokenKeys := fun e he => hes e (mem_cons_of_mem _ he)
    unfold extraCallbackValues at h
    split at h
    · split at h
      case h_1 entries' hentries =>
        cases h
        intro e' he'
        rcases mem_cons.mp he' with rfl | he'
        · exact hes e mem_cons_self
        · exact ih hrest hentries e' he'
      case h_2 => cases h
    · split at h
      · cases h
      · exact ih hrest h

end Merged

section Edited

variable {d : Descriptor} {params params' merged : Params} {patch : ConnectionParameterPatch}
  {key : String}

/-- What an edit gives to the parameters. -/
def PatchOp.applyAll (ops : List (String × PatchOp)) (params : Params) : Params :=
  ops.foldl (fun p e => e.2.apply p e.1) params

theorem PatchOp.apply_of_ne {name : String} (op : PatchOp) (h : key ≠ name) :
    op.apply params name key = params key := by
  cases op with
  | set | write => exact Params.set_of_ne h
  | clear => exact Params.remove_of_ne h

theorem PatchOp.apply_self {name : String} (op : PatchOp) :
    op.apply params name name = op.apply params' name name := by
  cases op with
  | set | write => exact Params.set_self.trans Params.set_self.symm
  | clear => exact Params.remove_self.trans Params.remove_self.symm

variable {ops : List (String × PatchOp)}

theorem PatchOp.applyAll_congr (h : params key = params' key) :
    applyAll ops params key = applyAll ops params' key := by
  unfold applyAll
  induction ops generalizing params params' with
  | nil => exact h
  | cons e ops ih =>
    refine ih ?_
    dsimp only
    by_cases hkey : key = e.1
    · subst hkey
      exact e.2.apply_self
    · rw [e.2.apply_of_ne hkey, e.2.apply_of_ne hkey, h]

/-- A patch that is accepted does what its operations do, to declared fields only. -/
theorem applyOps_eq_ok {touched : List String} (h : applyOps d ops touched params = .ok merged) :
    merged = PatchOp.applyAll ops params ∧ ∀ e ∈ ops, e.1 ∉ tokenKeys := by
  induction ops generalizing touched params with
  | nil =>
    cases h
    refine ⟨rfl, fun e he => ?_⟩
    cases he
  | cons e ops ih =>
    obtain ⟨name, op⟩ := e
    unfold applyOps at h
    split at h
    · cases h
    rename_i field hfield
    split at h
    · cases h
    split at h
    · cases h
    obtain ⟨hmerged, hrest⟩ := ih h
    refine ⟨hmerged, fun e he => ?_⟩
    rcases mem_cons.mp he with rfl | he
    · have hname := find?_some hfield
      rw [decide_eq_true_eq] at hname
      exact hname ▸ d.fields_plain field (mem_of_find?_eq_some hfield)
    · exact hrest e he

theorem PatchOp.applyAll_of_not_mem (h : ∀ e ∈ ops, e.1 ≠ key) :
    applyAll ops params key = params key := by
  unfold applyAll
  induction ops generalizing params with
  | nil => rfl
  | cons e ops ih =>
    rw [foldl_cons, ih fun e he => h e (mem_cons_of_mem _ he),
      e.2.apply_of_ne (h e mem_cons_self).symm]

/-- **An edit sets the fields of its patch and nothing else, except that it may remove the
grant.** -/
theorem editedParams_eq_ok {reconnect : Bool}
    (h : editedParams d patch params = .ok (merged, reconnect)) :
    (∀ key, key ∉ tokenKeys → merged key = PatchOp.applyAll patch.ops params key) ∧
      ((∀ key ∈ tokenKeys, merged key = params key) ∨ ∃ p : Params, merged = p.clearTokens) := by
  unfold editedParams at h
  split at h
  · cases h
  rename_i applied happlied
  unfold applyConnectionParameterPatch at happlied
  split at happlied
  · cases happlied
  rename_i result hresult
  split at happlied
  · cases happlied
  cases happlied
  obtain ⟨happly, hplain⟩ := applyOps_eq_ok hresult
  split at h
  · cases h
    refine ⟨fun key hkey => ?_, Or.inr ⟨applied, rfl⟩⟩
    rw [Params.clearTokens_of_plain hkey, happly]
  · cases h
    refine ⟨fun key _ => by rw [happly], Or.inl fun key hkey => ?_⟩
    rw [happly]
    refine PatchOp.applyAll_of_not_mem fun e he hname => ?_
    exact hplain e he (hname ▸ hkey)

end Edited

end Runtara.Connection
