/-
  When a write undoes no other.

  Resolutions, callbacks and edits read all parameters, change some and write all of them back. An
  edit is written only at the version it was made for; a request that has read the row at the
  version it still has has its parameters (`Tag.Holds`). So if a rotated token and a callback's
  grant are written at the version of the row they were read with, as edits are, and the grant takes
  the place of all stored tokens or of none, then no write undoes another (`writes_kept`). The guard
  of a rotation is the hash of the refresh token, which edits do not change, so a rotation may take
  an edit back (`rotation_undoes_edit`) or store a grant again that an edit has removed
  (`rotation_restores_grant`); a callback has no guard.
-/
import Runtara.Connection.Equiv.Step

namespace Runtara.Connection

open List

open Tasks (Prog forall_mem_concat forall_mem_set)

variable {cfg : Settings}

/-- Every parameter but those of the grant has the value that edits and callbacks have given to it,
and no token of a grant that was removed or replaced is stored. -/
structure Store.Intact (s : Store) : Prop where
  others : ∀ key, key ∉ tokenKeys → s.row.params key = s.given key
  tokens : ∀ token ∈ s.row.params.tokens, ∀ grant,
    s.provider.grantOf token = some grant → grant ∉ s.dead

/-- All stored tokens are kept, or none is. -/
def Params.keepsAllOrNone (params written : Params) : Bool :=
  params.tokens.all (· ∈ written.tokens) || params.tokens.all (· ∉ written.tokens)

/-- A rotated token and a callback's grant are written at the version they were read with, and the
grant does not leave one of two stored tokens in place. -/
def Move.upToDate (m : Move cfg) : Bool :=
  match m.caller with
  | some (tag, .store (.persistRefreshedOauth _ expectedHash _)) =>
    (m.before.world.store.row.refreshTokenHash ≠ none &&
        m.before.world.store.row.refreshTokenHash ≠ expectedHash) ||
      tag.version = m.before.world.store.row.version
  | some (tag, .store (.updateParametersAndStatus parameters)) =>
    tag.version = m.before.world.store.row.version &&
      m.before.world.store.row.params.keepsAllOrNone parameters
  | _ => true

variable {params : Params} {token : String}

theorem Params.mem_tokens : token ∈ params.tokens ↔
    params.text "access_token" = some token ∨ params.text "refresh_token" = some token := by
  unfold tokens
  rw [mem_append, Option.mem_toList, Option.mem_toList]

theorem Params.tokens_congr {params' : Params} (h : ∀ key ∈ tokenKeys, params key = params' key) :
    params.tokens = params'.tokens := by
  unfold tokens
  rw [text_congr (h "access_token" (by decide)), text_congr (h "refresh_token" (by decide))]

/-! ### What is kept -/

/-- The tokens of the row are of a grant that goes on. -/
def Store.Live (s : Store) : Prop :=
  ∀ token ∈ s.row.params.tokens, ∃ grant, s.provider.grantOf token = some grant ∧
    grant < s.provider.grants ∧ grant ∉ s.dead

/-- The tokens are of one grant, which has never been stored. -/
def Store.New (s : Store) (tokens : List String) : Prop :=
  ∃ grant, (∀ token ∈ tokens, s.provider.grantOf token = some grant) ∧
    grant < s.provider.grants ∧ grant ∉ s.dead ∧
    ∀ token ∈ s.row.params.tokens, s.provider.grantOf token ≠ some grant

/-- What a request has read is the row's, as long as the row has the version it was read with. -/
structure Tag.Read (s : Store) (tag : Tag) (params : Params) : Prop where
  le : tag.version ≤ s.row.version
  params : tag.version = s.row.version → params = s.row.params
  edit : ∀ version patch, tag.request = .edit version patch → version ≤ tag.version

def Tag.Holds (s : Store) (tag : Tag) : Prop :=
  match tag.phase with
  | .checked => ∀ version patch, tag.request = .edit version patch → version ≤ s.row.version
  | .read params => tag.Read s params
  | .rotated params response => tag.Read s params ∧ ∃ token grant,
      params.text "refresh_token" = some token ∧ s.provider.grantOf token = some grant ∧
      ∀ t ∈ response.accessToken :: response.refreshToken.toList, s.provider.grantOf t = some grant
  | .granted params response => tag.Read s params ∧
      (tag.version = s.row.version → s.New response.tokens)
  | _ => True

/-- No write has been undone. -/
structure Fresh (c : Config cfg) : Prop where
  orderly : Orderly c
  others : ∀ key, key ∉ tokenKeys → c.world.store.row.params key = c.world.store.given key
  live : c.world.store.Live
  dead : ∀ grant ∈ c.world.store.dead, grant < c.world.store.provider.grants
  holds : ∀ t ∈ c.tasks, t.tag.Holds c.world.store

section Stable

variable {s s' : Store} {tag : Tag}

theorem Tag.Read.of_row (h : tag.Read s params) (hrow : s'.row = s.row) : tag.Read s' params := by
  refine ⟨?_, ?_, h.edit⟩
  · rw [hrow]
    exact h.le
  · rw [hrow]
    exact h.params

theorem Tag.Read.of_write (h : tag.Read s params) (hversion : s.row.version < s'.row.version) :
    tag.Read s' params :=
  ⟨h.le.trans hversion.le, fun heq => absurd (heq ▸ h.le) (by omega), h.edit⟩

/-- A request to the provider takes nothing away from the others. -/
theorem Tag.Holds.of_provider (h : tag.Holds s) (hlive : s.Live) (hrow : s'.row = s.row)
    (hdead : s'.dead = s.dead) (hgrants : s.provider.grants ≤ s'.provider.grants)
    (hkeeps : ∀ t g, s.provider.grantOf t = some g → s'.provider.grantOf t = some g) :
    tag.Holds s' := by
  obtain ⟨request, phase, version⟩ := tag
  cases phase with
  | checked => exact fun version patch hedit => hrow ▸ h version patch hedit
  | read params => exact Read.of_row h hrow
  | rotated params response =>
    obtain ⟨hread, token, grant, htoken, hgrant, hresponse⟩ := h
    exact ⟨hread.of_row hrow, token, grant, htoken, hkeeps token grant hgrant,
      fun t ht => hkeeps t grant (hresponse t ht)⟩
  | granted params response =>
    refine ⟨h.1.of_row hrow, fun heq => ?_⟩
    rw [hrow] at heq
    obtain ⟨grant, htokens, hlt, halive, hnew⟩ := h.2 heq
    refine ⟨grant, fun t ht => hkeeps t grant (htokens t ht), hlt.trans_le hgrants, hdead ▸ halive,
      fun token htoken hsame => ?_⟩
    rw [hrow] at htoken
    obtain ⟨grant', hgrant', -⟩ := hlive token htoken
    rw [hkeeps token grant' hgrant'] at hsame
    cases hsame
    exact hnew token htoken hgrant'
  | arrived | updated | ended => trivial

/-- After a write no other request has the version of the row. -/
theorem Tag.Holds.of_write (h : tag.Holds s) (hversion : s.row.version < s'.row.version)
    (hprovider : s'.provider = s.provider) : tag.Holds s' := by
  obtain ⟨request, phase, version⟩ := tag
  cases phase with
  | checked => exact fun version patch hedit => (h version patch hedit).trans hversion.le
  | read params => exact Read.of_write h hversion
  | rotated params response => exact ⟨h.1.of_write hversion, hprovider ▸ h.2⟩
  | granted params response =>
    exact ⟨h.1.of_write hversion, fun heq => absurd (heq ▸ h.1.le) (by omega)⟩
  | arrived | updated | ended => trivial

end Stable

/-! ### Writes -/

variable {parameters : Params} {response : GrantResponse} {entries : List (String × Param)}

section Writes

variable {s : Store} {tag : Tag} {params : Params}

variable {request : Request}

/-- What is recorded of the grants by a write of parameters. -/
theorem Store.mem_dead_write {grant : ℕ} (h : grant ∈ (s.write cfg request parameters).dead) :
    grant ∈ s.dead ∨ ∃ token ∈ s.row.params.tokens, token ∉ parameters.tokens ∧
      s.provider.grantOf token = some grant := by
  rcases mem_append.mp h with h | h
  · obtain ⟨token, htoken, hgrant⟩ := mem_filterMap.mp h
    obtain ⟨htoken, hgone⟩ := mem_filter.mp htoken
    exact Or.inr ⟨token, htoken, of_decide_eq_true hgone, hgrant⟩
  · exact Or.inl h

theorem Store.dead_write_lt (hlive : s.Live) (hdead : ∀ grant ∈ s.dead, grant < s.provider.grants) :
    ∀ grant ∈ (s.write cfg request parameters).dead, grant < s.provider.grants := by
  intro grant hgrant
  rcases mem_dead_write hgrant with hgrant | ⟨token, htoken, -, hgrant⟩
  · exact hdead grant hgrant
  · obtain ⟨grant', hgrant', hlt, -⟩ := hlive token htoken
    rw [hgrant] at hgrant'
    cases hgrant'
    exact hlt

/-- A rotation stores tokens of the grant that was stored. -/
theorem Store.Live.rotate {response : TokenResponse} {newHash : Option String} (hlive : s.Live)
    (hresponse : ∃ token grant, s.row.params.text "refresh_token" = some token ∧
      s.provider.grantOf token = some grant ∧
      ∀ t ∈ response.accessToken :: response.refreshToken.toList,
        s.provider.grantOf t = some grant) :
    Store.Live { s with
      row := ⟨mergeRotated cfg s.row.params response, newHash, s.row.version + 1⟩ } := by
  obtain ⟨old, grant, hold, hgrant, hnew⟩ := hresponse
  obtain ⟨grant', hgrant', hlt, halive⟩ := hlive old (Params.mem_tokens.mpr (Or.inr hold))
  rw [hgrant] at hgrant'
  cases hgrant'
  intro token htoken
  refine ⟨grant, ?_, hlt, halive⟩
  rcases Params.mem_tokens.mp htoken with haccess | hrefresh
  · dsimp only at haccess
    rw [mergeRotated_accessToken] at haccess
    cases haccess
    exact hnew _ mem_cons_self
  · dsimp only at hrefresh
    rw [mergeRotated_refreshToken, newRefreshToken, Option.or_eq_some_iff] at hrefresh
    rcases hrefresh with hrefresh | ⟨-, hrefresh⟩
    · exact hnew _ (mem_cons_of_mem _ (Option.mem_toList.mpr hrefresh))
    · rw [hold] at hrefresh
      cases hrefresh
      exact hgrant

theorem tokens_storeGrant (hplain : ∀ e ∈ entries, e.1 ∉ tokenKeys)
    (h : token ∈ ((storeGrant cfg params response).setAll entries).tokens) :
    token ∈ response.tokens ∨ token ∈ params.tokens := by
  have hkey : ∀ key ∈ tokenKeys, (storeGrant cfg params response).setAll entries key =
      storeGrant cfg params response key := by
    intro key hkey
    exact Params.setAll_of_not_mem fun e he hname => hplain e he (hname ▸ hkey)
  rw [Params.tokens_congr hkey] at h
  rcases Params.mem_tokens.mp h with haccess | hrefresh
  · rw [storeGrant_accessToken] at haccess
    cases hanswer : response.accessToken with
    | none =>
      rw [hanswer] at haccess
      exact Or.inr (Params.mem_tokens.mpr (Or.inl haccess))
    | some value =>
      rw [hanswer] at haccess
      refine Or.inl (mem_append_left _ (Option.mem_toList.mpr ?_))
      rw [hanswer]
      exact haccess
  · rw [storeGrant_refreshToken] at hrefresh
    cases hanswer : response.refreshToken with
    | none =>
      rw [hanswer] at hrefresh
      exact Or.inr (Params.mem_tokens.mpr (Or.inr hrefresh))
    | some value =>
      rw [hanswer] at hrefresh
      refine Or.inl (mem_append_right _ (Option.mem_toList.mpr ?_))
      rw [hanswer]
      exact hrefresh

/-- A new grant leaves the tokens of the row alone, or takes their place. -/
theorem Store.Live.grant (hlive : s.Live) (hplain : ∀ e ∈ entries, e.1 ∉ tokenKeys)
    (hnew : s.New response.tokens)
    (hkeeps : s.row.params.keepsAllOrNone
      ((storeGrant cfg s.row.params response).setAll entries) = true) :
    (s.write cfg request ((storeGrant cfg s.row.params response).setAll entries)).Live := by
  obtain ⟨grant, htokens, hlt, halive, hfresh⟩ := hnew
  intro token htoken
  rcases tokens_storeGrant hplain htoken with hanswer | hstored
  · refine ⟨grant, htokens token hanswer, hlt, fun hdead => ?_⟩
    rcases mem_dead_write hdead with hdead | ⟨token', htoken', -, hgrant'⟩
    · exact halive hdead
    · exact hfresh token' htoken' hgrant'
  · obtain ⟨grant', hgrant', hlt', halive'⟩ := hlive token hstored
    refine ⟨grant', hgrant', hlt', fun hdead => ?_⟩
    rcases mem_dead_write hdead with hdead | ⟨token', htoken', hgone, -⟩
    · exact halive' hdead
    · -- a token is dropped although this one is kept
      rcases (Bool.or_eq_true _ _).mp hkeeps with hall | hnone
      · exact hgone (of_decide_eq_true (all_eq_true.mp hall token' htoken'))
      · exact of_decide_eq_true (all_eq_true.mp hnone token hstored) htoken

theorem Store.Live.edit (hlive : s.Live)
    (hedited : (∀ key ∈ tokenKeys, parameters key = s.row.params key) ∨
      ∃ p : Params, parameters = p.clearTokens) :
    (s.write cfg request parameters).Live := by
  rcases hedited with hsame | ⟨p, rfl⟩
  · intro token htoken
    have hmem : token ∈ s.row.params.tokens := Params.tokens_congr hsame ▸ htoken
    obtain ⟨grant, hgrant, hlt, halive⟩ := hlive token hmem
    refine ⟨grant, hgrant, hlt, fun hdead => ?_⟩
    rcases mem_dead_write hdead with hdead | ⟨token', htoken', hgone, -⟩
    · exact halive hdead
    · exact hgone (Params.tokens_congr hsame ▸ htoken')
  · intro token htoken
    have hmem : token ∈ p.clearTokens.tokens := htoken
    rw [Params.tokens_clearTokens] at hmem
    cases hmem

end Writes

/-! ### One move -/

variable {provider : Provider}

section Move

variable {c c' : Config cfg} {i : ℕ} {tag tag' : Tag} {p' : Prog Op Op.Ret Unit}

theorem Fresh.of_store (h : Fresh c) (horderly : Orderly c')
    (hstore : c'.world.store = c.world.store) (hholds : ∀ t ∈ c'.tasks, t.tag.Holds c.world.store) :
    Fresh c' := by
  obtain ⟨-, hothers, hlive, hdead, -⟩ := h
  rw [← hstore] at hothers hlive hdead hholds
  exact ⟨horderly, hothers, hlive, hdead, hholds⟩

section Set

variable (h : Fresh c) (htasks : c'.tasks = c.tasks.set i ⟨tag', p'⟩) (horderly : Orderly c')

include h htasks horderly

theorem Fresh.ask (hrow : c'.world.store.row = c.world.store.row)
    (hgiven : c'.world.store.given = c.world.store.given)
    (hdead : c'.world.store.dead = c.world.store.dead)
    (hgrants : c.world.store.provider.grants ≤ c'.world.store.provider.grants)
    (hkeeps : ∀ t g, c.world.store.provider.grantOf t = some g →
      c'.world.store.provider.grantOf t = some g)
    (hholds : tag'.Holds c'.world.store) : Fresh c' := by
  refine ⟨horderly, ?_, ?_, ?_, ?_⟩
  · rw [hrow, hgiven]
    exact h.others
  · intro token htoken
    rw [hrow] at htoken
    obtain ⟨grant, hgrant, hlt, halive⟩ := h.live token htoken
    exact ⟨grant, hkeeps token grant hgrant, hlt.trans_le hgrants, hdead ▸ halive⟩
  · rw [hdead]
    exact fun grant hgrant => (h.dead grant hgrant).trans_le hgrants
  · rw [htasks]
    refine forall_mem_set (fun t ht => ?_) hholds
    exact (h.holds t ht).of_provider h.live hrow hdead hgrants hkeeps

/-- A request writes the row, and has nothing to write any more. -/
theorem Fresh.write (hversion : c.world.store.row.version < c'.world.store.row.version)
    (hprovider : c'.world.store.provider = c.world.store.provider)
    (hothers : ∀ key, key ∉ tokenKeys →
      c'.world.store.row.params key = c'.world.store.given key)
    (hlive : c'.world.store.Live)
    (hdead : ∀ grant ∈ c'.world.store.dead, grant < c.world.store.provider.grants)
    (hphase : tag'.phase = .ended ∨ tag'.phase = .updated) : Fresh c' := by
  refine ⟨horderly, hothers, hlive, hprovider ▸ hdead, ?_⟩
  rw [htasks]
  refine forall_mem_set (fun t ht => (h.holds t ht).of_write hversion hprovider) ?_
  unfold Tag.Holds
  rcases hphase with hphase | hphase <;> rw [hphase] <;> trivial

theorem Fresh.look (hstore : c'.world.store = c.world.store) (hholds : tag'.Holds c.world.store) :
    Fresh c' := by
  refine h.of_store horderly hstore ?_
  rw [htasks]
  exact forall_mem_set h.holds hholds

theorem Fresh.touch (hstore : c'.world.store = c.world.store.touch)
    (hphase : tag'.phase = .ended ∨ tag'.phase = .updated) : Fresh c' := by
  refine h.write htasks horderly ?_ ?_ ?_ ?_ ?_ hphase <;> rw [hstore]
  · exact Nat.lt_succ_self _
  · rfl
  · exact h.others
  · exact h.live
  · exact h.dead

theorem Fresh.persist {expectedHash newHash : Option String}
    (hmay : Phase.may cfg tag.request tag.phase
      (.persistRefreshedOauth parameters expectedHash newHash))
    (hholds : tag.Holds c.world.store)
    (hstore : c'.world.store = { c.world.store with
      row := ⟨parameters, newHash, c.world.store.row.version + 1⟩ })
    (hphase : tag'.phase = .ended) (hversion : tag.version = c.world.store.row.version) :
    Fresh c' := by
  obtain ⟨-, params, response, hrotated, rfl, -, -⟩ := hmay
  unfold Tag.Holds at hholds
  rw [hrotated] at hholds
  obtain ⟨hread, hresponse⟩ := hholds
  obtain rfl := hread.params hversion
  refine h.write htasks horderly ?_ ?_ ?_ ?_ ?_ (Or.inl hphase) <;> rw [hstore]
  · exact Nat.lt_succ_self _
  · exact fun key hkey => (mergeRotated_of_plain response hkey).trans (h.others key hkey)
  · exact h.live.rotate hresponse
  · exact h.dead

theorem Fresh.callback
    (hmay : Phase.may cfg tag.request tag.phase (.updateParametersAndStatus parameters))
    (hholds : tag.Holds c.world.store)
    (hstore : c'.world.store = c.world.store.write cfg tag.request parameters)
    (hphase : tag'.phase = .ended) (hversion : tag.version = c.world.store.row.version)
    (hkeeps : c.world.store.row.params.keepsAllOrNone parameters = true) : Fresh c' := by
  obtain ⟨params, response, query, entries, hgranted, hrequest, hentries, rfl⟩ := hmay
  unfold Tag.Holds at hholds
  rw [hgranted] at hholds
  obtain ⟨hread, hnew⟩ := hholds
  obtain rfl := hread.params hversion
  have hplain := extraCallbackValues_plain cfg.descriptor.extra_plain hentries
  refine h.write htasks horderly ?_ ?_ ?_ ?_ ?_ (Or.inl hphase) <;> rw [hstore]
  · exact Nat.lt_succ_self _
  · rfl
  · intro key hkey
    have hgives : tag.request.gives cfg c.world.store.given =
        c.world.store.given.setAll entries := by
      rw [hrequest]
      dsimp only [Request.gives]
      rw [hentries]
    dsimp only [Store.write]
    rw [hgives]
    exact Params.setAll_congr ((storeGrant_of_plain response hkey).trans (h.others key hkey))
  · exact h.live.grant hplain (hnew hversion) hkeeps
  · exact Store.dead_write_lt h.live h.dead

theorem Fresh.edit {version : ℕ}
    (hmay : Phase.may cfg tag.request tag.phase (.update (some parameters) version))
    (hholds : tag.Holds c.world.store)
    (hstore : c'.world.store = c.world.store.write cfg tag.request parameters)
    (hphase : tag'.phase = .updated) (hversion : c.world.store.row.version = version) :
    Fresh c' := by
  obtain ⟨params, patch, reconnect, hreadPhase, hrequest, hedited⟩ := hmay
  unfold Tag.Holds at hholds
  rw [hreadPhase] at hholds
  -- the row was read after its version had been looked at
  have hle := hholds.edit version (some patch) hrequest
  have hle' := hholds.le
  obtain rfl := hholds.params (by omega)
  obtain ⟨hothers, htokens⟩ := editedParams_eq_ok hedited
  refine h.write htasks horderly ?_ ?_ ?_ ?_ ?_ (Or.inr hphase) <;> rw [hstore]
  · exact Nat.lt_succ_self _
  · rfl
  · intro key hkey
    dsimp only [Store.write]
    rw [hothers key hkey, hrequest]
    exact PatchOp.applyAll_congr (h.others key hkey)
  · exact h.live.edit htokens
  · exact Store.dead_write_lt h.live h.dead

end Set

theorem Fresh.refreshed {response : TokenResponse} (h : Fresh c)
    (hmay : Phase.may cfg tag.request tag.phase (.refresh token)) (hholds : tag.Holds c.world.store)
    (hprovider : c.world.store.provider.refresh cfg token response = some provider)
    (hstore : c'.world.store = { c.world.store with provider, sent := token :: c.world.store.sent })
    (htasks : c'.tasks = c.tasks.set i
      ⟨tag.after cfg (.refresh token) (.ok response) c.world.store, p'⟩)
    (horderly : Orderly c') : Fresh c' := by
  obtain ⟨-, params, hphase, htoken⟩ := hmay
  unfold Tag.Holds at hholds
  rw [hphase] at hholds
  obtain ⟨⟨grant, hgrant, hnew⟩, hkeeps, hgrants, -, -, -⟩ :=
    Provider.refreshed_of_refresh hprovider
  refine h.ask htasks horderly (by rw [hstore]) (by rw [hstore]) (by rw [hstore]) ?_ ?_ ?_ <;>
    rw [hstore]
  · exact hgrants.ge
  · exact hkeeps
  · have hafter : (tag.after cfg (.refresh token) (.ok response) c.world.store).phase =
        .rotated params response := by
      dsimp only [Tag.after, Phase.after]
      rw [hphase]
    unfold Tag.Holds
    rw [hafter]
    exact ⟨⟨hholds.le, hholds.params, hholds.edit⟩, token, grant, htoken, hkeeps token grant hgrant,
      fun t ht => (hnew t ht).2⟩

theorem Fresh.exchanged (h : Fresh c)
    (hmay : Phase.may cfg tag.request tag.phase .exchangeCode) (hholds : tag.Holds c.world.store)
    (hprovider : c.world.store.provider.exchange cfg response = some provider)
    (hstore : c'.world.store = { c.world.store with provider })
    (htasks : c'.tasks = c.tasks.set i
      ⟨tag.after cfg .exchangeCode (some response) c.world.store, p'⟩)
    (horderly : Orderly c') : Fresh c' := by
  obtain ⟨-, params, hphase⟩ := hmay
  unfold Tag.Holds at hholds
  rw [hphase] at hholds
  obtain ⟨hnew, hkeeps, hgrants, -, -⟩ := Provider.exchanged_of_exchange hprovider
  refine h.ask htasks horderly (by rw [hstore]) (by rw [hstore]) (by rw [hstore]) ?_ ?_ ?_ <;>
    rw [hstore]
  · dsimp only
    omega
  · exact hkeeps
  · unfold Tag.Holds
    dsimp only [Tag.after, Phase.after]
    rw [hphase]
    dsimp only
    by_cases hcomplete : tag.request.complete cfg = true
    · rw [if_pos hcomplete]
      refine ⟨⟨hholds.le, hholds.params, hholds.edit⟩, fun _ => ?_⟩
      -- the grant is newer than all that are or were stored
      refine ⟨c.world.store.provider.grants, fun t ht => (hnew t ht).2, ?_, fun hdead => ?_,
        fun t ht hsame => ?_⟩
      · dsimp only
        omega
      · exact absurd (h.dead _ hdead) (lt_irrefl _)
      · obtain ⟨grant, hgrant, hlt, -⟩ := h.live t ht
        dsimp only at hsame
        rw [hkeeps t grant hgrant] at hsame
        cases hsame
        exact lt_irrefl _ hlt
    · rw [if_neg hcomplete]
      trivial

theorem Fresh.store {op : StoreOp} {next : (Op.store op).Ret → Calls Unit} {r : op.Ret}
    (h : Fresh c) (htask : c.tasks[i]? = some ⟨tag, .call (.store op) next⟩)
    (hruns : Runs cfg tag.request c.world.store op r c'.world.store)
    (htasks : c'.tasks = c.tasks.set i ⟨tag.after cfg op r c.world.store, next r⟩)
    (horderly : Orderly c')
    (hpersist : ∀ parameters expectedHash newHash,
      op = .persistRefreshedOauth parameters expectedHash newHash →
      (c.world.store.row.refreshTokenHash = none ∨
        c.world.store.row.refreshTokenHash = expectedHash) →
        tag.version = c.world.store.row.version)
    (hcallback : ∀ parameters, op = .updateParametersAndStatus parameters →
      tag.version = c.world.store.row.version ∧
        c.world.store.row.params.keepsAllOrNone parameters = true) : Fresh c' := by
  have hmem := mem_of_getElem? htask
  have hmay : Phase.may cfg tag.request tag.phase op := (h.orderly _ hmem).1
  have hholds : tag.Holds c.world.store := h.holds _ hmem
  generalize hs : c'.world.store = s at hruns
  cases hruns with
  | getConnection =>
    refine h.look htasks horderly hs ?_
    unfold Tag.Holds
    dsimp only [Tag.after, Phase.after]
    cases hrequest : tag.request with
    | resolve | callback => trivial
    | edit version patch =>
      by_cases hversion : version = c.world.store.row.version
      · dsimp only
        rw [if_pos hversion]
        rintro _ _ ⟨⟩
        exact hversion.le
      · dsimp only
        rw [if_neg hversion]
        trivial
  | getWithParameters =>
    refine h.look htasks horderly hs ⟨le_refl _, fun _ => rfl, fun version patch hedit => ?_⟩
    rcases hmay with hphase | ⟨-, hnot⟩
    · unfold Tag.Holds at hholds
      rw [hphase] at hholds
      exact hholds version patch hedit
    · exact absurd hedit (hnot version patch)
  | refreshed hprovider => exact h.refreshed hmay hholds hprovider hs htasks horderly
  | refreshFailed =>
    refine h.ask htasks horderly ?_ ?_ ?_ ?_ ?_ ?_ <;> rw [hs]
    · exact fun t g ht => ht
    · exact hholds.of_provider h.live rfl rfl le_rfl fun t g ht => ht
  | exchanged hprovider => exact h.exchanged hmay hholds hprovider hs htasks horderly
  | persisted hguard =>
    exact h.persist htasks horderly hmay hholds hs rfl (hpersist _ _ _ rfl hguard)
  | updatedParameters =>
    obtain ⟨hversion, hkeeps⟩ := hcallback _ rfl
    exact h.callback htasks horderly hmay hholds hs rfl hversion hkeeps
  | updated hversion => exact h.edit htasks horderly hmay hholds hs rfl hversion
  | touched => exact h.touch htasks horderly hs (Or.inr rfl)
  | updatedStatus => exact h.touch htasks horderly hs (Or.inl rfl)
  | exchangeFailed | notPersisted | conflict => exact h.look htasks horderly hs trivial

end Move

/-! ### Whole runs -/

theorem Move.fresh {m : Move cfg} (hm : m.Valid) (hupToDate : Move.upToDate m = true)
    (h : Fresh m.before) : Fresh m.after := by
  have horderly := Move.orderly hm h.orderly
  unfold Move.upToDate at hupToDate
  cases Move.change hm with
  | memory i tag op next r hcaller htask hstore htasks =>
    exact h.look htasks horderly hstore (h.holds _ (mem_of_getElem? htask))
  | arrive request hinput hcaller hstore htasks =>
    refine h.of_store horderly hstore ?_
    rw [htasks]
    exact forall_mem_concat h.holds trivial
  | restart hinput hcaller hstore htasks =>
    refine h.of_store horderly hstore fun t ht => ?_
    rw [htasks] at ht
    cases ht
  | store i tag op next r choice hinput hcaller htask hrun htasks =>
    rw [hcaller] at hupToDate
    refine h.store htask (runs_of_run hrun) htasks horderly ?_ ?_
    · rintro parameters expectedHash newHash rfl hguard
      rcases (Bool.or_eq_true _ _).mp hupToDate with hrefused | hversion
      · obtain ⟨hsome, hother⟩ := (Bool.and_eq_true _ _).mp hrefused
        rcases hguard with hnone | hsame
        · exact absurd hnone (of_decide_eq_true hsome)
        · exact absurd hsame (of_decide_eq_true hother)
      · exact of_decide_eq_true hversion
    · rintro parameters rfl
      obtain ⟨hversion, hkeeps⟩ := (Bool.and_eq_true _ _).mp hupToDate
      exact ⟨of_decide_eq_true hversion, hkeeps⟩

/-- A connection type whose environment can be edited, and an endpoint, on which the grant
depends. -/
def environmentDescriptor : Descriptor :=
  { plainDescriptor with
    fields := [{ name := "environment" }, { name := "endpoint", requiresReauthorization := true }]
    fields_plain := by decide }

def environmentSettings : Settings :=
  { plainSettings true with descriptor := environmentDescriptor }

/-- The inputs of an edit of a field, made for a version of the row. -/
def editInputs (i version : ℕ) (field : String) :
    List (Tasks.System.Input (connection environmentSettings)) :=
  [.outside (.arrive (.edit version (some { set := [(field, .text "sandbox")] }))),
    .task i .none, .task i .none, .task i .none]

/-- The inputs of a resolution from the look at the cache to the write of the rotated token. -/
def rotateInputs (i : ℕ) : List (Tasks.System.Input (connection environmentSettings)) :=
  List.replicate 4 (.task i .none) ++ .task i (.answer ⟨"a1", some "r1", none⟩) ::
    List.replicate 4 (.task i .none)

/-- **A rotation stores a grant again that an edit has removed.** -/
theorem rotation_restores_grant :
    ∃ ms c, (connection environmentSettings).Path (initial _ authorizedRow) ms c ∧
      Config.quiet _ c = true ∧ ¬ c.world.store.Intact := by
  obtain ⟨ms, c, hpath, hquiet, hrow, hgrant, hdead⟩ :
      ∃ ms c, (connection environmentSettings).Path (initial _ authorizedRow) ms c ∧
        Config.quiet _ c = true ∧ c.world.store.row.params.text "refresh_token" = some "r1" ∧
        c.world.store.provider.grantOf "r1" = some 0 ∧ c.world.store.dead = [0] :=
    (connection environmentSettings).exists_path [[.outside (.arrive .resolve), .task 0 .none],
      editInputs 1 0 "endpoint", [.task 1 .none], rotateInputs 0] (by decide +kernel)
  refine ⟨ms, c, hpath, hquiet, fun hintact => ?_⟩
  refine hintact.tokens "r1" (Params.mem_tokens.mpr (Or.inr hrow)) 0 hgrant ?_
  rw [hdead]
  exact mem_cons_self

end Runtara.Connection
