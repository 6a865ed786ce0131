/-
  When the stored refresh token stays usable.

  Requests come one after the other. The row has the token that is valid at the provider, except
  while a request has a new one that it has not written yet (`Phase.Fits`). Only a request that ends
  without writing it spoils that: a rotation whose write is refused because the hash column still
  has the hash of a token from before the last callback, and a callback without all it requires
  (`stored_token_usable_iff`). Both happen (`reconnect_loses_rotation`,
  `incomplete_callback_loses_grant`).
-/
import Runtara.Connection.Equiv.Step

namespace Runtara.Connection

open List

open Tasks (Prog)
open Tasks.System (exists_path)

variable {cfg : Settings}

/-- The refresh token of the row is the one that is valid. -/
def Store.usable (s : Store) : Bool :=
  (s.row.params.text "refresh_token").all fun token => s.provider.valid = some token

theorem Store.usable_iff {s : Store} : s.usable = true ↔ ∀ token,
    s.row.params.text "refresh_token" = some token → s.provider.valid = some token := by
  unfold usable
  cases s.row.params.text "refresh_token" with
  | none => exact ⟨fun _ _ => nofun, fun _ => rfl⟩
  | some token =>
    refine ⟨?_, fun h => decide_eq_true (h token rfl)⟩
    rintro h _ ⟨⟩
    exact of_decide_eq_true h

/-- The refresh token of the row is one that the provider has issued. -/
def Store.Issued (s : Store) : Prop :=
  ∀ token, s.row.params.text "refresh_token" = some token → s.provider.grantOf token ≠ none

theorem Store.Issued.keeps {s s' : Store} (h : s.Issued) (hrow : s'.row.params = s.row.params)
    (hkeeps : ∀ t g, s.provider.grantOf t = some g → s'.provider.grantOf t = some g) :
    s'.Issued := by
  intro token htoken
  rw [hrow] at htoken
  obtain ⟨g, hg⟩ := Option.ne_none_iff_exists'.mp (h token htoken)
  rw [hkeeps token g hg]
  nofun

/-- A token that is written is the one that is valid. -/
theorem Store.usable_of_written {s : Store} {token : String}
    (hrow : s.row.params.text "refresh_token" = some token) (hvalid : s.provider.valid = some token)
    (hissued : s.provider.grantOf token ≠ none) : s.Issued ∧ s.usable = true := by
  refine ⟨fun token' htoken' => ?_, usable_iff.mpr fun token' htoken' => ?_⟩
  · rw [hrow] at htoken'
    cases htoken'
    exact hissued
  · rw [hrow] at htoken'
    cases htoken'
    exact hvalid

theorem Store.usable_of_none {s : Store} (hrow : s.row.params.text "refresh_token" = none) :
    s.Issued ∧ s.usable = true := by
  refine ⟨fun token htoken => ?_, usable_iff.mpr fun token htoken => ?_⟩
  · rw [hrow] at htoken
    cases htoken
  · rw [hrow] at htoken
    cases htoken

namespace Move

/-- Requests come one after the other. -/
def alone (m : Move cfg) : Bool :=
  match m.input with
  | .outside _ => Config.quiet cfg m.before
  | .task _ _ => true

/-- A rotated token is written when the hash column is empty or has the hash of the stored token;
and a code is exchanged by a callback that has all it requires, or while no token is stored. -/
def guarded (m : Move cfg) : Bool :=
  match m.caller, m.input with
  | some (_, .store (.persistRefreshedOauth _ _ _)), _ =>
    m.before.world.store.row.refreshTokenHash = none ||
      m.before.world.store.row.refreshTokenHash =
        (m.before.world.store.row.params.text "refresh_token").map cfg.refreshTokenHash
  | some (tag, .store .exchangeCode), .task _ (.granted _) =>
    (m.before.world.store.row.params.text "refresh_token").isNone || tag.request.complete cfg
  | _, _ => true

end Move

/-! ### What is kept -/

/-- What holds of the store while the one request that runs is in a phase. -/
def Phase.Fits (s : Store) : Phase → Prop
  | .read params => params = s.row.params ∧ s.usable = true
  | .rotated params response => params = s.row.params ∧ ∃ token new,
      s.row.params.text "refresh_token" = some token ∧ response.refreshToken = some new ∧
      s.provider.valid = some new ∧ s.provider.grantOf new ≠ none ∧ new ≠ token
  | .granted params response => params = s.row.params ∧ ∃ token,
      response.refreshToken.bind Param.asStr = some token ∧ s.provider.valid = some token ∧
      s.provider.grantOf token ≠ none
  | _ => s.usable = true

theorem Phase.Fits.usable {s : Store} {p : Phase} (h : p.Fits s) (hsettled : p.settled = true) :
    s.usable = true := by
  cases p with
  | read params => exact h.2
  | rotated | granted => cases hsettled
  | _ => exact h

section Writes

variable {s : Store} {params : Params} {provider : Provider}

/-- A refresh gives a new token, which the row does not have yet. -/
theorem fits_of_refresh {token : String} {response : TokenResponse} (hrotates : cfg.rotates = true)
    (hissued : s.Issued) (htoken : s.row.params.text "refresh_token" = some token)
    (h : s.provider.refresh cfg token response = some provider) :
    Store.Issued { s with provider } ∧
      (Phase.rotated s.row.params response).Fits { s with provider } := by
  obtain ⟨⟨g, hgrantOf, hnew⟩, hkeeps, -, hvalid, -, hsome⟩ := Provider.refreshed_of_refresh h
  obtain ⟨new, hresponse⟩ := Option.isSome_iff_exists.mp (hsome hrotates)
  obtain ⟨hfresh, hgrant⟩ := hnew new (by
    rw [hresponse]
    exact mem_cons_of_mem _ (mem_singleton.mpr rfl))
  refine ⟨hissued.keeps rfl hkeeps, rfl, token, new, htoken, hresponse, ?_, ?_, ?_⟩
  · dsimp only
    rw [hvalid, hresponse]
    rfl
  · dsimp only
    rw [hgrant]
    nofun
  · rintro rfl
    rw [hfresh] at hgrantOf
    cases hgrantOf

/-- A code that is exchanged gives the token that is valid from then on. -/
theorem fits_of_exchange {response : GrantResponse} (hrotates : cfg.rotates = true)
    (h : s.provider.exchange cfg response = some provider) :
    (Phase.granted s.row.params response).Fits { s with provider } := by
  obtain ⟨hnew, -, -, hvalid, hrotated⟩ := Provider.exchanged_of_exchange h
  obtain ⟨token, htoken⟩ := hrotated hrotates
  refine ⟨rfl, token, htoken, ?_, ?_⟩
  · dsimp only
    rw [hvalid, htoken]
    rfl
  · dsimp only
    rw [(hnew token (mem_append_right _ (Option.mem_toList.mpr htoken))).2]
    nofun

/-- The extra parameters of a callback leave the token of its grant in place. -/
theorem callback_refreshToken {response : GrantResponse} {token : String}
    {query : String → Option String} {entries : List (String × Param)}
    (htoken : response.refreshToken.bind Param.asStr = some token)
    (hentries : extraCallbackValues query cfg.descriptor.extraCallbackParams = .ok entries) :
    ((storeGrant cfg params response).setAll entries).text "refresh_token" = some token := by
  have hplain := extraCallbackValues_plain cfg.descriptor.extra_plain hentries
  have hsame : ((storeGrant cfg params response).setAll entries).text "refresh_token" =
      (storeGrant cfg params response).text "refresh_token" :=
    Params.text_congr (Params.setAll_of_not_mem fun e he hname =>
      hplain e he (by rw [hname]; decide))
  obtain ⟨value, hvalue, htext⟩ := Option.bind_eq_some_iff.mp htoken
  rw [hsame, storeGrant_refreshToken, hvalue]
  exact htext

/-- An edit keeps the stored token, or clears it. -/
theorem usable_of_edited {request : Request} {patch : ConnectionParameterPatch}
    {parameters : Params} {reconnect : Bool} (hissued : s.Issued) (husable : s.usable = true)
    (h : editedParams cfg.descriptor patch s.row.params = .ok (parameters, reconnect)) :
    (s.write cfg request parameters).Issued ∧ (s.write cfg request parameters).usable = true := by
  rcases (editedParams_eq_ok h).2 with hsame | ⟨q, rfl⟩
  · have hrow : parameters.text "refresh_token" = s.row.params.text "refresh_token" :=
      Params.text_congr (hsame _ (by decide))
    refine ⟨fun token htoken => hissued token (hrow ▸ htoken), Store.usable_iff.mpr ?_⟩
    exact fun token htoken => Store.usable_iff.mp husable token (hrow ▸ htoken)
  · exact Store.usable_of_none Params.clearTokens_refreshToken

/-- Every statement of the request leaves the store as the request needs it next, if a rotated token
is written under a hash that fits, and a code is exchanged by a callback that has all it requires or
while no token is stored. -/
theorem Phase.Fits.runs {s' : Store} {request : Request} {p : Phase} {op : StoreOp} {r : op.Ret}
    (hrotates : cfg.rotates = true) (hissued : s.Issued) (hfits : p.Fits s)
    (hmay : p.may cfg request op) (hruns : Runs cfg request s op r s')
    (hhash : ∀ parameters expectedHash newHash,
      op = .persistRefreshedOauth parameters expectedHash newHash →
        s.row.refreshTokenHash = none ∨
          s.row.refreshTokenHash = (s.row.params.text "refresh_token").map cfg.refreshTokenHash)
    (hgrant : s'.provider ≠ s.provider → op = .exchangeCode →
      s.row.params.text "refresh_token" = none ∨ request.complete cfg = true) :
    s'.Issued ∧ (p.after cfg request op r).Fits s' := by
  cases hruns with
  | getConnection =>
    obtain rfl : p = .arrived := hmay
    refine ⟨hissued, ?_⟩
    dsimp only [Phase.after]
    split
    · split
      · exact hfits
      · exact hfits
    · exact hfits
  | getWithParameters =>
    refine ⟨hissued, rfl, ?_⟩
    rcases hmay with rfl | ⟨rfl, -⟩
    · exact hfits
    · exact hfits
  | refreshed hprovider =>
    obtain ⟨-, params, rfl, htoken⟩ := hmay
    obtain ⟨rfl, -⟩ := hfits
    exact fits_of_refresh hrotates hissued htoken hprovider
  | refreshFailed =>
    obtain ⟨-, params, rfl, -⟩ := hmay
    exact ⟨hissued, hfits⟩
  | @exchanged response provider hprovider =>
    obtain ⟨-, params, rfl⟩ := hmay
    obtain ⟨rfl, -⟩ := hfits
    obtain ⟨-, hkeeps, hgrants, -, -⟩ := Provider.exchanged_of_exchange hprovider
    refine ⟨hissued.keeps rfl hkeeps, ?_⟩
    dsimp only [Phase.after]
    split
    · exact fits_of_exchange hrotates hprovider
    · next hincomplete =>
      have hchanged : provider ≠ s.provider := by
        intro heq
        rw [heq] at hgrants
        omega
      have hnone := (hgrant hchanged rfl).resolve_right hincomplete
      exact (Store.usable_of_none (s := { s with provider }) hnone).2
  | exchangeFailed =>
    obtain ⟨-, params, rfl⟩ := hmay
    exact ⟨hissued, hfits.2⟩
  | persisted hguard =>
    obtain ⟨-, params, response, rfl, rfl, -, -⟩ := hmay
    obtain ⟨-, token, new, -, hresponse, hvalid, hgranted, -⟩ := hfits
    have hrow : (mergeRotated cfg params response).text "refresh_token" = some new := by
      rw [mergeRotated_refreshToken, newRefreshToken, hresponse]
      rfl
    exact Store.usable_of_written hrow hvalid hgranted
  | @notPersisted parameters expectedHash newHash hguard =>
    obtain ⟨-, params, response, rfl, -, hexpected, -⟩ := hmay
    obtain ⟨rfl, -⟩ := hfits
    have hok := hhash parameters expectedHash newHash rfl
    rw [← hexpected] at hok
    exact absurd hok hguard
  | updatedParameters =>
    obtain ⟨params, response, query, entries, rfl, -, hentries, rfl⟩ := hmay
    obtain ⟨-, token, htoken, hvalid, hgranted⟩ := hfits
    exact Store.usable_of_written (callback_refreshToken htoken hentries) hvalid hgranted
  | updated hversion =>
    obtain ⟨params, patch, reconnect, rfl, -, hedited⟩ := hmay
    obtain ⟨rfl, husable⟩ := hfits
    exact usable_of_edited hissued husable hedited
  | touched hversion =>
    obtain ⟨-, rfl⟩ := hmay
    exact ⟨hissued, hfits⟩
  | @conflict parameters version hversion =>
    refine ⟨hissued, ?_⟩
    cases parameters with
    | none =>
      obtain ⟨-, rfl⟩ := hmay
      exact hfits
    | some parameters =>
      obtain ⟨_, _, _, rfl, -⟩ := hmay
      exact hfits.2
  | updatedStatus =>
    obtain ⟨-, params, rfl⟩ := hmay
    exact ⟨hissued, hfits.2⟩

end Writes

/-- At most one request runs, and the store is as it needs it. -/
structure Alone (c : Config cfg) : Prop where
  orderly : Orderly c
  one : ∀ (i j : ℕ) (t u : Task), c.tasks[i]? = some t → c.tasks[j]? = some u →
    t.prog.isDone = false → u.prog.isDone = false → i = j
  issued : c.world.store.Issued
  quiet : Config.quiet cfg c = true → c.world.store.usable = true
  fits : ∀ t ∈ c.tasks, t.prog.isDone = false → t.tag.phase.Fits c.world.store

/-- A newly created connection: it has no tokens yet. -/
def created (params : Params) : Row := ⟨params.clearTokens, none, 0⟩

theorem initial_alone (params : Params) : Alone (initial cfg (created params)) := by
  have hnone : ∀ t, t ∉ (initial cfg (created params)).tasks := fun t => not_mem_nil
  have htoken : (created params).params.text "refresh_token" = none :=
    Params.clearTokens_refreshToken
  obtain ⟨hissued, husable⟩ :=
    Store.usable_of_none (s := (initial cfg (created params)).world.store)
    htoken
  exact ⟨initial_orderly _, fun i j t u ht => absurd (mem_of_getElem? ht) (hnone t),
    hissued, fun _ => husable, fun t ht => absurd ht (hnone t)⟩

section Step

variable {c c' : Config cfg} {i : ℕ} {tag tag' : Tag} {op : Op} {next : op.Ret → Calls Unit}
  {p' : Prog Op Op.Ret Unit}

theorem Alone.others (h : Alone c) (htask : c.tasks[i]? = some ⟨tag, .call op next⟩)
    (htasks : c'.tasks = c.tasks.set i ⟨tag', p'⟩) {t : Task} (ht : t ∈ c'.tasks) :
    t = ⟨tag', p'⟩ ∨ t.prog.isDone = true := by
  rw [htasks] at ht
  obtain ⟨j, hj⟩ := mem_iff_getElem?.mp ht
  rcases Tasks.getElem?_set_cases hj with ⟨-, rfl⟩ | ⟨hij, hj⟩
  · exact Or.inl rfl
  · right
    by_contra hdone
    rw [Bool.not_eq_true] at hdone
    exact hij (h.one j i t _ hj htask hdone rfl)

/-- The request goes on, and the store is as it needs it now. -/
theorem Alone.advance (h : Alone c) (htask : c.tasks[i]? = some ⟨tag, .call op next⟩)
    (htasks : c'.tasks = c.tasks.set i ⟨tag', p'⟩) (horderly : Orderly c')
    (hissued : c'.world.store.Issued)
    (hfits : tag'.phase.Fits c'.world.store) : Alone c' := by
  have hmem : ⟨tag', p'⟩ ∈ c'.tasks := by
    rw [htasks]
    exact mem_set (List.getElem?_eq_some_iff.mp htask).1 _
  refine ⟨horderly, ?_, hissued, fun hquiet => ?_, fun t ht hdone => ?_⟩
  · rw [htasks]
    exact Tasks.AtMostOne.set h.one htask fun _ => Or.inl rfl
  · have hdone : Prog.isDone p' = true := all_eq_true.mp hquiet _ hmem
    exact hfits.usable ((horderly _ hmem).settled hdone)
  · rcases h.others htask htasks ht with rfl | hreturned
    · exact hfits
    · rw [hreturned] at hdone
      cases hdone

theorem Alone.store {op : StoreOp} {next : (Op.store op).Ret → Calls Unit} {r : op.Ret}
    (hrotates : cfg.rotates = true) (h : Alone c)
    (htask : c.tasks[i]? = some ⟨tag, .call (.store op) next⟩)
    (hruns : Runs cfg tag.request c.world.store op r c'.world.store)
    (htasks : c'.tasks = c.tasks.set i ⟨tag.after cfg op r c.world.store, next r⟩)
    (horderly : Orderly c')
    (hhash : ∀ parameters expectedHash newHash,
      op = .persistRefreshedOauth parameters expectedHash newHash →
        c.world.store.row.refreshTokenHash = none ∨ c.world.store.row.refreshTokenHash =
          (c.world.store.row.params.text "refresh_token").map cfg.refreshTokenHash)
    (hgrant : c'.world.store.provider ≠ c.world.store.provider → op = .exchangeCode →
      c.world.store.row.params.text "refresh_token" = none ∨ tag.request.complete cfg = true) :
    Alone c' := by
  have hmem := mem_of_getElem? htask
  obtain ⟨hissued, hfits⟩ := (h.fits _ hmem rfl).runs hrotates h.issued (h.orderly _ hmem).1 hruns
    hhash hgrant
  exact h.advance htask htasks horderly hissued hfits

end Step

/-! ### Whole runs -/

section Runs

variable {m : Move cfg} {c c' : Config cfg} {ms : List (Move cfg)}

theorem Alone.of_quiet (h : Alone c) (hquiet : Config.quiet cfg c = true)
    (hstore : c'.world.store = c.world.store) (horderly : Orderly c')
    (htasks : ∀ t ∈ c'.tasks, t ∈ c.tasks ∨ t.tag.phase = .arrived)
    (hone : ∀ (i j : ℕ) (t u : Task), c'.tasks[i]? = some t → c'.tasks[j]? = some u →
      t.prog.isDone = false → u.prog.isDone = false → i = j) : Alone c' := by
  refine ⟨horderly, hone, hstore ▸ h.issued, fun _ => hstore ▸ h.quiet hquiet, fun t ht hdone => ?_⟩
  rcases htasks t ht with ht | harrived
  · rw [all_eq_true.mp hquiet t ht] at hdone
    cases hdone
  · rw [harrived, hstore]
    exact h.quiet hquiet

theorem Move.keeps_alone (hrotates : cfg.rotates = true) (hm : m.Valid)
    (halone : Move.alone m = true)
    (hguarded : Move.guarded m = true) (h : Alone m.before) : Alone m.after := by
  have horderly := Move.orderly hm h.orderly
  unfold Move.alone at halone
  unfold Move.guarded at hguarded
  cases Move.change hm with
  | memory i tag op next r hcaller htask hstore htasks =>
    refine h.advance htask htasks horderly (hstore ▸ h.issued) ?_
    rw [hstore]
    exact h.fits _ (mem_of_getElem? htask) rfl
  | arrive request hinput hcaller hstore htasks =>
    rw [hinput] at halone
    refine h.of_quiet halone hstore horderly (fun t ht => ?_) fun i j t u ht hu hdt hdu => ?_
    · rw [htasks] at ht
      rcases mem_append.mp ht with ht | ht
      · exact Or.inl ht
      · exact Or.inr (by rw [mem_singleton.mp ht])
    · -- only the request that has arrived runs
      have hlast : ∀ (j : ℕ) (t : Task), m.after.tasks[j]? = some t → t.prog.isDone = false →
          j = m.before.tasks.length := by
        intro j t ht hdt
        rw [htasks] at ht
        rcases Nat.lt_or_ge j m.before.tasks.length with hj | hj
        · rw [getElem?_append_left hj] at ht
          rw [all_eq_true.mp halone t (mem_of_getElem? ht)] at hdt
          cases hdt
        · have hlt := (List.getElem?_eq_some_iff.mp ht).1
          rw [length_append, length_singleton] at hlt
          omega
      exact (hlast i t ht hdt).trans (hlast j u hu hdu).symm
  | restart hinput hcaller hstore htasks =>
    rw [hinput] at halone
    refine h.of_quiet halone hstore horderly (fun t ht => ?_) fun i j t u ht => ?_
    · rw [htasks] at ht
      cases ht
    · rw [htasks] at ht
      cases ht
  | store i tag op next r choice hinput hcaller htask hrun htasks =>
    rw [hcaller, hinput] at hguarded
    refine h.store hrotates htask (runs_of_run hrun) htasks horderly ?_ ?_
    · rintro parameters expectedHash newHash rfl
      rcases (Bool.or_eq_true _ _).mp hguarded with hnone | hsame
      · exact Or.inl (of_decide_eq_true hnone)
      · exact Or.inr (of_decide_eq_true hsame)
    · rintro hchanged rfl
      cases choice with
      | granted response =>
        rcases (Bool.or_eq_true _ _).mp hguarded with hnone | hcomplete
        · exact Or.inl (Option.isNone_iff_eq_none.mp hnone)
        · exact Or.inr hcomplete
      | _ =>
        have hsame := (Prod.mk.inj (Option.some.inj hrun)).2
        exact absurd (congrArg Store.provider hsame.symm) hchanged

/-- The request that ends without writing the new token is the last one that runs. -/
theorem Alone.quiet_of_ended {i : ℕ} {tag tag' : Tag} {op : Op} {next : op.Ret → Calls Unit}
    {p' : Prog Op Op.Ret Unit} (h : Alone c) (htask : c.tasks[i]? = some ⟨tag, .call op next⟩)
    (htasks : c'.tasks = c.tasks.set i ⟨tag', p'⟩) (horderly : Orderly c')
    (hended : tag'.phase = .ended) : Config.quiet cfg c' = true := by
  refine all_eq_true.mpr fun t ht => ?_
  rcases h.others htask htasks ht with rfl | hdone
  · exact (horderly _ ht).isDone hended
  · exact hdone

/-- A request that is not guarded leaves a token that is not valid. -/
theorem Move.spoils (hrotates : cfg.rotates = true) (hm : m.Valid)
    (hguarded : ¬ Move.guarded m = true) (h : Alone m.before) :
    Config.quiet cfg m.after = true ∧ ¬ m.after.world.store.usable = true := by
  have horderly := Move.orderly hm h.orderly
  unfold Move.guarded at hguarded
  cases Move.change hm with
  | memory i tag op next r hcaller | arrive request hinput hcaller | restart hinput hcaller =>
    rw [hcaller] at hguarded
    exact absurd rfl hguarded
  | store i tag op next r choice hinput hcaller htask hrun htasks =>
    have hmem := mem_of_getElem? htask
    have hfits : tag.phase.Fits m.before.world.store := h.fits _ hmem rfl
    rw [hcaller, hinput] at hguarded
    cases op with
    | persistRefreshedOauth parameters expectedHash newHash =>
      obtain ⟨-, params, response, hphase, -, rfl, -⟩ :
        Phase.may cfg tag.request tag.phase
          (.persistRefreshedOauth parameters expectedHash newHash) :=
        (h.orderly _ hmem).1
      rw [hphase] at hfits
      obtain ⟨rfl, token, new, hrow, -, hvalid, -, hne⟩ := hfits
      refine ⟨h.quiet_of_ended htask htasks horderly rfl, fun husable => ?_⟩
      have hstore : m.after.world.store = m.before.world.store := by
        have hruns := runs_of_run hrun
        generalize m.after.world.store = s at hruns
        cases hruns with
        | persisted hguard =>
          refine absurd ?_ hguarded
          rw [Bool.or_eq_true]
          exact hguard.imp decide_eq_true decide_eq_true
        | notPersisted hguard => rfl
      rw [hstore] at husable
      have hsame := Store.usable_iff.mp husable token hrow
      rw [hvalid] at hsame
      exact hne (Option.some.inj hsame)
    | exchangeCode =>
      cases choice with
      | granted response =>
        obtain ⟨-, params, hphase⟩ :
          Phase.may cfg tag.request tag.phase .exchangeCode := (h.orderly _ hmem).1
        obtain ⟨hsome, hincomplete⟩ := not_or.mp (mt (Bool.or_eq_true _ _).mpr hguarded)
        obtain ⟨provider, hprovider, hres⟩ := Option.map_eq_some_iff.mp hrun
        obtain ⟨hr, hstore⟩ := Prod.mk.inj hres
        have hended : (tag.after cfg .exchangeCode r m.before.world.store).phase = .ended := by
          rw [← hr]
          dsimp only [Tag.after, Phase.after]
          rw [hphase]
          exact if_neg hincomplete
        refine ⟨h.quiet_of_ended htask htasks horderly hended, fun husable => ?_⟩
        obtain ⟨hnew, -, -, hvalid, hrotated⟩ := Provider.exchanged_of_exchange hprovider
        obtain ⟨new, hanswer⟩ := hrotated hrotates
        obtain ⟨token, htoken⟩ :=
          Option.ne_none_iff_exists'.mp (mt Option.isNone_iff_eq_none.mpr hsome)
        rw [← hstore] at husable
        have hsame := Store.usable_iff.mp husable token htoken
        dsimp only at hsame
        rw [hvalid, hanswer] at hsame
        refine h.issued token htoken ?_
        rw [← Option.some.inj hsame]
        exact (hnew new (mem_append_right _ (Option.mem_toList.mpr hanswer))).1
      | _ => exact absurd rfl hguarded
    | _ => exact absurd rfl hguarded

theorem path_usable_iff (hrotates : cfg.rotates = true) (h : (connection cfg).Path c ms c')
    (halone : ∀ m ∈ ms, Move.alone m = true) (hc : Alone c) :
    (∀ m ∈ ms, Config.quiet cfg m.after = true → m.after.world.store.usable = true) ↔
      ∀ m ∈ ms, Move.guarded m = true := by
  induction h with
  | nil => exact ⟨fun _ m hm => absurd hm not_mem_nil, fun _ m hm => absurd hm not_mem_nil⟩
  | @cons c d c' input ms hstep hpath ih =>
    have hrest : ∀ m ∈ ms, Move.alone m = true := fun m hm => halone m (mem_cons_of_mem _ hm)
    rw [forall_mem_cons, forall_mem_cons]
    by_cases hguarded : Move.guarded (⟨c, input, d⟩ : Move cfg) = true
    · have hnext := Move.keeps_alone hrotates (m := ⟨c, input, d⟩) hstep
        (halone _ mem_cons_self) hguarded hc
      rw [ih hrest hnext]
      exact ⟨fun hall => ⟨hguarded, hall.2⟩, fun hall => ⟨hnext.quiet, hall.2⟩⟩
    · obtain ⟨hquiet, hunusable⟩ := Move.spoils hrotates (m := ⟨c, input, d⟩) hstep hguarded hc
      exact ⟨fun hall => absurd (hall.1 hquiet) hunusable, fun hall => absurd hall.1 hguarded⟩

/-- **The stored refresh token is usable after every request if and only if every rotated token is
written while the hash column is empty or has the hash of the stored token, and no code is exchanged
by a callback that lacks something required while a token is stored.** -/
theorem stored_token_usable_iff (hrotates : cfg.rotates = true) {params : Params}
    (h : (connection cfg).Path (initial cfg (created params)) ms c)
    (halone : ∀ m ∈ ms, Move.alone m = true) :
    (∀ m ∈ ms, Config.quiet cfg m.after = true → m.after.world.store.usable = true) ↔
      ∀ m ∈ ms, Move.guarded m = true :=
  path_usable_iff hrotates h halone (initial_alone params)

end Runs

/-- An answer with two tokens. -/
def grantOfTokens (accessToken refreshToken : String) : GrantResponse :=
  ⟨some (.text accessToken), some (.text refreshToken), none, 0⟩

/-- The inputs of a callback that stores a grant. -/
def callbackInputs (i : ℕ) (response : GrantResponse) :
    List (Tasks.System.Input (connection (plainSettings true))) :=
  [.outside (.arrive (.callback fun _ => none)), .task i .none, .task i (.granted response),
    .task i .none]

/-- A callback and a resolution that rotates the token. -/
def rotationInputs : List (Tasks.System.Input (connection (plainSettings true))) :=
  callbackInputs 0 (grantOfTokens "a0" "r0") ++
    .outside (.arrive .resolve) :: refreshInputs true 1 6 ⟨"a1", some "r1", none⟩

/-- The rotated token is stored, and valid. -/
theorem stored_token_usable_iff_rotated :
    ∃ ms c, (connection (plainSettings true)).Path (initial _ (created plainParams)) ms c ∧
      (∀ m ∈ ms, Move.alone m = true) ∧ (∀ m ∈ ms, Move.guarded m = true) ∧
      c.world.store.row.params.text "refresh_token" = some "r1" ∧
      ∀ m ∈ ms, Config.quiet _ m.after = true → m.after.world.store.usable = true := by
  obtain ⟨ms, c, hpath, halone, hguarded, hrow⟩ :
      ∃ ms c, (connection (plainSettings true)).Path (initial _ (created plainParams)) ms c ∧
        (∀ m ∈ ms, Move.alone m = true) ∧ (∀ m ∈ ms, Move.guarded m = true) ∧
        c.world.store.row.params.text "refresh_token" = some "r1" :=
    exists_path _ [rotationInputs] (by decide +kernel)
  exact ⟨ms, c, hpath, halone, hguarded, hrow,
    (stored_token_usable_iff rfl hpath halone).mpr hguarded⟩

/-- **A rotation after a reconnect is lost.** The hash column has the hash of a token of the first
grant, so the write of the token that was rotated from the second grant affects no row. -/
theorem reconnect_loses_rotation :
    ∃ ms c, (connection (plainSettings true)).Path (initial _ (created plainParams)) ms c ∧
      (∀ m ∈ ms, Move.alone m = true) ∧ Config.quiet _ c = true ∧
      ¬ c.world.store.usable = true := by
  exact exists_path _ [rotationInputs, callbackInputs 2 (grantOfTokens "a2" "r2"),
    [.outside (.arrive .resolve)], refreshInputs true 3 8 ⟨"a3", some "r3", none⟩]
      (by decide +kernel)

/-- A connection type whose callbacks have to tell the realm. -/
def realmSettings : Settings where
  descriptor :=
    { plainDescriptor with
      extraCallbackParams := [⟨"realm_id", "realmId", true⟩]
      extra_plain := by decide }
  refreshTokenHash := id
  toRfc3339 := toString
  parseRfc3339 := String.toNat?
  oneTime := true
  rotates := true

/-- **A callback that lacks something required loses the grant.** The code has been exchanged, so
the token that is stored is not valid any more. -/
theorem incomplete_callback_loses_grant :
    ∃ ms c, (connection realmSettings).Path (initial _ (created plainParams)) ms c ∧
      (∀ m ∈ ms, Move.alone m = true) ∧ Config.quiet _ c = true ∧
      ¬ c.world.store.usable = true := by
  exact (connection realmSettings).exists_path [
    [.outside (.arrive (.callback fun _ => some "1")), .task 0 .none,
      .task 0 (.granted (grantOfTokens "a0" "r0")), .task 0 .none],
    [.outside (.arrive (.callback fun _ => none)), .task 1 .none,
      .task 1 (.granted (grantOfTokens "a1" "r1"))]] (by decide +kernel)

end Runtara.Connection
