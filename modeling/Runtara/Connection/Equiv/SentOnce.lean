/-
  When a refresh token is sent only once.

  A resolution sends the refresh token it has read with the row, and writes the new one after it has
  given the lock back. A token that it has read is the row's or has been sent (`Single`). So a token
  is sent twice exactly if a resolution sends one that the row no longer has, or sends one while
  another resolution has an answer that it has not written yet (`sent_once_iff`). The lock and the
  cache do not rule that out for short-lived access tokens (`token_sent_twice`).
-/
import Mathlib.Data.List.Nodup
import Runtara.Connection.Equiv.Step

namespace Runtara.Connection

open List

open Tasks (AtMostOne Prog forall_mem_concat forall_mem_set)

variable {cfg : Settings}

/-- The answer to a refresh has not been written yet. -/
def Phase.isRotated : Phase → Bool
  | .rotated _ _ => true
  | _ => false

theorem Phase.eq_of_isRotated {p : Phase} (h : p.isRotated = true) :
    ∃ params response, p = .rotated params response := by
  cases p with
  | rotated params response => exact ⟨params, response, rfl⟩
  | _ => cases h

namespace Move

/-- Only resolutions arrive, the process goes on, and no refresh fails. -/
def ordinary (m : Move cfg) : Bool :=
  match m.input with
  | .outside (.arrive .resolve) => true
  | .outside _ => false
  | .task _ (.failed _) => false
  | .task _ _ => true

/-- A refresh token that is sent is the one of the row, and no answer is waiting to be written. -/
def current (m : Move cfg) : Bool :=
  match m.caller with
  | some (_, .store (.refresh token)) =>
    m.before.world.store.row.params.text "refresh_token" = some token &&
      m.before.tasks.all fun t => !t.tag.phase.isRotated
  | _ => true

end Move

/-! ### What is kept -/

/-- The row, what was sent and what the resolutions have read. -/
structure Single (c : Config cfg) : Prop where
  orderly : Orderly c
  resolve : ∀ t ∈ c.tasks, t.tag.request = .resolve
  hash : c.world.store.row.refreshTokenHash = none ∨ c.world.store.row.refreshTokenHash =
    (c.world.store.row.params.text "refresh_token").map cfg.refreshTokenHash
  nodup : c.world.store.sent.Nodup
  issued : ∀ token ∈ c.world.store.sent, c.world.store.provider.grantOf token ≠ none
  read : ∀ t ∈ c.tasks, ∀ params, t.tag.phase = .read params → ∀ token,
    params.text "refresh_token" = some token →
      c.world.store.row.params.text "refresh_token" = some token ∨ token ∈ c.world.store.sent
  unsent : (∀ t ∈ c.tasks, t.tag.phase.isRotated = false) → ∀ token,
    c.world.store.row.params.text "refresh_token" = some token → token ∉ c.world.store.sent
  rotated : ∀ t ∈ c.tasks, ∀ params response, t.tag.phase = .rotated params response →
    params.text "refresh_token" = c.world.store.row.params.text "refresh_token" ∧
    (∃ token ∈ c.world.store.sent, params.text "refresh_token" = some token) ∧
    ∃ new, response.refreshToken = some new ∧ new ∉ c.world.store.sent
  one : ∀ (i j : ℕ) (t u : Task), c.tasks[i]? = some t → c.tasks[j]? = some u →
    t.tag.phase.isRotated = true → u.tag.phase.isRotated = true → i = j

theorem initial_single {row : Row} (hhash : row.refreshTokenHash = none ∨
    row.refreshTokenHash = (row.params.text "refresh_token").map cfg.refreshTokenHash) :
    Single (initial cfg row) := by
  have hnone : ∀ t, t ∉ (initial cfg row).tasks := fun t => not_mem_nil
  exact ⟨initial_orderly row, fun t ht => absurd ht (hnone t), hhash, nodup_nil,
    fun token htoken => absurd htoken not_mem_nil, fun t ht => absurd ht (hnone t),
    fun _ token _ => not_mem_nil, fun t ht => absurd ht (hnone t),
    fun i j t u ht => absurd (mem_of_getElem? ht) (hnone t)⟩

section Step

variable {c c' : Config cfg} {i : ℕ} {tag tag' : Tag} {p p' : Prog Op Op.Ret Unit}

/-- A request goes on without sending or writing anything. -/
theorem Single.advance (h : Single c) (htask : c.tasks[i]? = some ⟨tag, p⟩)
    (htasks : c'.tasks = c.tasks.set i ⟨tag', p'⟩) (horderly : Orderly c')
    (hrequest : tag'.request = tag.request)
    (hparams : c'.world.store.row.params = c.world.store.row.params)
    (hhash : c'.world.store.row.refreshTokenHash = c.world.store.row.refreshTokenHash)
    (hsent : c'.world.store.sent = c.world.store.sent)
    (hprovider : c'.world.store.provider = c.world.store.provider)
    (hphase : tag'.phase = tag.phase ∨ tag.phase.isRotated = false ∧ tag'.phase.isRotated = false ∧
      ∀ params, tag'.phase = .read params → params = c.world.store.row.params) : Single c' := by
  have hmem := mem_of_getElem? htask
  have hsame : tag'.phase.isRotated = tag.phase.isRotated := by
    rcases hphase with hphase | ⟨hold, hnew, -⟩
    · rw [hphase]
    · rw [hold, hnew]
  refine ⟨horderly, ?_, ?_, ?_, ?_, ?_, fun hnone => ?_, ?_, ?_⟩
  · rw [htasks]
    exact forall_mem_set h.resolve (hrequest.trans (h.resolve _ hmem))
  · rw [hhash, hparams]
    exact h.hash
  · rw [hsent]
    exact h.nodup
  · rw [hsent, hprovider]
    exact h.issued
  · rw [htasks, hparams, hsent]
    refine forall_mem_set h.read fun params hread token htoken => ?_
    rcases hphase with hphase | ⟨-, -, hnew⟩
    · exact h.read _ hmem params (hphase ▸ hread) token htoken
    · rw [hnew params hread] at htoken
      exact Or.inl htoken
  · rw [hparams, hsent]
    refine h.unsent fun t ht => ?_
    obtain ⟨j, hj⟩ := mem_iff_getElem?.mp ht
    by_cases hij : j = i
    · subst hij
      obtain rfl : t = ⟨tag, p⟩ := Option.some.inj (hj.symm.trans htask)
      have hcaller := hnone ⟨tag', p'⟩ (by
        rw [htasks]
        exact mem_set (List.getElem?_eq_some_iff.mp htask).1 _)
      exact hsame ▸ hcaller
    · refine hnone t ?_
      rw [htasks]
      exact mem_of_getElem? ((getElem?_set_ne (Ne.symm hij)).trans hj)
  · rw [htasks, hparams, hsent]
    refine forall_mem_set h.rotated fun params response hrotated => ?_
    rcases hphase with hphase | ⟨-, hnew, -⟩
    · exact h.rotated _ hmem params response (hphase ▸ hrotated)
    · rw [hrotated] at hnew
      cases hnew
  · rw [htasks]
    exact AtMostOne.set h.one htask fun hrotated => Or.inl (hsame ▸ hrotated)

/-- A refresh that is answered: its token was the row's and has now been sent. -/
theorem Single.refreshed {token : String} {next : (Op.store (.refresh token)).Ret → Calls Unit}
    {response : TokenResponse} {provider : Provider} (hrotates : cfg.rotates = true) (h : Single c)
    (htask : c.tasks[i]? = some ⟨tag, .call (.store (.refresh token)) next⟩)
    (hrow : c.world.store.row.params.text "refresh_token" = some token)
    (hnone : ∀ t ∈ c.tasks, t.tag.phase.isRotated = false)
    (hprovider : c.world.store.provider.refresh cfg token response = some provider)
    (hstore : c'.world.store =
      { c.world.store with provider, sent := token :: c.world.store.sent })
    (htasks : c'.tasks = c.tasks.set i
      ⟨tag.after cfg (.refresh token) (.ok response) c.world.store, p'⟩)
    (horderly : Orderly c') : Single c' := by
  have hmem := mem_of_getElem? htask
  obtain ⟨-, params, hphase, hparams⟩ : Phase.may cfg tag.request tag.phase (.refresh token) :=
    (h.orderly _ hmem).1
  have hphase' : (tag.after cfg (.refresh token) (.ok response) c.world.store).phase =
      .rotated params response := by
    dsimp only [Tag.after, Phase.after]
    rw [hphase]
  obtain ⟨⟨g, hgrant, hnew⟩, hkeeps, -, -, -, hsome⟩ := Provider.refreshed_of_refresh hprovider
  obtain ⟨new, hresponse⟩ := Option.isSome_iff_exists.mp (hsome hrotates)
  have hunsent := h.unsent hnone token hrow
  have hfresh : c.world.store.provider.grantOf new = none := by
    refine (hnew new ?_).1
    rw [hresponse]
    exact mem_cons_of_mem _ (mem_singleton.mpr rfl)
  have hnewunsent : new ∉ token :: c.world.store.sent := by
    intro hmem
    rcases mem_cons.mp hmem with rfl | hmem
    · rw [hfresh] at hgrant
      cases hgrant
    · exact h.issued new hmem hfresh
  obtain ⟨⟨store, memory⟩, tasks⟩ := c'
  obtain rfl : store = _ := hstore
  obtain rfl : tasks = _ := htasks
  refine ⟨horderly, forall_mem_set h.resolve (show tag.request = .resolve from h.resolve _ hmem),
    h.hash, nodup_cons.mpr ⟨hunsent, h.nodup⟩, fun t ht => ?_, ?_, fun hno => ?_, ?_, ?_⟩
  · have hold : ∃ g, c.world.store.provider.grantOf t = some g := by
      rcases mem_cons.mp ht with rfl | ht
      · exact ⟨g, hgrant⟩
      · exact Option.ne_none_iff_exists'.mp (h.issued t ht)
    obtain ⟨g', hg'⟩ := hold
    rw [hkeeps t g' hg']
    nofun
  · refine forall_mem_set (fun t ht params' hread token' htoken' => ?_) fun params' hread => ?_
    · exact (h.read t ht params' hread token' htoken').imp_right (mem_cons_of_mem _)
    · rw [hphase'] at hread
      cases hread
  · -- the one that has refreshed has not written yet
    have hcaller := hno _ (mem_set (List.getElem?_eq_some_iff.mp htask).1 _)
    rw [hphase'] at hcaller
    cases hcaller
  · refine forall_mem_set (fun t ht params' response' hrotated => ?_)
      fun params' response' hrotated => ?_
    · have hnot := hnone t ht
      rw [hrotated] at hnot
      cases hnot
    · rw [hphase'] at hrotated
      cases hrotated
      exact ⟨hparams.trans hrow.symm, ⟨token, mem_cons_self, hparams⟩, new, hresponse,
        hnewunsent⟩
  · exact AtMostOne.set h.one htask fun _ => Or.inr fun t ht => Bool.eq_false_iff.mp (hnone t ht)

/-- The answer is written: the row now has a token that has not been sent. -/
theorem Single.persisted {parameters : Params} {expectedHash newHash : Option String}
    {next : (Op.store (.persistRefreshedOauth parameters expectedHash newHash)).Ret → Calls Unit}
    {r : Bool} (h : Single c)
    (htask : c.tasks[i]? =
      some ⟨tag, .call (.store (.persistRefreshedOauth parameters expectedHash newHash)) next⟩)
    (hruns : Runs cfg tag.request c.world.store
      (.persistRefreshedOauth parameters expectedHash newHash) r c'.world.store)
    (htasks : c'.tasks = c.tasks.set i
      ⟨tag.after cfg (.persistRefreshedOauth parameters expectedHash newHash) r c.world.store, p'⟩)
    (horderly : Orderly c') : Single c' := by
  have hmem := mem_of_getElem? htask
  obtain ⟨-, params, response, hphase, rfl, rfl, rfl⟩ :
    Phase.may cfg tag.request tag.phase (.persistRefreshedOauth parameters expectedHash newHash) :=
    (h.orderly _ hmem).1
  obtain ⟨hsame, ⟨token, hsent, htoken⟩, new, hresponse, hnew⟩ :=
    h.rotated _ hmem params response hphase
  have hguard : c.world.store.row.refreshTokenHash = none ∨ c.world.store.row.refreshTokenHash =
      (params.text "refresh_token").map cfg.refreshTokenHash := by
    rw [hsame]
    exact h.hash
  have hnewRefresh : newRefreshToken params response = some new := by
    unfold newRefreshToken
    rw [hresponse]
    rfl
  have hrow : (mergeRotated cfg params response).text "refresh_token" = some new :=
    (mergeRotated_refreshToken response).trans hnewRefresh
  -- the others are not between refresh and write
  have hothers : ∀ (j : ℕ) (t : Task), c'.tasks[j]? = some t → t.tag.phase.isRotated = false ∧
      (t ∈ c.tasks ∨ t.tag.phase = .ended) := by
    intro j t ht
    rw [htasks] at ht
    rcases Tasks.getElem?_set_cases ht with ⟨-, rfl⟩ | ⟨hj, ht⟩
    · exact ⟨rfl, Or.inr rfl⟩
    · refine ⟨?_, Or.inl (mem_of_getElem? ht)⟩
      by_contra hrotated
      rw [Bool.not_eq_false] at hrotated
      exact hj (h.one j i t _ ht htask hrotated (by rw [hphase]; rfl))
  obtain ⟨⟨store, memory⟩, tasks⟩ := c'
  obtain rfl : store = { c.world.store with row :=
      ⟨mergeRotated cfg params response, (newRefreshToken params response).map cfg.refreshTokenHash,
        c.world.store.row.version + 1⟩ } := by
    cases hruns with
    | persisted _ => rfl
    | notPersisted hnot => exact absurd hguard hnot
  obtain rfl : tasks = _ := htasks
  refine ⟨horderly, forall_mem_set h.resolve (show tag.request = .resolve from h.resolve _ hmem),
    Or.inr ?_, h.nodup, h.issued, ?_, fun _ => ?_, ?_, ?_⟩
  · rw [hrow, hnewRefresh]
  · intro t ht params' hread token' htoken'
    obtain ⟨j, hj⟩ := mem_iff_getElem?.mp ht
    rcases (hothers j t hj).2 with ht | hended
    · -- what was the row's has been sent
      rcases h.read t ht params' hread token' htoken' with hold | hold
      · rw [← hsame, htoken] at hold
        cases hold
        exact Or.inr hsent
      · exact Or.inr hold
    · rw [hended] at hread
      cases hread
  · rw [hrow]
    rintro _ ⟨⟩
    exact hnew
  · intro t ht params' response' hrotated
    obtain ⟨j, hj⟩ := mem_iff_getElem?.mp ht
    have hnot := (hothers j t hj).1
    rw [hrotated] at hnot
    cases hnot
  · intro j k t u ht hu hrt hru
    rw [(hothers j t ht).1] at hrt
    cases hrt

theorem Single.arrive (h : Single c) (hstore : c'.world.store = c.world.store)
    (htasks : c'.tasks = c.tasks ++ [⟨{ request := .resolve }, program cfg .resolve⟩])
    (horderly : Orderly c') : Single c' := by
  obtain ⟨⟨store, memory⟩, tasks⟩ := c'
  obtain rfl : store = _ := hstore
  obtain rfl : tasks = _ := htasks
  refine ⟨horderly, forall_mem_concat h.resolve rfl, h.hash, h.nodup, h.issued, ?_, fun hno => ?_,
    ?_, AtMostOne.concat h.one Bool.false_ne_true⟩
  · exact forall_mem_concat h.read fun _ hread => by cases hread
  · exact h.unsent fun t ht => hno t (mem_append_left _ ht)
  · exact forall_mem_concat h.rotated fun _ _ hrotated => by cases hrotated

end Step

/-! ### Whole runs -/

section Runs

variable {m : Move cfg} {c c' : Config cfg} {ms : List (Move cfg)}

theorem eq_failed_of_run {token : String} {choice : Choice} {request : Request} {s s' : Store}
    {error : RefreshError}
    (h : StoreOp.run cfg request (.refresh token) choice s = some (.error error, s')) :
    choice = .failed error := by
  cases choice with
  | answer response =>
    obtain ⟨_, -, hres⟩ := Option.map_eq_some_iff.mp h
    cases hres
  | failed error' =>
    cases h
    rfl
  | _ => cases h

theorem Move.single (hrotates : cfg.rotates = true) (hm : m.Valid)
    (hordinary : Move.ordinary m = true) (hcurrent : Move.current m = true)
    (h : Single m.before) : Single m.after := by
  have horderly := Move.orderly hm h.orderly
  cases Move.change hm with
  | memory i tag op next r hcaller htask hstore htasks =>
    refine h.advance htask htasks horderly rfl ?_ ?_ ?_ ?_ (Or.inl rfl) <;> rw [hstore]
  | arrive request hinput hcaller hstore htasks =>
    unfold Move.ordinary at hordinary
    rw [hinput] at hordinary
    cases request with
    | resolve => exact h.arrive hstore htasks horderly
    | _ => cases hordinary
  | restart hinput hcaller hstore htasks =>
    unfold Move.ordinary at hordinary
    rw [hinput] at hordinary
    cases hordinary
  | store i tag op next r choice hinput hcaller htask hrun htasks =>
    have hmem := mem_of_getElem? htask
    have hrequest : tag.request = .resolve := h.resolve _ hmem
    have hmay : Phase.may cfg tag.request tag.phase op := (h.orderly _ hmem).1
    have hruns := runs_of_run hrun
    cases op with
    | getConnection =>
      generalize hs : m.after.world.store = s at hruns
      cases hruns
      refine h.advance htask htasks horderly rfl (by rw [hs]) (by rw [hs]) (by rw [hs]) (by rw [hs])
        (Or.inr ⟨by rw [show tag.phase = .arrived from hmay]; rfl, ?_⟩)
      have hended : (tag.after cfg .getConnection m.before.world.store.row.version
          m.before.world.store).phase = .ended := by
        dsimp only [Tag.after, Phase.after]
        rw [hrequest]
      rw [hended]
      exact ⟨rfl, nofun⟩
    | getWithParameters =>
      generalize hs : m.after.world.store = s at hruns
      cases hruns
      refine h.advance htask htasks horderly rfl (by rw [hs]) (by rw [hs]) (by rw [hs]) (by rw [hs])
        (Or.inr ⟨?_, rfl, ?_⟩)
      · rcases hmay with hphase | ⟨hphase, -⟩ <;> rw [hphase] <;> rfl
      · rintro params ⟨⟩
        rfl
    | refresh token =>
      have hrow : m.before.world.store.row.params.text "refresh_token" = some token ∧
          ∀ t ∈ m.before.tasks, t.tag.phase.isRotated = false := by
        unfold Move.current at hcurrent
        rw [hcaller] at hcurrent
        obtain ⟨hrow, hnone⟩ := (Bool.and_eq_true _ _).mp hcurrent
        refine ⟨of_decide_eq_true hrow, fun t ht => ?_⟩
        have hnot := all_eq_true.mp hnone t ht
        exact (Bool.not_eq_true' _).mp hnot
      generalize hs : m.after.world.store = s at hruns
      cases hruns with
      | refreshed hprovider =>
        exact h.refreshed hrotates htask hrow.1 hrow.2 hprovider hs htasks horderly
      | refreshFailed =>
        unfold Move.ordinary at hordinary
        rw [hinput, eq_failed_of_run hrun] at hordinary
        cases hordinary
    | persistRefreshedOauth parameters expectedHash newHash =>
      exact h.persisted htask hruns htasks horderly
    | updateStatus =>
      obtain ⟨-, params, hphase⟩ := hmay
      generalize hs : m.after.world.store = s at hruns
      cases hruns
      refine h.advance htask htasks horderly rfl ?_ ?_ ?_ ?_
        (Or.inr ⟨by rw [hphase]; rfl, rfl, nofun⟩) <;> rw [hs] <;> rfl
    | exchangeCode =>
      obtain ⟨⟨query, hcallback⟩, -⟩ := hmay
      rw [hrequest] at hcallback
      cases hcallback
    | updateParametersAndStatus parameters =>
      obtain ⟨_, _, _, _, -, hcallback, -⟩ := hmay
      rw [hrequest] at hcallback
      cases hcallback
    | update parameters version =>
      cases parameters with
      | none =>
        obtain ⟨hedit, -⟩ := hmay
        rw [hrequest] at hedit
        cases hedit
      | some parameters =>
        obtain ⟨_, _, _, -, hedit, -⟩ := hmay
        rw [hrequest] at hedit
        cases hedit

/-- A token that is sent although it is not current has been sent before. -/
theorem Move.sent_twice (hm : m.Valid) (hcurrent : ¬ Move.current m = true) (h : Single m.before) :
    ¬ m.after.world.store.sent.Nodup := by
  cases Move.change hm with
  | memory i tag op next r hcaller | arrive request hinput hcaller | restart hinput hcaller =>
    unfold Move.current at hcurrent
    rw [hcaller] at hcurrent
    exact absurd rfl hcurrent
  | store i tag op next r choice hinput hcaller htask hrun htasks =>
    have hmem := mem_of_getElem? htask
    unfold Move.current at hcurrent
    rw [hcaller] at hcurrent
    cases op with
    | refresh token =>
      obtain ⟨-, params, hphase, htoken⟩ :
        Phase.may cfg tag.request tag.phase (.refresh token) := (h.orderly _ hmem).1
      have hsent : token ∈ m.before.world.store.sent := by
        rcases h.read _ hmem params hphase token htoken with hrow | hsent
        · -- the row has it, so somebody has not written the answer yet
          dsimp only at hcurrent
          rw [decide_eq_true hrow, Bool.true_and, all_eq_true] at hcurrent
          obtain ⟨t, ht⟩ := not_forall.mp hcurrent
          obtain ⟨ht, hrotated⟩ := Classical.not_imp.mp ht
          rw [Bool.not_eq_true', Bool.not_eq_false] at hrotated
          obtain ⟨params', response, hphase'⟩ := Phase.eq_of_isRotated hrotated
          obtain ⟨hsame, ⟨token', hsent, htoken'⟩, -⟩ := h.rotated t ht params' response hphase'
          rw [hsame, hrow] at htoken'
          cases htoken'
          exact hsent
        · exact hsent
      have hruns := runs_of_run hrun
      generalize m.after.world.store = s at hruns
      cases hruns with
      | refreshed | refreshFailed => exact fun hnodup => (nodup_cons.mp hnodup).1 hsent
    | _ => exact absurd rfl hcurrent

theorem Move.sent_suffix (hm : m.Valid) :
    m.before.world.store.sent <:+ m.after.world.store.sent := by
  cases Move.change hm with
  | memory i tag op next r hcaller htask hstore | arrive request hinput hcaller hstore
  | restart hinput hcaller hstore =>
    exact hstore ▸ suffix_rfl
  | store i tag op next r choice hinput hcaller htask hrun htasks =>
    have hruns := runs_of_run hrun
    generalize m.after.world.store = s at hruns
    cases hruns with
    | refreshed | refreshFailed => exact suffix_cons _ _
    | _ => exact suffix_rfl

theorem path_sent_suffix (h : (connection cfg).Path c ms c') :
    c.world.store.sent <:+ c'.world.store.sent := by
  induction h with
  | nil => exact suffix_rfl
  | cons hstep _ ih => exact (Move.sent_suffix (m := ⟨_, _, _⟩) hstep).trans ih

theorem path_sent_nodup_iff (hrotates : cfg.rotates = true) (h : (connection cfg).Path c ms c')
    (hordinary : ∀ m ∈ ms, Move.ordinary m = true) (hc : Single c) :
    c'.world.store.sent.Nodup ↔ ∀ m ∈ ms, Move.current m = true := by
  induction h with
  | nil => exact ⟨fun _ m hm => absurd hm not_mem_nil, fun _ => hc.nodup⟩
  | @cons c d c' input ms hstep hpath ih =>
    have hrest : ∀ m ∈ ms, Move.ordinary m = true :=
      fun m hm => hordinary m (mem_cons_of_mem _ hm)
    rw [forall_mem_cons]
    by_cases hcurrent : Move.current (⟨c, input, d⟩ : Move cfg) = true
    · have hnext := Move.single hrotates (m := ⟨c, input, d⟩) hstep
        (hordinary _ mem_cons_self) hcurrent hc
      rw [ih hrest hnext]
      exact ⟨fun hall => ⟨hcurrent, hall⟩, fun hall => hall.2⟩
    · have htwice := Move.sent_twice (m := ⟨c, input, d⟩) hstep hcurrent hc
      refine ⟨fun hnodup => absurd ?_ htwice, fun hall => absurd hall.1 hcurrent⟩
      exact hnodup.sublist (path_sent_suffix hpath).sublist

/-- **No refresh token is sent twice if and only if each one that is sent is still the row's and no
answer to an earlier refresh is waiting to be written.** -/
theorem sent_once_iff (hrotates : cfg.rotates = true) {row : Row}
    (hhash : row.refreshTokenHash = none ∨
      row.refreshTokenHash = (row.params.text "refresh_token").map cfg.refreshTokenHash)
    (h : (connection cfg).Path (initial cfg row) ms c)
    (hordinary : ∀ m ∈ ms, Move.ordinary m = true) :
    c.world.store.sent.Nodup ↔ ∀ m ∈ ms, Move.current m = true :=
  path_sent_nodup_iff hrotates h hordinary (initial_single hhash)

end Runs

/-- Two resolutions that refresh one after the other. -/
theorem sent_once_iff_rotated :
    ∃ ms c, (connection (plainSettings true)).Path (initial _ authorizedRow) ms c ∧
      (∀ m ∈ ms, Move.ordinary m = true) ∧ c.world.store.sent = ["r1", "r0"] ∧
      ∀ m ∈ ms, Move.current m = true := by
  obtain ⟨ms, c, hpath, hordinary, hsent⟩ :
      ∃ ms c, (connection (plainSettings true)).Path (initial _ authorizedRow) ms c ∧
        (∀ m ∈ ms, Move.ordinary m = true) ∧ c.world.store.sent = ["r1", "r0"] :=
    (connection (plainSettings true)).exists_path [
      [.outside (.arrive .resolve)], refreshInputs true 0 5 ⟨"a1", some "r1", none⟩,
      [.outside (.arrive .resolve)], refreshInputs true 1 8 ⟨"a2", some "r2", none⟩]
      (by decide +kernel)
  refine ⟨ms, c, hpath, hordinary, hsent, ?_⟩
  refine (sent_once_iff rfl (Or.inl rfl) hpath hordinary).mp ?_
  rw [hsent]
  decide

/-- **A refresh token is sent twice.** Two resolutions have read it; the access token that the first
one gets is not fresh for long enough to be taken by the second. -/
theorem token_sent_twice :
    ∃ ms c, (connection (plainSettings false)).Path (initial _ authorizedRow) ms c ∧
      (∀ m ∈ ms, Move.ordinary m = true) ∧ ¬ c.world.store.sent.Nodup := by
  exact (connection (plainSettings false)).exists_path [
    [.outside (.arrive .resolve), .outside (.arrive .resolve), .task 0 .none, .task 1 .none],
    refreshInputs false 0 4 ⟨"a1", some "r1", some (100 * second)⟩,
    refreshInputs false 1 6 ⟨"a2", some "r2", some (100 * second)⟩] (by decide +kernel)

end Runtara.Connection
