/-
  Interning of a scope, and the source envelope.

  The entries of a container are interned one after the other, each in the arena that the ones
  before it left, and the container then stands for what it was (`stands_internContainer`). The
  envelope of `build_source` is put together from three such containers; it has no handles but
  theirs (`allHandles_sourceEnvelope`).
-/
import Runtara.Interning.Equiv.Arena

namespace Runtara

open Json List

/-! ### Related lists -/

section Forall₂

variable {α β γ : Type} {R : α → β → Prop} {l : List α} {l' : List β}

theorem forall₂_mem (h : List.Forall₂ R l l') : List.Forall₂ (fun x y => x ∈ l ∧ R x y) l l' :=
  forall₂_iff_zip.mpr
    ⟨h.length_eq, fun hzip => ⟨(of_mem_zip hzip).1, forall₂_zip h hzip⟩⟩

theorem exists_of_forall₂ (h : List.Forall₂ R l l') : ∀ y ∈ l', ∃ x ∈ l, R x y := by
  induction h with
  | nil => exact fun y hy => absurd hy not_mem_nil
  | cons hxy _ ih =>
    intro y hy
    rcases mem_cons.mp hy with rfl | hy
    · exact ⟨_, mem_cons_self, hxy⟩
    · obtain ⟨x, hx, hR⟩ := ih y hy
      exact ⟨x, mem_cons_of_mem _ hx, hR⟩

theorem map_eq_of_forall₂ {f : α → γ} {g : β → γ} (h : List.Forall₂ R l l')
    (hR : ∀ x y, R x y → g y = f x) : l'.map g = l.map f := by
  induction h with
  | nil => rfl
  | cons hxy _ ih => rw [map_cons, map_cons, ih, hR _ _ hxy]

end Forall₂

section Interning

variable {ν : Type} [NumberOps ν]

/-! ### Containers -/

namespace Arena

variable {a a' : Arena} (hash : String → UInt64)

theorem nextId_le_internIfLarge (a : Arena) (v : Value ν) :
    a.nextId ≤ (a.internIfLarge hash v).2.nextId := by
  obtain h | ⟨_, _, ⟨_, _, _, _, h⟩ | ⟨_, h⟩⟩ := internIfLarge_cases hash a v
  · rw [h]
  · rw [h]
  · rw [h]
    exact Nat.le_succ _

theorem nextId_le_internScopeEntries (a : Arena) (es : Entries ν) :
    a.nextId ≤ (a.internScopeEntries hash es).2.nextId := by
  induction es generalizing a with
  | nil => exact Nat.le_refl _
  | cons e es ih => exact (nextId_le_internIfLarge hash a e.2).trans (ih _)

theorem nextId_le_internContainer (a : Arena) (c : Value ν) :
    a.nextId ≤ (a.internContainer hash c).2.nextId := by
  cases c with
  | object es => exact nextId_le_internScopeEntries hash a es
  | _ => exact Nat.le_refl _

/-- A container whose entries stand for those it had stands for what it was. -/
theorem stands_object {es es' : Entries ν} (ha : a.Wf ν) (ha' : a'.Wf ν)
    (hext : a.Extends a') (hes : a.Minted (.object es))
    (h : List.Forall₂ (fun e e' => e'.1 = e.1 ∧ a.Stands e.2 a' e'.2) es es') :
    a.Stands (.object es) a' (.object es') := by
  have hnonce : a.store.nonce = a'.store.nonce := hext.nonce
  have hsame : a'.store.wfrefId (.object es') = a.store.wfrefId (.object es) := by
    rw [ValueStore.wfrefId_forall₂ (h.imp fun _ _ h => ⟨h.1, h.2.asU64⟩)]
    exact (ValueStore.wfrefId_congr hnonce _).symm
  cases hid : a.store.wfrefId (.object es) with
  | none =>
    rw [hid] at hsame
    refine ⟨?_, ?_, ?_, rfl⟩
    · refine (ValueStore.allHandles_object hsame).mpr fun e' he' => ?_
      obtain ⟨e, _, hstands⟩ := exists_of_forall₂ h e' he'
      exact hstands.2.minted
    · rw [ValueStore.materialize_object ha'.wellFormed.ordered hsame,
        ValueStore.materialize_object ha.wellFormed.ordered hid]
      exact congrArg Value.object
        (map_eq_of_forall₂ h fun e e' h => congrArg₂ Prod.mk h.1 h.2.same)
    · intro hlive
      refine (ValueStore.allHandles_object hsame).mpr fun e' he' => ?_
      obtain ⟨e, he, hstands⟩ := exists_of_forall₂ h e' he'
      exact hstands.2.live ((ValueStore.allHandles_object hid).mp hlive e he)
  | some id =>
    -- a handle: only its id counts, and that is old
    rw [hid] at hsame
    have hcollect := ValueStore.collectHandleIds_handle hid
    have hcollect' := ValueStore.collectHandleIds_handle hsame
    have hlt : id.toNat < a.nextId := hes id (by rw [hcollect]; exact mem_cons_self)
    have hold : a'.store.materialize (.object es) = a.store.materialize (.object es) :=
      hext.materialize ha ha' hes
    refine ⟨?_, ?_, ?_, rfl⟩
    · intro id' hid'
      rw [hcollect', mem_singleton] at hid'
      exact hid' ▸ hlt.trans_le hext.nextId
    · rw [← hold, ValueStore.materialize_handle ha'.wellFormed.ordered hsame,
        ValueStore.materialize_handle ha'.wellFormed.ordered
          ((ValueStore.wfrefId_congr hnonce _).symm.trans hid)]
    · intro hlive id' hid'
      rw [hcollect', mem_singleton] at hid'
      rw [hid']
      exact hext.liveId ha hlt (hlive id (by rw [hcollect]; exact mem_cons_self))

variable [LawfulNumber ν] [LawfulU64 ν]

/-- Each entry of a container stands for the one it was. -/
theorem stands_internScopeEntries {es : Entries ν} (ha : a.Wf ν)
    (hes : ∀ e ∈ es, a.Given e.2) (hid : (a.internScopeEntries hash es).2.nextId ≤ 2 ^ 64) :
    (a.internScopeEntries hash es).2.Wf ν ∧ a.Extends (a.internScopeEntries hash es).2 ∧
      List.Forall₂ (fun e e' => e'.1 = e.1 ∧ a.Stands e.2 (a.internScopeEntries hash es).2 e'.2)
        es (a.internScopeEntries hash es).1 := by
  induction es generalizing a with
  | nil => exact ⟨ha, .refl a, .nil⟩
  | cons e es ih =>
    rw [forall_mem_cons] at hes
    have hle := nextId_le_internScopeEntries hash (a.internIfLarge hash e.2).2 es
    obtain ⟨hwf₁, hext₁, hstands₁⟩ := stands_internIfLarge hash ha hes.1 (hle.trans hid)
    obtain ⟨hwf₂, hext₂, hstands₂⟩ := ih hwf₁ (fun e he => hext₁.given (hes.2 e he)) hid
    refine ⟨hwf₂, hext₁.trans hext₂, .cons ⟨rfl, hstands₁.grow hwf₁ hwf₂ hext₂⟩ ?_⟩
    refine (forall₂_mem hstands₂).imp fun e e' h => ⟨h.2.1, ?_⟩
    exact h.2.2.of_extends ha hwf₁ hext₁ (hes.2 e h.1).minted

/-- **A container** with its entries interned stands for the container. -/
theorem stands_internContainer {c : Value ν} (ha : a.Wf ν) (hc : a.Minted c)
    (hes : ∀ es, c = .object es → ∀ e ∈ es, a.Given e.2)
    (hid : (a.internContainer hash c).2.nextId ≤ 2 ^ 64) :
    (a.internContainer hash c).2.Wf ν ∧ a.Extends (a.internContainer hash c).2 ∧
      a.Stands c (a.internContainer hash c).2 (a.internContainer hash c).1 := by
  cases c with
  | object es =>
    obtain ⟨hwf, hext, hstands⟩ := stands_internScopeEntries hash ha (hes es rfl) hid
    exact ⟨hwf, hext, stands_object ha hwf hext hc hstands⟩
  | _ => exact ⟨ha, .refl a, stands_self hc⟩

end Arena

end Interning

section Envelope

variable {ν : Type}

/-! ### The input envelope -/

/-- A property that goes from an object to its fields, and that texts have. -/
structure Hereditary (Q : Value ν → Prop) : Prop where
  entries : ∀ es, Q (.object es) → ∀ e ∈ es, Q e.2
  string : ∀ text, Q (.string text)

/-- The value has the property, or at least its fields do if it is an object. -/
def FieldsHave (Q : Value ν → Prop) : Value ν → Prop
  | .object es => ∀ e ∈ es, Q e.2
  | v => Q v

variable {v : Value ν}

theorem FieldsHave.mono {Q Q' : Value ν → Prop} (h : ∀ v, Q v → Q' v)
    (hv : FieldsHave Q v) : FieldsHave Q' v := by
  cases v with
  | object es => exact fun e he => h e.2 (hv e he)
  | _ => exact h _ hv

theorem FieldsHave.entries {Q : Value ν → Prop} (hv : FieldsHave Q v) :
    ∀ es, v = .object es → ∀ e ∈ es, Q e.2 := by
  rintro es rfl
  exact hv

section Hereditary

variable {Q : Value ν → Prop} (hQ : Hereditary Q)

include hQ

theorem Hereditary.fieldsHave (hv : Q v) : FieldsHave Q v := by
  cases v with
  | object es => exact hQ.entries es hv
  | _ => exact hv

theorem Hereditary.get {v w : Value ν} {k : String} (hv : Q v) (hw : v.get k = some w) : Q w := by
  cases v with
  | object es => exact hQ.entries es hv _ (mem_of_lookupEntry hw)
  | _ => cases hw

theorem Hereditary.unwrapEnvelope {data vars : Value ν} (hdata : Q data) (hvars : Q vars) :
    Q (unwrapEnvelope data vars).1 ∧ FieldsHave Q (unwrapEnvelope data vars).2 := by
  unfold Runtara.unwrapEnvelope
  split
  · exact ⟨hdata, hQ.fieldsHave hvars⟩
  next inner hinner =>
  refine ⟨?_, ?_⟩
  · split <;> exact hQ.get hdata hinner
  split
  · next runtimeVars defaults hruntime =>
    have hfields : ∀ e ∈ runtimeVars, Q e.2 := hQ.entries _ (hQ.get hdata hruntime)
    -- each runtime variable is inserted over the declared ones
    unfold mergeRuntimeVariables
    have hnew : ∀ e ∈ runtimeVars.filter fun e => overridable e.1, Q e.2 :=
      fun e he => hfields e (mem_of_mem_filter he)
    have hold : ∀ e ∈ defaults, Q e.2 := hQ.entries _ hvars
    generalize runtimeVars.filter (fun e => overridable e.1) = news at hnew
    clear hvars
    induction news generalizing defaults with
    | nil => exact hold
    | cons e news ih =>
      rw [forall_mem_cons] at hnew
      refine ih _ (fun e' he' => ?_) hnew.2
      rcases mem_insertEntry he' with rfl | he'
      · exact hnew.1
      · exact hold e' he'
  · exact hQ.fieldsHave hvars

theorem Hereditary.insertAbsent {es : Entries ν} (hes : ∀ e ∈ es, Q e.2)
    (k text : String) : ∀ e ∈ insertAbsent k (.string text) es, Q e.2 := by
  unfold Runtara.insertAbsent
  split
  · exact hes
  · intro e he
    rcases mem_insertEntry he with rfl | he
    · exact hQ.string text
    · exact hes e he

theorem Hereditary.injectRuntimeIdentityVariables (env : ProcessEnv)
    (hv : FieldsHave Q v) : FieldsHave Q (injectRuntimeIdentityVariables env v) := by
  cases v with
  | object es => exact hQ.insertAbsent (hQ.insertAbsent hv _ _) _ _
  | _ => exact hv

end Hereditary

theorem exists_key_insertAbsent (k : String) (v : Value ν) (es : Entries ν) :
    ∃ e ∈ insertAbsent k v es, e.1 = k := by
  unfold insertAbsent
  split
  · next h =>
    obtain ⟨w, hw⟩ := Option.isSome_iff_exists.mp h
    exact ⟨_, mem_of_lookupEntry hw, rfl⟩
  · exact ⟨_, mem_insertEntry_self k v es, rfl⟩

variable [NumberOps ν]

/-- The variables with the identity in them are no handle, whatever they were before. -/
theorem allHandles_injectRuntimeIdentityVariables {s : ValueStore} {P : UInt64 → Prop}
    (env : ProcessEnv)
    (hv : FieldsHave (s.AllHandles P) (injectRuntimeIdentityVariables env v)) :
    s.AllHandles P (injectRuntimeIdentityVariables env v) := by
  cases v with
  | object es =>
    obtain ⟨e, he, hkey⟩ := exists_key_insertAbsent "_tenant_id"
      (.string (env.tenantId.getD "unknown"))
      (insertAbsent "_instance_id" (.string (env.instanceId.getD "unknown")) es)
    have hnone := ValueStore.wfrefId_eq_none (s := s) he (hkey ▸ by decide) (hkey ▸ by decide)
    exact (ValueStore.allHandles_object hnone).mpr hv
  | _ => exact hv

theorem hereditary_allHandles (s : ValueStore) (P : UInt64 → Prop) :
    Hereditary (s.AllHandles P : Value ν → Prop) where
  entries := fun _ h => h.entries
  string := fun _ => ValueStore.allHandles_leaf nofun nofun

theorem hereditary_given (a : Arena) : Hereditary (a.Given : Value ν → Prop) where
  entries := fun _ h e he =>
    ⟨Value.sortedEntries_iff.mp h.sorted.2 e he,
      (Value.depthEntries_le.mp (Nat.le_of_succ_le h.depth) e he),
      Value.reread_entries h.readsBack e he, h.minted.entries e he⟩
  string := fun _ => ⟨trivial, Nat.zero_le _, rfl, ValueStore.allHandles_leaf nofun nofun⟩

/-! ### The source envelope -/

section Source

variable {s : ValueStore} {P : UInt64 → Prop}

/-- An object that is put together from fields, one of them not a key of a handle. -/
theorem allHandles_obj {es : Entries ν} {k : String} (he : (k, v) ∈ es)
    (href : k ≠ "$wfref") (hnonce : k ≠ "$wfnonce") (hes : ∀ e ∈ es, s.AllHandles P e.2) :
    s.AllHandles P (.obj es) := by
  obtain ⟨e', he', hkey⟩ := exists_key_ofEntries he
  have hnone := ValueStore.wfrefId_eq_none (s := s) he' (hkey ▸ href) (hkey ▸ hnonce)
  exact (ValueStore.allHandles_object hnone).mpr fun e he => hes e (mem_ofEntries he)

theorem allHandles_iterationContext {vars context : Value ν} (hvars : s.AllHandles P vars)
    (h : iterationContext vars = some context) : s.AllHandles P context := by
  obtain ⟨indices, hindices, h⟩ := Option.bind_eq_some_iff.mp h
  obtain ⟨index, hindex, h⟩ := Option.bind_eq_some_iff.mp h
  cases h
  obtain ⟨v, hv, harray⟩ := Option.bind_eq_some_iff.mp hindices
  have hall : s.AllHandles P (.array indices) := by
    have hget := hvars.get hv
    cases v with
    | array vs =>
      cases harray
      exact hget
    | _ => cases harray
  have hitem : s.AllHandles P ((vars.get "_item").getD .null) := by
    cases hi : vars.get "_item" with
    | none => exact ValueStore.allHandles_leaf nofun nofun
    | some item => exact hvars.get hi
  have hfirst : s.AllHandles P index := by
    cases hi : vars.get "_index" with
    | some i =>
      rw [hi] at hindex
      cases hindex
      exact hvars.get hi
    | none =>
      rw [hi] at hindex
      exact ValueStore.allHandles_array.mp hall index (mem_of_getLast? hindex)
  refine allHandles_obj (mem_cons_self) (by decide) (by decide) ?_
  simp only [forall_mem_cons]
  exact ⟨hfirst, hall, hitem, fun _ h => absurd h not_mem_nil⟩

theorem allHandles_optionalField {k : String} {v : Option (Value ν)}
    (hv : ∀ w, v = some w → s.AllHandles P w) : ∀ e ∈ optionalField k v, s.AllHandles P e.2 := by
  cases v with
  | none => exact fun e he => absurd he not_mem_nil
  | some w =>
    intro e he
    rw [mem_singleton.mp he]
    exact hv w rfl

/-- The handles of the envelope are those of its three parts. -/
theorem allHandles_sourceEnvelope {data vars steps : Value ν} (hdata : s.AllHandles P data)
    (hvars : s.AllHandles P vars) (hsteps : s.AllHandles P steps) :
    s.AllHandles P (sourceEnvelope data vars steps) := by
  have hinputs : s.AllHandles P (.obj [("data", data), ("variables", vars)]) := by
    refine allHandles_obj mem_cons_self (by decide) (by decide) ?_
    simp only [forall_mem_cons]
    exact ⟨hdata, hvars, fun _ h => absurd h not_mem_nil⟩
  have hworkflow : s.AllHandles P
      (.obj [("inputs", .obj [("data", data), ("variables", vars)])]) := by
    refine allHandles_obj mem_cons_self (by decide) (by decide) ?_
    simp only [forall_mem_cons]
    exact ⟨hinputs, fun _ h => absurd h not_mem_nil⟩
  refine allHandles_obj (k := "data") (v := data) (by simp) (by decide) (by decide) ?_
  simp only [forall_mem_append, forall_mem_cons]
  have herror := allHandles_optionalField (k := "error") fun w hw => hsteps.get (k := "__error") hw
  have herror' :=
    allHandles_optionalField (k := "__error") fun w hw => hsteps.get (k := "__error") hw
  have hiteration := allHandles_optionalField (k := "iteration") fun w hw =>
    allHandles_iterationContext hvars hw
  have hloop := allHandles_optionalField (k := "loop") fun w hw => hvars.get (k := "_loop") hw
  have hitem := allHandles_optionalField (k := "item") fun w hw => hvars.get (k := "_item") hw
  exact ⟨⟨⟨⟨⟨⟨⟨hdata, hvars, hsteps, by simp⟩, herror'⟩, herror⟩, hworkflow, by simp⟩,
    hiteration⟩, hloop⟩, hitem⟩

end Source

/-! ### `build_source` -/

namespace Arena

variable {a : Arena} (hash : String → UInt64)

theorem given_of_fromSlice {text : String} {w : Value ν} (h : fromSlice text = some w)
    (hw : w.reread = w ∧ a.Minted w) : a.Given w :=
  ⟨(parse_sorted h).1, (parse_sorted h).2, hw.1, hw.2⟩

theorem nextId_le_buildEnvelope (a : Arena) (env : ProcessEnv) (data vars steps : String) :
    a.nextId ≤ (a.buildEnvelope (ν := ν) env hash data vars steps).2.nextId := by
  unfold buildEnvelope
  split
  · exact Nat.le_refl _
  split
  · exact Nat.le_refl _
  dsimp only
  split
  · exact Nat.le_refl _
  · exact (nextId_le_internContainer hash a _).trans
      ((nextId_le_internContainer hash _ _).trans (nextId_le_internContainer hash _ _))

variable [LawfulNumber ν] [LawfulU64 ν]

/-- **`build_source`** only adds to the arena; its envelope has handles of the arena only, and none
of them dangles if none in the input does. -/
theorem stands_buildEnvelope (env : ProcessEnv) {data vars steps : String} (ha : a.Wf ν)
    (hinputs : ∀ text ∈ [data, vars, steps], ∀ w : Value ν, fromSlice text = some w →
      w.reread = w ∧ a.Minted w)
    (hid : (a.buildEnvelope (ν := ν) env hash data vars steps).2.nextId ≤ 2 ^ 64) :
    (a.buildEnvelope (ν := ν) env hash data vars steps).2.Wf ν ∧
    a.Extends (a.buildEnvelope (ν := ν) env hash data vars steps).2 ∧
    ∀ source, (a.buildEnvelope (ν := ν) env hash data vars steps).1 = .ok source →
      (a.buildEnvelope (ν := ν) env hash data vars steps).2.Minted source ∧
      ((∀ text ∈ [data, vars, steps], ∀ w : Value ν, fromSlice text = some w → a.store.Live w) →
        (a.buildEnvelope (ν := ν) env hash data vars steps).2.store.Live source) := by
  have hkeep : ∀ message : String, a.Wf ν ∧ a.Extends a ∧ ∀ source : Value ν,
      Except.error message = .ok source → a.Minted source ∧
        ((∀ text ∈ [data, vars, steps], ∀ w : Value ν, fromSlice text = some w → a.store.Live w) →
          a.store.Live source) := fun message => ⟨ha, .refl a, fun source h => by cases h⟩
  simp only [forall_mem_cons] at hinputs
  obtain ⟨hmdata, hmvars, hmsteps, -⟩ := hinputs
  unfold buildEnvelope at hid ⊢
  cases hdata : (fromSlice data : Option (Value ν)) with
  | none => exact hkeep _
  | some dataValue =>
  cases hvars : (fromSlice vars : Option (Value ν)) with
  | none => exact hkeep _
  | some varsValue =>
  cases hsteps : (fromSlice steps : Option (Value ν)) with
  | none => exact hkeep _
  | some stepsValue =>
  rw [hdata, hvars, hsteps] at hid
  dsimp only at hid ⊢
  have hgdata := given_of_fromSlice hdata (hmdata _ hdata)
  have hgvars := given_of_fromSlice hvars (hmvars _ hvars)
  have hgsteps := given_of_fromSlice hsteps (hmsteps _ hsteps)
  -- the three containers as they are interned
  obtain ⟨hd, hv⟩ := (hereditary_given a).unwrapEnvelope hgdata hgvars
  have hv := (hereditary_given a).injectRuntimeIdentityVariables env hv
  have hmv := allHandles_injectRuntimeIdentityVariables env (hv.mono fun _ h => h.minted)
  have hlive : a.store.Live dataValue → a.store.Live varsValue →
      a.store.Live (unwrapEnvelope dataValue varsValue).1 ∧
        a.store.Live
          (injectRuntimeIdentityVariables env (unwrapEnvelope dataValue varsValue).2) := by
    intro hldata hlvars
    have hhereditary := hereditary_allHandles (ν := ν) a.store (a.store.LiveId ν)
    obtain ⟨hd, hv⟩ := hhereditary.unwrapEnvelope hldata hlvars
    exact ⟨hd, allHandles_injectRuntimeIdentityVariables env
      (hhereditary.injectRuntimeIdentityVariables env hv)⟩
  generalize (unwrapEnvelope dataValue varsValue).1 = d at hd hlive hid ⊢
  generalize injectRuntimeIdentityVariables env (unwrapEnvelope dataValue varsValue).2 = v
    at hv hmv hlive hid ⊢
  have hle₂ := nextId_le_internContainer hash
    ((a.internContainer hash d).2.internContainer hash v).2 stepsValue
  have hle₁ := nextId_le_internContainer hash (a.internContainer hash d).2 v
  obtain ⟨hwf₁, hext₁, hstands₁⟩ := stands_internContainer hash ha hd.minted
    ((hereditary_given a).fieldsHave hd).entries (hle₁.trans (hle₂.trans hid))
  obtain ⟨hwf₂, hext₂, hstands₂⟩ := stands_internContainer hash hwf₁ (hext₁.minted hmv)
    (fun es he e hmem => hext₁.given (hv.entries es he e hmem)) (hle₂.trans hid)
  have hgsteps₂ := hext₂.given (hext₁.given hgsteps)
  obtain ⟨hwf₃, hext₃, hstands₃⟩ := stands_internContainer hash hwf₂ hgsteps₂.minted
    ((hereditary_given _).fieldsHave hgsteps₂).entries hid
  -- all three as seen from the first arena to the last
  have hd₃ := hstands₁.grow hwf₁ hwf₃ (hext₂.trans hext₃)
  have hv₃ := (hstands₂.grow hwf₂ hwf₃ hext₃).of_extends ha hwf₁ hext₁ hmv
  have hs₃ := hstands₃.of_extends ha hwf₂ (hext₁.trans hext₂) hgsteps.minted
  refine ⟨hwf₃, hext₁.trans (hext₂.trans hext₃), fun source hsource => ?_⟩
  cases hsource
  refine ⟨allHandles_sourceEnvelope hd₃.minted hv₃.minted hs₃.minted, fun hall => ?_⟩
  simp only [forall_mem_cons] at hall
  obtain ⟨hldata, hlvars, hlsteps, -⟩ := hall
  obtain ⟨hld, hlv⟩ := hlive (hldata _ hdata) (hlvars _ hvars)
  exact allHandles_sourceEnvelope (hd₃.live hld) (hv₃.live hlv) (hs₃.live (hlsteps _ hsteps))

end Arena

end Envelope

end Runtara
