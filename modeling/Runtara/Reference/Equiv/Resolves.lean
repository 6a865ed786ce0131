/-
  References that pass the check against the input schema, at runtime.

  `Agrees` says of a reference that whenever it is accepted, the runtime has the same segments and
  finds the value of the field that was checked. Apart from the segments this needs one thing: what
  the validator reads as the number of an item, the runtime has to read as that number
  (`agrees_iff`). The condition on the text is `paths_agree`.
-/
import Runtara.Interning.Equiv.Arena
import Runtara.Reference.Equiv.Brackets

namespace Runtara

open Json List
open ValueStore (derefHandle_of_wfrefId)

/-- The places that the declared inputs are read from. -/
def inputRoots : List (List String) := [["data"], ["workflow", "inputs", "data"]]

/-- A reference below an input root that is accepted without an error or a warning has the same
segments at runtime, and resolves to the value of the field that was checked if the input has that
value. -/
def Agrees (ν : Type) [NumberOps ν] (reference : String) : Prop :=
  ∀ root ∈ inputRoots, root <+: referenceSegments reference → ∀ stepId schema,
    validateSchemaReferencePath stepId reference root schema = none →
      pathToSegments reference = referenceSegments reference ∧
      ∀ (store : ValueStore) (data vars steps v : Value ν), store.collectHandleIds data = [] →
        referencedValue root schema reference data = some v →
          lookupSegmentsDetailed store (sourceEnvelope data vars steps) (pathToSegments reference)
            = .found v

/-- A segment that is a number is written without a sign and fits into an `i64`. -/
def Numeral (segment : String) : Prop :=
  ∀ i ∈ parseUsize segment, segment.toList.head? ≠ some '+' ∧ i < 2 ^ 63

instance (segment : String) : Decidable (Numeral segment) :=
  inferInstanceAs (Decidable (∀ i ∈ parseUsize segment, _))

/-- The segments below the first field are numerals if they are numbers. -/
def NumeralsBelow (reference : String) : Prop :=
  ∀ root ∈ inputRoots, root <+: referenceSegments reference →
    ∀ segment ∈ (referenceSegments reference).drop (root.length + 1), Numeral segment

instance (reference : String) : Decidable (NumeralsBelow reference) :=
  inferInstanceAs (Decidable (∀ root ∈ inputRoots, _))

/-! ### Numbers -/

section Numbers

variable {segment : String} {i : ℕ}

theorem parseUsize_eq_some (h : parseUsize segment = some i)
    (hsign : segment.toList.head? ≠ some '+') :
    segment.toList ≠ [] ∧ segment.toList.any (!·.isDigit) = false ∧
      digitsValue segment.toList = i := by
  unfold parseUsize at h
  extract_lets digits at h
  have hdigits : digits = segment.toList := by
    unfold digits
    split
    · next hplus =>
      rw [hplus] at hsign
      exact absurd rfl hsign
    · rfl
  split at h
  · cases h
  next hvalid =>
  rw [not_or, Bool.not_eq_true, hdigits] at hvalid
  split at h
  · exact ⟨hvalid.1, hvalid.2, hdigits ▸ Option.some.inj h⟩
  · cases h

theorem digit_ne_dash {cs : List Char} (h : cs.any (!·.isDigit) = false) {c : Char}
    (hc : c.isDigit = false) (ds : List Char) : cs ≠ c :: ds := by
  rintro rfl
  rw [any_cons, hc] at h
  cases h

section

variable (h : parseUsize segment = some i)

include h

theorem isArrayIndexToken_of_parseUsize
    (hsign : segment.toList.head? ≠ some '+') : isArrayIndexToken segment.toList = true := by
  obtain ⟨hne, hdigits, _⟩ := parseUsize_eq_some h hsign
  unfold isArrayIndexToken
  split
  · next hdash => exact absurd hdash (digit_ne_dash hdigits (by decide) _)
  · rw [any_eq_not_all_not, Bool.not_eq_false'] at hdigits
    simp only [Bool.not_not] at hdigits
    simp [hne, hdigits]

theorem parseI64_of_parseUsize (hsign : segment.toList.head? ≠ some '+') :
    parseI64 segment = if i < 2 ^ 63 then some (Int64.ofNat i) else none := by
  obtain ⟨hne, hdigits, hvalue⟩ := parseUsize_eq_some h hsign
  unfold parseI64
  split
  next negative digits hsplit =>
  have hsame : negative = false ∧ digits = segment.toList := by
    split at hsplit
    · next hdash => exact absurd hdash (digit_ne_dash hdigits (by decide) _)
    · next hplus => exact absurd hplus (digit_ne_dash hdigits (by decide) _)
    · exact ⟨(Prod.mk.inj hsplit).1.symm, (Prod.mk.inj hsplit).2.symm⟩
  rw [hsame.1, hsame.2, if_neg (by simp [hne, hdigits]), hvalue]
  rfl

theorem arrayIndex_of_numeral (hnumeral : Numeral segment)
    (len : ℕ) : isArrayIndexToken segment.toList = true ∧ arrayIndex segment len = some i := by
  obtain ⟨hsign, hlt⟩ := hnumeral i h
  refine ⟨isArrayIndexToken_of_parseUsize h hsign, ?_⟩
  rw [arrayIndex, parseI64_of_parseUsize h hsign, if_pos hlt, Option.bind_some,
    Int64.toInt_ofNat_of_lt hlt, if_pos (Int.natCast_nonneg i), Int.toNat_natCast]

theorem descend_not_numeral {ν : Type}
    (hnot : ¬(segment.toList.head? ≠ some '+' ∧ i < 2 ^ 63)) (items : List (Value ν))
    (v : Value ν) :
    descend (.array items) segment ≠ .child v := by
  dsimp only [descend]
  by_cases hsign : segment.toList.head? = some '+'
  · have htoken : isArrayIndexToken segment.toList = false := by
      cases htext : segment.toList with
      | nil => rfl
      | cons c cs =>
        rw [htext] at hsign
        cases Option.some.inj hsign
        rfl
    rw [htoken]
    nofun
  · have hlarge : ¬i < 2 ^ 63 := fun hlt => hnot ⟨hsign, hlt⟩
    rw [if_pos (isArrayIndexToken_of_parseUsize h hsign), arrayIndex,
      parseI64_of_parseUsize h hsign, if_neg hlarge]
    nofun

end

end Numbers

variable {segments : List String} {depth : ℕ}

section Resolution

variable {ν : Type} [NumberOps ν] {store : ValueStore}

/-! ### The envelope -/

variable {v : Value ν} {es : Entries ν}

theorem derefHandle_of_entry {e : String × Value ν} (he : e ∈ es)
    (href : e.1 ≠ "$wfref") (hnonce : e.1 ≠ "$wfnonce") :
    store.derefHandle (.object es) = .object es :=
  derefHandle_of_wfrefId (ValueStore.wfrefId_eq_none he href hnonce)

variable {rest : List String} {child : Value ν}

theorem lookupFrom_object {segment : String} (h : lookupEntry segment es = some child) :
    lookupFrom store segments depth (segment :: rest) (.object es)
      = lookupFrom store segments (depth + 1) rest (store.derefHandle child) := by
  rw [lookupFrom, descend, h]

theorem lookupFrom_derefHandle {segment : String} (h : lookupEntry segment es = some child)
    (href : segment ≠ "$wfref") (hnonce : segment ≠ "$wfnonce") :
    lookupFrom store segments depth (segment :: rest) (store.derefHandle (.object es))
      = lookupFrom store segments (depth + 1) rest (store.derefHandle child) := by
  rw [derefHandle_of_entry (mem_of_lookupEntry h) href hnonce, lookupFrom_object h]

variable {root : List String}

/-- Below either root the lookup goes on in the input. -/
theorem lookupFrom_root (hroot : root ∈ inputRoots) (data vars steps : Value ν)
    (segments rest : List String) : lookupFrom store segments 0 (root ++ rest)
        (store.derefHandle (sourceEnvelope data vars steps))
      = lookupFrom store segments root.length rest (store.derefHandle data) := by
  simp only [inputRoots, mem_cons, not_mem_nil, or_false] at hroot
  rcases hroot with rfl | rfl
  · exact lookupFrom_derefHandle (get_data_sourceEnvelope data vars steps) (by decide) (by decide)
  · have hinputs : lookupEntry "inputs" (ofEntries [("inputs",
        (.obj [("data", data), ("variables", vars)] : Value ν))]) = _ :=
      (lookupEntry_ofEntries ..).trans (lookupEntry_cons_self ..)
    have hdata : lookupEntry "data" (ofEntries [("data", data), ("variables", vars)]) = some data :=
      (lookupEntry_ofEntries ..).trans
        ((lookupEntry_cons_ne (by decide) ..).trans (lookupEntry_cons_self ..))
    calc lookupFrom store segments 0 (["workflow", "inputs", "data"] ++ rest) _
      _ = _ := lookupFrom_derefHandle (get_workflow_sourceEnvelope data vars steps) (by decide)
          (by decide)
      _ = _ := lookupFrom_derefHandle hinputs (by decide) (by decide)
      _ = _ := lookupFrom_derefHandle hdata (by decide) (by decide)

/-! ### What is checked is found -/

theorem lookupFrom_valueAt {field : SchemaField}
    {value : Value ν} (hrest : ∀ segment ∈ rest, Numeral segment)
    (hvalue : store.collectHandleIds value = []) (hv : field.valueAt value rest = some v) :
    lookupFrom store segments depth rest (store.derefHandle value) = .found v := by
  rw [derefHandle_of_wfrefId (ValueStore.wfrefId_of_collectHandleIds hvalue)]
  induction rest generalizing depth field value with
  | nil =>
    cases hv
    rw [lookupFrom, ValueStore.materialize_of_collectHandleIds hvalue]
  | cons segment rest ih =>
    rw [forall_mem_cons] at hrest
    rw [SchemaField.valueAt] at hv
    split at hv
    · -- an item
      obtain ⟨i, hi, hnumber⟩ := Option.bind_eq_some_iff.mp hv
      obtain ⟨item, hat, hfound⟩ := Option.bind_eq_some_iff.mp hnumber
      obtain ⟨vs, hvs, hitem⟩ := Option.bind_eq_some_iff.mp hat
      cases value with
      | array items =>
        obtain rfl := Option.some.inj hvs
        obtain ⟨htoken, hindex⟩ := arrayIndex_of_numeral hi hrest.1 items.length
        rw [ValueStore.collectHandleIds_array, flatMap_eq_nil_iff] at hvalue
        have hitemPlain := hvalue item (mem_of_getElem? hitem)
        have hdescend : descend (.array items) segment = .child item := by
          dsimp only [descend]
          rw [if_pos htoken, hindex, Option.bind_some, hitem]
        rw [lookupFrom, hdescend]
        dsimp only
        rw [derefHandle_of_wfrefId (ValueStore.wfrefId_of_collectHandleIds hitemPlain)]
        split at hfound
        · exact ih hrest.2 hitemPlain hfound
        · split at hfound
          · next hnil =>
            cases hfound
            rw [hnil, lookupFrom, ValueStore.materialize_of_collectHandleIds hitemPlain]
          · cases hfound
      | _ => cases hvs
    · split at hv
      · -- a property
        obtain ⟨nextField, _, hnext⟩ := Option.bind_eq_some_iff.mp hv
        obtain ⟨child, hchild, hfound⟩ := Option.bind_eq_some_iff.mp hnext
        cases value with
        | object es =>
          have hes := ValueStore.wfrefId_of_collectHandleIds hvalue
          rw [ValueStore.collectHandleIds_object hes, flatMap_eq_nil_iff] at hvalue
          have hchildPlain := hvalue _ (mem_of_lookupEntry hchild)
          rw [lookupFrom_object hchild,
            derefHandle_of_wfrefId (ValueStore.wfrefId_of_collectHandleIds hchildPlain)]
          exact ih hrest.2 hchildPlain hfound
        | _ => cases hchild
      · cases hv

variable {reference : String}

/-- **Resolution.** With the segments of the validator the lookup finds the value of the field that
was checked. -/
theorem lookup_referencedValue (hroot : root ∈ inputRoots) {schema : List (String × SchemaField)}
    {data : Value ν} (vars steps : Value ν) (hnumerals : NumeralsBelow reference)
    (hdata : store.collectHandleIds data = [])
    (hv : referencedValue root schema reference data = some v) :
    lookupSegmentsDetailed store (sourceEnvelope data vars steps) (referenceSegments reference)
      = .found v := by
  unfold referencedValue at hv
  split at hv
  next hbelow =>
    have hbelow : root <+: referenceSegments reference := List.isPrefixOf_iff_prefix.mp hbelow
    have hnumerals := hnumerals root hroot hbelow
    obtain ⟨rest, hrest⟩ := hbelow
    rw [← hrest, drop_left] at hv
    rw [← hrest, ← drop_drop, drop_left] at hnumerals
    rw [lookupSegmentsDetailed, ← hrest, lookupFrom_root hroot,
      derefHandle_of_wfrefId (ValueStore.wfrefId_of_collectHandleIds hdata)]
    cases rest with
    | nil => cases hv
    | cons firstField rest =>
      obtain ⟨field, _, hfield⟩ := Option.bind_eq_some_iff.mp hv
      obtain ⟨child, hchild, hfound⟩ := Option.bind_eq_some_iff.mp hfield
      cases data with
      | object es =>
        have hes := ValueStore.wfrefId_of_collectHandleIds hdata
        rw [ValueStore.collectHandleIds_object hes, flatMap_eq_nil_iff] at hdata
        rw [lookupFrom_object hchild]
        exact lookupFrom_valueAt hnumerals (hdata _ (mem_of_lookupEntry hchild)) hfound
      | _ => cases hchild
  next => cases hv

/-! ### A schema and an input for given segments -/

/-- A field below nested properties. -/
def fieldBelow : List String → SchemaField → SchemaField
  | [], field => field
  | key :: keys, field => .mk .object none (some [(key, fieldBelow keys field)])

/-- A value below nested keys. -/
def valueBelow : List String → Value ν → Value ν
  | [], v => v
  | key :: keys, v => .object [(key, valueBelow keys v)]

theorem lookupEntry_single {α : Type} (key : String) (a : α) :
    lookupEntry key [(key, a)] = some a := by
  simp [lookupEntry]

theorem walkSchema_below {stepId : StepId} {field : SchemaField}
    (h : ∀ known, walkSchema stepId reference known field rest = none) (keys : List String)
    (known : String) :
    walkSchema stepId reference known (fieldBelow keys field) (keys ++ rest) = none := by
  induction keys generalizing known with
  | nil => exact h known
  | cons key keys ih =>
    rw [cons_append, fieldBelow, walkSchema]
    simp only [SchemaField.fieldType, SchemaField.properties, lookupEntry_single, ih]
    rfl

omit [NumberOps ν] in
theorem valueAt_below (field : SchemaField) (v : Value ν) (keys rest : List String) :
    (fieldBelow keys field).valueAt (valueBelow keys v) (keys ++ rest)
      = field.valueAt v rest := by
  induction keys with
  | nil => rfl
  | cons key keys ih =>
    rw [cons_append, fieldBelow, valueBelow, SchemaField.valueAt]
    simp only [SchemaField.fieldType, SchemaField.properties, Option.bind_some, lookupEntry_single,
      Value.get, ih]
    rfl

theorem collectHandleIds_below (h : store.collectHandleIds v = []) (keys : List String) :
    store.collectHandleIds (valueBelow keys v) = [] := by
  induction keys with
  | nil => exact h
  | cons key keys ih =>
    rw [valueBelow, ValueStore.collectHandleIds_object rfl, flatMap_cons, ih]
    rfl

theorem lookupFrom_below (h : store.collectHandleIds v = []) (keys : List String)
    (segments rest : List String) (depth : ℕ) :
    lookupFrom store segments depth (keys ++ rest) (store.derefHandle (valueBelow keys v))
      = lookupFrom store segments (depth + keys.length) rest v := by
  rw [derefHandle_of_wfrefId
    (ValueStore.wfrefId_of_collectHandleIds (collectHandleIds_below h keys))]
  induction keys generalizing depth with
  | nil => rfl
  | cons key keys ih =>
    rw [cons_append, valueBelow, lookupFrom_object (lookupEntry_single key _),
      derefHandle_of_wfrefId
        (ValueStore.wfrefId_of_collectHandleIds (collectHandleIds_below h keys)),
      ih, length_cons, Nat.add_assoc, Nat.add_comm 1]

section Items

variable {segment : String} {i : ℕ} (h : parseUsize segment = some i) (field : SchemaField)
include h

theorem walkSchema_item (stepId : StepId) (reference known : String) (rest : List String) :
    walkSchema stepId reference known (.mk .array (some field) none) (segment :: rest)
      = walkSchema stepId reference (known ++ "[" ++ segment ++ "]") field rest := by
  rw [walkSchema]
  simp only [SchemaField.fieldType, SchemaField.items, h, Option.isSome_some, if_true]

omit [NumberOps ν] in
theorem valueAt_item {items : List (Value ν)} {item : Value ν} (hitem : items[i]? = some item)
    (rest : List String) :
    (SchemaField.mk .array (some field) none).valueAt (.array items) (segment :: rest)
      = field.valueAt item rest := by
  rw [SchemaField.valueAt]
  simp only [SchemaField.fieldType, SchemaField.items, h, Value.asArray, Option.bind_some, hitem,
    if_true]

end Items

/-! ### When a reference agrees -/

/-- A field without anything below it. -/
def SchemaField.leaf : SchemaField := .mk .string none none

theorem validateSchemaReferencePath_below {firstField : String}
    (hrest : root ++ firstField :: rest = referenceSegments reference) (stepId : StepId)
    (field : SchemaField) : validateSchemaReferencePath stepId reference root [(firstField, field)]
      = walkSchema stepId reference (".".intercalate root ++ "." ++ firstField) field rest := by
  unfold validateSchemaReferencePath
  rw [if_pos (List.isPrefixOf_iff_prefix.mpr ⟨_, hrest⟩), ← hrest, drop_left]
  dsimp only
  rw [lookupEntry_single]

theorem walkSchema_leaf (stepId : StepId) (reference : String) (keys : List String)
    (known : String) :
    walkSchema stepId reference known (fieldBelow keys .leaf) keys = none := by
  have hend : ∀ known, walkSchema stepId reference known .leaf [] = none := fun _ => rfl
  simpa only [append_nil] using walkSchema_below hend keys known

theorem exists_accepting (hbelow : root <+: referenceSegments reference) (stepId : StepId) :
    ∃ schema, validateSchemaReferencePath stepId reference root schema = none := by
  obtain ⟨rest, hrest⟩ := hbelow
  cases rest with
  | nil =>
    refine ⟨[], ?_⟩
    unfold validateSchemaReferencePath
    rw [if_pos (List.isPrefixOf_iff_prefix.mpr ⟨[], hrest⟩), ← hrest, drop_left]
  | cons firstField rest =>
    refine ⟨[(firstField, fieldBelow rest .leaf)], ?_⟩
    rw [validateSchemaReferencePath_below hrest]
    exact walkSchema_leaf stepId reference rest _

/-- A number that is no numeral is accepted below an array, and not found. -/
theorem numeral_of_agrees (h : Agrees ν reference) : NumeralsBelow reference := by
  intro root hroot hbelow segment hsegment i hi
  by_contra hnot
  obtain ⟨rest, hrest⟩ := hbelow
  rw [← hrest, ← drop_drop, drop_left] at hsegment
  cases rest with
  | nil => cases hsegment
  | cons firstField rest =>
    obtain ⟨before, after, rfl⟩ := append_of_mem hsegment
    -- the items have everything that comes after the number
    let array : SchemaField := .mk .array (some (fieldBelow after .leaf)) none
    let items : List (Value ν) := List.replicate (i + 1) (valueBelow after .null)
    let store : ValueStore := ⟨0, []⟩
    let data : Value ν := valueBelow (firstField :: before) (.array items)
    have hbelow : root <+: referenceSegments reference := ⟨_, hrest⟩
    have haccepted : validateSchemaReferencePath "" reference root
        [(firstField, fieldBelow before array)] = none := by
      rw [validateSchemaReferencePath_below hrest]
      refine walkSchema_below (fun known => ?_) before _
      rw [walkSchema_item hi]
      exact walkSchema_leaf "" reference after _
    have hitem : store.collectHandleIds (valueBelow after (.null : Value ν)) = [] :=
      collectHandleIds_below rfl after
    have hitems : store.collectHandleIds (.array items) = [] := by
      rw [ValueStore.collectHandleIds_array, flatMap_eq_nil_iff]
      intro v hv
      rw [eq_of_mem_replicate hv]
      exact hitem
    have hvalue : referencedValue root [(firstField, fieldBelow before array)] reference data
        = some .null := by
      unfold referencedValue
      rw [if_pos (List.isPrefixOf_iff_prefix.mpr hbelow), ← hrest, drop_left]
      dsimp only
      rw [lookupEntry_single, Option.bind_some]
      show ((valueBelow (firstField :: before) (.array items)).get firstField).bind _ = _
      rw [valueBelow, Value.get, lookupEntry_single, Option.bind_some, valueAt_below]
      have hat : items[i]? = some (valueBelow after .null) := by simp [items]
      have hnull := valueAt_below .leaf (.null : Value ν) after []
      rw [append_nil] at hnull
      rw [valueAt_item hi _ hat, hnull]
      rfl
    obtain ⟨hsegments, hresolves⟩ := h root hroot hbelow "" _ haccepted
    have hfound := hresolves store data .null .null .null (collectHandleIds_below hitems _) hvalue
    rw [hsegments, lookupSegmentsDetailed, ← hrest, lookupFrom_root hroot, ← cons_append,
      lookupFrom_below hitems, lookupFrom] at hfound
    split at hfound
    · next child hchild => exact descend_not_numeral hi hnot items child hchild
    · cases hfound
    · cases hfound

/-- A reference below a root **agrees** exactly when its segments do and its numbers are
numerals. -/
theorem agrees_iff (reference : String) :
    Agrees ν reference ↔ (∀ root ∈ inputRoots, root <+: referenceSegments reference →
      pathToSegments reference = referenceSegments reference) ∧ NumeralsBelow reference := by
  constructor
  · intro h
    refine ⟨fun root hroot hbelow => ?_, numeral_of_agrees h⟩
    obtain ⟨schema, haccepted⟩ := exists_accepting hbelow ""
    exact (h root hroot hbelow "" schema haccepted).1
  · rintro ⟨hsegments, hnumerals⟩ root hroot hbelow stepId schema _
    have hsame := hsegments root hroot hbelow
    refine ⟨hsame, fun store data vars steps v hdata hv => ?_⟩
    rw [hsame]
    exact lookup_referencedValue hroot vars steps hnumerals hdata hv

variable (ν) in
/-- **Static and runtime paths.** A reference written with keys, indices and quoted keys without
dots and brackets agrees exactly when its numbers are numerals. One without any brackets agrees
exactly when moreover no segment is empty, and one without any quotes exactly when moreover it is so
written, up to the end of its last bracket, provided it is below an input root at all. One with a
dot in a segment of the validator does not agree if it is below an input root. -/
theorem paths_agree :
    (∀ p : WrittenPath, Agrees ν p.text ↔ NumeralsBelow p.text) ∧
    (∀ reference : String, '[' ∉ reference.toList → ']' ∉ reference.toList →
      (Agrees ν reference ↔
        (∀ root ∈ inputRoots, root <+: referenceSegments reference →
          ∀ part ∈ reference.toList.splitOn '.', part ≠ []) ∧ NumeralsBelow reference)) ∧
    (∀ reference : String, (∀ c ∈ reference.toList, isQuote c = false) →
      (Agrees ν reference ↔
        (∀ root ∈ inputRoots, root <+: referenceSegments reference →
          ∃ p : WrittenPath, reference = p.text ∨ ∃ token, isArrayIndexToken token = true ∧
            reference = p.text ++ String.ofList ('[' :: token)) ∧ NumeralsBelow reference)) ∧
    ∀ reference : String, (∃ segment ∈ referenceSegments reference, '.' ∈ segment.toList) →
      (Agrees ν reference ↔ ∀ root ∈ inputRoots, ¬ root <+: referenceSegments reference) := by
  refine ⟨fun p => ?_, fun reference hopen hclose => ?_, fun reference hquotes => ?_, ?_⟩
  · rw [agrees_iff]
    exact and_iff_right fun _ _ _ => segments_agree p
  · rw [agrees_iff]
    simp only [segments_agree_iff hopen hclose]
  · rw [agrees_iff]
    simp only [segments_agree_iff_written hquotes]
  · rintro reference ⟨segment, hsegment, hdot⟩
    rw [agrees_iff]
    constructor
    · intro h root hroot hbelow
      rw [← h.1 root hroot hbelow] at hsegment
      exact dot_not_mem_segment hsegment hdot
    · intro h
      exact ⟨fun root hroot hbelow => absurd hbelow (h root hroot),
        fun root hroot hbelow => absurd hbelow (h root hroot)⟩

end Resolution

/-- An index and a quoted key agree, the same item after a dot and in a bracket that is not closed,
and not a quoted key with a dot. -/
theorem item_paths_agree :
    Agrees ℕ "data.rows[0]['full name']" ∧ Agrees ℕ "data.rows.0" ∧ Agrees ℕ "data.rows[0" ∧
      ¬ Agrees ℕ "data.cfg['a.b']" := by
  let rows : WrittenPath := ⟨"data".toList, by decide, [.key "rows".toList (by decide)]⟩
  let name : WrittenPath := ⟨"data".toList, by decide,
    [.key "rows".toList (by decide), .index ['0'] (by decide),
      .quoted '\'' '\'' "full name".toList (by decide) (by decide) (by decide) (by decide)]⟩
  have htext : name.text = "data.rows[0]['full name']" := by decide +kernel
  obtain ⟨hwritten, hplain, hquoteless, hdotted⟩ := paths_agree ℕ
  refine ⟨?_, ?_, ?_, fun h => ?_⟩
  · rw [← htext]
    exact (hwritten name).mpr (by rw [htext]; decide +kernel)
  · exact (hplain "data.rows.0" (by decide) (by decide)).mpr
      ⟨by decide +kernel, by decide +kernel⟩
  · exact (hquoteless "data.rows[0" (by simp [isQuote])).mpr
      ⟨fun _ _ _ => ⟨rows, Or.inr ⟨['0'], by decide, by decide +kernel⟩⟩, by decide +kernel⟩
  · exact (hdotted "data.cfg['a.b']" (by decide +kernel)).mp h ["data"] (by decide)
      (by decide +kernel)

/-- A key with a dot in quotes is one segment for the validator and two at runtime: the field is
declared and present, the reference is accepted, and nothing is found. -/
theorem quoted_dot_absent :
    let schema : List (String × SchemaField) :=
      [("cfg", .mk .object none (some [("a.b", .mk .string none none)]))]
    let data : Value ℕ := .object [("cfg", .object [("a.b", .string "v")])]
    ["data"] <+: referenceSegments "data.cfg['a.b']" ∧
    validateSchemaReferencePath "step" "data.cfg['a.b']" ["data"] schema = none ∧
    referenceSegments "data.cfg['a.b']" = ["data", "cfg", "a.b"] ∧
    pathToSegments "data.cfg['a.b']" = ["data", "cfg", "a", "b"] ∧
    (⟨0, []⟩ : ValueStore).collectHandleIds data = [] ∧
    referencedValue ["data"] schema "data.cfg['a.b']" data = some (.string "v") ∧
    lookupSegmentsDetailed ⟨0, []⟩ (sourceEnvelope data .null .null)
      (pathToSegments "data.cfg['a.b']") = .absent ∧
    ¬Agrees ℕ "data.cfg['a.b']" := by
  have hsegments : referenceSegments "data.cfg['a.b']" = ["data", "cfg", "a.b"] := by decide +kernel
  have hpath : pathToSegments "data.cfg['a.b']" = ["data", "cfg", "a", "b"] := by decide +kernel
  refine ⟨by decide +kernel, by decide +kernel, hsegments, hpath, rfl, rfl, rfl, fun h => ?_⟩
  have hsame := ((agrees_iff (ν := ℕ) _).mp h).1 ["data"] (by decide) (by decide +kernel)
  rw [hsegments, hpath] at hsame
  exact absurd hsame (by decide)

end Runtara
