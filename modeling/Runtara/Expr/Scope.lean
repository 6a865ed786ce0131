/-
  What expressions are evaluated with: the runtime scope, its references and the helpers that the
  interpreter and the compiled form share.

  From `direct_json.rs` the arena of interned values, the resolution of reference paths, type
  hints and the insertion of dotted keys; from `conditions.rs` equality, truthiness and
  conversion to numbers.
-/
import Runtara.Failure.Payload

namespace Runtara

open Json

/-- The numbers of `serde_json` with their conversions to `i64` and `f64`, and the reading of an
`f64` from a text. -/
class NumberOps (ν : Type) extends SerdeNumber ν where
  asI64 : ν → Option Int64
  ofI64 : Int64 → ν
  asF64 : ν → Option Float
  /-- `None` if the number is not finite. -/
  fromF64 : Float → Option ν
  parseF64 : String → Option Float

/-! ### Texts -/

/-- `str::replace`: occurrences are taken from left to right and do not overlap. `skip` counts
the characters of the pattern still to be dropped. -/
def replaceFrom (pattern replacement : List Char) : ℕ → List Char → List Char
  | _, [] => []
  | skip + 1, _ :: cs => replaceFrom pattern replacement skip cs
  | 0, c :: cs =>
    if pattern.isPrefixOf (c :: cs) then
      replacement ++ replaceFrom pattern replacement (pattern.length - 1) cs
    else c :: replaceFrom pattern replacement 0 cs

def replace (pattern replacement cs : List Char) : List Char := replaceFrom pattern replacement 0 cs

/-- The number written by ASCII digits. -/
def digitsValue (ds : List Char) : ℕ := ds.foldl (fun n d => n * 10 + (d.toNat - '0'.toNat)) 0

/-- `str::parse::<i64>`. -/
def parseI64 (text : String) : Option Int64 :=
  let (negative, digits) := match text.toList with
    | '-' :: cs => (true, cs)
    | '+' :: cs => (false, cs)
    | cs => (false, cs)
  if digits = [] ∨ digits.any (!·.isDigit) then none
  else
    let n := digitsValue digits
    if negative then if n ≤ 2 ^ 63 then some (Int64.ofInt (-n)) else none
    else if n < 2 ^ 63 then some (Int64.ofNat n) else none

/-! ### Reference paths -/

def isArrayIndexToken (token : List Char) : Bool :=
  let digits := match token with
    | '-' :: cs => cs
    | cs => cs
  !digits.isEmpty && digits.all Char.isDigit

/-- What a bracket group becomes: an index is a segment, anything else stays in brackets. -/
def bracketGroup (index : List Char) : List Char :=
  if isArrayIndexToken index then '.' :: index else '[' :: (index ++ [']'])

/-- The loop of `path_to_json_pointer` over the characters; inside a bracket it has the text of
the group so far. A group that is not closed ends with the path. -/
def dottedPath : Option (List Char) → List Char → List Char
  | none, [] => []
  | some index, [] => bracketGroup index
  | none, c :: cs => if c = '[' then dottedPath (some []) cs else c :: dottedPath none cs
  | some index, c :: cs =>
    if c = ']' then bracketGroup index ++ dottedPath none cs
    else dottedPath (some (index ++ [c])) cs

def escapePointerChar (c : Char) : List Char :=
  if c = '~' then ['~', '0'] else if c = '/' then ['~', '1'] else [c]

def pathToJsonPointer (path : List Char) : List Char :=
  let normalized := replace ['"', ']'] [] (replace ['[', '"'] ['.']
    (replace ['\'', ']'] [] (replace ['[', '\''] ['.'] path)))
  ((dottedPath none normalized).splitOn '.').flatMap fun segment =>
    '/' :: segment.flatMap escapePointerChar

def unescapePointerSegment (segment : List Char) : List Char :=
  replace ['~', '0'] ['~'] (replace ['~', '1'] ['/'] segment)

def pathToSegments (path : String) : List String :=
  (((pathToJsonPointer path.toList).splitOn '/').drop 1).map fun segment =>
    String.ofList (unescapePointerSegment segment)

/-! ### Interned values -/

/-- The arena of a run: large values are kept as texts, under ids, and carried as handles that
have the nonce of the run. -/
structure ValueStore where
  nonce : UInt64
  entries : List (UInt64 × String)

section Scope

variable {ν : Type} [NumberOps ν]

def Value.asU64 : Value ν → Option UInt64
  | .number n => SerdeNumber.asU64 n
  | _ => none

namespace ValueStore

def wfrefId (store : ValueStore) (value : Value ν) : Option UInt64 :=
  match value with
  | .object es =>
    if es.length ≠ 2 then none
    else if (lookupEntry "$wfnonce" es).bind Value.asU64 = some store.nonce then
      (lookupEntry "$wfref" es).bind Value.asU64
    else none
  | _ => none

def stored (store : ValueStore) (id : UInt64) : Option (Value ν) :=
  ((store.entries.find? fun e => e.1 = id).map Prod.snd).bind fromSlice

def derefHandle (store : ValueStore) (value : Value ν) : Value ν :=
  ((store.wfrefId value).bind store.stored).getD value

mutual

/-- One round of `materialize`, with what is done to the value of a handle as a parameter. -/
def materializeWith (store : ValueStore) (inner : Value ν → Value ν) : Value ν → Value ν
  | .array vs =>
    .array (materializeItems store inner vs)
  | .object es =>
    match store.wfrefId (.object es) with
    | some id => ((store.stored id).map inner).getD .null
    | none => .object (materializeEntries store inner es)
  | v => v

def materializeItems (store : ValueStore) (inner : Value ν → Value ν) :
    List (Value ν) → List (Value ν)
  | [] => []
  | v :: vs => materializeWith store inner v :: materializeItems store inner vs

def materializeEntries (store : ValueStore) (inner : Value ν → Value ν) :
    List (String × Value ν) → List (String × Value ν)
  | [] => []
  | (k, v) :: es => (k, materializeWith store inner v) :: materializeEntries store inner es

end

/-- `materialize` through at most `rounds` handles inside handles. -/
def materializeRounds (store : ValueStore) : ℕ → Value ν → Value ν
  | 0 => materializeWith store fun _ => .null
  | rounds + 1 => materializeWith store (materializeRounds store rounds)

/-- `materialize`. A stored value only has handles that are older than its own, so there are no
more handles inside handles than entries. -/
def materialize (store : ValueStore) (value : Value ν) : Value ν :=
  materializeRounds store store.entries.length value

end ValueStore

/-! ### Lookup -/

def arrayIndex (segment : String) (len : ℕ) : Option ℕ :=
  (parseI64 segment).bind fun raw =>
    if 0 ≤ raw.toInt then some raw.toInt.toNat
    else if raw.toInt.natAbs ≤ len then some (len - raw.toInt.natAbs) else none

/-- Outcome of indexing one segment into a value. -/
inductive Descent (ν : Type) where
  | child (v : Value ν)
  | absent
  | mismatch

def descend (value : Value ν) (segment : String) : Descent ν :=
  match value with
  | .object es =>
    match lookupEntry segment es with
    | some child => .child child
    | none => .absent
  | .array items =>
    if isArrayIndexToken segment.toList then
      match (arrayIndex segment items.length).bind (items[·]?) with
      | some child => .child child
      | none => .absent
    else .mismatch
  | _ => .absent

def jsonTypeName : Value ν → String
  | .object _ => "object"
  | .string _ => "string"
  | .number _ => "number"
  | .bool _ => "boolean"
  | .array _ => "array"
  | .null => "null"

def mismatchMessage (segments : List String) (depth : ℕ) (parent : Value ν) : String :=
  let path := ".".intercalate segments
  let base := ".".intercalate (segments.take depth)
  let place := if base.isEmpty then "the source" else "'" ++ base ++ "'"
  let segment := segments.getD depth ""
  match parent with
  | .array _ =>
    "reference '" ++ path ++ "' cannot be resolved: " ++ place ++ " is an array with no field '"
      ++ segment ++ "' — address array elements by numeric index (e.g. '" ++ base ++ ".0')"
  | _ =>
    "reference '" ++ path ++ "' cannot be resolved: " ++ place ++ " is a " ++ jsonTypeName parent
      ++ " with no field '" ++ segment ++ "'"

/-- Outcome of resolving a path. -/
inductive Lookup (ν : Type) where
  | found (v : Value ν)
  | absent
  | mismatch (message : String)

/-- The loop of `lookup_segments_detailed` at the given depth; the handle of each child is
resolved. -/
def lookupFrom (store : ValueStore) (segments : List String) :
    ℕ → List String → Value ν → Lookup ν
  | _, [], current => .found (store.materialize current)
  | depth, segment :: rest, current =>
    match descend current segment with
    | .child child => lookupFrom store segments (depth + 1) rest (store.derefHandle child)
    | .absent => .absent
    | .mismatch => .mismatch (mismatchMessage segments depth current)

def lookupSegmentsDetailed (store : ValueStore) (source : Value ν) (segments : List String) :
    Lookup ν :=
  lookupFrom store segments 0 segments (store.derefHandle source)

def resolveLookup (lookup : Lookup ν) (default : Option (Value ν)) : Except String (Value ν) :=
  match lookup with
  | .found .null => .ok (default.getD .null)
  | .absent => .ok (default.getD .null)
  | .found value => .ok value
  | .mismatch message =>
    match default with
    | some d => .ok d
    | none => .error message

/-! ### Type hints -/

def coercionResult (value : Value ν) (typeName : String) : Except String (Value ν) :=
  match value with
  | .null => .ok .null
  | v => .error ("value " ++ v.text ++ " cannot be coerced to " ++ typeName)

def Value.asI64 : Value ν → Option Int64
  | .number n => NumberOps.asI64 n
  | _ => none

def Value.asF64 : Value ν → Option Float
  | .number n => NumberOps.asF64 n
  | _ => none

def Value.asBool : Value ν → Option Bool
  | .bool b => some b
  | _ => none

def Value.isNull : Value ν → Bool
  | .null => true
  | _ => false

def hintString (value : Value ν) : Value ν :=
  match value with
  | .string s => .string s
  | .null => .null
  | v => .string v.text

/-- The `integer` hint: a number, a text or a boolean, in that order. -/
def hintInteger (value : Value ν) : Except String (Value ν) :=
  let parsed := ((Value.asI64 value).or ((Value.asF64 value).map Float.toInt64)).or
    ((value.asStr.bind parseI64).or ((Value.asBool value).map fun b => if b then 1 else 0))
  match parsed with
  | some n => .ok (.number (NumberOps.ofI64 n))
  | none => coercionResult value "integer"

def hintNumber (value : Value ν) : Except String (Value ν) :=
  let parsed := ((Value.asF64 value).or (value.asStr.bind (NumberOps.parseF64 ν))).bind
    NumberOps.fromF64
  match parsed with
  | some n => .ok (.number n)
  | none => coercionResult value "number"

def hintBoolean (value : Value ν) : Value ν :=
  match value with
  | .bool b => .bool b
  | .null => .null
  | .string s => .bool (s = "true" || s = "1")
  | .number n => .bool ((NumberOps.asI64 n).any (· ≠ 0))
  | .array vs => .bool !vs.isEmpty
  | .object es => .bool !es.isEmpty

/-- `apply_type_hint`; other hints leave the value as it is. -/
def applyTypeHint (value : Value ν) (typeHint : Option String) : Except String (Value ν) :=
  match typeHint with
  | some hint =>
    if hint = "string" then .ok (hintString value)
    else if hint = "integer" then hintInteger value
    else if hint = "number" then hintNumber value
    else if hint = "boolean" then .ok (hintBoolean value)
    else .ok value
  | none => .ok value

def coerceReferenceValue (value : Value ν) (typeHint : Option String) (default : Option (Value ν)) :
    Except String (Value ν) :=
  match applyTypeHint value typeHint with
  | .ok coerced => .ok coerced
  | .error error =>
    match default with
    | some d => applyTypeHint d typeHint
    | none => .error error

/-! ### Dotted keys -/

/-- The loop of `insert_nested` below the first part: on the way down a value that is no object is
replaced, at the last part it is left as it is. -/
def insertParts : List String → Value ν → Value ν → Value ν
  | [], current, _ => current
  | [part], current, value =>
    match current with
    | .object es => .object (insertEntry part value es)
    | other => other
  | part :: rest, current, value =>
    let es := match current with
      | .object es => es
      | _ => []
    .object (insertEntry part (insertParts rest ((lookupEntry part es).getD (.object [])) value) es)

def insertNested (output : Entries ν) (key : String) (value : Value ν) :
    Entries ν :=
  match (key.toList.splitOn '.').map String.ofList with
  | [] => output
  | [first] => insertEntry first value output
  | first :: rest =>
    insertEntry first (insertParts rest ((lookupEntry first output).getD (.object [])) value) output

/-! ### Comparing values -/

/-- The distance below which two numbers are equal, `f64::EPSILON`. -/
def f64Epsilon : Float := 2.220446049250313e-16

def closeTo (l r : Float) : Bool := (l - r).abs < f64Epsilon

mutual

def valuesEqual : Value ν → Value ν → Bool
  | .null, .null => true
  | .bool l, .bool r => l == r
  | .number l, .number r =>
    match NumberOps.asF64 l, NumberOps.asF64 r with
    | some l, some r => closeTo l r
    | _, _ => false
  | .string l, .string r => l == r
  | .array l, .array r => l.length == r.length && itemsEqual l r
  | .object l, .object r => l.length == r.length && entriesEqual l r
  | .string s, .number n =>
    match NumberOps.parseF64 ν s, NumberOps.asF64 n with
    | some parsed, some num => closeTo parsed num
    | _, _ => false
  | .number n, .string s =>
    match NumberOps.parseF64 ν s, NumberOps.asF64 n with
    | some parsed, some num => closeTo parsed num
    | _, _ => false
  | _, _ => false

def itemsEqual : List (Value ν) → List (Value ν) → Bool
  | l :: ls, r :: rs => valuesEqual l r && itemsEqual ls rs
  | _, _ => true

def entriesEqual : List (String × Value ν) → List (String × Value ν) → Bool
  | [], _ => true
  | (k, l) :: ls, rs =>
    (match lookupEntry k rs with
      | some r => valuesEqual l r
      | none => false) && entriesEqual ls rs

end

def isTruthy : Value ν → Bool
  | .null => false
  | .bool b => b
  | .number n =>
    match NumberOps.asI64 n with
    | some i => i != 0
    | none =>
      match NumberOps.asF64 n with
      | some f => f != 0.0
      | none => true
  | .string s => !s.isEmpty
  | .array vs => !vs.isEmpty
  | .object es => !es.isEmpty

def toNumber : Value ν → Option Float
  | .number n => NumberOps.asF64 n
  | .string s => NumberOps.parseF64 ν s
  | .bool b => some (if b then 1.0 else 0.0)
  | _ => none

def isEmptyValue : Value ν → Bool
  | .array vs => vs.isEmpty
  | .string s => s.isEmpty
  | .object es => es.isEmpty
  | .null => true
  | _ => false

def isNotEmptyValue : Value ν → Bool
  | .array vs => !vs.isEmpty
  | .string s => !s.isEmpty
  | .object es => !es.isEmpty
  | .null => false
  | _ => true

/-- The length of a value, which is that of its UTF-8 text for a string. -/
def lengthOf : Value ν → Int64
  | .string s => Int64.ofNat s.utf8ByteSize
  | .array vs => Int64.ofNat vs.length
  | .object es => Int64.ofNat es.length
  | .null => 0
  | _ => 1

/-- Whether the value of a `LENGTH` operation counts as true. -/
def lengthHolds (value : Value ν) : Bool :=
  0 < ((Value.asI64 value).or ((Value.asU64 value).map fun n => Int64.ofNat n.toNat)).getD 0

end Scope

/-! ### Templates -/

/-- The template engine: a template is parsed and then rendered in a context, and
`renderTemplate` does both at once with the same result. -/
structure TemplateEngine (ν : Type) where
  Compiled : Type
  parse : String → Except String Compiled
  render : Compiled → Value ν → Except String String
  renderTemplate : String → Value ν → Except String String
  renderTemplate_eq : ∀ template context,
    renderTemplate template context = (parse template).bind fun t => render t context

/-- What an expression is evaluated in: the arena, the templates and the source. -/
structure Scope (ν : Type) where
  store : ValueStore
  engine : TemplateEngine ν
  source : Value ν

end Runtara
