/-
  References against a declared schema (`validation.rs`).

  `referenceSegments` is the path parser of the validator; the one of the runtime is
  `pathToSegments`. `validateSchemaReferencePath` walks the fields of a schema along the segments
  and reports the first thing that is wrong, or that it cannot know.
-/
import Mathlib.Data.List.Sort
import Runtara.Reference.Order
import Runtara.Interning.Arena

namespace Runtara

open Json

/-! ### Schemas -/

inductive SchemaFieldType where
  | string
  | integer
  | number
  | boolean
  | array
  | object
  | file
  | connection
deriving DecidableEq, Repr

def schemaFieldTypeName : SchemaFieldType → String
  | .string => "string"
  | .integer => "integer"
  | .number => "number"
  | .boolean => "boolean"
  | .array => "array"
  | .object => "object"
  | .file => "file"
  | .connection => "connection"

/-- `SchemaField`, as far as references are checked against it. -/
inductive SchemaField where
  | mk (fieldType : SchemaFieldType) (items : Option SchemaField)
    (properties : Option (List (String × SchemaField)))

namespace SchemaField

def fieldType : SchemaField → SchemaFieldType
  | .mk fieldType _ _ => fieldType

def items : SchemaField → Option SchemaField
  | .mk _ items _ => items

def properties : SchemaField → Option (List (String × SchemaField))
  | .mk _ _ properties => properties

end SchemaField

def sortedKeys (schema : List (String × SchemaField)) : List String :=
  (schema.map Prod.fst).insertionSort (· ≤ ·)

/-! ### The segments of a reference -/

def isWhiteSpace (c : Char) : Bool :=
  (0x9 ≤ c.toNat && c.toNat ≤ 0xd) || c.toNat = 0x20 || c.toNat = 0x85 || c.toNat = 0xa0 ||
    c.toNat = 0x1680 || (0x2000 ≤ c.toNat && c.toNat ≤ 0x200a) || c.toNat = 0x2028 ||
    c.toNat = 0x2029 || c.toNat = 0x202f || c.toNat = 0x205f || c.toNat = 0x3000

/-- `str::trim`. -/
def trimSpace (cs : List Char) : List Char :=
  ((cs.dropWhile isWhiteSpace).reverse.dropWhile isWhiteSpace).reverse

/-- A segment that is pushed unless it is empty. -/
def pushSegment (segment : List Char) : List (List Char) := if segment = [] then [] else [segment]

def bracketSegment (bracket : List Char) : List Char := trimQuotes (trimSpace bracket)

/-- The loop of `reference_segments`: the segment so far, and the text of the bracket so far inside
one. A bracket that is not closed ends with the reference. -/
def scanReference : List Char → Option (List Char) → List Char → List (List Char)
  | current, none, [] => pushSegment current
  | _, some bracket, [] => pushSegment (bracketSegment bracket)
  | current, none, c :: cs =>
    if c = '.' then pushSegment current ++ scanReference [] none cs
    else if c = '[' then pushSegment current ++ scanReference [] (some []) cs
    else scanReference (current ++ [c]) none cs
  | current, some bracket, c :: cs =>
    if c = ']' then pushSegment (bracketSegment bracket) ++ scanReference current none cs
    else scanReference current (some (bracket ++ [c])) cs

def referenceSegments (reference : String) : List String :=
  (scanReference [] none reference.toList).map String.ofList

/-- `str::parse::<usize>`. -/
def parseUsize (text : String) : Option ℕ :=
  let digits := match text.toList with
    | '+' :: cs => cs
    | cs => cs
  if digits = [] ∨ digits.any (!·.isDigit) then none
  else if digitsValue digits < 2 ^ 64 then some (digitsValue digits) else none

/-! ### The check -/

/-- What the check can report: three errors and a warning. -/
inductive SchemaPathIssue where
  | undefinedDataReference (stepId : StepId) (reference fieldName : String)
    (availableFields : List String)
  | referenceNonObjectTraversal (stepId : StepId)
      (reference knownPrefix actualType attemptedField : String)
  | undefinedReferenceField (stepId : StepId) (reference knownPrefix missingField : String)
    (availableFields : List String)
  | partiallyUnverifiedReference (stepId : StepId) (reference knownPrefix unverifiedSuffix : String)
deriving DecidableEq, Repr

/-- The warning about what cannot be verified, if anything is left. -/
def unverified (stepId : StepId) (reference knownPrefix : String) (rest : List String) :
    Option SchemaPathIssue :=
  if ".".intercalate rest = "" then none
  else some (.partiallyUnverifiedReference stepId reference knownPrefix (".".intercalate rest))

/-- The loop of `validate_schema_reference_path` from a field on. -/
def walkSchema (stepId : StepId) (reference : String) :
    String → SchemaField → List String → Option SchemaPathIssue
  | _, _, [] => none
  | knownPrefix, field, segment :: rest =>
    if field.fieldType = .array then
      if (parseUsize segment).isSome then
        match field.items with
        | some itemSchema =>
          walkSchema stepId reference (knownPrefix ++ "[" ++ segment ++ "]") itemSchema rest
        | none => unverified stepId reference knownPrefix rest
      else some (.referenceNonObjectTraversal stepId reference knownPrefix "array" segment)
    else if field.fieldType ≠ .object then
      some (.referenceNonObjectTraversal stepId reference knownPrefix
        (schemaFieldTypeName field.fieldType) segment)
    else
      match field.properties with
      | none => unverified stepId reference knownPrefix (segment :: rest)
      | some properties =>
        match lookupEntry segment properties with
        | none => some (.undefinedReferenceField stepId reference knownPrefix segment
            (sortedKeys properties))
        | some nextField =>
          walkSchema stepId reference (knownPrefix ++ "." ++ segment) nextField rest

/-- `validate_schema_reference_path`. A reference that is not below the root is not looked at. -/
def validateSchemaReferencePath (stepId : StepId) (reference : String)
    (rootSegments : List String) (schema : List (String × SchemaField)) : Option SchemaPathIssue :=
  if rootSegments.isPrefixOf (referenceSegments reference) then
    match (referenceSegments reference).drop rootSegments.length with
    | [] => none
    | firstField :: rest =>
      match lookupEntry firstField schema with
      | none => some (.undefinedDataReference stepId reference firstField (sortedKeys schema))
      | some field =>
        walkSchema stepId reference (".".intercalate rootSegments ++ "." ++ firstField) field rest
  else none

/-! ### The field that is checked -/

section Values

variable {ν : Type}

/-- The value that a conforming input has for the segments below a field: a property is taken by its
name, an item by its number. -/
def SchemaField.valueAt : SchemaField → Value ν → List String → Option (Value ν)
  | _, value, [] => some value
  | field, value, segment :: rest =>
    if field.fieldType = .array then
      (parseUsize segment).bind fun i =>
        (value.asArray.bind (·[i]?)).bind fun item =>
          match field.items with
          | some itemSchema => itemSchema.valueAt item rest
          | none => if rest = [] then some item else none
    else if field.fieldType = .object then
      (field.properties.bind (lookupEntry segment)).bind fun nextField =>
        (value.get segment).bind fun child => nextField.valueAt child rest
    else none

/-- The value of the field that a reference below the root is checked against. -/
def referencedValue (rootSegments : List String) (schema : List (String × SchemaField))
    (reference : String) (data : Value ν) : Option (Value ν) :=
  if rootSegments.isPrefixOf (referenceSegments reference) then
    match (referenceSegments reference).drop rootSegments.length with
    | [] => none
    | firstField :: rest =>
      (lookupEntry firstField schema).bind fun field =>
        (data.get firstField).bind fun child => field.valueAt child rest
  else none

end Values

end Runtara
