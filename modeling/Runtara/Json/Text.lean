/-
  JSON texts: the compact printer and the reader.

  The reader is a recursive-descent one that gives up below a fixed nesting depth, as readers on
  a machine stack do. How numbers are written is left to the number type.
-/
import Runtara.Json.Value

namespace Json

/-- Takes a value off the front of a text, or refuses it. -/
abbrev Reader (α : Type) := List Char → Option (α × List Char)

/-- How the numbers of a JSON text are printed and read. -/
class Number (ν : Type) where
  print : ν → List Char
  read : Reader ν
  /-- what a printed number is read back as, which need not be the number -/
  reread : ν → ν

/-! ### Tokens -/

def isSpace (c : Char) : Bool := c = ' ' || c = '\n' || c = '\t' || c = '\r'

def skipSpace (cs : List Char) : List Char := cs.dropWhile isSpace

/-- The rest of a text that starts with the given word. -/
def ident (word cs : List Char) : Option (List Char) :=
  if word.isPrefixOf cs then some (cs.drop word.length) else none

def hexChar (n : ℕ) : Char :=
  (['0', '1', '2', '3', '4', '5', '6', '7', '8', '9', 'a', 'b', 'c', 'd', 'e', 'f'][n]?).getD '0'

def hexValue (c : Char) : Option ℕ :=
  if '0' ≤ c ∧ c ≤ '9' then some (c.toNat - '0'.toNat)
  else if 'a' ≤ c ∧ c ≤ 'f' then some (c.toNat - 'a'.toNat + 10)
  else if 'A' ≤ c ∧ c ≤ 'F' then some (c.toNat - 'A'.toNat + 10)
  else none

/-- The four hexadecimal digits of a `\u` escape. -/
def hex4 : Reader ℕ
  | a :: b :: c :: d :: cs => do
    let a ← hexValue a
    let b ← hexValue b
    let c ← hexValue c
    let d ← hexValue d
    some (((a * 16 + b) * 16 + c) * 16 + d, cs)
  | _ => none

/-- The character a one-letter escape stands for. -/
def unescape (c : Char) : Option Char :=
  if c = '"' then some '"'
  else if c = '\\' then some '\\'
  else if c = '/' then some '/'
  else if c = 'b' then some '\x08'
  else if c = 'f' then some '\x0c'
  else if c = 'n' then some '\n'
  else if c = 'r' then some '\r'
  else if c = 't' then some '\t'
  else none

/-- A `\u` escape: one code unit, or a leading and a trailing surrogate. -/
def readUnicode (cs : List Char) : Option (Char × List Char) := do
  let (n, cs) ← hex4 cs
  if 0xDC00 ≤ n ∧ n ≤ 0xDFFF then none
  else if 0xD800 ≤ n ∧ n ≤ 0xDBFF then do
    let cs ← ident ['\\', 'u'] cs
    let (m, cs) ← hex4 cs
    if 0xDC00 ≤ m ∧ m ≤ 0xDFFF then
      some (Char.ofNat (0x10000 + (n - 0xD800) * 0x400 + (m - 0xDC00)), cs)
    else none
  else some (Char.ofNat n, cs)

/-- One character of a string, or `none` for the closing quote. -/
def readChar : Reader (Option Char)
  | [] => none
  | c :: cs =>
    if c = '"' then some (none, cs)
    else if c = '\\' then
      match cs with
      | [] => none
      | e :: cs =>
        if e = 'u' then (readUnicode cs).map fun (c, cs) => (some c, cs)
        else (unescape e).map fun c => (some c, cs)
    -- control characters have to be escaped
    else if c.toNat < 0x20 then none
    else some (some c, cs)

/-- The characters of a string up to its closing quote. -/
def readChars : ℕ → Reader (List Char)
  | 0, _ => none
  | fuel + 1, cs => do
    let (c, cs) ← readChar cs
    match c with
    | none => some ([], cs)
    | some c => do
      let (s, cs) ← readChars fuel cs
      some (c :: s, cs)

/-- A string after its opening quote. -/
def readString (cs : List Char) : Option (String × List Char) :=
  (readChars cs.length cs).map fun (s, cs) => (String.ofList s, cs)

/-! ### Sequences -/

section Sequence

variable {α : Type}

/-- The items after the first one of a sequence. -/
def readMore (close : Char) (item : Reader α) : ℕ → Reader (List α)
  | 0, _ => none
  | fuel + 1, cs =>
    match skipSpace cs with
    | [] => none
    | c :: cs =>
      if c = close then some ([], cs)
      else if c = ',' then do
        let (a, cs) ← item cs
        let (as, cs) ← readMore close item fuel cs
        some (a :: as, cs)
      else none

/-- A sequence of items separated by commas, after its opening bracket. -/
def readSequence (close : Char) (item : Reader α) (cs : List Char) : Option (List α × List Char) :=
  if (skipSpace cs).head? = some close then some ([], (skipSpace cs).tail)
  else do
    let (a, cs) ← item cs
    let (as, cs) ← readMore close item cs.length cs
    some (a :: as, cs)

/-- A field of an object: a quoted key, a colon and a value. -/
def readEntry (value : Reader α) (cs : List Char) : Option ((String × α) × List Char) := do
  let cs ← ident ['"'] (skipSpace cs)
  let (k, cs) ← readString cs
  let cs ← ident [':'] (skipSpace cs)
  let (a, cs) ← value cs
  some ((k, a), cs)

end Sequence

/-! ### Values -/

section Values

variable {ν : Type} [Number ν]

/-- A value, given the reader of the values inside it, or none when the nesting limit is used
up. -/
def readValueWith (inner : Option (Reader (Value ν))) (cs : List Char) :
    Option (Value ν × List Char) :=
  match skipSpace cs with
  | [] => none
  | c :: cs =>
    if c = 'n' then (ident ['u', 'l', 'l'] cs).map fun cs => (.null, cs)
    else if c = 't' then (ident ['r', 'u', 'e'] cs).map fun cs => (.bool true, cs)
    else if c = 'f' then (ident ['a', 'l', 's', 'e'] cs).map fun cs => (.bool false, cs)
    else if c = '-' ∨ c.isDigit then (Number.read (c :: cs)).map fun (n, cs) => (.number n, cs)
    else if c = '"' then (readString cs).map fun (s, cs) => (.string s, cs)
    else if c = '[' then do
      let value ← inner
      let (vs, cs) ← readSequence ']' value cs
      some (.array vs, cs)
    else if c = '{' then do
      let value ← inner
      let (es, cs) ← readSequence '}' (readEntry value) cs
      some (.obj es, cs)
    else none

/-- A value nested at most `limit` deep. -/
def readValue : ℕ → Reader (Value ν)
  | 0 => readValueWith none
  | limit + 1 => readValueWith (some (readValue limit))

/-- The value a whole text stands for, if it is nested at most `limit` deep. -/
def parse (limit : ℕ) (text : String) : Option (Value ν) := do
  let (v, cs) ← readValue limit text.toList
  if skipSpace cs = [] then some v else none

/-! ### The printer -/

def escape (c : Char) : List Char :=
  if c = '"' then ['\\', '"']
  else if c = '\\' then ['\\', '\\']
  else if c = '\x08' then ['\\', 'b']
  else if c = '\x0c' then ['\\', 'f']
  else if c = '\n' then ['\\', 'n']
  else if c = '\r' then ['\\', 'r']
  else if c = '\t' then ['\\', 't']
  else if c.toNat < 0x20 then ['\\', 'u', '0', '0', hexChar (c.toNat / 16), hexChar (c.toNat % 16)]
  else [c]

def printString (s : String) : List Char := '"' :: (s.toList.flatMap escape ++ ['"'])

/-- Printed items with commas between them. -/
def commas : List (List Char) → List Char
  | [] => []
  | [t] => t
  | t :: ts => t ++ ',' :: commas ts

mutual

def Value.print : Value ν → List Char
  | .null => ['n', 'u', 'l', 'l']
  | .bool true => ['t', 'r', 'u', 'e']
  | .bool false => ['f', 'a', 'l', 's', 'e']
  | .number n => Number.print n
  | .string s => printString s
  | .array vs => '[' :: (commas (printItems vs) ++ [']'])
  | .object es => '{' :: (commas (printEntries es) ++ ['}'])

def printItems : List (Value ν) → List (List Char)
  | [] => []
  | v :: vs => v.print :: printItems vs

def printEntries : List (String × Value ν) → List (List Char)
  | [] => []
  | (k, v) :: es => (printString k ++ ':' :: v.print) :: printEntries es

end

def Value.text (v : Value ν) : String := String.ofList v.print

end Values

end Json
