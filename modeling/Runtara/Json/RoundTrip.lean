/-
  Reading back a printed JSON value.

  A text need not be read back as the value it was printed from: a reader of floats may miss the
  last digit. `Value.reread` is the value with every number as it is read back. A sorted value is
  read back as that when it is not nested deeper than the reader goes, and refused otherwise
  (`parse_text`); a text that does not start like a value is refused (`parse_eq_none`).
-/
import Runtara.Json.Text

namespace Json

open List

/-! ### Strings -/

theorem hexValue_hexChar {n : ℕ} (h : n < 16) : hexValue (hexChar n) = some n := by
  have hall : ∀ n < 16, hexValue (hexChar n) = some n := by decide
  exact hall n h

variable {c : Char}

/-- A control character is read back from its `\u` escape. -/
theorem readUnicode_control (h : c.toNat < 0x20) (cs : List Char) :
    readUnicode ('0' :: '0' :: hexChar (c.toNat / 16) :: hexChar (c.toNat % 16) :: cs)
      = some (c, cs) := by
  have hhi := hexValue_hexChar (n := c.toNat / 16) (by omega)
  have hlo := hexValue_hexChar (n := c.toNat % 16) (by omega)
  have hzero : hexValue '0' = some 0 := by decide
  have hcode : ((0 * 16 + 0) * 16 + c.toNat / 16) * 16 + c.toNat % 16 = c.toNat := by omega
  have hread : hex4 ('0' :: '0' :: hexChar (c.toNat / 16) :: hexChar (c.toNat % 16) :: cs)
      = some (c.toNat, cs) := by
    simp only [hex4, hhi, hlo, hzero, Option.bind_eq_bind, Option.bind_some, hcode]
  have hsurrogate : ¬(0xDC00 ≤ c.toNat ∧ c.toNat ≤ 0xDFFF) := by omega
  have hleading : ¬(0xD800 ≤ c.toNat ∧ c.toNat ≤ 0xDBFF) := by omega
  rw [readUnicode, hread]
  simp only [Option.bind_eq_bind, Option.bind_some, if_neg hsurrogate, if_neg hleading,
    Char.ofNat_toNat]

/-- A character of a string is read back from what is printed for it. -/
theorem readChar_escape (c : Char) (cs : List Char) :
    readChar (escape c ++ cs) = some (some c, cs) := by
  unfold escape
  split
  case isTrue h => subst h; rfl
  case isFalse hquote =>
  split
  case isTrue h => subst h; rfl
  case isFalse hback =>
  split
  case isTrue h => subst h; rfl
  split
  case isTrue h => subst h; rfl
  split
  case isTrue h => subst h; rfl
  split
  case isTrue h => subst h; rfl
  split
  case isTrue h => subst h; rfl
  split
  case isTrue h =>
    show (readUnicode ('0' :: '0' :: _ :: _ :: cs)).map _ = _
    rw [readUnicode_control h]
    rfl
  case isFalse h => simp only [singleton_append, readChar, if_neg hquote, if_neg hback, if_neg h]

theorem readChars_escape {s : List Char} {fuel : ℕ} (h : s.length < fuel) (cs : List Char) :
    readChars fuel (s.flatMap escape ++ '"' :: cs) = some (s, cs) := by
  induction s generalizing fuel with
  | nil =>
    obtain ⟨fuel, rfl⟩ := Nat.exists_eq_succ_of_ne_zero (Nat.ne_of_gt h)
    rfl
  | cons c s ih =>
    obtain ⟨fuel, rfl⟩ := Nat.exists_eq_succ_of_ne_zero (Nat.ne_of_gt (Nat.zero_lt_of_lt h))
    have hfuel : s.length < fuel := Nat.lt_of_succ_lt_succ h
    rw [flatMap_cons, append_assoc, Nat.succ_eq_add_one, readChars, readChar_escape]
    simp only [Option.bind_eq_bind, Option.bind_some, ih hfuel]

theorem escape_ne_nil (c : Char) : escape c ≠ [] := by
  intro h
  have hread := readChar_escape c []
  rw [h] at hread
  cases hread

theorem length_le_flatMap_escape (s : List Char) : s.length ≤ (s.flatMap escape).length := by
  induction s with
  | nil => exact Nat.le_refl 0
  | cons c s ih =>
    have hpos : 0 < (escape c).length := length_pos_iff.mpr (escape_ne_nil c)
    rw [flatMap_cons, length_append, length_cons]
    omega

theorem readString_print (s : String) (cs : List Char) :
    readString (s.toList.flatMap escape ++ '"' :: cs) = some (s, cs) := by
  have hfuel : s.toList.length < (s.toList.flatMap escape ++ '"' :: cs).length := by
    have := length_le_flatMap_escape s.toList
    rw [length_append, length_cons]
    omega
  rw [readString, readChars_escape hfuel]
  exact congrArg (fun s => some (s, cs)) String.ofList_toList

theorem bind_ite {α β : Type} {p : Prop} [Decidable p] (a : α) (f : α → Option β) :
    (if p then some a else none).bind f = if p then f a else none := by
  split <;> rfl

/-! ### Sequences -/

/-- What can follow a value inside a printed value. -/
def Follows (cs : List Char) : Prop :=
  cs = [] ∨ ∃ c rest, cs = c :: rest ∧ (c = ',' ∨ c = ']' ∨ c = '}')

theorem follows_nil : Follows [] := Or.inl rfl

theorem follows_comma (cs : List Char) : Follows (',' :: cs) := Or.inr ⟨_, _, rfl, Or.inl rfl⟩

variable {close : Char}

theorem follows_close (h : close = ']' ∨ close = '}') (cs : List Char) :
    Follows (close :: cs) := Or.inr ⟨_, _, rfl, Or.inr h⟩

/-- A text that starts neither with white space nor with a closing bracket. -/
def Opens (cs : List Char) : Prop :=
  ∃ c rest, cs = c :: rest ∧ isSpace c = false ∧ c ≠ ']' ∧ c ≠ '}'

theorem skipSpace_cons (h : isSpace c = false) (cs : List Char) :
    skipSpace (c :: cs) = c :: cs := dropWhile_cons_of_neg (by rw [h]; exact Bool.false_ne_true)

variable {cs : List Char}

theorem skipSpace_append (h : Opens cs) (rest : List Char) :
    skipSpace (cs ++ rest) = cs ++ rest := by
  obtain ⟨c, tail, rfl, hspace, -⟩ := h
  exact skipSpace_cons hspace _

/-- The text of the items after the first. -/
def moreText (ts : List (List Char)) : List Char := ts.flatMap fun t => ',' :: t

theorem commas_cons (t : List Char) (ts : List (List Char)) :
    commas (t :: ts) = t ++ moreText ts := by
  induction ts generalizing t with
  | nil => rw [commas, moreText, flatMap_nil, append_nil]
  | cons t' ts ih =>
    rw [commas, ih]
    · rfl
    · exact cons_ne_nil _ _

theorem length_le_moreText (ts : List (List Char)) : ts.length ≤ (moreText ts).length := by
  induction ts with
  | nil => exact Nat.zero_le _
  | cons t ts ih =>
    have hcons : moreText (t :: ts) = ',' :: (t ++ moreText ts) := rfl
    rw [hcons, length_cons, length_cons, length_append]
    omega

section Sequence

variable {α : Type} {close : Char} {item : Reader α} {pr : α → List Char} {ok : α → Prop}
  [DecidablePred ok] {back : α → α}

/-- `item` reads the printed `a` as `back a` when it is `ok`, and refuses it otherwise. -/
def ReadsBack (item : Reader α) (pr : α → List Char) (ok : α → Prop) [DecidablePred ok]
    (back : α → α) (a : α) : Prop :=
  ∀ cs, Follows cs → item (pr a ++ cs) = if ok a then some (back a, cs) else none

theorem follows_moreText (hclose : close = ']' ∨ close = '}') (ts : List (List Char))
    (cs : List Char) : Follows (moreText ts ++ close :: cs) := by
  cases ts with
  | nil => exact follows_close hclose cs
  | cons t ts => exact follows_comma _

variable {l : List α}

theorem read_cons {a : α} {cs₁ : List Char} {r : Reader (List α)}
    (hmore : r cs₁ = if ∀ b ∈ l, ok b then some (l.map back, cs) else none) :
    ((if ok a then some (back a, cs₁) else none).bind fun p =>
        (r p.2).bind fun q => some (p.1 :: q.1, q.2))
      = if ∀ b ∈ a :: l, ok b then some ((a :: l).map back, cs) else none := by
  simp only [bind_ite, hmore, forall_mem_cons, ite_and, map_cons]

theorem readMore_print (hclose : close = ']' ∨ close = '}') {fuel : ℕ} (hfuel : l.length < fuel)
    (hitem : ∀ a ∈ l, ReadsBack item pr ok back a) (cs : List Char) :
    readMore close item fuel (moreText (l.map pr) ++ close :: cs)
      = if ∀ a ∈ l, ok a then some (l.map back, cs) else none := by
  induction l generalizing fuel with
  | nil =>
    obtain ⟨fuel, rfl⟩ := Nat.exists_eq_succ_of_ne_zero (Nat.ne_of_gt hfuel)
    have hspace : skipSpace (close :: cs) = close :: cs :=
      skipSpace_cons (by rcases hclose with rfl | rfl <;> rfl) cs
    simp only [map_nil, moreText, flatMap_nil, nil_append, readMore, hspace,
      if_true, not_mem_nil, false_implies, implies_true]
  | cons a l ih =>
    obtain ⟨fuel, rfl⟩ := Nat.exists_eq_succ_of_ne_zero (Nat.ne_of_gt (Nat.zero_lt_of_lt hfuel))
    have hcomma : ',' ≠ close := by rcases hclose with rfl | rfl <;> decide
    have htext : moreText ((a :: l).map pr) ++ close :: cs
        = ',' :: (pr a ++ (moreText (l.map pr) ++ close :: cs)) := by
      simp only [moreText, map_cons, flatMap_cons, cons_append, append_assoc]
    have hhead := hitem a mem_cons_self _ (follows_moreText hclose (l.map pr) cs)
    have hrest := ih (Nat.lt_of_succ_lt_succ hfuel) fun b hb => hitem b (mem_cons_of_mem _ hb)
    rw [htext, Nat.succ_eq_add_one, readMore, skipSpace_cons (by rfl)]
    simp only [if_neg hcomma, if_true, hhead]
    exact read_cons hrest

/-- **A printed sequence** is read back when every item is, and refused otherwise. -/
theorem readSequence_print (hclose : close = ']' ∨ close = '}') (hopens : ∀ a ∈ l, Opens (pr a))
    (hitem : ∀ a ∈ l, ReadsBack item pr ok back a) (cs : List Char) :
    readSequence close item (commas (l.map pr) ++ close :: cs)
      = if ∀ a ∈ l, ok a then some (l.map back, cs) else none := by
  cases l with
  | nil =>
    have hspace : skipSpace (close :: cs) = close :: cs :=
      skipSpace_cons (by rcases hclose with rfl | rfl <;> rfl) cs
    simp only [map_nil, commas, nil_append, readSequence, hspace, head?_cons,
      if_true, tail_cons, not_mem_nil, false_implies, implies_true]
  | cons a l =>
    have hne : (skipSpace (pr a ++ (moreText (l.map pr) ++ close :: cs))).head? ≠ some close := by
      rw [skipSpace_append (hopens a mem_cons_self)]
      obtain ⟨c, rest, hc, -, hbracket, hbrace⟩ := hopens a mem_cons_self
      rw [hc, cons_append, head?_cons]
      rcases hclose with rfl | rfl
      · exact fun h => hbracket (Option.some.inj h)
      · exact fun h => hbrace (Option.some.inj h)
    have hhead := hitem a mem_cons_self _ (follows_moreText hclose (l.map pr) cs)
    have hfuel : l.length < (moreText (l.map pr) ++ close :: cs).length := by
      have hlen := length_le_moreText (l.map pr)
      rw [length_map] at hlen
      rw [length_append, length_cons]
      omega
    have hrest := readMore_print hclose hfuel
      (fun b hb => hitem b (mem_cons_of_mem _ hb)) cs
    rw [map_cons, commas_cons, append_assoc, readSequence, if_neg hne, hhead]
    exact read_cons (r := fun cs => readMore close item cs.length cs) hrest

end Sequence

/-! ### Values -/

section Values

variable {ν : Type} [Number ν]

/-- The reader takes a printed number off the front of a text, whatever follows. Its text starts
with a digit or a sign. -/
class LawfulNumber (ν : Type) [Number ν] : Prop where
  read_print : ∀ (n : ν) (cs : List Char), Follows cs →
    Number.read (Number.print n ++ cs) = some (Number.reread n, cs)
  print_head : ∀ n : ν, ∃ c cs, Number.print n = c :: cs ∧ (c = '-' ∨ c.isDigit = true)

/-- Natural numbers in decimal. -/
instance : Number ℕ where
  print := Nat.toDigits 10
  read cs :=
    if cs.takeWhile Char.isDigit = [] then none
    else some (Nat.ofDigitChars 10 (cs.takeWhile Char.isDigit) 0, cs.dropWhile Char.isDigit)
  reread := id

instance : LawfulNumber ℕ where
  read_print n cs hcs := by
    have hdigits : ∀ c ∈ Nat.toDigits 10 n, c.isDigit = true := fun c hc =>
      Nat.isDigit_of_mem_toDigits (by decide) (Nat.le_refl 10) hc
    have hstop : cs.takeWhile Char.isDigit = [] ∧ cs.dropWhile Char.isDigit = cs := by
      rcases hcs with rfl | ⟨c, rest, rfl, rfl | rfl | rfl⟩ <;> exact ⟨rfl, rfl⟩
    have htake : (Nat.toDigits 10 n ++ cs).takeWhile Char.isDigit = Nat.toDigits 10 n := by
      rw [takeWhile_append_of_pos hdigits, hstop.1, append_nil]
    have hdrop : (Nat.toDigits 10 n ++ cs).dropWhile Char.isDigit = cs := by
      rw [dropWhile_append_of_pos hdigits, hstop.2]
    simp only [Number.read, Number.print, Number.reread, id, htake, hdrop,
      if_neg Nat.toDigits_ne_nil, Nat.ofDigitChars_toDigits (b := 10) (by decide) (by decide)]
  print_head n := by
    obtain ⟨c, cs, hcs⟩ := exists_cons_of_ne_nil (Nat.toDigits_ne_nil (n := n) (b := 10))
    have hmem : c ∈ Nat.toDigits 10 n := hcs ▸ mem_cons_self
    exact ⟨c, cs, hcs, Or.inr (Nat.isDigit_of_mem_toDigits (by decide) (Nat.le_refl 10) hmem)⟩

mutual

/-- The value with every number as it is read back. -/
def Value.reread : Value ν → Value ν
  | .null => .null
  | .bool b => .bool b
  | .number n => .number (Number.reread n)
  | .string s => .string s
  | .array vs => .array (rereadItems vs)
  | .object es => .object (rereadEntries es)

def rereadItems : List (Value ν) → List (Value ν)
  | [] => []
  | v :: vs => v.reread :: rereadItems vs

def rereadEntries : List (String × Value ν) → List (String × Value ν)
  | [] => []
  | (k, v) :: es => (k, v.reread) :: rereadEntries es

end

variable (vs : List (Value ν))

/-- A field with the numbers of its value as they are read back. -/
def rereadEntry (e : String × Value ν) : String × Value ν := (e.1, e.2.reread)

theorem reread_array : (Value.array vs).reread = .array (vs.map Value.reread) := by
  rw [Value.reread]
  congr 1
  induction vs with
  | nil => rfl
  | cons v vs ih => rw [rereadItems, ih, map_cons]

theorem reread_object (es : Entries ν) :
    (Value.object es).reread = .object (es.map rereadEntry) := by
  rw [Value.reread]
  congr 1
  induction es with
  | nil => rfl
  | cons e es ih => rw [rereadEntries, ih, map_cons, rereadEntry]

/-- If an object is read back, each of its fields is. -/
theorem Value.reread_entries {es : Entries ν} (h : (Value.object es).reread = .object es) :
    ∀ e ∈ es, e.2.reread = e.2 := by
  rw [reread_object, object.injEq] at h
  have hentries := map_eq_map_iff.mp (h.trans (map_id es).symm)
  exact fun e he => congrArg Prod.snd (hentries e he)

/-- Reading back changes no key. -/
theorem keysSorted_map_rereadEntry {es : Entries ν} (h : KeysSorted es) :
    KeysSorted (es.map rereadEntry) := pairwise_map.mpr h

theorem printItems_eq : printItems vs = vs.map Value.print := by
  induction vs with
  | nil => rfl
  | cons v vs ih => rw [printItems, ih, map_cons]

def printEntry (e : String × Value ν) : List Char := printString e.1 ++ ':' :: e.2.print

theorem printEntries_eq (es : Entries ν) : printEntries es = es.map printEntry := by
  induction es with
  | nil => rfl
  | cons e es ih => rw [printEntries, ih, map_cons]; rfl

/-- A character a number starts with starts nothing else. -/
theorem numeric_ne (h : c = '-' ∨ c.isDigit = true) {d : Char} (hd : d ≠ '-' ∧ d.isDigit = false) :
    c ≠ d := by
  rintro rfl
  rcases h with rfl | h
  · exact hd.1 rfl
  · rw [hd.2] at h
    cases h

theorem isSpace_of_numeric (h : c = '-' ∨ c.isDigit = true) : isSpace c = false := by
  have hspace := numeric_ne h (d := ' ') (by decide)
  have hnewline := numeric_ne h (d := '\n') (by decide)
  have htab := numeric_ne h (d := '\t') (by decide)
  have hreturn := numeric_ne h (d := '\r') (by decide)
  simp only [isSpace, hspace, hnewline, htab, hreturn, decide_false, Bool.or_false]

theorem opens_print [LawfulNumber ν] (v : Value ν) : Opens v.print := by
  cases v with
  | null => exact ⟨_, _, rfl, by decide⟩
  | bool b => cases b <;> exact ⟨_, _, rfl, by decide⟩
  | number n =>
    obtain ⟨c, cs, hprint, hc⟩ := LawfulNumber.print_head n
    exact ⟨c, cs, hprint, isSpace_of_numeric hc, numeric_ne hc (by decide),
      numeric_ne hc (by decide)⟩
  | string | array | object => exact ⟨_, _, rfl, by decide⟩

theorem opens_printEntry (e : String × Value ν) : Opens (printEntry e) := ⟨_, _, rfl, by decide⟩

variable {value : Reader (Value ν)} {ok : Value ν → Prop}

theorem readsBack_entry [DecidablePred ok] {e : String × Value ν}
    (h : ReadsBack value Value.print ok Value.reread e.2) :
    ReadsBack (readEntry value) printEntry (fun e => ok e.2) rereadEntry e := by
  intro cs hcs
  have htext : printEntry e ++ cs
      = '"' :: (e.1.toList.flatMap escape ++ '"' :: (':' :: (e.2.print ++ cs))) := by
    simp only [printEntry, printString, cons_append, append_assoc, nil_append]
  have hquote (cs : List Char) : ident ['"'] (skipSpace ('"' :: cs)) = some cs := by
    rw [skipSpace_cons (by decide)]
    simp [ident]
  have hcolon (cs : List Char) : ident [':'] (skipSpace (':' :: cs)) = some cs := by
    rw [skipSpace_cons (by decide)]
    simp [ident]
  rw [htext, readEntry, hquote]
  simp only [Option.bind_eq_bind, Option.bind_some, readString_print, hcolon, h cs hcs, bind_ite,
    rereadEntry]

/-- The printed array and object as the reader meets them. -/
theorem print_array (cs : List Char) :
    (Value.array vs).print ++ cs = '[' :: (commas (vs.map Value.print) ++ ']' :: cs) := by
  rw [Value.print, printItems_eq, cons_append, append_assoc, singleton_append]

theorem print_object (es : Entries ν) (cs : List Char) :
    (Value.object es).print ++ cs = '{' :: (commas (es.map printEntry) ++ '}' :: cs) := by
  rw [Value.print, printEntries_eq, cons_append, append_assoc, singleton_append]

variable {v : Value ν}

section

variable (inner : Option (Reader (Value ν)))

include inner

/-- Values without values inside them are read back at any nesting limit. -/
theorem readValueWith_print_scalar [LawfulNumber ν]
    (h : v.depth = 0) (hcs : Follows cs) :
    readValueWith inner (v.print ++ cs) = some (v.reread, cs) := by
  cases v with
  | null => simp [readValueWith, Value.print, Value.reread, skipSpace_cons, isSpace, ident]
  | bool b =>
    cases b <;> simp [readValueWith, Value.print, Value.reread, skipSpace_cons, isSpace, ident]
  | number n =>
    obtain ⟨c, rest, hprint, hc⟩ := LawfulNumber.print_head n
    have hread := LawfulNumber.read_print n cs hcs
    have hcons : (Value.number n).print ++ cs = c :: (rest ++ cs) := by
      rw [Value.print, hprint, cons_append]
    rw [hprint, cons_append] at hread
    rw [hcons, readValueWith, skipSpace_cons (isSpace_of_numeric hc)]
    simp only [if_neg (numeric_ne hc (d := 'n') (by decide)),
      if_neg (numeric_ne hc (d := 't') (by decide)), if_neg (numeric_ne hc (d := 'f') (by decide)),
      if_pos hc, hread, Option.map_some, Value.reread]
  | string s =>
    have hcons : (Value.string s : Value ν).print ++ cs
        = '"' :: (s.toList.flatMap escape ++ '"' :: cs) := by
      simp only [Value.print, printString, cons_append, append_assoc, nil_append]
    have hdigit : ¬('"' = '-' ∨ '"'.isDigit = true) := by decide
    rw [hcons, readValueWith, skipSpace_cons (by decide)]
    simp only [readString_print, Option.map_some, if_neg hdigit]
    rfl
  | array | object => cases h

theorem readValueWith_array (cs : List Char) :
    readValueWith inner ('[' :: cs) = inner.bind fun value =>
      (readSequence ']' value cs).bind fun p => some (.array p.1, p.2) := rfl

theorem readValueWith_object (cs : List Char) :
    readValueWith inner ('{' :: cs) = inner.bind fun value =>
      (readSequence '}' (readEntry value) cs).bind fun p => some (.obj p.1, p.2) := rfl

end

/-- The printed fields of an object, in any order, are read back as the object they make. -/
theorem readValueWith_print_object [DecidablePred ok] {es : Entries ν}
    (h : ∀ e ∈ es, ReadsBack value Value.print ok Value.reread e.2) (cs : List Char) :
    readValueWith (some value) ((Value.object es).print ++ cs)
      = if ∀ e ∈ es, ok e.2 then some (.obj (es.map rereadEntry), cs) else none := by
  have hitem := readSequence_print (Or.inr (rfl : '}' = '}')) (fun e _ => opens_printEntry e)
    (fun e hmem => readsBack_entry (h e hmem)) cs
  rw [print_object, readValueWith_object, Option.bind_some, hitem, bind_ite]

/-- **A printed value** is read if it is nested at most as deep as the reader goes, and
refused if it is nested deeper. -/
theorem readValue_print [LawfulNumber ν] (n : ℕ) (hv : v.Sorted) :
    ReadsBack (readValue n) Value.print (fun v => v.depth ≤ n) Value.reread v := by
  -- on the nesting limit, which is what the reader spends on the way down
  induction n generalizing v with
  | zero =>
    intro cs hcs
    cases v with
    | array vs =>
      have hdeep : ¬(Value.array vs).depth ≤ 0 := by rw [Value.depth]; omega
      rw [print_array, readValue, readValueWith_array, if_neg hdeep, Option.bind_none]
    | object es =>
      have hdeep : ¬(Value.object es).depth ≤ 0 := by rw [Value.depth]; omega
      rw [print_object, readValue, readValueWith_object, if_neg hdeep, Option.bind_none]
    | _ => exact readValueWith_print_scalar none rfl hcs
  | succ n ih =>
    intro cs hcs
    cases v with
    | array vs =>
      have hitem := readSequence_print (Or.inl (rfl : ']' = ']')) (fun v _ => opens_print v)
        (fun v hmem => ih (Value.sortedItems_iff.mp hv v hmem)) cs
      have hdepth : (Value.array vs).depth ≤ n + 1 ↔ ∀ v ∈ vs, v.depth ≤ n := by
        rw [Value.depth, Nat.succ_le_succ_iff, Value.depthItems_le]
      rw [print_array, readValue, readValueWith_array, Option.bind_some, hitem, bind_ite,
        reread_array]
      exact if_congr hdepth.symm rfl rfl
    | object es =>
      have hread := readValueWith_print_object
        (fun e hmem => ih (Value.sortedEntries_iff.mp hv.2 e hmem)) cs
      have hdepth : (Value.object es).depth ≤ n + 1 ↔ ∀ e ∈ es, e.2.depth ≤ n := by
        rw [Value.depth, Nat.succ_le_succ_iff, Value.depthEntries_le]
      rw [readValue, hread, Value.obj, ofEntries_of_sorted (keysSorted_map_rereadEntry hv.1),
        reread_object]
      exact if_congr hdepth.symm rfl rfl
    | _ => exact readValueWith_print_scalar _ rfl hcs

/-- **The round trip.** The text of a sorted value is read back, with its numbers as they are read
back, when it is nested at most `limit` deep, and refused otherwise. -/
theorem parse_text [LawfulNumber ν] (limit : ℕ) (hv : v.Sorted) :
    parse limit v.text = if v.depth ≤ limit then some v.reread else none := by
  have hread := readValue_print limit hv [] follows_nil
  rw [append_nil] at hread
  rw [parse, Value.text, String.toList_ofList, hread]
  exact bind_ite _ _

/-- An object with its fields in any order is read back as the ordered one. -/
theorem parse_text_object [LawfulNumber ν] {limit : ℕ} {es : Entries ν}
    (hes : ∀ e ∈ es, e.2.Sorted ∧ e.2.depth ≤ limit) :
    parse (limit + 1) (Value.object es).text = some (.obj (es.map rereadEntry)) := by
  have hread := readValueWith_print_object
    (fun e hmem => readValue_print limit (hes e hmem).1) []
  rw [append_nil, if_pos fun e hmem => (hes e hmem).2] at hread
  rw [parse, Value.text, String.toList_ofList, readValue, hread]
  rfl

/-! ### What is read -/

variable {α : Type} {cs' : List Char} {P : α → Prop} {item : Reader α}

/-- Whatever the reader of the items gives, all items of a sequence are of that kind. -/
theorem readMore_all (hitem : ∀ cs a cs', item cs = some (a, cs') → P a)
    (fuel : ℕ) {as : List α} (h : readMore close item fuel cs = some (as, cs')) :
    ∀ a ∈ as, P a := by
  induction fuel generalizing cs as with
  | zero => cases h
  | succ fuel ih =>
    rw [readMore] at h
    split at h
    · cases h
    · split at h
      · cases h
        exact fun a ha => absurd ha not_mem_nil
      · split at h
        · obtain ⟨⟨a, rest⟩, ha, h⟩ := Option.bind_eq_some_iff.mp h
          obtain ⟨⟨as', rest'⟩, has, h⟩ := Option.bind_eq_some_iff.mp h
          cases h
          exact forall_mem_cons.mpr ⟨hitem _ _ _ ha, ih has⟩
        · cases h

theorem readSequence_all (hitem : ∀ cs a cs', item cs = some (a, cs') → P a)
    {as : List α} (h : readSequence close item cs = some (as, cs')) : ∀ a ∈ as, P a := by
  rw [readSequence] at h
  split at h
  · cases h
    exact fun a ha => absurd ha not_mem_nil
  · obtain ⟨⟨a, rest⟩, ha, h⟩ := Option.bind_eq_some_iff.mp h
    obtain ⟨⟨as', rest'⟩, has, h⟩ := Option.bind_eq_some_iff.mp h
    cases h
    exact forall_mem_cons.mpr ⟨hitem _ _ _ ha, readMore_all hitem _ has⟩

theorem readEntry_all {value : Reader α} (hvalue : ∀ cs a cs', value cs = some (a, cs') → P a)
    {e : String × α} (h : readEntry value cs = some (e, cs')) : P e.2 := by
  obtain ⟨cs₁, _, h⟩ := Option.bind_eq_some_iff.mp h
  obtain ⟨⟨k, cs₂⟩, _, h⟩ := Option.bind_eq_some_iff.mp h
  obtain ⟨cs₃, _, h⟩ := Option.bind_eq_some_iff.mp h
  obtain ⟨⟨a, cs₄⟩, ha, h⟩ := Option.bind_eq_some_iff.mp h
  cases h
  exact hvalue _ _ _ ha

theorem readValueWith_sorted {inner : Option (Reader (Value ν))} {n : ℕ}
    (hinner : ∀ value ∈ inner, ∃ m, n = m + 1 ∧ ∀ cs v cs', value cs = some (v, cs') →
      v.Sorted ∧ v.depth ≤ m)
    (h : readValueWith inner cs = some (v, cs')) : v.Sorted ∧ v.depth ≤ n := by
  have hleaf : ∀ {α : Type} {f : α → Value ν × List Char} {r : Option α}, r.map f = some (v, cs') →
      (∀ x, (f x).1.Sorted ∧ (f x).1.depth = 0) → v.Sorted ∧ v.depth ≤ n := by
    intro α f r hr hf
    obtain ⟨x, _, hx⟩ := Option.map_eq_some_iff.mp hr
    have hfx := hf x
    rw [hx] at hfx
    exact ⟨hfx.1, hfx.2 ▸ Nat.zero_le n⟩
  rw [readValueWith] at h
  split at h
  · cases h
  split at h
  · exact hleaf h fun _ => ⟨trivial, rfl⟩
  split at h
  · exact hleaf h fun _ => ⟨trivial, rfl⟩
  split at h
  · exact hleaf h fun _ => ⟨trivial, rfl⟩
  split at h
  · exact hleaf h fun _ => ⟨trivial, rfl⟩
  split at h
  · exact hleaf h fun _ => ⟨trivial, rfl⟩
  split at h
  · obtain ⟨value, hvalue, h⟩ := Option.bind_eq_some_iff.mp h
    obtain ⟨⟨vs, rest⟩, hvs, h⟩ := Option.bind_eq_some_iff.mp h
    cases h
    obtain ⟨m, rfl, hitem⟩ := hinner value hvalue
    have hall := readSequence_all hitem hvs
    exact ⟨Value.sortedItems_iff.mpr fun v hv => (hall v hv).1,
      Nat.succ_le_succ (Value.depthItems_le.mpr fun v hv => (hall v hv).2)⟩
  split at h
  · obtain ⟨value, hvalue, h⟩ := Option.bind_eq_some_iff.mp h
    obtain ⟨⟨es, rest⟩, hes, h⟩ := Option.bind_eq_some_iff.mp h
    cases h
    obtain ⟨m, rfl, hitem⟩ := hinner value hvalue
    have hall : ∀ e ∈ es, e.2.Sorted ∧ e.2.depth ≤ m :=
      readSequence_all (fun cs e cs' he => readEntry_all hitem he) hes
    exact ⟨Value.sorted_obj fun e he => (hall e he).1,
      Nat.succ_le_succ (Value.depthEntries_le.mpr fun e he => (hall e (mem_ofEntries he)).2)⟩
  · cases h

/-- A value that is read has its keys in order and is nested at most as deep as the reader goes. -/
theorem readValue_sorted (n : ℕ) (h : readValue n cs = some (v, cs')) : v.Sorted ∧ v.depth ≤ n := by
  induction n generalizing cs cs' v with
  | zero =>
    exact readValueWith_sorted (fun value hvalue => absurd hvalue (Option.not_mem_none value)) h
  | succ n ih =>
    refine readValueWith_sorted (fun value hvalue => ⟨n, rfl, ?_⟩) h
    obtain rfl : readValue n = value := Option.some.inj hvalue
    exact fun cs v cs' h => ih h

/-- What is parsed has its keys in order and is nested at most `limit` deep. -/
theorem parse_sorted {limit : ℕ} {text : String} (h : parse limit text = some v) :
    v.Sorted ∧ v.depth ≤ limit := by
  obtain ⟨⟨w, cs⟩, hw, h⟩ := Option.bind_eq_some_iff.mp h
  have hv : w = v := by
    dsimp only at h
    split at h
    · exact Option.some.inj h
    · cases h
  exact hv ▸ readValue_sorted limit hw

/-! ### Texts that are no values -/

/-- The text starts like a value: with a bracket, a quote, a number or one of the three words. -/
def startsValue (cs : List Char) : Bool :=
  match skipSpace cs with
  | [] => false
  | c :: cs =>
    if c = 'n' then (ident ['u', 'l', 'l'] cs).isSome
    else if c = 't' then (ident ['r', 'u', 'e'] cs).isSome
    else if c = 'f' then (ident ['a', 'l', 's', 'e'] cs).isSome
    else c = '-' || c.isDigit || c = '"' || c = '[' || c = '{'

theorem readValueWith_eq_none (inner : Option (Reader (Value ν))) (h : startsValue cs = false) :
    readValueWith inner cs = none := by
  rw [startsValue] at h
  rw [readValueWith]
  cases hcs : skipSpace cs with
  | nil => rfl
  | cons c cs =>
    rw [hcs] at h
    simp only at h ⊢
    split
    case isTrue hn =>
      rw [if_pos hn, Option.isSome_eq_false_iff, Option.isNone_iff_eq_none] at h
      rw [h, Option.map_none]
    case isFalse hn =>
    rw [if_neg hn] at h
    split
    case isTrue ht =>
      rw [if_pos ht, Option.isSome_eq_false_iff, Option.isNone_iff_eq_none] at h
      rw [h, Option.map_none]
    case isFalse ht =>
    rw [if_neg ht] at h
    split
    case isTrue hf =>
      rw [if_pos hf, Option.isSome_eq_false_iff, Option.isNone_iff_eq_none] at h
      rw [h, Option.map_none]
    case isFalse hf =>
      rw [if_neg hf] at h
      simp only [Bool.or_eq_false_iff, decide_eq_false_iff_not] at h
      obtain ⟨⟨⟨⟨hminus, hdigit⟩, hquote⟩, hbracket⟩, hbrace⟩ := h
      simp only [hminus, hdigit, hquote, hbracket, hbrace, Bool.false_eq_true, or_self, if_false]

/-- A text that does not start like a value is refused. -/
theorem parse_eq_none (limit : ℕ) {text : String} (h : startsValue text.toList = false) :
    parse (ν := ν) limit text = none := by
  have hvalue : readValue (ν := ν) limit text.toList = none := by
    cases limit with
    | zero => exact readValueWith_eq_none none h
    | succ limit => exact readValueWith_eq_none _ h
  rw [parse, hvalue]
  rfl

end Values

end Json
