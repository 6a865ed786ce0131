/-
  The two parsers of reference paths.

  The runtime replaces the quoted brackets of a path by dots, turns numeric brackets into segments,
  and splits at the dots; the escapes of the JSON pointer cancel out (`pathToSegments_eq`). The
  validator scans the path once, drops empty segments and trims brackets. `WrittenPath` is a path
  whose segments are keys after a dot, numbers in brackets or quoted keys in brackets; on these the
  two agree (`segments_agree`). Without brackets they agree exactly when there is no empty segment
  (`segments_agree_iff`).
-/
import Runtara.Reference.Schema

namespace Runtara

open List

/-! ### Joined and split texts -/

theorem intercalate_cons {α : Type} (x : α) (l : List α) (ls : List (List α)) :
    [x].intercalate (l :: ls) = l ++ ls.flatMap (x :: ·) := by
  induction ls generalizing l with
  | nil => simp [List.intercalate]
  | cons l' ls ih =>
    have hstep : [x].intercalate (l :: l' :: ls) = l ++ x :: [x].intercalate (l' :: ls) := by
      simp [List.intercalate, List.intersperse]
    rw [hstep, ih, flatMap_cons, cons_append]

theorem splitOn_joined {x : Char} {l : List Char} {ls : List (List Char)} (hl : x ∉ l)
    (hls : ∀ l ∈ ls, x ∉ l) : (l ++ ls.flatMap (x :: ·)).splitOn x = l :: ls := by
  rw [← intercalate_cons]
  exact splitOn_intercalate x (forall_mem_cons.mpr ⟨hl, hls⟩) (cons_ne_nil _ _)

/-! ### Replacement of a pair -/

variable {c : Char} {cs x y : List Char}

section Pair

variable (a b : Char) (rep : List Char)

theorem replace_pair_nil : replace [a, b] rep [] = [] := rfl

theorem replace_pair_match (cs : List Char) :
    replace [a, b] rep (a :: b :: cs) = rep ++ replace [a, b] rep cs := by
  simp [replace, replaceFrom]

theorem replace_pair_skip (h : ¬(c = a ∧ cs.head? = some b)) :
    replace [a, b] rep (c :: cs) = c :: replace [a, b] rep cs := by
  have hno : ¬List.isPrefixOf [a, b] (c :: cs) = true := by
    rw [List.isPrefixOf_iff_prefix, cons_prefix_cons]
    rintro ⟨hac, t, ht⟩
    exact h ⟨hac.symm, by rw [← ht]; rfl⟩
  rw [replace, replaceFrom, if_neg hno]
  rfl

theorem replace_pair_cons (hc : c ≠ a) (cs : List Char) :
    replace [a, b] rep (c :: cs) = c :: replace [a, b] rep cs :=
  replace_pair_skip a b rep fun h => hc h.1

theorem replace_pair_other (hb : cs.head? ≠ some b) (c : Char) :
    replace [a, b] rep (c :: cs) = c :: replace [a, b] rep cs :=
  replace_pair_skip a b rep fun h => hb h.2

/-- A text without the first character of the pair stays. -/
theorem replace_pair_append (hx : a ∉ x) (y : List Char) :
    replace [a, b] rep (x ++ y) = x ++ replace [a, b] rep y := by
  induction x with
  | nil => rfl
  | cons c x ih =>
    rw [mem_cons, not_or] at hx
    rw [cons_append, replace_pair_cons a b rep (Ne.symm hx.1), ih hx.2, cons_append]

/-- So does a text without the second, unless that comes next. -/
theorem replace_pair_append_other (hx : b ∉ x) (hy : y.head? ≠ some b) :
    replace [a, b] rep (x ++ y) = x ++ replace [a, b] rep y := by
  induction x with
  | nil => rfl
  | cons c x ih =>
    rw [mem_cons, not_or] at hx
    have hhead : (x ++ y).head? ≠ some b := by
      cases x with
      | nil => exact hy
      | cons d x =>
        rw [cons_append, head?_cons]
        intro h
        exact hx.2 (Option.some.inj h ▸ mem_cons_self)
    rw [cons_append, replace_pair_other a b rep hhead, ih hx.2, cons_append]

theorem replace_pair_of_not_mem (hx : a ∉ x ∨ b ∉ x) : replace [a, b] rep x = x := by
  rcases hx with hx | hx
  · simpa [replace_pair_nil] using replace_pair_append a b rep hx []
  · simpa [replace_pair_nil] using replace_pair_append_other a b rep hx (y := []) nofun

end Pair

/-! ### The JSON pointer -/

variable (segment : List Char)

theorem unescape_escape : unescapePointerSegment (segment.flatMap escapePointerChar) = segment := by
  -- the slashes first, then the tildes
  have hslash : replace ['~', '1'] ['/'] (segment.flatMap escapePointerChar)
      = segment.flatMap fun c => if c = '~' then ['~', '0'] else [c] := by
    induction segment with
    | nil => rfl
    | cons c segment ih =>
      rw [flatMap_cons, flatMap_cons, ← ih]
      by_cases htilde : c = '~'
      · rw [htilde]
        exact (replace_pair_other _ _ _ (by simp) _).trans
          (congrArg _ (replace_pair_cons _ _ _ (by decide) _))
      · by_cases hsolidus : c = '/'
        · rw [hsolidus]
          exact replace_pair_match _ _ _ _
        · simp only [escapePointerChar, if_neg htilde, if_neg hsolidus]
          exact replace_pair_cons _ _ _ htilde _
  rw [unescapePointerSegment, hslash]
  clear hslash
  induction segment with
  | nil => rfl
  | cons c segment ih =>
    rw [flatMap_cons]
    by_cases htilde : c = '~'
    · rw [if_pos htilde, htilde]
      exact (replace_pair_match _ _ _ _).trans (congrArg _ ih)
    · rw [if_neg htilde]
      exact (replace_pair_cons _ _ _ htilde _).trans (congrArg _ ih)

theorem not_mem_escape : '/' ∉ segment.flatMap escapePointerChar := by
  intro h
  obtain ⟨c, _, hc⟩ := mem_flatMap.mp h
  unfold escapePointerChar at hc
  split at hc
  · exact absurd hc (by decide)
  · split at hc
    · exact absurd hc (by decide)
    · next hne => exact hne (mem_singleton.mp hc).symm

/-- The path with its quoted brackets replaced. -/
def normalizePath (path : List Char) : List Char :=
  replace ['"', ']'] [] (replace ['[', '"'] ['.']
    (replace ['\'', ']'] [] (replace ['[', '\''] ['.'] path)))

/-- **The runtime's segments** are what is between the dots of the normalized path. -/
theorem pathToSegments_eq (path : String) :
    pathToSegments path
      = ((dottedPath none (normalizePath path.toList)).splitOn '.').map String.ofList := by
  have hpointer : ∀ segments : List (List Char),
      ((segments.flatMap fun segment =>
          '/' :: segment.flatMap escapePointerChar).splitOn '/').drop 1
        = segments.map (·.flatMap escapePointerChar) := by
    intro segments
    have hescaped : ∀ l ∈ segments.map (·.flatMap escapePointerChar), '/' ∉ l := by
      intro l hl
      obtain ⟨segment, _, rfl⟩ := mem_map.mp hl
      exact not_mem_escape segment
    have hsplit := splitOn_joined (x := '/') (l := []) not_mem_nil hescaped
    rw [flatMap_map, nil_append] at hsplit
    rw [hsplit, drop_one, tail_cons]
  unfold pathToSegments pathToJsonPointer
  rw [hpointer, map_map]
  refine map_congr_left fun segment _ => ?_
  exact congrArg String.ofList (unescape_escape segment)

/-! ### Trimming -/

theorem trim_eq {p : Char → Bool} {m : List Char} (hx : ∀ c ∈ x, p c = true)
    (hy : ∀ c ∈ y, p c = true) (hhead : ∀ c ∈ m.head?, p c = false)
    (hlast : ∀ c ∈ m.getLast?, p c = false) (hm : m ≠ []) :
    (((x ++ m ++ y).dropWhile p).reverse.dropWhile p).reverse = m := by
  have hfront : (x ++ m ++ y).dropWhile p = m ++ y := by
    obtain ⟨c, m', rfl⟩ := exists_cons_of_ne_nil hm
    rw [append_assoc, dropWhile_append_of_pos hx, cons_append,
      dropWhile_cons_of_neg (by simp [hhead c rfl])]
  have hback : (y.reverse ++ m.reverse).dropWhile p = m.reverse := by
    have hne : m.reverse ≠ [] := fun h => hm (reverse_eq_nil_iff.mp h)
    obtain ⟨c, m', hrev⟩ := exists_cons_of_ne_nil hne
    have hc : p c = false := by
      refine hlast c ?_
      rw [← head?_reverse, hrev]
      rfl
    rw [dropWhile_append_of_pos fun c hc => hy c (mem_reverse.mp hc), hrev,
      dropWhile_cons_of_neg (by simp [hc])]
  rw [hfront, reverse_append, hback, reverse_reverse]

def isQuote (c : Char) : Bool := c = '\'' || c = '"'

theorem isQuote_iff : isQuote c = true ↔ c = '\'' ∨ c = '"' := by
  simp [isQuote]

/-! ### Paths as they are written -/

/-- A text without dots and brackets. -/
def PlainText (cs : List Char) : Prop := cs ≠ [] ∧ '.' ∉ cs ∧ '[' ∉ cs ∧ ']' ∉ cs

/-- A text without dots and opening brackets, and with closing ones only if it has no quotes. -/
def KeyText (cs : List Char) : Prop :=
  cs ≠ [] ∧ '.' ∉ cs ∧ '[' ∉ cs ∧ (']' ∈ cs → ∀ c ∈ cs, isQuote c = false)

/-- A text that does not start or end with a quote. -/
def Bare (cs : List Char) : Prop :=
  (∀ c ∈ cs.head?, isQuote c = false) ∧ ∀ c ∈ cs.getLast?, isQuote c = false

instance (cs : List Char) : Decidable (PlainText cs) := inferInstanceAs (Decidable (_ ∧ _))

instance (cs : List Char) : Decidable (KeyText cs) := inferInstanceAs (Decidable (_ ∧ _))

instance (cs : List Char) : Decidable (Bare cs) :=
  @instDecidableAnd _ _ (Option.decidableForallMem cs.head?) (Option.decidableForallMem cs.getLast?)

/-- A segment after the first: `.name`, `[0]` or `['name']` with either quote at either end. -/
inductive WrittenSegment where
  | key (name : List Char) (plain : KeyText name)
  | index (token : List Char) (valid : isArrayIndexToken token = true)
  | quoted (q q' : Char) (name : List Char) (opens : isQuote q = true) (closes : isQuote q' = true)
    (plain : PlainText name) (bare : Bare name)

namespace WrittenSegment

/-- The segment that is meant. -/
def name : WrittenSegment → List Char
  | .key name _ => name
  | .index token _ => token
  | .quoted _ _ name _ _ _ _ => name

/-- The text of the segment once the brackets of the quotes in `o` are opened by a dot and those
of the quotes in `c` are closed by nothing. -/
def form (o c : Char → Bool) : WrittenSegment → List Char
  | .key name _ => '.' :: name
  | .index token _ => '[' :: (token ++ [']'])
  | .quoted q q' name _ _ _ _ =>
    ((if o q then ['.'] else ['[', q]) ++ name) ++ (if c q' then [] else [q', ']'])

/-- The segment as it is written. -/
def text : WrittenSegment → List Char := form (fun _ => false) fun _ => false

end WrittenSegment

/-- A reference whose first segment is a key. -/
structure WrittenPath where
  root : List Char
  plain : KeyText root
  rest : List WrittenSegment

namespace WrittenPath

def text (p : WrittenPath) : String := String.ofList (p.root ++ p.rest.flatMap WrittenSegment.text)

def segments (p : WrittenPath) : List (List Char) := p.root :: p.rest.map WrittenSegment.name

end WrittenPath

variable (s : WrittenSegment) (p : WrittenPath) (rest : List WrittenSegment) {root : List Char}

section Written

variable {cs : List Char}

theorem mem_indexToken (h : isArrayIndexToken cs = true) :
    ∀ c ∈ cs, c = '-' ∨ c.isDigit = true := by
  unfold isArrayIndexToken at h
  simp only [Bool.and_eq_true, all_eq_true] at h
  intro c hc
  split at h
  · next ds =>
    rcases mem_cons.mp hc with rfl | hc
    · exact Or.inl rfl
    · exact Or.inr (h.2 c hc)
  · exact Or.inr (h.2 c hc)

theorem indexToken_ne_nil (h : isArrayIndexToken cs = true) : cs ≠ [] := by
  rintro rfl
  cases h

/-- An index has no dot, bracket, quote or blank in it. -/
theorem not_mem_indexToken (h : isArrayIndexToken cs = true) (hdash : c ≠ '-')
    (hdigit : c.isDigit = false) : c ∉ cs := by
  intro hc
  rcases mem_indexToken h c hc with h | h
  · exact hdash h
  · rw [hdigit] at h
    cases h

theorem isWhiteSpace_of_isDigit (h : c = '-' ∨ c.isDigit = true) : isWhiteSpace c = false := by
  rcases h with rfl | h
  · decide
  · have hrange : 48 ≤ c.toNat ∧ c.toNat ≤ 57 := by
      simpa [Char.isDigit, UInt32.le_iff_toNat_le] using h
    simp only [isWhiteSpace, Bool.or_eq_false_iff, Bool.and_eq_false_iff, decide_eq_false_iff_not]
    omega

theorem isQuote_of_isDigit (h : c = '-' ∨ c.isDigit = true) : isQuote c = false := by
  cases hq : isQuote c with
  | false => rfl
  | true => rcases isQuote_iff.mp hq with rfl | rfl <;> exact absurd h (by decide)

theorem isWhiteSpace_of_isQuote (h : isQuote c = true) : isWhiteSpace c = false := by
  rcases isQuote_iff.mp h with rfl | rfl <;> decide

theorem trimQuotes_eq (cs : List Char) :
    trimQuotes cs = ((cs.dropWhile isQuote).reverse.dropWhile isQuote).reverse := rfl

theorem bracketSegment_index (h : isArrayIndexToken cs = true) : bracketSegment cs = cs := by
  have hall := mem_indexToken h
  have hne := indexToken_ne_nil h
  have hhead : ∀ c ∈ cs.head?, c = '-' ∨ c.isDigit = true :=
    fun c hc => hall c (mem_of_mem_head? hc)
  have hlast : ∀ c ∈ cs.getLast?, c = '-' ∨ c.isDigit = true :=
    fun c hc => hall c (mem_of_mem_getLast? hc)
  have hspace : trimSpace cs = cs := by
    simpa [trimSpace] using trim_eq (p := isWhiteSpace) (x := []) (y := []) (by simp) (by simp)
      (fun c hc => isWhiteSpace_of_isDigit (hhead c hc))
      (fun c hc => isWhiteSpace_of_isDigit (hlast c hc)) hne
  rw [bracketSegment, hspace, trimQuotes_eq]
  simpa using trim_eq (p := isQuote) (x := []) (y := []) (by simp) (by simp)
    (fun c hc => isQuote_of_isDigit (hhead c hc)) (fun c hc => isQuote_of_isDigit (hlast c hc)) hne

theorem bracketSegment_quoted {q q' : Char} (hq : isQuote q = true) (hq' : isQuote q' = true)
    (hplain : PlainText cs) (hbare : Bare cs) : bracketSegment (q :: (cs ++ [q'])) = cs := by
  have hspace : trimSpace (q :: (cs ++ [q'])) = q :: (cs ++ [q']) := by
    have hlast : (q :: (cs ++ [q'])).getLast? = some q' := by
      rw [← cons_append, getLast?_concat]
    simpa [trimSpace] using trim_eq (p := isWhiteSpace) (x := []) (m := q :: (cs ++ [q'])) (y := [])
      (by simp) (by simp) (fun c hc => Option.some.inj hc ▸ isWhiteSpace_of_isQuote hq)
      (fun c hc => by
        rw [hlast] at hc
        exact Option.some.inj hc ▸ isWhiteSpace_of_isQuote hq')
      (cons_ne_nil _ _)
  rw [bracketSegment, hspace, trimQuotes_eq]
  exact trim_eq (p := isQuote) (x := [q]) (y := [q']) (by simpa using hq) (by simpa using hq')
    hbare.1 hbare.2 hplain.1

/-! ### The scan of the validator -/

theorem scanReference_plain (hdot : '.' ∉ x) (hbracket : '[' ∉ x) (current y : List Char) :
    scanReference current none (x ++ y) = scanReference (current ++ x) none y := by
  induction x generalizing current with
  | nil => rw [nil_append, append_nil]
  | cons c x ih =>
    rw [mem_cons, not_or] at hdot hbracket
    rw [cons_append, scanReference, if_neg (Ne.symm hdot.1), if_neg (Ne.symm hbracket.1),
      ih hdot.2 hbracket.2, append_assoc]
    rfl

theorem scanReference_bracket (hx : ']' ∉ x) (current b y : List Char) :
    scanReference current (some b) (x ++ ']' :: y)
      = pushSegment (bracketSegment (b ++ x)) ++ scanReference current none y := by
  induction x generalizing b with
  | nil => rw [nil_append, append_nil, scanReference, if_pos rfl]
  | cons c x ih =>
    rw [mem_cons, not_or] at hx
    rw [cons_append, scanReference, if_neg (Ne.symm hx.1), ih hx.2, append_assoc]
    rfl

theorem pushSegment_of_ne_nil (h : cs ≠ []) : pushSegment cs = [cs] := if_neg h

theorem scanReference_segment (current y : List Char) :
    scanReference current none (s.text ++ y) = pushSegment current ++
      match s with
      | .key name _ => scanReference name none y
      | s => s.name :: scanReference [] none y := by
  cases s with
  | key name plain =>
    show scanReference current none ('.' :: (name ++ y)) = _
    rw [scanReference, if_pos rfl, scanReference_plain plain.2.1 plain.2.2.1]
    rfl
  | index token valid =>
    show scanReference current none ('[' :: ((token ++ [']']) ++ y)) = _
    rw [scanReference, if_neg (by decide), if_pos rfl, append_assoc, singleton_append,
      scanReference_bracket (not_mem_indexToken valid (by decide) (by decide)), nil_append,
      bracketSegment_index valid, pushSegment_of_ne_nil (indexToken_ne_nil valid)]
    rfl
  | quoted q q' name opens closes plain bare =>
    have htext : (WrittenSegment.quoted q q' name opens closes plain bare).text ++ y
        = '[' :: ((q :: (name ++ [q'])) ++ ']' :: y) := by
      simp [WrittenSegment.text, WrittenSegment.form]
    have hclose : ']' ∉ q :: (name ++ [q']) := by
      rcases isQuote_iff.mp opens with rfl | rfl <;> rcases isQuote_iff.mp closes with rfl | rfl <;>
        simp [plain.2.2.2]
    rw [htext, scanReference, if_neg (by decide), if_pos rfl, scanReference_bracket hclose,
      nil_append, bracketSegment_quoted opens closes plain bare,
      pushSegment_of_ne_nil plain.1]
    rfl

theorem scanReference_rest (current : List Char) :
    scanReference current none (rest.flatMap WrittenSegment.text)
      = pushSegment current ++ rest.map WrittenSegment.name := by
  induction rest generalizing current with
  | nil => simp [scanReference]
  | cons s rest ih =>
    rw [flatMap_cons, scanReference_segment, map_cons]
    cases s with
    | key name plain =>
      dsimp only
      rw [ih, pushSegment_of_ne_nil plain.1]
      rfl
    | index | quoted =>
      dsimp only
      rw [ih]
      rfl

/-- **The validator's segments** of a written path are the segments that are meant. -/
theorem referenceSegments_text : referenceSegments p.text = p.segments.map String.ofList := by
  rw [referenceSegments, WrittenPath.text, String.toList_ofList,
    scanReference_plain p.plain.2.1 p.plain.2.2.1, nil_append, scanReference_rest,
    pushSegment_of_ne_nil p.plain.1]
  rfl

/-! ### The normalization of the runtime -/

section Normalize

variable (o c : Char → Bool)

/-- The text after a segment starts with a dot or a bracket, if there is any. -/
theorem head?_rest : (rest.flatMap (WrittenSegment.form o c)).head? ≠ some ']' := by
  cases rest with
  | nil => nofun
  | cons s rest =>
    rw [flatMap_cons]
    cases s with
    | key | index => simp [WrittenSegment.form]
    | quoted q q' name opens closes plain bare =>
      simp only [WrittenSegment.form]
      split <;> simp

variable {q₀ : Char}

section

variable (hq₀ : isQuote q₀ = true)

include hq₀

theorem replace_opening (y : List Char) : replace ['[', q₀] ['.'] (s.form o c ++ y)
      = s.form (fun q => o q || q = q₀) c ++ replace ['[', q₀] ['.'] y := by
  cases s with
  | key name plain =>
    have hno : '[' ∉ '.' :: name := by simp [plain.2.2.1]
    exact replace_pair_append _ _ _ hno y
  | index token valid =>
    obtain ⟨d, ds, rfl⟩ := exists_cons_of_ne_nil (indexToken_ne_nil valid)
    have hd : d ≠ q₀ := by
      rintro rfl
      rw [isQuote_of_isDigit (mem_indexToken valid _ mem_cons_self)] at hq₀
      cases hq₀
    have hno : '[' ∉ d :: (ds ++ [']']) := by
      have := not_mem_indexToken valid (c := '[') (by decide) (by decide)
      simpa using this
    show replace ['[', q₀] ['.'] ('[' :: ((d :: (ds ++ [']'])) ++ y)) = _
    rw [replace_pair_other _ _ _ (by simpa using hd), replace_pair_append _ _ _ hno]
    rfl
  | quoted q q' name opens closes plain bare =>
    have hclose : '[' ∉ name ++ (if c q' then [] else [q', ']']) := by
      rcases isQuote_iff.mp closes with rfl | rfl <;> split <;> simp [plain.2.2.1]
    simp only [WrittenSegment.form, append_assoc] at hclose ⊢
    by_cases ho : o q = true
    · simp only [ho, Bool.true_or, if_true]
      rw [replace_pair_append _ _ _ (by decide), ← append_assoc name,
        replace_pair_append _ _ _ hclose, append_assoc]
    · simp only [ho, Bool.false_or, Bool.false_eq_true, if_false, decide_eq_true_eq]
      by_cases hq : q = q₀
      · rw [if_pos hq, hq]
        show replace ['[', q₀] ['.'] ('[' :: q₀ :: (name ++ _)) = _
        rw [replace_pair_match, ← append_assoc name, replace_pair_append _ _ _ hclose,
          append_assoc]
      · have hq' : '[' ∉ [q] := by rcases isQuote_iff.mp opens with rfl | rfl <;> decide
        rw [if_neg hq]
        show replace ['[', q₀] ['.'] ('[' :: ([q] ++ _)) = _
        rw [replace_pair_other _ _ _ (by simpa using hq), replace_pair_append _ _ _ hq',
          ← append_assoc name, replace_pair_append _ _ _ hclose, append_assoc]
        rfl

theorem replace_key (hx : KeyText x) (hy : y.head? ≠ some ']') :
    replace [q₀, ']'] [] (x ++ y) = x ++ replace [q₀, ']'] [] y := by
  by_cases hclose : ']' ∈ x
  · refine replace_pair_append _ _ _ (fun hmem => ?_) y
    rw [hx.2.2.2 hclose q₀ hmem] at hq₀
    cases hq₀
  · exact replace_pair_append_other _ _ _ hclose hy

theorem replace_closing (hy : y.head? ≠ some ']') : replace [q₀, ']'] [] (s.form o c ++ y)
      = s.form o (fun q => c q || q = q₀) ++ replace [q₀, ']'] [] y := by
  cases s with
  | key name plain =>
    have hdot : '.' ≠ q₀ := by rcases isQuote_iff.mp hq₀ with rfl | rfl <;> decide
    exact (replace_pair_cons _ _ _ hdot _).trans (congrArg _ (replace_key hq₀ plain hy))
  | index token valid =>
    have hno : q₀ ∉ '[' :: (token ++ [']']) := by
      have hquote : q₀ ∉ token := by
        intro hmem
        rw [isQuote_of_isDigit (mem_indexToken valid _ hmem)] at hq₀
        cases hq₀
      rcases isQuote_iff.mp hq₀ with rfl | rfl <;> simp [hquote]
    exact replace_pair_append _ _ _ hno y
  | quoted q q' name opens closes plain bare =>
    have hopen : ']' ∉ (if o q then ['.'] else ['[', q]) ++ name := by
      rcases isQuote_iff.mp opens with rfl | rfl <;> split <;> simp [plain.2.2.2]
    have hquote : q' ≠ ']' := by rcases isQuote_iff.mp closes with rfl | rfl <;> decide
    have hbracket : ']' ≠ q₀ := by rcases isQuote_iff.mp hq₀ with rfl | rfl <;> decide
    simp only [WrittenSegment.form]
    generalize (if o q then ['.'] else ['[', q]) ++ name = start at hopen
    by_cases hc : c q' = true
    · simp only [hc, Bool.true_or, if_true, append_nil]
      exact replace_pair_append_other _ _ _ hopen hy
    · simp only [hc, Bool.false_or, Bool.false_eq_true, if_false, decide_eq_true_eq]
      rw [append_assoc, replace_pair_append_other _ _ _ hopen (by simpa using hquote)]
      by_cases hq : q' = q₀
      · rw [if_pos hq, hq, append_nil]
        exact congrArg _ (replace_pair_match _ _ _ _)
      · rw [if_neg hq, append_assoc]
        refine congrArg _ ((replace_pair_cons _ _ _ hq _).trans (congrArg _ ?_))
        exact replace_pair_cons _ _ _ hbracket _

theorem replace_opening_path (hroot : KeyText root) (rest : List WrittenSegment) :
    replace ['[', q₀] ['.'] (root ++ rest.flatMap (WrittenSegment.form o c))
      = root ++ rest.flatMap (WrittenSegment.form (fun q => o q || q = q₀) c) := by
  rw [replace_pair_append _ _ _ hroot.2.2.1]
  congr 1
  induction rest with
  | nil => rfl
  | cons s rest ih => rw [flatMap_cons, replace_opening s o c hq₀, ih, flatMap_cons]

theorem replace_closing_path (hroot : KeyText root) (rest : List WrittenSegment) :
    replace [q₀, ']'] [] (root ++ rest.flatMap (WrittenSegment.form o c))
      = root ++ rest.flatMap (WrittenSegment.form o fun q => c q || q = q₀) := by
  rw [replace_key hq₀ hroot (head?_rest rest o c)]
  congr 1
  induction rest with
  | nil => rfl
  | cons s rest ih =>
    rw [flatMap_cons, replace_closing s o c hq₀ (head?_rest rest o c), ih, flatMap_cons]

end

end Normalize

/-- The text of a segment with both quotes replaced at both ends. -/
theorem form_replaced : s.form (fun q => (false || decide (q = '\'')) || decide (q = '"'))
        (fun q => (false || decide (q = '\'')) || decide (q = '"'))
      = match s with
        | .index token _ => '[' :: (token ++ [']'])
        | s => '.' :: s.name := by
  cases s with
  | quoted q q' name opens closes plain bare =>
    rcases isQuote_iff.mp opens with rfl | rfl <;> rcases isQuote_iff.mp closes with rfl | rfl <;>
      simp [WrittenSegment.form, WrittenSegment.name]
  | _ => rfl

theorem dottedPath_plain (hx : '[' ∉ x) (y : List Char) :
    dottedPath none (x ++ y) = x ++ dottedPath none y := by
  induction x with
  | nil => rfl
  | cons c x ih =>
    rw [mem_cons, not_or] at hx
    rw [cons_append, dottedPath, if_neg (Ne.symm hx.1), ih hx.2, cons_append]

theorem dottedPath_group (hx : ']' ∉ x) (index y : List Char) :
    dottedPath (some index) (x ++ ']' :: y) = bracketGroup (index ++ x) ++ dottedPath none y := by
  induction x generalizing index with
  | nil => rw [nil_append, append_nil, dottedPath, if_pos rfl]
  | cons c x ih =>
    rw [mem_cons, not_or] at hx
    rw [cons_append, dottedPath, if_neg (Ne.symm hx.1), ih hx.2, append_assoc]
    rfl

theorem dottedPath_segment (y : List Char) :
    dottedPath none (s.form (fun q => (false || decide (q = '\'')) || decide (q = '"'))
        (fun q => (false || decide (q = '\'')) || decide (q = '"')) ++ y)
      = ('.' :: s.name) ++ dottedPath none y := by
  rw [form_replaced]
  cases s with
  | key name plain => exact dottedPath_plain (by simp [plain.2.2.1, WrittenSegment.name]) y
  | quoted q q' name opens closes plain bare =>
    exact dottedPath_plain (by simp [plain.2.2.1, WrittenSegment.name]) y
  | index token valid =>
    show dottedPath none ('[' :: ((token ++ [']']) ++ y)) = _
    rw [dottedPath, if_pos rfl, append_assoc, singleton_append,
      dottedPath_group (not_mem_indexToken valid (by decide) (by decide)), nil_append,
      bracketGroup, if_pos valid]
    rfl

theorem WrittenSegment.dot_not_mem_name : '.' ∉ s.name := by
  cases s with
  | key name plain => exact plain.2.1
  | index token valid => exact not_mem_indexToken valid (by decide) (by decide)
  | quoted q q' name opens closes plain bare => exact plain.2.1

/-- **The runtime's segments** of a written path are the same. -/
theorem pathToSegments_text : pathToSegments p.text = p.segments.map String.ofList := by
  have hnormal : normalizePath (p.root ++ p.rest.flatMap WrittenSegment.text)
      = p.root ++ p.rest.flatMap (WrittenSegment.form
        (fun q => (false || decide (q = '\'')) || decide (q = '"'))
        (fun q => (false || decide (q = '\'')) || decide (q = '"'))) := by
    unfold normalizePath WrittenSegment.text
    rw [replace_opening_path _ _ (by decide) p.plain, replace_closing_path _ _ (by decide) p.plain,
      replace_opening_path _ _ (by decide) p.plain, replace_closing_path _ _ (by decide) p.plain]
  have hdotted : ∀ rest : List WrittenSegment, dottedPath none (rest.flatMap (WrittenSegment.form
        (fun q => (false || decide (q = '\'')) || decide (q = '"'))
        (fun q => (false || decide (q = '\'')) || decide (q = '"'))))
      = (rest.map WrittenSegment.name).flatMap ('.' :: ·) := by
    intro rest
    induction rest with
    | nil => rfl
    | cons s rest ih =>
      rw [flatMap_cons, dottedPath_segment, ih, map_cons, flatMap_cons]
  rw [pathToSegments_eq, WrittenPath.text, String.toList_ofList, hnormal,
    dottedPath_plain p.plain.2.2.1, hdotted, splitOn_joined p.plain.2.1 fun l hl => by
      obtain ⟨s, _, rfl⟩ := mem_map.mp hl
      exact s.dot_not_mem_name]
  rfl

theorem segments_agree : pathToSegments p.text = referenceSegments p.text :=
  (pathToSegments_text p).trans (referenceSegments_text p).symm

/-! ### Paths without brackets -/

theorem scanReference_dots {current : List Char} (hcurrent : '.' ∉ current) (hcs : '[' ∉ cs) :
    scanReference current none cs = ((current ++ cs).splitOn '.').filter fun part => part ≠ [] := by
  induction cs generalizing current with
  | nil =>
    rw [append_nil, splitOn_eq_singleton hcurrent, scanReference, pushSegment]
    by_cases h : current = [] <;> simp [h]
  | cons c cs ih =>
    rw [mem_cons, not_or] at hcs
    by_cases hdot : c = '.'
    · rw [scanReference, if_pos hdot, ih not_mem_nil hcs.2, hdot,
        splitOn_append_cons_self_of_not_mem hcurrent, nil_append, pushSegment]
      by_cases h : current = [] <;> simp [h]
    · have hnot : '.' ∉ current ++ [c] := by simp [hcurrent, Ne.symm hdot]
      rw [scanReference, if_neg hdot, if_neg (Ne.symm hcs.1), ih hnot hcs.2, append_assoc]
      rfl

/-- **Without brackets** the two agree exactly when no segment is empty. -/
theorem segments_agree_iff {path : String} (hopen : '[' ∉ path.toList)
    (hclose : ']' ∉ path.toList) :
    pathToSegments path = referenceSegments path
      ↔ ∀ part ∈ path.toList.splitOn '.', part ≠ [] := by
  have hnormal : normalizePath path.toList = path.toList := by
    unfold normalizePath
    rw [replace_pair_of_not_mem _ _ _ (Or.inl hopen), replace_pair_of_not_mem _ _ _ (Or.inr hclose),
      replace_pair_of_not_mem _ _ _ (Or.inl hopen), replace_pair_of_not_mem _ _ _ (Or.inr hclose)]
  have hdotted : dottedPath none path.toList = path.toList := by
    simpa [dottedPath] using dottedPath_plain hopen []
  have hinjective : Function.Injective (List.map String.ofList) :=
    map_injective_iff.mpr fun _ _ h => String.ofList_injective h
  rw [pathToSegments_eq, hnormal, hdotted, referenceSegments,
    scanReference_dots not_mem_nil hopen, nil_append, hinjective.eq_iff, eq_comm,
    filter_eq_self]
  simp only [decide_eq_true_eq]

end Written

end Runtara
