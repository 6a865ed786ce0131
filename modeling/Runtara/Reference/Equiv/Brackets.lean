/-
  Brackets without quotes.

  Without quotes both parsers of reference paths read the same brackets: what is between an opening
  bracket and the next closing one, or the end of the text (`exists_group`). The validator takes the
  content of each for a segment. The runtime only does so if it is the number of an item, and
  otherwise leaves the bracket where it is. So the two have the same segments exactly for written
  paths, the last bracket of which need not be closed (`segments_agree_iff_written`).

  A segment of the validator that has a dot in it is no segment of the runtime in any case
  (`dot_not_mem_segment`).
-/
import Runtara.Reference.Equiv.Paths

namespace Runtara

open List

variable {c : Char} {cs rest v w x y : List Char} {ls : List (List Char)}

theorem not_mem_of_mem_splitOn (h : x ∈ cs.splitOn c) : c ∉ x := by
  induction cs generalizing x with
  | nil =>
    rw [splitOn_nil, mem_singleton] at h
    rw [h]
    exact not_mem_nil
  | cons d cs ih =>
    rw [splitOn_cons_eq_if_modifyHead] at h
    split at h
    · rcases mem_cons.mp h with rfl | h
      · exact not_mem_nil
      · exact ih h
    · next hd =>
      obtain ⟨l, ls, hls⟩ := exists_cons_of_ne_nil (splitOn_ne_nil c cs)
      rw [hls] at h ih
      rcases mem_cons.mp h with rfl | h
      · intro hmem
        rcases mem_cons.mp hmem with rfl | hmem
        · exact hd (beq_self_eq_true c)
        · exact ih mem_cons_self hmem
      · exact ih (mem_cons_of_mem _ h)

/-- No segment of the runtime has a dot in it. -/
theorem dot_not_mem_segment {path segment : String} (h : segment ∈ pathToSegments path) :
    '.' ∉ segment.toList := by
  rw [pathToSegments_eq] at h
  obtain ⟨part, hpart, rfl⟩ := mem_map.mp h
  rw [String.toList_ofList]
  exact not_mem_of_mem_splitOn hpart

/-! ### The brackets -/

theorem dottedPath_open (hx : ']' ∉ x) (index : List Char) :
    dottedPath (some index) x = bracketGroup (index ++ x) := by
  induction x generalizing index with
  | nil => rw [append_nil, dottedPath]
  | cons c x ih =>
    rw [mem_cons, not_or] at hx
    rw [dottedPath, if_neg (Ne.symm hx.1), ih hx.2, append_assoc]
    rfl

theorem scanReference_open (hx : ']' ∉ x) (current b : List Char) :
    scanReference current (some b) x = pushSegment (bracketSegment (b ++ x)) := by
  induction x generalizing b with
  | nil => rw [append_nil, scanReference]
  | cons c x ih =>
    rw [mem_cons, not_or] at hx
    rw [scanReference, if_neg (Ne.symm hx.1), ih hx.2, append_assoc]
    rfl

/-- After an opening bracket both parsers read the same group, and go on with the same text. -/
theorem exists_group (cs : List Char) :
    ∃ g rest, ']' ∉ g ∧ (cs = g ++ ']' :: rest ∨ cs = g ∧ rest = []) ∧
      dottedPath (some []) cs = bracketGroup g ++ dottedPath none rest ∧
      scanReference [] (some []) cs
        = pushSegment (bracketSegment g) ++ scanReference [] none rest := by
  by_cases hclosed : ']' ∈ cs
  · obtain ⟨g, rest, rfl, hg⟩ := eq_append_cons_of_mem hclosed
    refine ⟨g, rest, hg, Or.inl rfl, ?_, ?_⟩
    · rw [dottedPath_group hg, nil_append]
    · rw [scanReference_bracket hg, nil_append]
  · refine ⟨cs, [], hclosed, Or.inr ⟨rfl, rfl⟩, ?_, ?_⟩
    · rw [dottedPath_open hclosed, nil_append, dottedPath, append_nil]
    · rw [scanReference_open hclosed, nil_append]
      exact (append_nil _).symm

/-- A bracket that is open at the end of a text may as well be closed. -/
theorem dottedPath_close (hx : ']' ∉ x) (cs : List Char) (bracket : Option (List Char)) :
    dottedPath bracket (cs ++ '[' :: (x ++ [']'])) = dottedPath bracket (cs ++ '[' :: x) := by
  have hgroup : ∀ index, dottedPath (some index) (x ++ [']']) = dottedPath (some index) x :=
    fun index => by rw [dottedPath_group hx, dottedPath_open hx, dottedPath, append_nil]
  induction cs generalizing bracket with
  | nil => cases bracket <;> simp [dottedPath, hgroup]
  | cons c cs ih => cases bracket <;> simp only [cons_append, dottedPath, ih]

theorem scanReference_close (hx : ']' ∉ x) (cs : List Char) :
    (∀ current, scanReference current none (cs ++ '[' :: (x ++ [']']))
        = scanReference current none (cs ++ '[' :: x)) ∧
      ∀ b, scanReference [] (some b) (cs ++ '[' :: (x ++ [']']))
        = scanReference [] (some b) (cs ++ '[' :: x) := by
  have hgroup : ∀ b, scanReference [] (some b) (x ++ [']']) = scanReference [] (some b) x :=
    fun b => by
      rw [scanReference_bracket hx, scanReference_open hx]
      exact append_nil _
  induction cs with
  | nil => constructor <;> intro <;> simp [scanReference, hgroup]
  | cons c cs ih => constructor <;> intro <;> simp only [cons_append, scanReference, ih.1, ih.2]

/-! ### Brackets that are left -/

theorem flatten_pushSegment (cs : List Char) : (pushSegment cs).flatten = cs := by
  unfold pushSegment
  split
  · next h => rw [h, flatten_nil]
  · rw [flatten_singleton]

theorem trim_sublist (p : Char → Bool) (cs : List Char) :
    (((cs.dropWhile p).reverse.dropWhile p).reverse).Sublist cs := by
  rw [← reverse_sublist, reverse_reverse]
  exact (dropWhile_sublist p).trans (reverse_sublist.mpr (dropWhile_sublist p))

theorem bracketSegment_sublist (cs : List Char) : (bracketSegment cs).Sublist cs :=
  (trim_sublist isQuote _).trans (trim_sublist isWhiteSpace cs)

theorem count_bracketGroup (cs : List Char) :
    (bracketSegment cs).count '[' ≤ (bracketGroup cs).count '[' := by
  refine ((bracketSegment_sublist cs).count_le '[').trans ?_
  unfold bracketGroup
  split <;> simp

/-- The validator keeps no more opening brackets than the runtime. -/
theorem count_scanReference_le (cs : List Char) :
    (∀ current, (scanReference current none cs).flatten.count '['
        ≤ current.count '[' + (dottedPath none cs).count '[') ∧
      ∀ b, (scanReference [] (some b) cs).flatten.count '['
        ≤ (dottedPath (some b) cs).count '[' := by
  induction cs with
  | nil =>
    simp only [scanReference, dottedPath, flatten_pushSegment, count_nil, Nat.add_zero, le_refl,
      implies_true, true_and]
    exact count_bracketGroup
  | cons c cs ih =>
    refine ⟨fun current => ?_, fun b => ?_⟩
    · by_cases hdot : c = '.'
      · have hrest := ih.1 []
        rw [count_nil] at hrest
        simp [scanReference, dottedPath, hdot, flatten_pushSegment]
        omega
      · by_cases hopen : c = '['
        · have hrest := ih.2 []
          simp [scanReference, dottedPath, hopen, flatten_pushSegment, hrest]
        · have hrest := ih.1 (current ++ [c])
          rw [count_append, count_singleton] at hrest
          simp [scanReference, dottedPath, hdot, hopen] at hrest ⊢
          omega
    · by_cases hclose : c = ']'
      · have hrest := ih.1 []
        have hgroup := count_bracketGroup b
        rw [count_nil] at hrest
        simp [scanReference, dottedPath, hclose, flatten_pushSegment]
        omega
      · simpa [scanReference, dottedPath, hclose] using ih.2 (b ++ [c])

theorem ne_nil_of_mem_scanReference (cs : List Char) :
    (∀ current, ∀ v ∈ scanReference current none cs, v ≠ []) ∧
      ∀ current b, ∀ v ∈ scanReference current (some b) cs, v ≠ [] := by
  have hpush : ∀ cs, ∀ v ∈ pushSegment cs, v ≠ [] := by
    intro cs v hv
    unfold pushSegment at hv
    split at hv
    · cases hv
    · next h => exact mem_singleton.mp hv ▸ h
  induction cs with
  | nil => exact ⟨hpush, fun _ b => hpush (bracketSegment b)⟩
  | cons c cs ih =>
    refine ⟨fun current v hv => ?_, fun current b v hv => ?_⟩
    · rw [scanReference] at hv
      split at hv
      · exact (mem_append.mp hv).elim (hpush _ v) (ih.1 _ v)
      · split at hv
        · exact (mem_append.mp hv).elim (hpush _ v) (ih.2 _ _ v)
        · exact ih.1 _ v hv
    · rw [scanReference] at hv
      split at hv
      · exact (mem_append.mp hv).elim (hpush _ v) (ih.1 _ v)
      · exact ih.2 _ _ v hv

/-! ### Written paths -/

/-- The segments of a written path after its root; the bracket of a last index need not be
closed. -/
def WrittenRest (cs : List Char) : Prop :=
  ∃ segments : List WrittenSegment, cs = segments.flatMap WrittenSegment.text ∨
    ∃ token, isArrayIndexToken token = true ∧
      cs = segments.flatMap WrittenSegment.text ++ '[' :: token

/-- The runtime has the segments of the validator, each after a dot. -/
structure Aligned (cs : List Char) : Prop where
  quoteless : ∀ c ∈ cs, isQuote c = false
  dotless : ∀ v ∈ scanReference [] none cs, '.' ∉ v
  same : dottedPath none cs = (scanReference [] none cs).flatMap ('.' :: ·)

theorem head?_flatMap_dot (ls : List (List Char)) :
    ∀ c ∈ (ls.flatMap ('.' :: ·)).head?, c = '.' := by
  cases ls with
  | nil => nofun
  | cons l ls =>
    intro c hc
    exact (Option.some.inj hc).symm

theorem count_flatMap_dot (ls : List (List Char)) :
    (ls.flatMap ('.' :: ·)).count '[' = ls.flatten.count '[' := by
  induction ls with
  | nil => rfl
  | cons l ls ih => simp [ih]

/-- The text up to the first dot or bracket is a segment of its own. -/
theorem scanReference_break (hrest : ∀ c ∈ rest.head?, c = '.' ∨ c = '[') (x : List Char) :
    scanReference x none rest = pushSegment x ++ scanReference [] none rest := by
  cases rest with
  | nil => simp [scanReference, pushSegment]
  | cons c rest =>
    rcases hrest c rfl with rfl | rfl <;> simp [scanReference, pushSegment]

theorem exists_break (cs : List Char) : ∃ x rest, cs = x ++ rest ∧ '.' ∉ x ∧ '[' ∉ x ∧
    ∀ c ∈ rest.head?, c = '.' ∨ c = '[' := by
  induction cs with
  | nil => exact ⟨[], [], rfl, not_mem_nil, not_mem_nil, nofun⟩
  | cons c cs ih =>
    by_cases hc : c = '.' ∨ c = '['
    · refine ⟨[], c :: cs, rfl, not_mem_nil, not_mem_nil, fun d hd => ?_⟩
      rwa [← Option.some.inj hd]
    · obtain ⟨x, rest, rfl, hdot, hopen, hbreak⟩ := ih
      rw [not_or] at hc
      exact ⟨c :: x, rest, rfl, not_mem_cons_of_ne_of_not_mem (Ne.symm hc.1) hdot,
        not_mem_cons_of_ne_of_not_mem (Ne.symm hc.2) hopen, hbreak⟩

/-- A text does not begin with a dot or a bracket if the two have its segments in common. -/
theorem head?_root (hscan : scanReference [] none cs = v :: ls) (hdot : '.' ∉ v)
    (hsame : dottedPath none cs = v ++ ls.flatMap ('.' :: ·)) :
    ∀ c ∈ cs.head?, c ≠ '.' ∧ c ≠ '[' := by
  have hv : v ≠ [] := (ne_nil_of_mem_scanReference cs).1 [] v (by rw [hscan]; exact mem_cons_self)
  have hhead : (dottedPath none cs).head? ≠ some '.' := by
    rw [hsame]
    obtain ⟨c, v, rfl⟩ := exists_cons_of_ne_nil hv
    intro h
    exact hdot (Option.some.inj h ▸ mem_cons_self)
  cases cs with
  | nil => nofun
  | cons c cs =>
    rintro d hd
    obtain rfl := Option.some.inj hd
    refine ⟨?_, ?_⟩
    · rintro rfl
      exact hhead rfl
    · rintro rfl
      obtain ⟨g, rest, -, -, hpath, hsegments⟩ := exists_group cs
      have hpath' : dottedPath none ('[' :: cs) = bracketGroup g ++ dottedPath none rest := hpath
      have hscan' : scanReference [] none ('[' :: cs)
          = pushSegment (bracketSegment g) ++ scanReference [] none rest := hsegments
      by_cases hindex : isArrayIndexToken g = true
      · rw [hpath', bracketGroup, if_pos hindex] at hhead
        exact hhead rfl
      · -- the runtime keeps the bracket, which the validator drops
        have hcount : (dottedPath none ('[' :: cs)).count '['
            = (scanReference [] none ('[' :: cs)).flatten.count '[' := by
          rw [hsame, hscan, count_append, count_flatMap_dot, flatten_cons, count_append]
        have hle := (count_scanReference_le rest).1 []
        have hsub := (bracketSegment_sublist g).count_le '['
        rw [hpath', hscan', bracketGroup, if_neg hindex, flatten_append, flatten_pushSegment,
          count_append, count_append, count_cons_self, count_append] at hcount
        rw [count_nil] at hle
        omega

theorem exists_root (ih : ∀ rest, rest.length < cs.length → Aligned rest → WrittenRest rest)
    (hquotes : ∀ c ∈ cs, isQuote c = false) (hscan : scanReference [] none cs = v :: ls)
    (hdots : ∀ l ∈ v :: ls, '.' ∉ l) (hsame : dottedPath none cs = v ++ ls.flatMap ('.' :: ·)) :
    ∃ root rest, KeyText root ∧ WrittenRest rest ∧ cs = root ++ rest := by
  have hhead := head?_root hscan (hdots v mem_cons_self) hsame
  obtain ⟨x, rest, rfl, hdot, hopen, hbreak⟩ := exists_break cs
  have hx : x ≠ [] := by
    rintro rfl
    cases rest with
    | nil => cases hscan
    | cons c rest =>
      rcases hbreak c rfl with rfl | rfl
      · exact (hhead _ rfl).1 rfl
      · exact (hhead _ rfl).2 rfl
  rw [scanReference_plain hdot hopen, nil_append, scanReference_break hbreak,
    pushSegment_of_ne_nil hx, singleton_append] at hscan
  obtain ⟨rfl, rfl⟩ := cons.inj hscan
  rw [dottedPath_plain hopen] at hsame
  refine ⟨x, rest, ⟨hx, hdot, hopen, fun _ c hc => hquotes c (mem_append_left _ hc)⟩, ?_, rfl⟩
  refine ih rest ?_ ⟨fun c hc => hquotes c (mem_append_right _ hc),
    fun l hl => hdots l (mem_cons_of_mem _ hl), append_cancel_left hsame⟩
  have := length_pos_of_ne_nil hx
  rw [length_append]
  omega

theorem WrittenRest.cons (s : WrittenSegment) (h : WrittenRest rest) :
    WrittenRest (s.text ++ rest) := by
  obtain ⟨segments, rfl | ⟨token, htoken, rfl⟩⟩ := h
  · exact ⟨s :: segments, Or.inl flatMap_cons.symm⟩
  · exact ⟨s :: segments, Or.inr ⟨token, htoken, by rw [flatMap_cons, append_assoc]⟩⟩

/-- After a dot comes a key. -/
theorem Aligned.dot (ih : ∀ rest, rest.length < cs.length → Aligned rest → WrittenRest rest)
    (h : Aligned ('.' :: cs)) : WrittenRest ('.' :: cs) := by
  have hscan : scanReference [] none ('.' :: cs) = scanReference [] none cs := rfl
  obtain ⟨hquotes, hdots, hsame⟩ := h
  rw [hscan] at hdots hsame
  have hpath : '.' :: dottedPath none cs = (scanReference [] none cs).flatMap ('.' :: ·) := hsame
  cases hsegments : scanReference [] none cs with
  | nil =>
    rw [hsegments] at hpath
    cases hpath
  | cons segment segments =>
    rw [hsegments] at hpath hdots
    obtain ⟨root, rest, hroot, hrest, rfl⟩ := exists_root ih
      (fun c hc => hquotes c (mem_cons_of_mem _ hc)) hsegments hdots (cons.inj hpath).2
    exact hrest.cons (.key root hroot)

/-- A bracket holds an index. -/
theorem Aligned.bracket (ih : ∀ rest, rest.length < cs.length + 1 → Aligned rest → WrittenRest rest)
    (h : Aligned ('[' :: cs)) : WrittenRest ('[' :: cs) := by
  have hhead := head?_flatMap_dot (scanReference [] none ('[' :: cs))
  rw [← h.same] at hhead
  obtain ⟨g, rest, hg, hcs, hpath, hsegments⟩ := exists_group cs
  obtain ⟨hquotes, hdots, hsame⟩ := h
  have hpath' : dottedPath none ('[' :: cs) = bracketGroup g ++ dottedPath none rest := hpath
  have hscan' : scanReference [] none ('[' :: cs)
      = pushSegment (bracketSegment g) ++ scanReference [] none rest := hsegments
  rw [hpath'] at hsame hhead
  rw [hscan'] at hsame hdots
  by_cases hindex : isArrayIndexToken g = true
  · rw [bracketGroup, if_pos hindex, bracketSegment_index hindex,
      pushSegment_of_ne_nil (indexToken_ne_nil hindex), singleton_append, flatMap_cons] at hsame
    rcases hcs with rfl | ⟨rfl, rfl⟩
    · have hrest : WrittenRest rest := by
        refine ih rest ?_ ⟨fun c hc => hquotes c ?_, fun l hl => hdots l ?_,
          append_cancel_left hsame⟩
        · simp only [length_cons, length_append]
          omega
        · exact mem_cons_of_mem _ (mem_append_right _ (mem_cons_of_mem _ hc))
        · exact mem_append_right _ hl
      have hwritten := hrest.cons (.index g hindex)
      simpa [WrittenSegment.text, WrittenSegment.form] using hwritten
    · exact ⟨[], Or.inr ⟨cs, hindex, rfl⟩⟩
  · rw [bracketGroup, if_neg hindex] at hhead
    exact absurd (hhead _ rfl) (by decide)

/-- A text that is aligned is a written one. -/
theorem Aligned.writtenRest (h : Aligned cs) : WrittenRest cs := by
  induction hn : cs.length using Nat.strongRecOn generalizing cs with
  | _ n ih =>
    subst hn
    cases cs with
    | nil => exact ⟨[], Or.inl rfl⟩
    | cons c cs =>
      by_cases hdot : c = '.'
      · subst hdot
        exact Aligned.dot (fun rest hlen hrest => ih _ (Nat.lt_succ_of_lt hlen) hrest rfl) h
      · by_cases hopen : c = '['
        · subst hopen
          exact Aligned.bracket (fun rest hlen hrest => ih _ hlen hrest rfl) h
        · -- any other character would stand in the path without a dot before it
          have hhead := head?_flatMap_dot (scanReference [] none (c :: cs))
          rw [← h.same, dottedPath, if_neg hopen] at hhead
          exact absurd (hhead _ rfl) hdot

theorem normalizePath_of_quoteless (h : ∀ c ∈ cs, isQuote c = false) : normalizePath cs = cs := by
  have hquote : ∀ q, isQuote q = true → q ∉ cs := by
    intro q hq hmem
    rw [h q hmem] at hq
    cases hq
  unfold normalizePath
  rw [replace_pair_of_not_mem _ _ _ (Or.inr (hquote '\'' rfl)),
    replace_pair_of_not_mem _ _ _ (Or.inl (hquote '\'' rfl)),
    replace_pair_of_not_mem _ _ _ (Or.inr (hquote '"' rfl)),
    replace_pair_of_not_mem _ _ _ (Or.inl (hquote '"' rfl))]

/-- **Without quotes** the two agree exactly on written paths, the last bracket of which need not
be closed. -/
theorem segments_agree_iff_written {path : String}
    (hquotes : ∀ c ∈ path.toList, isQuote c = false) :
    pathToSegments path = referenceSegments path ↔ ∃ p : WrittenPath, path = p.text ∨
      ∃ token, isArrayIndexToken token = true ∧ path = p.text ++ String.ofList ('[' :: token) := by
  constructor
  · intro h
    have hinjective : Function.Injective (List.map String.ofList) :=
      map_injective_iff.mpr fun _ _ h => String.ofList_injective h
    rw [pathToSegments_eq, normalizePath_of_quoteless hquotes, referenceSegments,
      hinjective.eq_iff] at h
    obtain ⟨v, ls, hsplit⟩ :=
      exists_cons_of_ne_nil (splitOn_ne_nil '.' (dottedPath none path.toList))
    have hdots : ∀ l ∈ v :: ls, '.' ∉ l := fun l hl => not_mem_of_mem_splitOn (hsplit ▸ hl)
    have hsame : dottedPath none path.toList = v ++ ls.flatMap ('.' :: ·) := by
      rw [← intercalate_cons, ← hsplit, intercalate_splitOn]
    obtain ⟨root, rest, hroot, ⟨segments, hrest⟩, htext⟩ := exists_root
      (fun rest _ hrest => hrest.writtenRest) hquotes (h.symm.trans hsplit) hdots hsame
    refine ⟨⟨root, hroot, segments⟩, ?_⟩
    rw [← String.ofList_toList (s := path), htext]
    rcases hrest with rfl | ⟨token, htoken, rfl⟩
    · exact Or.inl rfl
    · refine Or.inr ⟨token, htoken, ?_⟩
      rw [← append_assoc, String.ofList_append]
      rfl
  · rintro ⟨p, rfl | ⟨token, htoken, rfl⟩⟩
    · exact segments_agree p
    · -- the path with the bracket closed has the same segments for both
      have hclosed := segments_agree ⟨p.root, p.plain, p.rest ++ [.index token htoken]⟩
      have hbracket := not_mem_indexToken htoken (c := ']') (by decide) (by decide)
      have htext : (WrittenPath.mk p.root p.plain (p.rest ++ [.index token htoken])).text.toList
          = p.text.toList ++ '[' :: (token ++ [']']) := by
        simp [WrittenPath.text, WrittenSegment.text, WrittenSegment.form]
      rw [String.toList_append, String.toList_ofList] at hquotes
      rw [pathToSegments_eq, referenceSegments, htext, normalizePath_of_quoteless ?_,
        dottedPath_close hbracket, (scanReference_close hbracket _).1] at hclosed
      · rw [pathToSegments_eq, referenceSegments, String.toList_append, String.toList_ofList,
          normalizePath_of_quoteless hquotes, hclosed]
      · intro c hc
        rw [← cons_append, ← append_assoc] at hc
        rcases mem_append.mp hc with hc | hc
        · exact hquotes c hc
        · rw [mem_singleton.mp hc]
          rfl

end Runtara
