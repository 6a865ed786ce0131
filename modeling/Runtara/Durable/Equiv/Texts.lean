/-
  The texts of durable keys.

  The key of an execution depends only on its `Address`: the sites of the children it is inside of,
  each with the loop indices at the call, the loop indices inside the innermost one, and the
  operation. `Address.text` is the text of the key. If the names in the address are plain, it can be
  told from the text (`text_inj`): the text is parts joined by `::` without a colon in them, the
  first two parts show whether the execution is inside a child, and the chain of sites is joined by
  `__`.
-/
import Runtara.Durable.Executions
import Runtara.Text.Joined

namespace Runtara

open Text List

/-! ### Sites -/

/-- The site of a child: a step, or a tool call of an `AiAgent` step. -/
inductive Site where
  | step (stepId : StepId)
  | tool (aiStepId : StepId) (label : String) (call : UInt32)
deriving DecidableEq, Repr

namespace Frame

/-- The site of a frame that enters a child. The number of the call of an embedded tool is not part
of its site. -/
def site? : Frame → Option Site
  | .embed stepId => some (.step stepId)
  | .embedTool stepId _ => some (.step stepId)
  | .composed stepId => some (.step stepId)
  | .composedTool aiStepId label call => some (.tool aiStepId label call)
  | _ => none

def index? : Frame → Option UInt32
  | .split _ index => some index
  | .whileLoop _ index => some index
  | _ => none

end Frame

/-- The indices of the loops inside the innermost child, the outermost loop first. -/
def indicesOf : List Frame → List UInt32
  | [] => []
  | f :: frames => if f.site?.isSome then [] else indicesOf frames ++ f.index?.toList

/-- The sites of the children, the outermost first, each with the indices at the call. -/
def sitesOf : List Frame → List (Site × List UInt32)
  | [] => []
  | f :: frames => sitesOf frames ++ (f.site?.map fun site => (site, indicesOf frames)).toList

/-- What the key of an execution depends on. The workflow id of the innermost artifact is only in
signal ids. -/
structure Address where
  sites : List (Site × List UInt32)
  indices : List UInt32
  operation : Operation
  scopeId : String
deriving DecidableEq, Repr

/-- Waits, whose key is a signal id. -/
def Operation.isSignal : Operation → Bool
  | .wait _ => true
  | .waitTool _ _ _ => true
  | _ => false

/-- The address of an execution in an artifact. -/
def Execution.address (e : Execution) (workflowId : String) : Address where
  sites := sitesOf e.frames
  indices := indicesOf e.frames
  operation := e.operation
  scopeId := if e.operation.isSignal then workflowId else ""

/-! ### Texts -/

def digits (n : UInt32) : List Char := Nat.toDigits 10 n.toNat

def bracketed (indices : List UInt32) : List Char :=
  '[' :: ([','].intercalate (indices.map digits) ++ [']'])

def underscored (indices : List UInt32) : List Char := ['_'].intercalate (indices.map digits)

def Site.text : Site → List Char
  | .step stepId => stepId.toList
  | .tool aiStepId label call =>
    aiStepId.toList ++ '.' :: ("tool".toList ++ '.' :: (label.toList ++ '.' :: digits call))

/-- A site with the indices at the call. -/
def siteText (s : Site × List UInt32) : List Char :=
  s.1.text ++ if s.2 = [] then [] else bracketed s.2

def chain (sites : List (Site × List UInt32)) : List Char := joinDoubled '_' (sites.map siteText)

def bracketPart (indices : List UInt32) : List (List Char) :=
  if indices = [] then [] else [bracketed indices]

def underPart (indices : List UInt32) : List (List Char) :=
  if indices = [] then [] else [underscored indices]

def slashText (indices : List UInt32) : List Char :=
  if indices = [] then [] else '/' :: bracketed indices

def CachedOperation.parts : CachedOperation → List (List Char)
  | .agent agentId capabilityId stepId =>
    ["agent".toList, agentId.toList, capabilityId.toList, stepId.toList]
  | .split stepId => ["split".toList, stepId.toList]
  | .embed stepId => ["embed_workflow".toList, stepId.toList]

def Derived.parts : Derived → List (List Char)
  | .result => []
  | .attempt number => ["attempt".toList, digits number]
  | .retrySleep number => ["retry_sleep".toList, digits number]

def turnText (stepId : StepId) (iteration : UInt32) : List Char :=
  stepId.toList ++ '.' :: ("turn".toList ++ '.' :: digits iteration)

/-- The parts of a key without those of the scope. -/
def localParts (indices : List UInt32) : Operation → List (List Char)
  | .cached operation derived => operation.parts ++ (bracketPart indices ++ derived.parts)
  | .delay stepId => stepId.toList :: underPart indices
  | .turn stepId iteration => [turnText stepId iteration ++ slashText indices]
  | .breakpoint stepId => "breakpoint".toList :: stepId.toList :: underPart indices
  | .wait stepId => [stepId.toList ++ slashText indices]
  | .waitTool aiStepId label call => [(Site.tool aiStepId label call).text ++ slashText indices]

/-- Operations whose key has the workflow id in front outside of children. -/
def Operation.rooted : Operation → Bool
  | .cached (.agent _ _ _) _ => true
  | .cached (.split _) _ => true
  | _ => false

namespace Address

variable (root instanceId : String)

def scopeParts (a : Address) : List (List Char) :=
  if a.sites = [] then if a.operation.rooted then [root.toList] else []
  else [root.toList, chain a.sites]

def parts (a : Address) : List (List Char) := a.scopeParts root ++ localParts a.indices a.operation

def text (a : Address) : List Char :=
  if a.operation.isSignal then
    instanceId.toList ++ '/' :: (a.scopeId.toList ++ '/' :: joinDoubled ':' (a.parts root))
  else joinDoubled ':' (a.parts root)

end Address

/-! ### Plain names -/

/-- A name without the characters that separate the parts of a key. -/
def Plain (name : String) : Prop := ∀ c ∈ [':', '/', '[', '.'], c ∉ name.toList

instance (name : String) : Decidable (Plain name) :=
  List.decidableBAll (fun c => c ∉ name.toList) [':', '/', '[', '.']

def Site.Plain : Site → Prop
  | .step stepId => Runtara.Plain stepId ∧ Solid '_' stepId.toList ∧ stepId ∉ ["agent", "split"]
  | .tool aiStepId label _ =>
    (Runtara.Plain aiStepId ∧ Solid '_' aiStepId.toList) ∧
      Runtara.Plain label ∧ Solid '_' label.toList

def Site.Named : Site → Prop
  | .step stepId => Runtara.Plain stepId
  | .tool aiStepId label _ => Runtara.Plain aiStepId ∧ Runtara.Plain label

theorem Site.Plain.named {site : Site} (h : site.Plain) : site.Named := by
  cases site with
  | step stepId => exact h.1
  | tool aiStepId label call => exact ⟨h.1.1, h.2.1⟩

def Operation.Plain : Operation → Prop
  | .cached (.agent agentId capabilityId stepId) _ =>
    ':' ∉ agentId.toList ∧ ':' ∉ capabilityId.toList ∧ Runtara.Plain stepId
  | .cached (.split stepId) _ => Runtara.Plain stepId
  | .cached (.embed stepId) _ => Runtara.Plain stepId
  | .delay stepId =>
    Runtara.Plain stepId ∧ stepId ∉ ["agent", "split", "embed_workflow", "breakpoint"]
  | .turn stepId _ => Runtara.Plain stepId
  | .breakpoint stepId => Runtara.Plain stepId
  | .wait stepId => Runtara.Plain stepId
  | .waitTool aiStepId label _ => Runtara.Plain aiStepId ∧ Runtara.Plain label

/-- The workflow id is plain and not the word that another key starts with. -/
def PlainRoot (root : String) : Prop := Plain root ∧ root ∉ ["embed_workflow", "breakpoint"]

/-- All names in the address are plain. -/
structure Address.Plain (a : Address) : Prop where
  sites : ∀ s ∈ a.sites, s.1.Plain
  operation : a.operation.Plain
  scopeId : Runtara.Plain a.scopeId

section Names

variable {name : String} (h : Plain name)
include h

theorem Plain.colon : ':' ∉ name.toList := h ':' (by decide)

theorem Plain.slash : '/' ∉ name.toList := h '/' (by decide)

theorem Plain.dot : '.' ∉ name.toList := h '.' (by decide)

end Names

/-! ### Numbers -/

theorem digits_injective : Function.Injective digits := by
  intro m n h
  have hnat := congrArg (fun ds => Nat.ofDigitChars 10 ds 0) h
  unfold digits at hnat
  rw [Nat.ofDigitChars_toDigits (by decide) (by decide),
    Nat.ofDigitChars_toDigits (by decide) (by decide)] at hnat
  exact UInt32.toNat_inj.mp hnat

variable {c : Char}

theorem not_mem_digits (hc : c.isDigit = false) (n : UInt32) : c ∉ digits n := by
  intro h
  rw [Nat.isDigit_of_mem_toDigits (by decide) (by decide) h] at hc
  cases hc

theorem digits_ne_nil (n : UInt32) : digits n ≠ [] := Nat.toDigits_ne_nil

variable {indices indices' : List UInt32}

theorem map_digits_inj (hc : c.isDigit = false) (hne : indices ≠ []) (hne' : indices' ≠ [])
    (h : [c].intercalate (indices.map digits) = [c].intercalate (indices'.map digits)) :
    indices = indices' := by
  have hmem : ∀ {is : List UInt32}, ∀ p ∈ is.map digits, c ∉ p := by
    intro is p hp
    obtain ⟨i, _, rfl⟩ := mem_map.mp hp
    exact not_mem_digits hc i
  refine map_injective_iff.mpr digits_injective (intercalate_inj hmem hmem ?_ ?_ h)
  · simpa using hne
  · simpa using hne'

theorem bracketed_inj (hne : indices ≠ []) (hne' : indices' ≠ [])
    (h : bracketed indices = bracketed indices') : indices = indices' :=
  map_digits_inj (by decide) hne hne' (append_cancel_right (List.cons.inj h).2)

variable {site : Site}

theorem not_mem_joined {d : Char} (hd : d.isDigit = false) (hdc : d ≠ c) (indices : List UInt32) :
    d ∉ [c].intercalate (indices.map digits) := by
  intro h
  rcases mem_intercalate h with h | ⟨p, hp, hdp⟩
  · exact hdc (mem_singleton.mp h)
  · obtain ⟨i, _, rfl⟩ := mem_map.mp hp
    exact not_mem_digits hd i hdp

theorem not_mem_bracketed {d : Char} (hd : d.isDigit = false) (hmarks : d ∉ ['[', ',', ']'])
    (indices : List UInt32) : d ∉ bracketed indices := by
  simp only [mem_cons, not_mem_nil, or_false, not_or] at hmarks
  simp only [bracketed, mem_cons, mem_append, not_mem_nil, or_false, not_or]
  exact ⟨hmarks.1, not_mem_joined hd hmarks.2.1 indices, hmarks.2.2⟩

theorem bracketPart_inj (h : bracketPart indices = bracketPart indices') : indices = indices' := by
  unfold bracketPart at h
  exact ite_nil_inj h (fun _ => cons_ne_nil _ _) fun hne hne' h =>
    bracketed_inj hne hne' (List.cons.inj h).1

theorem underPart_inj (h : underPart indices = underPart indices') : indices = indices' := by
  unfold underPart at h
  exact ite_nil_inj h (fun _ => cons_ne_nil _ _) fun hne hne' h =>
    map_digits_inj (by decide) hne hne' (List.cons.inj h).1

theorem slashText_inj (h : slashText indices = slashText indices') : indices = indices' := by
  unfold slashText at h
  exact ite_nil_inj h (fun _ => cons_ne_nil _ _) fun hne hne' h =>
    bracketed_inj hne hne' (List.cons.inj h).2

theorem slashText_cases (indices : List UInt32) :
    slashText indices = [] ∨ ∃ rest, slashText indices = '/' :: rest := by
  unfold slashText
  split
  · exact Or.inl rfl
  · exact Or.inr ⟨_, rfl⟩

/-! ### Sites -/

theorem Site.not_mem_text (h : site.Named) (hc : c ∈ [':', '/', '[']) : c ∉ site.text := by
  have hmarks : c ∈ [':', '/', '[', '.'] ∧ c ≠ '.' ∧ c ∉ "tool".toList ∧ c.isDigit = false := by
    simp only [mem_cons, not_mem_nil, or_false] at hc
    rcases hc with rfl | rfl | rfl <;> decide
  obtain ⟨hplain, hdot, htool, hdigit⟩ := hmarks
  cases site with
  | step stepId => exact h c hplain
  | tool aiStepId label call =>
    simp only [Site.text, mem_append, mem_cons, not_or]
    exact ⟨h.1 c hplain, hdot, htool, hdot, h.2 c hplain, hdot, not_mem_digits hdigit call⟩

theorem Site.solid_text (h : site.Plain) : Solid '_' site.text := by
  cases site with
  | step stepId => exact h.2.1
  | tool aiStepId label call =>
    have hdot : ∀ {p : List Char}, Solid '_' p → Solid '_' ('.' :: p) := fun hp =>
      Solid.append (p := ['.']) (by decide) hp
    have hcall : Solid '_' (digits call) := solid_of_not_mem (not_mem_digits (by decide) call)
    exact h.1.2.append (hdot ((by decide : Solid '_' "tool".toList).append
      (hdot (h.2.2.append (hdot hcall)))))

theorem Site.dot_mem_tool (aiStepId : StepId) (label : String) (call : UInt32) :
    '.' ∈ (Site.tool aiStepId label call).text :=
  mem_append_right _ mem_cons_self

theorem Site.text_inj {site' : Site} (h : site.Named) (h' : site'.Named)
    (heq : site.text = site'.text) : site = site' := by
  cases site with
  | step stepId =>
    cases site' with
    | step stepId' => exact congrArg Site.step (String.toList_inj.mp heq)
    | tool aiStepId' label' call' =>
      have hdot : '.' ∈ (Site.step stepId).text := heq ▸ dot_mem_tool aiStepId' label' call'
      exact absurd hdot (Plain.dot h)
  | tool aiStepId label call =>
    cases site' with
    | step stepId' =>
      have hdot : '.' ∈ (Site.step stepId').text := heq ▸ dot_mem_tool aiStepId label call
      exact absurd hdot (Plain.dot h')
    | tool aiStepId' label' call' =>
      unfold Site.text at heq
      obtain ⟨h₁, heq⟩ := append_cons_inj h.1.dot h'.1.dot heq
      obtain ⟨_, heq⟩ := append_cons_inj (by decide) (by decide) heq
      obtain ⟨h₂, h₃⟩ := append_cons_inj h.2.dot h'.2.dot heq
      rw [String.toList_inj.mp h₁, String.toList_inj.mp h₂, digits_injective h₃]

variable {s : Site × List UInt32}

theorem siteText_inj {s' : Site × List UInt32} (h : s.1.Plain) (h' : s'.1.Plain)
    (heq : siteText s = siteText s') : s = s' := by
  obtain ⟨site, indices⟩ := s
  obtain ⟨site', indices'⟩ := s'
  have hhead : ∀ is : List UInt32, (if is = [] then [] else bracketed is) = []
      ∨ ∃ rest, (if is = [] then [] else bracketed is) = '[' :: rest := by
    intro is
    split
    · exact Or.inl rfl
    · exact Or.inr ⟨_, rfl⟩
  obtain ⟨htext, hindices⟩ := append_inj_of_head (Site.not_mem_text h.named (by decide))
    (Site.not_mem_text h'.named (by decide)) (hhead indices) (hhead indices') heq
  obtain rfl := Site.text_inj h.named h'.named htext
  rw [ite_nil_inj hindices (fun _ => cons_ne_nil _ _) bracketed_inj]

theorem solid_siteText (h : s.1.Plain) : Solid '_' (siteText s) := by
  refine (Site.solid_text h).append ?_
  split
  · trivial
  · exact solid_of_not_mem (not_mem_bracketed (by decide) (by decide) _)

variable {sites : List (Site × List UInt32)} {sites' : List (Site × List UInt32)}

theorem chain_inj (h : ∀ s ∈ sites, s.1.Plain)
    (h' : ∀ s ∈ sites', s.1.Plain) (hne : sites ≠ []) (hne' : sites' ≠ [])
    (heq : chain sites = chain sites') : sites = sites' := by
  have hsolid : ∀ {ss : List (Site × List UInt32)}, (∀ s ∈ ss, s.1.Plain) →
      ∀ p ∈ ss.map siteText, Solid '_' p := by
    intro ss hss p hp
    obtain ⟨s, hs, rfl⟩ := mem_map.mp hp
    exact solid_siteText (hss s hs)
  have hmap : sites.map siteText = sites'.map siteText :=
    joinDoubled_inj (hsolid h) (hsolid h') (by simpa using hne) (by simpa using hne') heq
  clear heq hne hne'
  induction sites generalizing sites' with
  | nil => exact (map_eq_nil_iff.mp hmap.symm).symm
  | cons s sites ih =>
    cases sites' with
    | nil => cases hmap
    | cons s' sites' =>
      rw [forall_mem_cons] at h h'
      obtain ⟨hs, hrest⟩ := List.cons.inj hmap
      rw [siteText_inj h.1 h'.1 hs, ih h.2 h'.2 hrest]

theorem not_mem_siteText (h : s.1.Plain) (hc : c ∈ [':', '/']) : c ∉ siteText s := by
  have hsite : c ∈ [':', '/', '['] := by simp at hc ⊢; tauto
  have hmarks : c.isDigit = false ∧ c ∉ ['[', ',', ']'] := by
    simp only [mem_cons, not_mem_nil, or_false] at hc
    rcases hc with rfl | rfl <;> decide
  rw [siteText, mem_append, not_or]
  refine ⟨Site.not_mem_text h.named hsite, ?_⟩
  split
  · exact not_mem_nil
  · exact not_mem_bracketed hmarks.1 hmarks.2 _

theorem not_mem_chain (h : ∀ s ∈ sites, s.1.Plain) (hc : c ∈ [':', '/']) : c ∉ chain sites := by
  intro hmem
  rcases mem_intercalate hmem with hsep | ⟨p, hp, hcp⟩
  · simp only [mem_cons, not_mem_nil, or_false, or_self] at hsep
    rw [hsep] at hc
    exact absurd hc (by decide)
  · obtain ⟨s, hs, rfl⟩ := mem_map.mp hp
    exact not_mem_siteText (h s hs) hc hcp

/-- A chain of sites is none of the words that follow a workflow id outside of children. -/
theorem chain_ne (h : ∀ s ∈ sites, s.1.Plain) (hne : sites ≠ []) {word : String}
    (hword : word ∈ ["agent", "split"]) : chain sites ≠ word.toList := by
  have hmarks : '_' ∉ word.toList ∧ '[' ∉ word.toList ∧ '.' ∉ word.toList := by
    simp only [mem_cons, not_mem_nil, or_false] at hword
    rcases hword with rfl | rfl <;> decide
  intro heq
  obtain ⟨s, sites, rfl⟩ := exists_cons_of_ne_nil hne
  by_cases hsites : sites = []
  · -- one site: it has no indices, and its name is not the word
    rw [hsites, chain, map_singleton, joinDoubled_singleton, siteText] at heq
    have hindices : s.2 = [] := by
      by_contra hindices
      rw [if_neg hindices] at heq
      exact hmarks.2.1 (heq ▸ mem_append_right _ mem_cons_self)
    rw [if_pos hindices, append_nil] at heq
    have hplain := h s mem_cons_self
    cases hs : s.1 with
    | step stepId =>
      rw [hs] at heq hplain
      obtain rfl := String.toList_inj.mp heq
      exact hplain.2.2 hword
    | tool aiStepId label call =>
      rw [hs] at heq
      exact hmarks.2.2 (heq ▸ Site.dot_mem_tool aiStepId label call)
  · rw [chain, map_cons, joinDoubled_cons _ (by simpa using hsites)] at heq
    exact hmarks.1 (heq ▸ mem_append_right _ mem_cons_self)

/-! ### The parts of a key -/

/-- A list of parts apart from those of the scope, with the chain of sites if there is one. -/
def unscope : List (List Char) → Option (List Char) × List (List Char)
  | x :: y :: rest =>
    if x = "embed_workflow".toList ∨ x = "breakpoint".toList then (none, x :: y :: rest)
    else if y = "agent".toList ∨ y = "split".toList then (none, y :: rest)
    else if rest = [] then (none, [x, y]) else (some y, rest)
  | parts => (none, parts)

theorem localParts_ne_nil (indices : List UInt32) (operation : Operation) :
    localParts indices operation ≠ [] := by
  rcases operation with ⟨_ | _ | _, _⟩ | _ | _ | _ | _ | _ <;> exact cons_ne_nil _ _

theorem word_ne {root : String} (hroot : PlainRoot root) :
    ¬(root.toList = "embed_workflow".toList ∨ root.toList = "breakpoint".toList) := by
  simp only [String.toList_inj]
  exact fun h => hroot.2 (by simpa using h)

theorem unscope_inside {root : String} (hroot : PlainRoot root) (hsites : ∀ s ∈ sites, s.1.Plain)
    (hne : sites ≠ []) {parts : List (List Char)} (hparts : parts ≠ []) :
    unscope (root.toList :: chain sites :: parts) = (some (chain sites), parts) := by
  have hchain : ¬(chain sites = "agent".toList ∨ chain sites = "split".toList) := by
    rintro (h | h)
    · exact chain_ne hsites hne (by decide) h
    · exact chain_ne hsites hne (by decide) h
  rw [unscope, if_neg (word_ne hroot), if_neg hchain, if_neg hparts]

variable {operation : Operation}

theorem unscope_outside {root : String} (hroot : PlainRoot root) (indices : List UInt32)
    (hplain : operation.Plain) (hsignal : operation.isSignal = false) :
    unscope ((if operation.rooted then [root.toList] else []) ++ localParts indices operation)
      = (none, localParts indices operation) := by
  cases operation with
  | cached operation derived =>
    cases operation with
    | agent agentId capabilityId stepId =>
      show unscope (root.toList :: "agent".toList :: _) = _
      rw [unscope, if_neg (word_ne hroot), if_pos (Or.inl rfl)]
      rfl
    | split stepId =>
      show unscope (root.toList :: "split".toList :: _) = _
      rw [unscope, if_neg (word_ne hroot), if_pos (Or.inr rfl)]
      rfl
    | embed stepId =>
      show unscope ("embed_workflow".toList :: stepId.toList :: _) = _
      rw [unscope, if_pos (Or.inl rfl)]
      rfl
  | delay stepId =>
    show unscope (stepId.toList :: underPart indices) = (none, stepId.toList :: underPart indices)
    unfold underPart
    split
    · rfl
    · next hindices =>
      have hstep : ¬(stepId.toList = "embed_workflow".toList
          ∨ stepId.toList = "breakpoint".toList) := by
        simp only [String.toList_inj]
        intro h
        exact hplain.2 (by simp; tauto)
      have hletter : ∀ {c : Char} {w : List Char}, c.isDigit = false → c ≠ '_' →
          underscored indices ≠ c :: w := fun hc hcu h =>
        not_mem_joined hc hcu indices (show _ ∈ underscored indices from h ▸ mem_cons_self)
      have hindex : ¬(underscored indices = "agent".toList
          ∨ underscored indices = "split".toList) := by
        rintro (h | h)
        · exact hletter (c := 'a') (by decide) (by decide) h
        · exact hletter (c := 's') (by decide) (by decide) h
      rw [unscope, if_neg hstep, if_neg hindex, if_pos rfl]
  | turn stepId iteration => rfl
  | breakpoint stepId =>
    show unscope ("breakpoint".toList :: stepId.toList :: _) = _
    rw [unscope, if_pos (Or.inr rfl)]
    rfl
  | wait | waitTool => cases hsignal

theorem derived_inj {derived derived' : Derived}
    (h : bracketPart indices ++ derived.parts = bracketPart indices' ++ derived'.parts) :
    indices = indices' ∧ derived = derived' := by
  -- the first part shows whether there are indices
  have hhead : ∀ {is is' : List UInt32} {d d' : Derived}, is ≠ [] →
      bracketPart is ++ d.parts = bracketPart is' ++ d'.parts → is' ≠ [] := by
    rintro is is' d d' his h rfl
    rw [bracketPart, if_neg his, bracketPart, if_pos rfl] at h
    cases d' <;> simp [Derived.parts, bracketed] at h
  have hparts : bracketPart indices = bracketPart indices' ∧ derived.parts = derived'.parts := by
    by_cases his : indices = []
    · have his' : indices' = [] := by
        by_contra his'
        exact hhead his' h.symm his
      rw [his, his'] at h
      exact ⟨by rw [his, his'], h⟩
    · have his' := hhead his h
      rw [bracketPart, if_neg his, bracketPart, if_neg his'] at h
      rw [bracketPart, if_neg his, bracketPart, if_neg his']
      obtain ⟨h₁, h₂⟩ := List.cons.inj h
      exact ⟨by rw [h₁], h₂⟩
  refine ⟨bracketPart_inj hparts.1, ?_⟩
  have h := hparts.2
  cases derived <;> cases derived' <;> simp [Derived.parts, digits_injective.eq_iff] at h ⊢ <;>
    exact h

/-- The kind of an operation, and how its first part shows it. -/
def Operation.kind : Operation → ℕ
  | .cached (.agent _ _ _) _ => 0
  | .cached (.split _) _ => 1
  | .cached (.embed _) _ => 2
  | .breakpoint _ => 3
  | .turn _ _ => 4
  | .delay _ => 5
  | _ => 6

def kindOf (word : List Char) : ℕ :=
  if word = "agent".toList then 0
  else if word = "split".toList then 1
  else if word = "embed_workflow".toList then 2
  else if word = "breakpoint".toList then 3
  else if '.' ∈ word then 4 else 5

theorem kindOf_head (indices : List UInt32) (hplain : operation.Plain)
    (hsignal : operation.isSignal = false) :
    (localParts indices operation).head?.map kindOf = some operation.kind := by
  have hdotted : ∀ {w : List Char}, '.' ∈ w → kindOf w = 4 := by
    intro w hw
    have hne : ∀ {w' : List Char}, '.' ∉ w' → w ≠ w' := fun hw' h => hw' (h ▸ hw)
    rw [kindOf, if_neg (hne (by decide)), if_neg (hne (by decide)), if_neg (hne (by decide)),
      if_neg (hne (by decide)), if_pos hw]
  cases operation with
  | cached operation derived => cases operation <;> rfl
  | delay stepId =>
    have hne : ∀ word ∈ ["agent", "split", "embed_workflow", "breakpoint"],
        stepId.toList ≠ word.toList := fun word hword h =>
      hplain.2 (String.toList_inj.mp h ▸ hword)
    show some (kindOf stepId.toList) = some 5
    rw [kindOf, if_neg (hne _ (by decide)), if_neg (hne _ (by decide)), if_neg (hne _ (by decide)),
      if_neg (hne _ (by decide)), if_neg hplain.1.dot]
  | turn stepId iteration =>
    exact congrArg some (hdotted (mem_append_left _ (mem_append_right _
      mem_cons_self)))
  | breakpoint stepId => rfl
  | wait | waitTool => cases hsignal

theorem not_mem_turnText {stepId : StepId} (h : Plain stepId) (hc : c ∈ [':', '/'])
    (iteration : UInt32) : c ∉ turnText stepId iteration := by
  have hplain : c ∈ [':', '/', '[', '.'] := by simp at hc ⊢; tauto
  have hne : c ≠ '.' ∧ c ∉ "turn".toList ∧ c.isDigit = false := by
    simp only [mem_cons, not_mem_nil, or_false] at hc
    rcases hc with rfl | rfl <;> decide
  simp only [turnText, mem_append, mem_cons, not_or]
  exact ⟨h c hplain, hne.1, hne.2.1, hne.1, not_mem_digits hne.2.2 iteration⟩

theorem turnText_inj {stepId stepId' : StepId} {iteration iteration' : UInt32} (h : Plain stepId)
    (h' : Plain stepId')
    (heq : turnText stepId iteration ++ slashText indices =
      turnText stepId' iteration' ++ slashText indices') :
    stepId = stepId' ∧ iteration = iteration' ∧ indices = indices' := by
  obtain ⟨htext, hindices⟩ := append_inj_of_head (not_mem_turnText h (by decide) iteration)
    (not_mem_turnText h' (by decide) iteration') (slashText_cases indices)
    (slashText_cases indices') heq
  obtain ⟨h₁, hrest⟩ := append_cons_inj h.dot h'.dot htext
  obtain ⟨_, h₂⟩ := append_cons_inj (by decide) (by decide) hrest
  exact ⟨String.toList_inj.mp h₁, digits_injective h₂, slashText_inj hindices⟩

/-- The operation and the indices can be told from the parts. -/
theorem localParts_inj {operation' : Operation} (hplain : operation.Plain)
    (hplain' : operation'.Plain) (hsignal : operation.isSignal = false)
    (hsignal' : operation'.isSignal = false)
    (h : localParts indices operation = localParts indices' operation') :
    indices = indices' ∧ operation = operation' := by
  have hkind : operation.kind = operation'.kind := by
    have hhead := kindOf_head indices hplain hsignal
    rw [h, kindOf_head indices' hplain' hsignal'] at hhead
    exact (Option.some.inj hhead).symm
  rcases operation with ⟨⟨a, c, s⟩ | ⟨s⟩ | ⟨s⟩, d⟩ | ⟨s⟩ | ⟨s, n⟩ | ⟨s⟩ | ⟨s⟩ | ⟨a, l, n⟩ <;>
    rcases operation' with ⟨⟨a', c', s'⟩ | ⟨s'⟩ | ⟨s'⟩, d'⟩ | ⟨s'⟩ | ⟨s', n'⟩ | ⟨s'⟩ | ⟨s'⟩ |
      ⟨a', l', n'⟩ <;>
    first | (cases hsignal; done) | (cases hkind; done) | skip
  case cached.agent.cached.agent =>
    simp only [localParts, CachedOperation.parts, cons_append, nil_append,
      List.cons.injEq, String.toList_inj, true_and] at h
    obtain ⟨rfl, rfl, rfl, hrest⟩ := h
    obtain ⟨rfl, rfl⟩ := derived_inj hrest
    exact ⟨rfl, rfl⟩
  case cached.split.cached.split | cached.embed.cached.embed =>
    simp only [localParts, CachedOperation.parts, cons_append, nil_append,
      List.cons.injEq, String.toList_inj, true_and] at h
    obtain ⟨rfl, hrest⟩ := h
    obtain ⟨rfl, rfl⟩ := derived_inj hrest
    exact ⟨rfl, rfl⟩
  case delay.delay =>
    obtain ⟨hs, hindices⟩ := List.cons.inj h
    exact ⟨underPart_inj hindices, congrArg Operation.delay (String.toList_inj.mp hs)⟩
  case turn.turn =>
    obtain ⟨rfl, rfl, rfl⟩ := turnText_inj hplain hplain' (List.cons.inj h).1
    exact ⟨rfl, rfl⟩
  case breakpoint.breakpoint =>
    obtain ⟨hs, hindices⟩ := List.cons.inj (List.cons.inj h).2
    exact ⟨underPart_inj hindices, congrArg Operation.breakpoint (String.toList_inj.mp hs)⟩

/-! ### Colons -/

theorem colon_not_mem_slashText (indices : List UInt32) : ':' ∉ slashText indices := by
  unfold slashText
  split
  · exact not_mem_nil
  · simpa using not_mem_bracketed (by decide) (by decide) indices

theorem colon_not_mem_underPart (indices : List UInt32) : ∀ p ∈ underPart indices, ':' ∉ p := by
  unfold underPart
  split
  · exact forall_mem_nil _
  · exact forall_mem_singleton.mpr (not_mem_joined (by decide) (by decide) indices)

theorem colon_not_mem_bracketPart (indices : List UInt32) :
    ∀ p ∈ bracketPart indices, ':' ∉ p := by
  unfold bracketPart
  split
  · exact forall_mem_nil _
  · exact forall_mem_singleton.mpr (not_mem_bracketed (by decide) (by decide) indices)

theorem colon_not_mem_derived (derived : Derived) : ∀ p ∈ derived.parts, ':' ∉ p := by
  have hnumber : ∀ n, ':' ∉ digits n := not_mem_digits (by decide)
  cases derived with
  | result => exact forall_mem_nil _
  | attempt number | retrySleep number => exact forall_mem_pair (by decide) (hnumber number)

theorem colon_not_mem_cached {operation : CachedOperation} {derived : Derived}
    (h : (Operation.cached operation derived).Plain) : ∀ p ∈ operation.parts, ':' ∉ p := by
  cases operation with
  | agent agentId capabilityId stepId =>
    exact forall_mem_cons.mpr ⟨by decide, forall_mem_cons.mpr ⟨h.1,
      forall_mem_pair h.2.1 h.2.2.colon⟩⟩
  | split | embed => exact forall_mem_pair (by decide) (Plain.colon h)

theorem colon_not_mem_localParts (indices : List UInt32) (h : operation.Plain) :
    ∀ p ∈ localParts indices operation, ':' ∉ p := by
  have hsingle : ∀ {x : List Char}, ':' ∉ x → ∀ p ∈ [x ++ slashText indices], ':' ∉ p := by
    intro x hx
    rw [forall_mem_singleton, mem_append, not_or]
    exact ⟨hx, colon_not_mem_slashText indices⟩
  cases operation with
  | cached operation derived =>
    exact forall_mem_append.mpr ⟨colon_not_mem_cached h,
      forall_mem_append.mpr ⟨colon_not_mem_bracketPart indices, colon_not_mem_derived derived⟩⟩
  | delay stepId => exact forall_mem_cons.mpr ⟨h.1.colon, colon_not_mem_underPart indices⟩
  | turn stepId iteration => exact hsingle (not_mem_turnText h (by decide) iteration)
  | breakpoint stepId =>
    exact forall_mem_cons.mpr ⟨by decide,
      forall_mem_cons.mpr ⟨Plain.colon h, colon_not_mem_underPart indices⟩⟩
  | wait stepId => exact hsingle (Plain.colon h)
  | waitTool aiStepId label call =>
    exact hsingle
      (Site.not_mem_text (show (Site.tool aiStepId label call).Named from h) (by decide))

/-! ### Keys -/

/-- The wait whose signal id has the site in it. -/
def Site.signal : Site → Operation
  | .step stepId => .wait stepId
  | .tool aiStepId label call => .waitTool aiStepId label call

theorem exists_signal (h : operation.isSignal = true) : ∃ site : Site, operation = site.signal := by
  cases operation with
  | wait stepId => exact ⟨.step stepId, rfl⟩
  | waitTool aiStepId label call => exact ⟨.tool aiStepId label call, rfl⟩
  | _ => cases h

theorem rooted_signal (site : Site) : site.signal.rooted = false := by
  cases site <;> rfl

theorem localParts_signal (indices : List UInt32) (site : Site) :
    localParts indices site.signal = [site.text ++ slashText indices] := by
  cases site <;> rfl

theorem Operation.Plain.named (h : site.signal.Plain) : site.Named := by
  cases site <;> exact h

namespace Address

variable {root instanceId : String} {a a' : Address}

theorem parts_ne_nil (a : Address) : a.parts root ≠ [] := fun h =>
  localParts_ne_nil _ _ (append_eq_nil_iff.mp h).2

theorem sites_eq (hsites : ∀ s ∈ sites, s.1.Plain) (hsites' : ∀ s ∈ sites', s.1.Plain)
    (h : (if sites = [] then none else some (chain sites)) =
      if sites' = [] then none else some (chain sites')) :
    sites = sites' :=
  ite_nil_inj h (fun _ => Option.some_ne_none _) fun hne hne' h =>
    chain_inj hsites hsites' hne hne' (Option.some.inj h)

theorem signalParts_inj (ha : a.Plain) (ha' : a'.Plain) (hsignal : a.operation.isSignal = true)
    (hsignal' : a'.operation.isSignal = true) (h : a.parts root = a'.parts root) :
    a.sites = a'.sites ∧ a.indices = a'.indices ∧ a.operation = a'.operation := by
  obtain ⟨sites, indices, operation, scopeId⟩ := a
  obtain ⟨sites', indices', operation', scopeId'⟩ := a'
  obtain ⟨site, rfl⟩ := exists_signal hsignal
  obtain ⟨site', rfl⟩ := exists_signal hsignal'
  have hnamed := ha.operation.named
  have hnamed' := ha'.operation.named
  -- one part outside of children, and three inside
  have hboth : (if sites = [] then none else some (chain sites))
      = (if sites' = [] then none else some (chain sites')) ∧
      site.text ++ slashText indices = site'.text ++ slashText indices' := by
    simp only [parts, scopeParts, rooted_signal, localParts_signal] at h
    by_cases hs : sites = [] <;> by_cases hs' : sites' = [] <;> simp [hs, hs'] at h ⊢ <;> exact h
  obtain ⟨htext, hindices⟩ := append_inj_of_head (Site.not_mem_text hnamed (by decide))
    (Site.not_mem_text hnamed' (by decide)) (slashText_cases _) (slashText_cases _) hboth.2
  obtain rfl := Site.text_inj hnamed hnamed' htext
  exact ⟨sites_eq ha.sites ha'.sites hboth.1, slashText_inj hindices, rfl⟩

variable (hroot : PlainRoot root)
include hroot

theorem colon_not_mem_parts (ha : a.Plain) : ∀ p ∈ a.parts root, ':' ∉ p := by
  refine forall_mem_append.mpr ⟨?_, colon_not_mem_localParts a.indices ha.operation⟩
  unfold scopeParts
  split
  · split
    · exact forall_mem_singleton.mpr hroot.1.colon
    · exact forall_mem_nil _
  · exact forall_mem_pair hroot.1.colon (not_mem_chain ha.sites (by decide))

/-- The parts can be told from the text they are joined to. -/
theorem parts_inj (ha : a.Plain) (ha' : a'.Plain)
    (h : joinDoubled ':' (a.parts root) = joinDoubled ':' (a'.parts root)) :
    a.parts root = a'.parts root :=
  joinDoubled_inj (fun p hp => solid_of_not_mem (colon_not_mem_parts hroot ha p hp))
    (fun p hp => solid_of_not_mem (colon_not_mem_parts hroot ha' p hp)) a.parts_ne_nil
    a'.parts_ne_nil h

/-- What the parts of a key that is no signal id are apart from the scope. -/
theorem unscope_parts (ha : a.Plain)
    (hsignal : a.operation.isSignal = false) : unscope (a.parts root)
      = (if a.sites = [] then none else some (chain a.sites),
          localParts a.indices a.operation) := by
  unfold parts scopeParts
  by_cases hsites : a.sites = []
  · rw [if_pos hsites, if_pos hsites]
    exact unscope_outside hroot a.indices ha.operation hsignal
  · rw [if_neg hsites, if_neg hsites]
    exact unscope_inside hroot ha.sites hsites (localParts_ne_nil _ _)

/-- A key that is no signal id does not start like one. -/
theorem ne_signal (hinstance : Runtara.Plain instanceId) (ha : a.Plain)
    (hsignal : a.operation.isSignal = false) (rest : List Char) :
    joinDoubled ':' (a.parts root) ≠ instanceId.toList ++ '/' :: rest := by
  -- a first part without a slash, and more parts after it
  have hfirst : ∀ {p : List Char} {ps : List (List Char)}, '/' ∉ p → ps ≠ [] →
      joinDoubled ':' (p :: ps) ≠ instanceId.toList ++ '/' :: rest := by
    intro p ps hslash hps
    rw [joinDoubled_cons p hps]
    exact append_cons_ne hslash hinstance.colon (by decide)
  obtain ⟨sites, indices, operation, scopeId⟩ := a
  have hplain := ha.operation
  unfold parts scopeParts
  by_cases hsites : sites = []
  · rw [if_pos hsites]
    cases operation with
    | cached operation derived =>
      cases operation with
      | agent | split => exact hfirst hroot.1.slash (cons_ne_nil _ _)
      | embed stepId => exact hfirst (by decide) (cons_ne_nil _ _)
    | delay stepId =>
      show joinDoubled ':' (stepId.toList :: underPart indices) ≠ _
      by_cases hunder : underPart indices = []
      · rw [hunder, joinDoubled_singleton]
        intro h
        exact hplain.1.slash (h ▸ mem_append_right _ mem_cons_self)
      · exact hfirst hplain.1.slash hunder
    | turn stepId iteration =>
      show joinDoubled ':' [stepId.toList ++ '.' :: _ ++ _] ≠ _
      rw [joinDoubled_singleton, append_assoc, cons_append]
      exact append_cons_ne (Plain.slash hplain) hinstance.dot (by decide)
    | breakpoint stepId => exact hfirst (by decide) (cons_ne_nil _ _)
    | wait | waitTool => cases hsignal
  · rw [if_neg hsites]
    exact hfirst hroot.1.slash (cons_ne_nil _ _)

/-- The workflow id of the scope is only kept where it is in the key. -/
def Scoped (a : Address) : Prop := a.operation.isSignal = false → a.scopeId = ""

/-- **The address can be told from the key**, if all names in it are plain. -/
theorem text_inj (hinstance : Runtara.Plain instanceId) (ha : a.Plain)
    (ha' : a'.Plain) (hscoped : a.Scoped) (hscoped' : a'.Scoped)
    (h : a.text root instanceId = a'.text root instanceId) : a = a' := by
  unfold text at h
  suffices heq : a.sites = a'.sites ∧ a.indices = a'.indices ∧ a.operation = a'.operation ∧
      a.scopeId = a'.scopeId by
    obtain ⟨sites, indices, operation, scopeId⟩ := a
    obtain ⟨rfl, rfl, rfl, rfl⟩ := heq
    rfl
  cases hs : a.operation.isSignal with
  | false =>
    cases hs' : a'.operation.isSignal with
    | false =>
      simp only [hs, hs', Bool.false_eq_true, if_false] at h
      have hparts := congrArg unscope (parts_inj hroot ha ha' h)
      rw [unscope_parts hroot ha hs, unscope_parts hroot ha' hs', Prod.mk.injEq] at hparts
      obtain ⟨hi, hop⟩ := localParts_inj ha.operation ha'.operation hs hs' hparts.2
      exact ⟨sites_eq ha.sites ha'.sites hparts.1, hi, hop, by rw [hscoped hs, hscoped' hs']⟩
    | true =>
      simp only [hs, hs', Bool.false_eq_true, if_false, if_true] at h
      exact absurd h (ne_signal hroot hinstance ha hs _)
  | true =>
    cases hs' : a'.operation.isSignal with
    | false =>
      simp only [hs, hs', Bool.false_eq_true, if_false, if_true] at h
      exact absurd h.symm (ne_signal hroot hinstance ha' hs' _)
    | true =>
      simp only [hs, hs', if_true] at h
      obtain ⟨_, hrest⟩ := append_cons_inj hinstance.slash hinstance.slash h
      obtain ⟨hid, htext⟩ := append_cons_inj ha.scopeId.slash ha'.scopeId.slash hrest
      obtain ⟨hsites, hi, hop⟩ := signalParts_inj ha ha' hs hs' (parts_inj hroot ha ha' htext)
      exact ⟨hsites, hi, hop, String.toList_inj.mp hid⟩

end Address

end Runtara
