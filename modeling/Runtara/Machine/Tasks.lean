/-
  Tasks that share a world.

  A task is a program of calls (`Prog`): a call is answered, and the program goes on with the
  answer. A call changes the shared world at one stroke, and between two calls of a task any
  number of calls of the others may be made; `Path` is such an interleaving, with every move it is
  made of.

  Two things are proved once here. A program that keeps to a protocol (`Follows`) still does so
  after each of its calls, so that what is allowed to a task can be read off the state of the
  protocol it has come to. And what is kept by every move holds at the end of every path.
-/
import Mathlib.Data.List.Basic

namespace Tasks

open List

/-- A program of calls, each answered by a value of `Ret op`, that returns an `α`. -/
inductive Prog (Op : Type) (Ret : Op → Type) (α : Type) where
  | done (a : α)
  | call (op : Op) (next : Ret op → Prog Op Ret α)

namespace Prog

variable {Op : Type} {Ret : Op → Type} {α β : Type}

/-- One program after another. -/
protected def bind : Prog Op Ret α → (α → Prog Op Ret β) → Prog Op Ret β
  | done a, f => f a
  | call op next, f => call op fun r => (next r).bind f

instance : Monad (Prog Op Ret) where
  pure := done
  bind := Prog.bind

def ask (op : Op) : Prog Op Ret (Ret op) := call op done

@[simp] theorem ask_bind (op : Op) (f : Ret op → Prog Op Ret β) : (ask op >>= f) = call op f := rfl

/-- A program whose calls are made by other programs. -/
def interp {Op' : Type} {Ret' : Op' → Type} (h : ∀ op, Prog Op' Ret' (Ret op)) :
    Prog Op Ret α → Prog Op' Ret' α
  | done a => done a
  | call op next => h op >>= fun r => (next r).interp h

/-- A program that can be dropped before each of its calls, when `cut` is answered by `stop`. -/
def droppable (cut : Op) (stop : Ret cut → Bool) : Prog Op Ret α → Prog Op Ret (Option α)
  | done a => done (some a)
  | call op next =>
    call cut fun b => if stop b then done none else call op fun r => (next r).droppable cut stop

/-- Whatever the answers are, every call of the program is `ok`. -/
def Only (ok : Op → Prop) : Prog Op Ret α → Prop
  | done _ => True
  | call op next => ok op ∧ ∀ r, (next r).Only ok

theorem only_true (p : Prog Op Ret α) : p.Only fun _ => True := by
  induction p with
  | done a => trivial
  | call op next ih => exact ⟨trivial, ih⟩

variable {p : Prog Op Ret α}

theorem Only.mono {ok ok' : Op → Prop} (h : p.Only ok) (hok : ∀ op, ok op → ok' op) :
    p.Only ok' := by
  induction p with
  | done a => trivial
  | call op next ih => exact ⟨hok op h.1, fun r => ih r (h.2 r)⟩

theorem Only.bind {ok : Op → Prop} {f : α → Prog Op Ret β} (hp : p.Only ok)
    (hf : ∀ a, (f a).Only ok) : (p >>= f).Only ok := by
  induction p with
  | done a => exact hf a
  | call op next ih => exact ⟨hp.1, fun r => ih r (hp.2 r)⟩

theorem Only.interp {Op' : Type} {Ret' : Op' → Type} {h : ∀ op, Prog Op Ret (Ret' op)}
    {ok' : Op' → Prop} {ok : Op → Prop} {p : Prog Op' Ret' α} (hp : p.Only ok')
    (hh : ∀ op, ok' op → (h op).Only ok) : (p.interp h).Only ok := by
  induction p with
  | done a => trivial
  | call op next ih => exact (hh op hp.1).bind fun r => ih r (hp.2 r)

theorem Only.droppable {ok : Op → Prop} {cut : Op} {stop : Ret cut → Bool}
    (hcut : ok cut) (hp : p.Only ok) : (p.droppable cut stop).Only ok := by
  induction p with
  | done a => trivial
  | call op next ih =>
    refine ⟨hcut, fun b => ?_⟩
    dsimp only
    split
    · trivial
    · exact ⟨hp.1, fun r => ih r (hp.2 r)⟩

def isDone : Prog Op Ret α → Bool
  | done _ => true
  | call _ _ => false

end Prog

/-! ### Protocols -/

/-- What a program may call in a state, and the states the answers can move it to. -/
structure Protocol (Op : Type) (Ret : Op → Type) (σ : Type) where
  allowed : σ → Op → Prop
  next : σ → (op : Op) → Ret op → σ → Prop

namespace Prog

variable {Op : Type} {Ret : Op → Type} {σ α β : Type} {P : Protocol Op Ret σ}

/-- From state `s` on the program keeps to the protocol, and it returns in a state and with a value
for which `post` holds. -/
def Follows (P : Protocol Op Ret σ) (post : σ → α → Prop) : σ → Prog Op Ret α → Prop
  | s, done a => post s a
  | s, call op next => P.allowed s op ∧ ∀ r s', P.next s op r s' → (next r).Follows P post s'

variable {post post' : σ → α → Prop} {s : σ} {p : Prog Op Ret α}

theorem Follows.mono (h : p.Follows P post s) (hpost : ∀ s a, post s a → post' s a) :
    p.Follows P post' s := by
  induction p generalizing s with
  | done a => exact hpost s a h
  | call op next ih => exact ⟨h.1, fun r s' hs' => ih r (h.2 r s' hs')⟩

/-- A program follows every protocol that allows all of its calls. -/
theorem Only.follows {ok : Op → Prop} (hp : p.Only ok) (hok : ∀ s op, ok op → P.allowed s op)
    (hpost : ∀ s a, post s a) : p.Follows P post s := by
  induction p generalizing s with
  | done a => exact hpost s a
  | call op next ih => exact ⟨hok s op hp.1, fun r s' _ => ih r (hp.2 r)⟩

theorem Follows.bind {f : α → Prog Op Ret β} {post : σ → β → Prop}
    (h : p.Follows P (fun s a => (f a).Follows P post s) s) : (p >>= f).Follows P post s := by
  induction p generalizing s with
  | done a => exact h
  | call op next ih => exact ⟨h.1, fun r s' hs' => ih r (h.2 r s' hs')⟩

/-- The rule for a program whose calls are made by others. The program keeps to a protocol of its
own, and what is made of each call takes states that are related by `R` to such states again. -/
theorem Follows.simulate {Op' : Type} {Ret' : Op' → Type} {h : ∀ op, Prog Op Ret (Ret' op)}
    {τ : Type} {G : Protocol Op' Ret' τ} {gpost : τ → α → Prop} {R : τ → σ → Prop}
    (hh : ∀ op t s, R t s → G.allowed t op →
      (h op).Follows P (fun s r => ∃ t', G.next t op r t' ∧ R t' s) s)
    {p : Prog Op' Ret' α} {t : τ} (hp : p.Follows G gpost t) (hR : R t s) :
    (p.interp h).Follows P (fun s a => ∃ t, R t s ∧ gpost t a) s := by
  induction p generalizing s t with
  | done a => exact ⟨t, hR, hp⟩
  | call op next ih =>
    refine ((hh op t s hR hp.1).mono fun s r hs => ?_).bind
    obtain ⟨t', hnext, hR'⟩ := hs
    exact ih r (hp.2 r t' hnext) hR'

/-- The rule for a program whose calls are made by others: what each of them keeps is kept. -/
theorem Follows.interp {Op' : Type} {Ret' : Op' → Type} {h : ∀ op, Prog Op Ret (Ret' op)}
    {ok : Op' → Prop} {I : σ → Prop} {p : Prog Op' Ret' α}
    (hh : ∀ op s, ok op → I s → (h op).Follows P (fun s _ => I s) s) (hp : p.Only ok) (hs : I s) :
    (p.interp h).Follows P (fun s _ => I s) s := by
  let G : Protocol Op' Ret' Unit := ⟨fun _ => ok, fun _ _ _ _ => True⟩
  have hG : p.Follows G (fun _ _ => True) () := hp.follows (fun _ _ hop => hop) fun _ _ => trivial
  refine (hG.simulate (R := fun _ s => I s) (fun op _ s hI hop => ?_) hs).mono ?_
  · exact (hh op s hop hI).mono fun _ _ hI' => ⟨(), trivial, hI'⟩
  · rintro s a ⟨_, hI, -⟩
    exact hI

/-- The rule for a program that can be dropped: `I` is what is known wherever it is. -/
theorem Follows.droppable {cut : Op} {stop : Ret cut → Bool} {I : σ → Prop}
    {post : σ → Option α → Prop} (hcut : ∀ s, I s → P.allowed s cut)
    (hstay : ∀ s b s', P.next s cut b s' → s' = s)
    (hI : ∀ s op r s', I s → P.next s op r s' → I s') (hnone : ∀ s, I s → post s none)
    (h : p.Follows P (fun s a => post s (some a)) s) (hs : I s) :
    (p.droppable cut stop).Follows P post s := by
  induction p generalizing s with
  | done a => exact h
  | call op next ih =>
    refine ⟨hcut s hs, fun b s' hs' => ?_⟩
    obtain rfl := hstay s b s' hs'
    dsimp only
    split
    · exact hnone _ hs
    · exact ⟨h.1, fun r s'' hs'' => ih r (h.2 r s'' hs'') (hI _ _ _ _ hs hs'')⟩

/-- What is left of a program with `start` after some calls that are `passed`, whatever their
answers were. -/
inductive Rest (passed : Op → Prop) (start : Prog Op Ret α → Prop) : Prog Op Ret α → Prop
  | start {p : Prog Op Ret α} (h : start p) : Rest passed start p
  | call {op : Op} {next : Ret op → Prog Op Ret α} (h : Rest passed start (call op next))
      (hop : passed op) (r : Ret op) : Rest passed start (next r)

theorem Rest.only {passed : Op → Prop} {start : Prog Op Ret α → Prop} {ok : Op → Prop}
    (hstart : ∀ p, start p → p.Only ok) (h : p.Rest passed start) : p.Only ok := by
  induction h with
  | start h => exact hstart _ h
  | call _ _ r ih => exact ih.2 r

/-- The rest of a program keeps to the protocol in the state in which the program does, if the calls
that are passed do not change the state. -/
theorem Rest.follows {passed : Op → Prop} {start : Prog Op Ret α → Prop}
    (hstart : ∀ p, start p → p.Follows P post s)
    (hpassed : ∀ op r, passed op → P.next s op r s) (h : p.Rest passed start) :
    p.Follows P post s := by
  induction h with
  | start h => exact hstart _ h
  | call _ hop r ih => exact ih.2 r s (hpassed _ r hop)

end Prog

/-! ### Lists of tasks -/

theorem countP_set_add {α : Type} {p : α → Bool} {l : List α} {i : ℕ} {a b : α}
    (h : l[i]? = some a) :
    (l.set i b).countP p + (if p a then 1 else 0) = l.countP p + if p b then 1 else 0 := by
  obtain ⟨hi, rfl⟩ := List.getElem?_eq_some_iff.mp h
  rw [countP_set hi]
  have hpos : p l[i] = true → 0 < l.countP p :=
    fun hp => countP_pos_iff.mpr ⟨l[i], getElem_mem hi, hp⟩
  split
  · have := hpos ‹_›
    omega
  · omega

/-- An element of a list in which one has been replaced. -/
theorem getElem?_set_cases {α : Type} {l : List α} {i j : ℕ} {a b : α}
    (h : (l.set i a)[j]? = some b) : j = i ∧ b = a ∨ j ≠ i ∧ l[j]? = some b := by
  by_cases hij : j = i
  · left
    subst hij
    obtain ⟨hlt, heq⟩ := List.getElem?_eq_some_iff.mp h
    rw [getElem_set_self] at heq
    exact ⟨rfl, heq.symm⟩
  · right
    rw [getElem?_set_ne (Ne.symm hij)] at h
    exact ⟨hij, h⟩

theorem forall_mem_set {α : Type} {l : List α} {i : ℕ} {a : α} {p : α → Prop}
    (hl : ∀ x ∈ l, p x) (ha : p a) : ∀ x ∈ l.set i a, p x := by
  intro x hx
  rcases mem_or_eq_of_mem_set hx with hx | rfl
  · exact hl x hx
  · exact ha

theorem forall_mem_concat {α : Type} {l : List α} {a : α} {p : α → Prop} (hl : ∀ x ∈ l, p x)
    (ha : p a) : ∀ x ∈ l ++ [a], p x := forall_mem_append.mpr ⟨hl, forall_mem_singleton.mpr ha⟩

/-- No two places of the list have an element with `p`. -/
def AtMostOne {α : Type} (p : α → Prop) (l : List α) : Prop :=
  ∀ (i j : ℕ) (a b : α), l[i]? = some a → l[j]? = some b → p a → p b → i = j

section AtMostOne

variable {α : Type} {p : α → Prop} {l : List α} {i : ℕ} {a b : α}

/-- One element is replaced: the new one has `p` only if the old one had it, or none. -/
theorem AtMostOne.set (h : AtMostOne p l) (hb : l[i]? = some b)
    (ha : p a → p b ∨ ∀ x ∈ l, ¬ p x) : AtMostOne p (l.set i a) := by
  -- if the new one has it, then no other
  have honly : ∀ (j : ℕ) (x : α), l[j]? = some x → p x → p a → j = i := by
    intro j x hx hpx hpa
    rcases ha hpa with hpb | hnone
    · exact h j i x b hx hb hpx hpb
    · exact absurd hpx (hnone x (mem_of_getElem? hx))
  intro j k x y hx hy hpx hpy
  rcases getElem?_set_cases hx with ⟨rfl, rfl⟩ | ⟨-, hx'⟩
  · rcases getElem?_set_cases hy with ⟨rfl, -⟩ | ⟨-, hy'⟩
    · rfl
    · exact (honly k y hy' hpy hpx).symm
  · rcases getElem?_set_cases hy with ⟨rfl, rfl⟩ | ⟨-, hy'⟩
    · exact honly j x hx' hpx hpy
    · exact h j k x y hx' hy' hpx hpy

theorem getElem?_of_concat (ha : ¬ p a) {x : α} (hx : (l ++ [a])[i]? = some x) (hpx : p x) :
    l[i]? = some x := by
  rw [getElem?_append] at hx
  split at hx
  · exact hx
  · obtain rfl := mem_singleton.mp (mem_of_getElem? hx)
    exact absurd hpx ha

theorem AtMostOne.concat (h : AtMostOne p l) (ha : ¬ p a) : AtMostOne p (l ++ [a]) :=
  fun i j x y hx hy hpx hpy =>
    h i j x y (getElem?_of_concat ha hx hpx) (getElem?_of_concat ha hy hpy) hpx hpy

end AtMostOne

/-- A property that no two places of a list share holds of at most one element. -/
theorem countP_le_one {α : Type} {p : α → Bool} {l : List α}
    (h : AtMostOne (p · = true) l) : l.countP p ≤ 1 := by
  induction l with
  | nil => exact Nat.zero_le _
  | cons a l ih =>
    have hrest := ih fun i j b c hb hc hpb hpc =>
      Nat.succ.inj (h (i + 1) (j + 1) b c hb hc hpb hpc)
    by_cases ha : p a = true
    · have hnone : l.countP p = 0 := by
        rw [countP_eq_zero]
        intro b hb hpb
        obtain ⟨j, hj⟩ := mem_iff_getElem?.mp hb
        cases h 0 (j + 1) a b rfl hj ha hpb
      have hcount := countP_cons_of_pos (l := l) ha
      omega
    · rw [countP_cons_of_neg ha]
      exact hrest

/-! ### Systems -/

/-- A task: its program, and what is known of the task. -/
structure Task (Op : Type) (Ret : Op → Type) (Tag : Type) where
  tag : Tag
  prog : Prog Op Ret Unit

/-- The task keeps to the protocol. -/
def Task.Keeps {Op : Type} {Ret : Op → Type} {Tag : Type} (P : Protocol Op Ret Unit)
    (t : Task Op Ret Tag) : Prop := t.prog.Follows P (fun _ _ => True) ()

/-- A system of tasks. A call is made by a task with its tag and a choice of the surroundings; it
may start further tasks. What happens outside the tasks is `outside`. -/
structure System (Op : Type) (Ret : Op → Type) where
  World : Type
  Tag : Type
  Choice : Type
  Outside : Type
  exec : Tag → (op : Op) → Choice → World →
    Option (Ret op × Tag × World × List (Task Op Ret Tag))
  outside : Outside → World → List (Task Op Ret Tag) →
    Option (World × List (Task Op Ret Tag))

namespace System

variable {Op : Type} {Ret : Op → Type} {S : System Op Ret}

/-- The world and the tasks; a task that has returned stays in the list. -/
structure Config (S : System Op Ret) where
  world : S.World
  tasks : List (Task Op Ret S.Tag)

/-- What happens next: the `i`-th task makes its call, or something outside. -/
inductive Input (S : System Op Ret) where
  | task (i : ℕ) (c : S.Choice)
  | outside (o : S.Outside)

def step (c : S.Config) : S.Input → Option S.Config
  | .task i choice =>
    match c.tasks[i]? with
    | some ⟨tag, .call op next⟩ =>
      match S.exec tag op choice c.world with
      | some (r, tag', w, started) => some ⟨w, c.tasks.set i ⟨tag', next r⟩ ++ started⟩
      | none => none
    | _ => none
  | .outside o =>
    match S.outside o c.world c.tasks with
    | some (w, ts) => some ⟨w, ts⟩
    | none => none

/-- A move: a step with the configurations before and after it. -/
structure Move (S : System Op Ret) where
  before : S.Config
  input : S.Input
  after : S.Config

/-- The task that makes the move, with the call it makes. -/
def Move.caller (m : S.Move) : Option (S.Tag × Op) :=
  match m.input with
  | .task i _ =>
    match m.before.tasks[i]? with
    | some ⟨tag, .call op _⟩ => some (tag, op)
    | _ => none
  | .outside _ => none

theorem Move.exists_mem_of_caller {m : S.Move} {tag : S.Tag} {op : Op}
    (h : m.caller = some (tag, op)) : ∃ next, ⟨tag, .call op next⟩ ∈ m.before.tasks := by
  unfold Move.caller at h
  split at h
  · split at h
    case h_1 tag' op' next htask =>
      obtain ⟨rfl, rfl⟩ := Prod.mk.inj (Option.some.inj h)
      exact ⟨next, mem_of_getElem? htask⟩
    case h_2 => cases h
  · cases h

/-- An interleaving: the moves that lead from one configuration to another. -/
inductive Path (S : System Op Ret) : S.Config → List S.Move → S.Config → Prop
  | nil (c : S.Config) : Path S c [] c
  | cons {c c' c'' : S.Config} {i : S.Input} {ms : List S.Move} (h : step c i = some c')
      (hpath : Path S c' ms c'') : Path S c (⟨c, i, c'⟩ :: ms) c''

variable {c c' c'' : S.Config} {ms ms' : List S.Move} {m : S.Move}

def Move.Valid (m : S.Move) : Prop := step m.before m.input = some m.after

theorem Path.append (h : S.Path c ms c') (h' : S.Path c' ms' c'') : S.Path c (ms ++ ms') c'' := by
  induction h with
  | nil => exact h'
  | cons hstep _ ih => exact .cons hstep (ih h')

theorem Path.split (h : S.Path c (ms ++ ms') c'') : ∃ d, S.Path c ms d ∧ S.Path d ms' c'' := by
  induction ms generalizing c with
  | nil => exact ⟨c, .nil c, h⟩
  | cons m ms ih =>
    cases h with
    | cons hstep hpath =>
      obtain ⟨d, hms, hms'⟩ := ih hpath
      exact ⟨d, .cons hstep hms, hms'⟩

/-- The path up to a move. -/
theorem Path.upTo (h : S.Path c (ms ++ m :: ms') c'') : S.Path c (ms ++ [m]) m.after := by
  obtain ⟨d, hms, hrest⟩ := h.split
  cases hrest with
  | cons hstep _ => exact hms.append (.cons hstep (.nil _))

/-- **The invariant rule.** What holds at the start and is kept by every admitted move holds after
each move and at the end. -/
theorem Path.invariant {I : S.Config → Prop} {ok : S.Move → Prop} (h : S.Path c ms c')
    (hok : ∀ m ∈ ms, ok m) (hstart : I c)
    (hmove : ∀ m : S.Move, m.Valid → ok m → I m.before → I m.after) :
    I c' ∧ ∀ m ∈ ms, I m.before ∧ I m.after := by
  induction h with
  | nil => exact ⟨hstart, fun m hm => by cases hm⟩
  | cons hstep _ ih =>
    have hnext := hmove ⟨_, _, _⟩ hstep (hok _ mem_cons_self) hstart
    obtain ⟨hend, hall⟩ := ih (fun m hm => hok m (mem_cons_of_mem _ hm)) hnext
    refine ⟨hend, fun m hm => ?_⟩
    rcases mem_cons.mp hm with rfl | hm
    · exact ⟨hstart, hnext⟩
    · exact hall m hm

theorem Path.always {I : S.Config → Prop} (h : S.Path c ms c') (hstart : I c)
    (hmove : ∀ m : S.Move, m.Valid → I m.before → I m.after) :
    I c' ∧ ∀ m ∈ ms, I m.before ∧ I m.after := by
  have hok : ∀ m ∈ ms, (fun _ : S.Move => True) m := fun _ _ => trivial
  exact h.invariant hok hstart fun m hm _ hbefore => hmove m hm hbefore

/-- A valid move is a call of one task or something outside. -/
theorem Move.Valid.cases (h : m.Valid) :
    (∃ i choice tag op next r tag' w started, m.caller = some (tag, op) ∧
      m.before.tasks[i]? = some ⟨tag, .call op next⟩ ∧
      S.exec tag op choice m.before.world = some (r, tag', w, started) ∧
      m.input = .task i choice ∧
      m.after = ⟨w, m.before.tasks.set i ⟨tag', next r⟩ ++ started⟩) ∨
    ∃ o w ts, m.caller = none ∧ m.input = .outside o ∧
      S.outside o m.before.world m.before.tasks = some (w, ts) ∧ m.after = ⟨w, ts⟩ := by
  obtain ⟨before, input, after⟩ := m
  cases input with
  | task i choice =>
    left
    have hstep : step before (.task i choice) = some after := h
    dsimp only [step] at hstep
    split at hstep
    case h_1 tag op next htask =>
      split at hstep
      case h_1 r tag' w started hexec =>
        refine ⟨i, choice, tag, op, next, r, tag', w, started, ?_, htask, hexec, rfl,
          (Option.some.inj hstep).symm⟩
        dsimp only [Move.caller]
        rw [htask]
      case h_2 => cases hstep
    case h_2 => cases hstep
  | outside o =>
    right
    have hstep : step before (.outside o) = some after := h
    dsimp only [step] at hstep
    split at hstep
    case h_1 w ts hout => exact ⟨o, w, ts, rfl, rfl, hout, (Option.some.inj hstep).symm⟩
    case h_2 => cases hstep

/-! ### One task alone -/

/-- A task that makes its calls while the others wait, and starts none. -/
inductive Solo (S : System Op Ret) :
    S.Tag → S.World → Prog Op Ret Unit → S.Tag → S.World → Prog Op Ret Unit → Prop
  | refl (tag : S.Tag) (w : S.World) (p : Prog Op Ret Unit) : Solo S tag w p tag w p
  | call {tag tag' tag'' : S.Tag} {w w' w'' : S.World} {op : Op} {next : Ret op → Prog Op Ret Unit}
      {r : Ret op} {p : Prog Op Ret Unit} (choice : S.Choice)
      (h : S.exec tag op choice w = some (r, tag', w', []))
      (rest : Solo S tag' w' (next r) tag'' w'' p) : Solo S tag w (.call op next) tag'' w'' p

section Solo

variable {ts : List (Task Op Ret S.Tag)} {tag tag' tag'' : S.Tag} {op : Op} {w w' w'' : S.World}
  {next : Ret op → Prog Op Ret Unit} {choice : S.Choice} {r : Ret op} {p p' : Prog Op Ret Unit}

theorem step_last (h : S.exec tag op choice w = some (r, tag', w', [])) :
    step ⟨w, ts ++ [⟨tag, .call op next⟩]⟩ (.task ts.length choice) =
      some ⟨w', ts ++ [⟨tag', next r⟩]⟩ := by
  simp [step, h]

theorem caller_last :
    Move.caller ⟨⟨w, ts ++ [⟨tag, .call op next⟩]⟩, .task ts.length choice, c⟩ =
      some (tag, op) := by
  simp [Move.caller]

theorem Solo.path (ts : List (Task Op Ret S.Tag)) (h : S.Solo tag w p tag' w' p') :
    ∃ ms, S.Path ⟨w, ts ++ [⟨tag, p⟩]⟩ ms ⟨w', ts ++ [⟨tag', p'⟩]⟩ ∧
      ∀ m ∈ ms, ∃ i choice, m.input = .task i choice := by
  induction h with
  | refl => exact ⟨[], .nil _, fun m hm => by cases hm⟩
  | call choice h _ ih =>
    obtain ⟨ms, hpath, htask⟩ := ih
    refine ⟨_, .cons (step_last h) hpath, fun m hm => ?_⟩
    rcases mem_cons.mp hm with rfl | hm
    · exact ⟨_, _, rfl⟩
    · exact htask m hm

/-- A call that the last task can come to alone is made on some path. -/
theorem Solo.exists_move (ts : List (Task Op Ret S.Tag)) (choice : S.Choice)
    (h : S.Solo tag w p tag' w' (.call op next))
    (hexec : S.exec tag' op choice w' = some (r, tag'', w'', [])) :
    ∃ ms m c', S.Path ⟨w, ts ++ [⟨tag, p⟩]⟩ ms c' ∧
      (∀ m ∈ ms, ∃ i choice, m.input = .task i choice) ∧
      m ∈ ms ∧ m.caller = some (tag', op) ∧ m.before.world = w' := by
  obtain ⟨ms, hpath, htask⟩ := h.path ts
  refine ⟨ms ++ [_], _, _, hpath.append (.cons (step_last hexec) (.nil _)), ?_,
    mem_append_right _ (mem_singleton.mpr rfl), caller_last, rfl⟩
  exact forall_mem_concat htask ⟨_, _, rfl⟩

end Solo

/-! ### What is known of every task -/

/-- What is known of all tasks after one of them has made its call. -/
theorem forall_mem_set_append {T : Task Op Ret S.Tag → Prop} {ts started : List (Task Op Ret S.Tag)}
    {i : ℕ} {t : Task Op Ret S.Tag} (hts : ∀ t ∈ ts, T t) (ht : T t)
    (hstarted : ∀ t ∈ started, T t) :
    ∀ u ∈ ts.set i t ++ started, T u :=
  forall_mem_append.mpr ⟨forall_mem_set hts ht, hstarted⟩

/-- **The rule of no interference.** If the calls that a protocol allows keep `I` and are answered
in its way, and only tasks are started that keep to it, then `I` is kept by any number of such
tasks. -/
theorem Path.stable {P : Protocol Op Ret Unit} {I : S.World → Prop} (h : S.Path c ms c')
    (hcall : ∀ m ∈ ms, ∀ i choice tag op r tag' w started, m.input = .task i choice →
      m.caller = some (tag, op) → P.allowed () op → I m.before.world →
      S.exec tag op choice m.before.world = some (r, tag', w, started) →
        P.next () op r () ∧ I w ∧ ∀ t ∈ started, t.Keeps P)
    (hout : ∀ m ∈ ms, ∀ o w ts, m.input = .outside o → I m.before.world →
      S.outside o m.before.world m.before.tasks = some (w, ts) →
        I w ∧ ∀ t ∈ ts, t ∈ m.before.tasks ∨ t.Keeps P)
    (hI : I c.world) (hts : ∀ t ∈ c.tasks, t.Keeps P) :
    ∀ m ∈ ms, I m.before.world ∧ I m.after.world ∧
      ∀ tag op, m.caller = some (tag, op) → P.allowed () op := by
  have hall : ∀ m ∈ ms, (fun m => m ∈ ms) m := fun _ hm => hm
  have hinv := h.invariant (I := fun c => I c.world ∧ ∀ t ∈ c.tasks, t.Keeps P)
    hall ⟨hI, hts⟩ fun m hm hms hbefore => ?_
  · intro m hm
    obtain ⟨⟨hb, htb⟩, ha, -⟩ := hinv.2 m hm
    refine ⟨hb, ha, fun tag op hcaller => ?_⟩
    obtain ⟨next, ht⟩ := Move.exists_mem_of_caller hcaller
    exact (htb _ ht).1
  · obtain ⟨hb, htb⟩ := hbefore
    rcases hm.cases with ⟨i, choice, tag, op, next, r, tag', w, started, hcaller, htask, hexec,
        hinput, hafter⟩ | ⟨o, w, ts, -, hinput, hexec, hafter⟩
    · have hfollows := htb _ (mem_of_getElem? htask)
      obtain ⟨hnext, hw, hstarted⟩ :=
        hcall m hms i choice tag op r tag' w started hinput hcaller hfollows.1 hb hexec
      rw [hafter]
      exact ⟨hw, forall_mem_set_append htb (hfollows.2 r () hnext) hstarted⟩
    · obtain ⟨hw, hts'⟩ := hout m hms o w ts hinput hb hexec
      rw [hafter]
      exact ⟨hw, fun t ht => (hts' t ht).elim (htb t) id⟩

/-! ### Playing a list of inputs -/

/-- The moves of a list of inputs, and the configuration it leads to. -/
def play (c : S.Config) : List S.Input → Option (List S.Move × S.Config)
  | [] => some ([], c)
  | i :: is => (step c i).bind fun d => (play d is).map fun res => (⟨c, i, d⟩ :: res.1, res.2)

theorem path_of_play {is : List S.Input} (h : play c is = some (ms, c')) : S.Path c ms c' := by
  induction is generalizing c ms with
  | nil =>
    obtain ⟨rfl, rfl⟩ := Prod.mk.inj (Option.some.inj h)
    exact .nil c
  | cons i is ih =>
    obtain ⟨d, hd, hplay⟩ := Option.bind_eq_some_iff.mp h
    obtain ⟨⟨rest, e⟩, hrest, heq⟩ := Option.map_eq_some_iff.mp hplay
    obtain ⟨rfl, rfl⟩ := Prod.mk.inj heq
    exact .cons hd (ih hrest)

/-- The next `n` calls of a task, with the same choice. -/
def calls (n i : ℕ) (choice : S.Choice) : List S.Input := replicate n (.task i choice)

section Plays

variable {P : List S.Move → S.Config → Prop} [∀ ms c', Decidable (P ms c')]

variable (P) in
/-- The lists of inputs can be played in turn, and what comes of it meets `P`. -/
def plays (c : S.Config) (iss : List (List S.Input)) : Bool :=
  (play c iss.flatten).any fun res => decide (P res.1 res.2)

variable (S) in
theorem exists_path (iss : List (List S.Input)) (h : plays P c iss = true) :
    ∃ ms c', S.Path c ms c' ∧ P ms c' := by
  obtain ⟨⟨ms, c'⟩, hplay, hp⟩ := (Option.any_eq_true _ _).mp h
  exact ⟨ms, c', path_of_play hplay, of_decide_eq_true hp⟩

end Plays

end System

end Tasks
