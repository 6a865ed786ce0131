/-
  Start requests are idempotent, up to one gap.

  The row decides who launches: only the request that has inserted it does (`Orderly.one`). The
  association decides who is told so: a request for the same tenant and image is answered with
  success when it finds the association, and it is refused when it looks between the insertion of
  the row and the association (`starts_idempotent_iff`, `retry_between_writes`).
-/
import Runtara.Environment.Start

namespace Runtara.Environment.Start

open List

open Tasks (AtMostOne Prog Protocol forall_mem_concat forall_mem_set)
open Tasks.System (calls)

variable {cfg : Settings} {request : Request}

/-! ### The phases of a request -/

/-- The answer that belongs to a phase. -/
def Phase.success : Phase → Option Bool
  | launched ok => some ok
  | deduplicated => some true
  | refused _ => some false
  | _ => none

/-- What a request may call in a phase. -/
def Request.allows (request : Request) (p : Phase) : Op → Prop
  | .getImage id => id = request.imageId ∧ p = .arrived
  | .getInstance => p = .imageFound ∨ p = .collided
  | .getInstanceImageId => p = .owned
  | .isFile id => id = request.imageId ∧ p = .imageFound
  | .registerInstance tenant => tenant = request.tenantId ∧ p = .artifactFound
  | .associateInstanceImage id => id = request.imageId ∧ p = .reserved
  | .launchDetached => p = .associated
  | .recordLaunch => True
  | .completeInstance => True
  | .reply response => p.success = some response.success

def Op.isReply : Op → Bool
  | .reply _ => true
  | _ => false

/-- The protocol of a request: its phase, and whether it has been answered. -/
def startProtocol (request : Request) : Protocol Op Op.Ret (Phase × Bool) where
  allowed s op := request.allows s.1 op
  next s op r s' := s' = (s.1.after request op r, op.isReply || s.2)

/-- The rest of the program keeps to the protocol, and at its end the request is answered. -/
abbrev Request.Obeys (request : Request) (p : Phase) (answered : Bool) (prog : Calls Unit) : Prop :=
  prog.Follows (startProtocol request) (fun s _ => s.2 = true) (p, answered)

variable {op : Op}

section Follows

variable {α : Type} {post : Phase × Bool → α → Prop} {p : Phase}

theorem follows_ask {f : op.Ret → Calls α} (hop : request.allows p op) (hreply : op.isReply = false)
    (h : ∀ r, (f r).Follows (startProtocol request) post (p.after request op r, false)) :
    (ask op >>= f).Follows (startProtocol request) post (p, false) := by
  refine ⟨hop, ?_⟩
  rintro r _ rfl
  rw [hreply]
  exact h r

/-- A response is ready that belongs to the phase. -/
def ready (s : Phase × Bool) (response : Response) : Prop :=
  s.1.success = some response.success ∧ s.2 = false

theorem existingStartResponse_follows (hp : p = .imageFound ∨ p = .collided) :
    (existingStartResponse cfg request).Follows (startProtocol request)
      (fun s found => match found with
        | some response => ready s response
        | none => s = (p.after request .getInstance none, false)) (p, false) := by
  refine follows_ask hp rfl fun row => ?_
  cases row with
  | none => exact rfl
  | some tenant =>
    dsimp only [Phase.after]
    by_cases htenant : tenant = request.tenantId
    · rw [if_pos htenant, if_neg (not_not_intro htenant)]
      refine follows_ask rfl rfl fun association => ?_
      cases association with
      | none => exact ⟨rfl, rfl⟩
      | some image =>
        dsimp only [Phase.after]
        by_cases himage : image = request.imageId
        · rw [if_pos himage, if_pos himage]
          exact ⟨rfl, rfl⟩
        · rw [if_neg himage, if_neg himage]
          exact ⟨rfl, rfl⟩
    · rw [if_neg htenant, if_pos htenant]
      exact ⟨rfl, rfl⟩

theorem launch_follows :
    (launch cfg request).Follows (startProtocol request) ready (.reserved, false) := by
  refine follows_ask ⟨rfl, rfl⟩ rfl fun _ => follows_ask rfl rfl fun ok => ?_
  cases ok with
  | true | false => exact follows_ask trivial rfl fun _ => ⟨rfl, rfl⟩

theorem handleStartInstance_follows :
    (handleStartInstance cfg request).Follows (startProtocol request) ready
      (request.arrival, false) := by
  unfold handleStartInstance Request.arrival
  split
  · exact ⟨rfl, rfl⟩
  · refine follows_ask ⟨rfl, rfl⟩ rfl fun tenant => ?_
    cases tenant with
    | none => exact ⟨rfl, rfl⟩
    | some tenant =>
      dsimp only [Phase.after]
      by_cases htenant : tenant = request.tenantId
      · rw [if_pos (congrArg some htenant), if_neg (not_not_intro htenant)]
        refine ((existingStartResponse_follows (Or.inl rfl)).mono fun s found hfound => ?_).bind
        cases found with
        | some response => exact hfound
        | none =>
          obtain rfl : s = (.imageFound, false) := hfound
          refine follows_ask ⟨rfl, rfl⟩ rfl fun isFile => ?_
          cases isFile with
          | false => exact ⟨rfl, rfl⟩
          | true =>
            refine follows_ask ⟨rfl, rfl⟩ rfl fun inserted => ?_
            cases inserted with
            | true => exact launch_follows
            | false =>
              refine ((existingStartResponse_follows (Or.inr rfl)).mono
                fun s found hfound => ?_).bind
              cases found with
              | some response => exact hfound
              | none =>
                obtain rfl : s = (.refused .vanished, false) := hfound
                exact ⟨rfl, rfl⟩
      · rw [if_neg (fun h => htenant (Option.some.inj h)), if_pos htenant]
        exact ⟨rfl, rfl⟩

theorem program_obeys : request.Obeys request.arrival false (program cfg request) := by
  refine (handleStartInstance_follows.mono fun s response hready => ?_).bind
  obtain ⟨p, answered⟩ := s
  obtain ⟨hsuccess, rfl⟩ := hready
  refine ⟨hsuccess, ?_⟩
  rintro _ _ rfl
  rfl

end Follows

/-! ### What is known in a phase -/

/-- The image of the request can be launched. -/
def Settings.usable (cfg : Settings) (request : Request) : Prop :=
  request.imageId.isEmpty = false ∧ cfg.images request.imageId = some request.tenantId ∧
    cfg.isFile request.imageId = true

/-- The row is of the tenant of the request, and associated with its image. -/
def World.of (w : World) (request : Request) : Prop :=
  w.row = some request.tenantId ∧ w.association = some request.imageId

/-- The row is of another tenant, or associated with another image. -/
def World.foreign (w : World) (request : Request) : Prop :=
  (∃ tenant, w.row = some tenant ∧ tenant ≠ request.tenantId) ∨
    ∃ image, w.association = some image ∧ image ≠ request.imageId

/-- What a phase says of the image, the row and the association. -/
def Phase.Holds (cfg : Settings) (w : World) (request : Request) : Phase → Prop
  | .arrived => request.imageId.isEmpty = false
  | .imageFound => request.imageId.isEmpty = false ∧
      cfg.images request.imageId = some request.tenantId
  | .artifactFound => cfg.usable request
  | .collided => cfg.usable request ∧ w.row.isSome = true
  | .owned => w.row = some request.tenantId
  | .reserved => cfg.usable request ∧ w.row = some request.tenantId
  | .associated => cfg.usable request ∧ w.of request
  | .launched _ => cfg.usable request ∧ w.of request
  | .deduplicated => w.of request
  | .refused .image => ¬ cfg.usable request
  | .refused .taken => w.foreign request
  | .refused .missing => True
  | .refused .vanished => False

/-- Neither a row nor an association is taken back. -/
structure World.Le (w w' : World) : Prop where
  row : ∀ tenant, w.row = some tenant → w'.row = some tenant
  association : ∀ image, w.association = some image → w'.association = some image

variable {p : Phase}

theorem Phase.Holds.mono {w w' : World} (hw : w.Le w') (h : p.Holds cfg w request) :
    p.Holds cfg w' request := by
  have hof : w.of request → w'.of request := fun h => ⟨hw.row _ h.1, hw.association _ h.2⟩
  cases p with
  | arrived | imageFound | artifactFound => exact h
  | collided =>
    obtain ⟨tenant, htenant⟩ := Option.isSome_iff_exists.mp h.2
    exact ⟨h.1, by rw [hw.row _ htenant]; rfl⟩
  | owned => exact hw.row _ h
  | reserved => exact ⟨h.1, hw.row _ h.2⟩
  | associated | launched => exact ⟨h.1, hof h.2⟩
  | deduplicated => exact hof h
  | refused why =>
    cases why with
    | image => exact h
    | taken =>
      rcases h with ⟨tenant, hrow, hne⟩ | ⟨image, himage, hne⟩
      · exact Or.inl ⟨tenant, hw.row _ hrow, hne⟩
      · exact Or.inr ⟨image, hw.association _ himage, hne⟩
    | missing => trivial
    | vanished => exact h

/-! ### One call -/

/-- What an allowed call of a request finds and leaves, and how it takes the request on. -/
inductive Advance (cfg : Settings) (request : Request) (w : World) :
    Phase → (op : Op) → op.Ret → Phase → World → Prop
  | imageFound (h : cfg.images request.imageId = some request.tenantId) : Advance cfg request w
      .arrived (.getImage request.imageId) (some request.tenantId) .imageFound w
  | imageMissing {r : Option String} (h : cfg.images request.imageId = r)
      (hne : r ≠ some request.tenantId) :
      Advance cfg request w .arrived (.getImage request.imageId) r (.refused .image) w
  | absent : Advance cfg request w .imageFound .getInstance none .imageFound w
  | vanished (h : w.row = none) :
      Advance cfg request w .collided .getInstance none (.refused .vanished) w
  | owned {p : Phase} (hp : p = .imageFound ∨ p = .collided) (h : w.row = some request.tenantId) :
      Advance cfg request w p .getInstance (some request.tenantId) .owned w
  | rowTaken {p : Phase} (hp : p = .imageFound ∨ p = .collided) {tenant : String}
      (h : w.row = some tenant) (hne : tenant ≠ request.tenantId) :
      Advance cfg request w p .getInstance (some tenant) (.refused .taken) w
  | deduplicated (h : w.association = some request.imageId) :
      Advance cfg request w .owned .getInstanceImageId (some request.imageId) .deduplicated w
  | imageTaken {image : String} (h : w.association = some image) (hne : image ≠ request.imageId) :
      Advance cfg request w .owned .getInstanceImageId (some image) (.refused .taken) w
  | missing (h : w.association = none) :
      Advance cfg request w .owned .getInstanceImageId none (.refused .missing) w
  | artifactFound (h : cfg.isFile request.imageId = true) :
      Advance cfg request w .imageFound (.isFile request.imageId) true .artifactFound w
  | artifactMissing (h : cfg.isFile request.imageId = false) :
      Advance cfg request w .imageFound (.isFile request.imageId) false (.refused .image) w
  | reserved (h : w.row = none) : Advance cfg request w .artifactFound
      (.registerInstance request.tenantId) true .reserved { w with row := some request.tenantId }
  | collided (h : w.row.isSome = true) : Advance cfg request w .artifactFound
      (.registerInstance request.tenantId) false .collided w
  | associated : Advance cfg request w .reserved (.associateInstanceImage request.imageId) ()
      .associated { w with association := some request.imageId }
  | launched (ok : Bool) : Advance cfg request w .associated .launchDetached ok (.launched ok) w
  | recorded (p : Phase) : Advance cfg request w p .recordLaunch () p w
  | completed (p : Phase) : Advance cfg request w p .completeInstance () p w
  | replied {p : Phase} {response : Response} (h : p.success = some response.success) :
      Advance cfg request w p (.reply response) () p w

section Call

variable {tag tag' : Tag} {p p' : Phase} {op : Op} {choice : Bool} {w w' : World} {r : op.Ret}
  {started : List Task}

theorem advance_of_exec (hallows : tag.request.allows tag.phase op)
    (h : exec cfg tag op choice w = some (r, tag', w', started)) :
    Advance cfg tag.request w tag.phase op r (tag.phase.after tag.request op r) w' := by
  obtain ⟨request, p, answer⟩ := tag
  obtain ⟨row, association⟩ := w
  cases op with
  | getImage id =>
    obtain ⟨rfl, rfl⟩ := hallows
    cases h
    dsimp only [Phase.after]
    split
    · rename_i hfound
      rw [hfound]
      exact .imageFound hfound
    · exact .imageMissing rfl ‹_›
  | getInstance =>
    cases h
    cases row with
    | some tenant =>
      dsimp only [Phase.after]
      split
      · subst_vars
        exact .owned hallows rfl
      · exact .rowTaken hallows rfl ‹_›
    | none =>
      rcases hallows with rfl | rfl
      · exact .absent
      · exact .vanished rfl
  | getInstanceImageId =>
    obtain rfl := hallows
    cases h
    cases association with
    | some image =>
      dsimp only [Phase.after]
      split
      · subst_vars
        exact .deduplicated rfl
      · exact .imageTaken rfl ‹_›
    | none => exact .missing rfl
  | isFile id =>
    obtain ⟨rfl, rfl⟩ := hallows
    cases h
    dsimp only
    cases hfile : cfg.isFile request.imageId with
    | true => exact .artifactFound hfile
    | false => exact .artifactMissing hfile
  | registerInstance tenant =>
    obtain ⟨rfl, rfl⟩ := hallows
    cases h
    cases row with
    | none => exact .reserved rfl
    | some t => exact .collided rfl
  | associateInstanceImage id =>
    obtain ⟨rfl, rfl⟩ := hallows
    cases h
    exact .associated
  | launchDetached =>
    obtain rfl := hallows
    cases h
    exact .launched choice
  | recordLaunch => cases h; exact .recorded p
  | completeInstance => cases h; exact .completed p
  | reply response => cases h; exact .replied hallows

def Op.inserts : (op : Op) → op.Ret → Bool
  | .registerInstance _, inserted => inserted
  | _, _ => false

def Phase.hasLaunched : Phase → Bool
  | launched _ => true
  | _ => false

/-- The answer that a call leaves on the tag. -/
def Tag.answerAfter (tag : Tag) : Op → Option Response
  | .reply response => some response
  | _ => tag.answer

theorem exec_tag (h : exec cfg tag op choice w = some (r, tag', w', started)) :
    tag' = { tag with phase := tag.phase.after tag.request op r, answer := tag.answerAfter op } ∧
      started = [] := by
  cases op <;> cases h <;> exact ⟨rfl, rfl⟩

namespace Advance

variable (h : Advance cfg request w p op r p' w')
include h

/-- A request wins by the insertion, and remains the winner. -/
theorem winner : p'.winner = (p.winner || op.inserts r) := by
  cases h with
  | owned hp | rowTaken hp => rcases hp with rfl | rfl <;> rfl
  | recorded | completed | replied => exact (Bool.or_false _).symm
  | _ => rfl

theorem hasLaunched : (if p'.hasLaunched then 1 else 0) =
    (if p.hasLaunched then 1 else 0) + if op = .launchDetached then 1 else 0 := by
  cases h with
  | owned hp | rowTaken hp => rcases hp with rfl | rfl <;> rfl
  | _ => rfl

theorem reserved_or (hp' : p' = .reserved) : op.inserts r = true ∨ p = .reserved := by
  cases h with
  | reserved => exact Or.inl rfl
  | recorded | completed | replied => exact Or.inr hp'
  | _ => cases hp'

/-- The phase does not change after the answer is decided. -/
theorem eq_of_success {b : Bool} (hp : p.success = some b) : p' = p := by
  cases h with
  | owned hor | rowTaken hor => rcases hor with rfl | rfl <;> cases hp
  | recorded | completed | replied => rfl
  | _ => cases hp

theorem row_none_of_inserts (hr : op.inserts r = true) : w.row = none := by
  cases h with
  | reserved h => exact h
  | _ => cases hr

theorem of_row_none (hw' : w'.row = none) : w.row = none ∧ op.inserts r = false := by
  cases h with
  | reserved => cases hw'
  | _ => exact ⟨hw', rfl⟩

theorem association_eq (hop : ∀ id, op ≠ .associateInstanceImage id) :
    w'.association = w.association := by
  cases h with
  | associated => exact absurd rfl (hop _)
  | _ => rfl

theorem le (hop : ∀ id, op = .associateInstanceImage id → w.association = none) : w.Le w' := by
  cases h with
  | reserved hnone =>
    refine ⟨fun t ht => ?_, fun _ => id⟩
    rw [hnone] at ht
    cases ht
  | associated =>
    refine ⟨fun _ => id, fun image himage => ?_⟩
    rw [hop _ rfl] at himage
    cases himage
  | _ => exact ⟨fun _ => id, fun _ => id⟩

/-- A request is refused for want of an association when it finds none. -/
theorem missing_or (hp' : p' = .refused .missing) :
    op = .getInstanceImageId ∧ w.association = none ∨ p = .refused .missing := by
  cases h with
  | missing hnone => exact Or.inl ⟨rfl, hnone⟩
  | recorded | completed | replied => exact Or.inr hp'
  | _ => cases hp'

theorem eq_missing (hop : op = .getInstanceImageId) (hw : w.association = none) :
    p' = .refused .missing := by
  cases h with
  | missing => rfl
  | deduplicated h | imageTaken h =>
    rw [hw] at h
    cases h
  | _ => cases hop

/-- What the new phase says of the image, the row and the association. -/
theorem holds (hp : p.Holds cfg w request) (hw : w.Le w') : p'.Holds cfg w' request := by
  cases h with
  | imageFound himage => exact ⟨hp, himage⟩
  | imageMissing himage hne => exact fun husable => hne (himage.symm.trans husable.2.1)
  | absent => exact hp.mono hw
  | vanished hrow =>
    have hsome := hp.2
    rw [hrow] at hsome
    cases hsome
  | owned _ hrow => exact hrow
  | rowTaken _ hrow hne => exact Or.inl ⟨_, hrow, hne⟩
  | deduplicated hassociation => exact ⟨hp, hassociation⟩
  | imageTaken hassociation hne => exact Or.inr ⟨_, hassociation, hne⟩
  | missing => trivial
  | artifactFound hfile => exact ⟨hp.1, hp.2, hfile⟩
  | artifactMissing hfile =>
    intro husable
    rw [husable.2.2] at hfile
    cases hfile
  | reserved => exact ⟨hp, rfl⟩
  | collided hsome => exact ⟨hp, hsome⟩
  | associated => exact ⟨hp.1, hp.2, rfl⟩
  | launched | recorded | completed | replied => exact hp.mono hw

end Advance

end Call

/-! ### One move -/

/-- At most one request has inserted the row, and what the phases say holds. -/
structure Orderly (c : Config cfg) : Prop where
  absent : c.world.row = none →
    c.world.association = none ∧ ∀ t ∈ c.tasks, t.tag.phase.winner = false
  obeys : ∀ t ∈ c.tasks, t.tag.request.Obeys t.tag.phase t.tag.answer.isSome t.prog
  holds : ∀ t ∈ c.tasks, t.tag.phase.Holds cfg c.world t.tag.request
  answered : ∀ t ∈ c.tasks, ∀ response, t.tag.answer = some response →
    t.tag.phase.success = some response.success
  one : ∀ (i j : ℕ) (t u : Task), c.tasks[i]? = some t → c.tasks[j]? = some u →
    t.tag.phase.winner = true → u.tag.phase.winner = true → i = j
  pending : ∀ t ∈ c.tasks, t.tag.phase = .reserved → c.world.association = none

theorem initial_orderly (row : Option (String × Option String)) : Orderly (initial cfg row) := by
  have hnone : ∀ t, t ∉ (initial cfg row).tasks := fun t => not_mem_nil
  refine ⟨fun hrow => ⟨?_, fun t ht => absurd ht (hnone t)⟩, fun t ht => absurd ht (hnone t),
    fun t ht => absurd ht (hnone t), fun t ht => absurd ht (hnone t), ?_,
    fun t ht => absurd ht (hnone t)⟩
  · cases row with
    | none => rfl
    | some row => cases hrow
  · intro i j t u ht
    exact absurd (mem_of_getElem? ht) (hnone t)

section Task

variable {c : Config cfg} {i : ℕ} {tag tag' : Tag} {op : Op} {next : op.Ret → Calls Unit}
  {choice : Bool} {w' : World} {r : op.Ret} {started : List Task}

/-- Only the winner, before its association, writes one. -/
theorem Orderly.association_none (h : Orderly c)
    (htask : c.tasks[i]? = some ⟨tag, .call op next⟩) (id : String)
    (hop : op = .associateInstanceImage id) :
    tag.phase = .reserved ∧ c.world.association = none := by
  have hmem := mem_of_getElem? htask
  obtain ⟨hallows, -⟩ := h.obeys _ hmem
  subst hop
  exact ⟨hallows.2, h.pending _ hmem hallows.2⟩

theorem Orderly.task (h : Orderly c) (htask : c.tasks[i]? = some ⟨tag, .call op next⟩)
    (hexec : exec cfg tag op choice c.world = some (r, tag', w', started)) :
    @Orderly cfg ⟨w', c.tasks.set i ⟨tag', next r⟩ ++ started⟩ := by
  have hmem := mem_of_getElem? htask
  obtain ⟨hop, hnext⟩ := h.obeys _ hmem
  obtain ⟨rfl, rfl⟩ := exec_tag hexec
  have hadvance := advance_of_exec hop hexec
  have hw : c.world.Le w' := hadvance.le fun id hid => (h.association_none htask id hid).2
  have hwinner := hadvance.winner
  rw [append_nil]
  refine ⟨?_, ?_, ?_, ?_, ?_, ?_⟩
  · intro hrow
    obtain ⟨hrow, hins⟩ := hadvance.of_row_none hrow
    obtain ⟨hassociation, hlosers⟩ := h.absent hrow
    constructor
    · rw [hadvance.association_eq ?_]
      · exact hassociation
      · intro id hid
        have hholds := h.holds _ hmem
        rw [(h.association_none htask id hid).1] at hholds
        rw [hholds.2] at hrow
        cases hrow
    · refine forall_mem_set hlosers ?_
      rw [hwinner, hins, hlosers _ hmem]
      rfl
  · refine forall_mem_set h.obeys ?_
    have hanswered : (tag.answerAfter op).isSome = (op.isReply || tag.answer.isSome) := by
      cases op <;> rfl
    have := hnext r _ rfl
    rw [← hanswered] at this
    exact this
  · exact forall_mem_set (fun t ht => (h.holds t ht).mono hw)
      (hadvance.holds (h.holds _ hmem) hw)
  · refine forall_mem_set h.answered fun response hresponse => ?_
    cases hreply : op.isReply with
    | true =>
      cases op with
      | reply response' =>
        obtain rfl : response' = response := Option.some.inj hresponse
        exact hop
      | _ => cases hreply
    | false =>
      have hsuccess := h.answered _ hmem response (by
        cases op with
        | reply _ => cases hreply
        | _ => exact hresponse)
      have hphase := hadvance.eq_of_success hsuccess
      dsimp only
      rw [hphase]
      exact hsuccess
  · refine AtMostOne.set h.one htask fun hwt => ?_
    rw [hwinner, Bool.or_eq_true] at hwt
    -- an insertion finds no winner
    exact hwt.imp_right fun hins t ht => Bool.eq_false_iff.mp
      ((h.absent (hadvance.row_none_of_inserts hins)).2 t ht)
  · intro t ht hreserved
    obtain ⟨j, ht⟩ := mem_iff_getElem?.mp ht
    by_cases hassociates : ∃ id, op = .associateInstanceImage id
    · -- the caller was the winner, and is no longer `reserved`
      obtain ⟨id, rfl⟩ := hassociates
      have hphase := (h.association_none htask id rfl).1
      rcases Tasks.getElem?_set_cases ht with ⟨rfl, rfl⟩ | ⟨hj, ht⟩
      · cases hreserved
      · refine absurd (h.one j i t _ ht htask ?_ ?_) hj
        · rw [hreserved]
          rfl
        · rw [hphase]
          rfl
    · rw [hadvance.association_eq fun id hid => hassociates ⟨id, hid⟩]
      rcases Tasks.getElem?_set_cases ht with ⟨rfl, rfl⟩ | ⟨hj, ht⟩
      · rcases hadvance.reserved_or hreserved with hins | hphase
        · exact (h.absent (hadvance.row_none_of_inserts hins)).1
        · exact h.pending _ hmem hphase
      · exact h.pending t (mem_of_getElem? ht) hreserved

end Task

theorem Orderly.arrive {c : Config cfg} (h : Orderly c) (request : Request) :
    @Orderly cfg ⟨c.world,
      c.tasks ++ [⟨{ request, phase := request.arrival }, program cfg request⟩]⟩ := by
  have hwinner : request.arrival.winner = false := by
    unfold Request.arrival
    split <;> rfl
  have hholds : request.arrival.Holds cfg c.world request := by
    unfold Request.arrival
    split
    · rename_i hempty
      intro husable
      rw [husable.1] at hempty
      cases hempty
    · exact (Bool.not_eq_true _).mp ‹_›
  refine ⟨fun hrow => ⟨(h.absent hrow).1, ?_⟩, ?_, ?_, ?_, ?_, ?_⟩
  · exact forall_mem_concat (h.absent hrow).2 hwinner
  · exact forall_mem_concat h.obeys program_obeys
  · exact forall_mem_concat h.holds hholds
  · refine forall_mem_concat h.answered fun response hresponse => ?_
    cases hresponse
  · exact AtMostOne.concat h.one (Bool.eq_false_iff.mp hwinner)
  · refine forall_mem_concat h.pending fun hreserved => ?_
    rw [show request.arrival = .reserved from hreserved] at hwinner
    cases hwinner

variable {m : Move cfg}

theorem Move.orderly (hm : m.Valid) (h : Orderly m.before) : Orderly m.after := by
  rcases hm.cases with ⟨i, choice, tag, op, next, r, tag', w, started, -, htask, hexec,
      -, hafter⟩ | ⟨request, w, ts, -, -, hout, hafter⟩
  · rw [hafter]
    exact h.task htask hexec
  · rw [hafter]
    cases hout
    exact h.arrive request

/-! ### Launches and missed associations -/

def Move.launches (m : Move cfg) : Bool := m.caller.any fun call => call.2 = .launchDetached

/-- The request looks for the association of the row, and there is none. -/
def Move.misses (m : Move cfg) (request : Request) : Bool :=
  (m.caller.any fun call => call.1.request = request ∧ call.2 = .getInstanceImageId) ∧
    m.before.world.association = none

/-- The number of requests that have launched. -/
def launched (ts : List Task) : ℕ := ts.countP fun t => t.tag.phase.hasLaunched

/-- The request has been refused because it has found no association. -/
def Task.missed (t : Task) (request : Request) : Prop :=
  t.tag.request = request ∧ t.tag.phase = .refused .missing

theorem Move.launched_eq (hm : m.Valid) (h : Orderly m.before) :
    launched m.after.tasks = launched m.before.tasks + if m.launches then 1 else 0 := by
  rcases hm.cases with ⟨i, choice, tag, op, next, r, tag', w, started, hcaller, htask, hexec,
      -, hafter⟩ | ⟨request, w, ts, hcaller, -, hout, hafter⟩
  · obtain ⟨hop, -⟩ := h.obeys _ (mem_of_getElem? htask)
    obtain ⟨rfl, rfl⟩ := exec_tag hexec
    have hadvance := (advance_of_exec hop hexec).hasLaunched
    have hset := Tasks.countP_set_add (p := fun t : Task => t.tag.phase.hasLaunched)
      (b := ⟨{ tag with
        phase := tag.phase.after tag.request op r, answer := tag.answerAfter op }, next r⟩) htask
    have hlaunches : m.launches = decide (op = .launchDetached) := by
      unfold Move.launches
      rw [hcaller]
      rfl
    rw [hafter, hlaunches]
    simp only [append_nil, launched, decide_eq_true_eq] at hset hadvance ⊢
    omega
  · have hnone : request.arrival.hasLaunched = false := by
      unfold Request.arrival
      split <;> rfl
    cases hout
    rw [hafter]
    simp [launched, Move.launches, hcaller, hnone]

theorem Move.misses_iff {tag : Tag} (hcaller : m.caller = some (tag, op)) (request : Request) :
    m.misses request = true ↔ tag.request = request ∧ op = .getInstanceImageId ∧
      m.before.world.association = none := by
  simp [Move.misses, hcaller, and_assoc]

theorem Move.missed_iff (hm : m.Valid) (h : Orderly m.before) (request : Request) :
    (∃ t ∈ m.after.tasks, Task.missed t request) ↔
      (∃ t ∈ m.before.tasks, Task.missed t request) ∨ m.misses request = true := by
  rcases hm.cases with ⟨i, choice, tag, op, next, r, tag', w, started, hcaller, htask, hexec,
      -, hafter⟩ | ⟨arrived, w, ts, hcaller, -, hout, hafter⟩
  · obtain ⟨hop, -⟩ := h.obeys _ (mem_of_getElem? htask)
    obtain ⟨rfl, rfl⟩ := exec_tag hexec
    have hadvance := advance_of_exec hop hexec
    have hlt : i < m.before.tasks.length := (List.getElem?_eq_some_iff.mp htask).1
    rw [hafter, Move.misses_iff hcaller, append_nil]
    constructor
    · rintro ⟨t, ht, hrequest, hphase⟩
      rcases mem_or_eq_of_mem_set ht with ht | rfl
      · exact Or.inl ⟨t, ht, hrequest, hphase⟩
      · rcases hadvance.missing_or hphase with ⟨hread, hnone⟩ | hphase
        · exact Or.inr ⟨hrequest, hread, hnone⟩
        · exact Or.inl ⟨_, mem_of_getElem? htask, hrequest, hphase⟩
    · rintro (⟨t, ht, hrequest, hphase⟩ | ⟨hrequest, hread, hnone⟩)
      · obtain ⟨j, hj⟩ := mem_iff_getElem?.mp ht
        by_cases hij : i = j
        · -- the caller has been refused before
          subst hij
          obtain rfl := Option.some.inj (htask.symm.trans hj)
          have hsame := hadvance.eq_of_success (b := false) (by rw [hphase]; rfl)
          exact ⟨_, mem_set hlt _, hrequest, hsame.trans hphase⟩
        · refine ⟨t, mem_iff_getElem?.mpr ⟨j, ?_⟩, hrequest, hphase⟩
          rw [getElem?_set_ne hij]
          exact hj
      · exact ⟨_, mem_set hlt _, hrequest, hadvance.eq_missing hread hnone⟩
  · have harrival : arrived.arrival ≠ .refused .missing := by
      unfold Request.arrival
      split <;> nofun
    cases hout
    have hmisses : m.misses request = false := by
      simp [Move.misses, hcaller]
    rw [hafter, hmisses]
    constructor
    · rintro ⟨t, ht, hmissed⟩
      rcases mem_append.mp ht with ht | ht
      · exact Or.inl ⟨t, ht, hmissed⟩
      · obtain rfl := mem_singleton.mp ht
        exact absurd hmissed.2 harrival
    · rintro (⟨t, ht, hmissed⟩ | h)
      · exact ⟨t, mem_append_left _ ht, hmissed⟩
      · cases h

/-! ### Whole runs -/

variable {row : Option (String × Option String)}

section Runs

variable {c c' : Config cfg} {ms : List (Move cfg)}

theorem path_orderly (h : (starts cfg).Path (initial cfg row) ms c) : Orderly c :=
  (h.always (initial_orderly row) fun _ hm hbefore => Move.orderly hm hbefore).1

theorem path_launched (h : (starts cfg).Path c ms c') (hc : Orderly c) :
    launched c'.tasks = launched c.tasks + ms.countP Move.launches := by
  induction h with
  | nil => rfl
  | cons hstep _ ih =>
    have hfirst := Move.launched_eq (m := ⟨_, _, _⟩) hstep hc
    dsimp only at hfirst
    rw [ih (Move.orderly (m := ⟨_, _, _⟩) hstep hc), hfirst, countP_cons]
    omega

theorem path_missed_iff (h : (starts cfg).Path c ms c') (hc : Orderly c) (request : Request) :
    (∃ t ∈ c'.tasks, Task.missed t request) ↔
      (∃ t ∈ c.tasks, Task.missed t request) ∨ ∃ m ∈ ms, Move.misses m request = true := by
  induction h with
  | nil => simp
  | cons hstep _ ih =>
    have hfirst := Move.missed_iff (m := ⟨_, _, _⟩) hstep hc request
    rw [ih (Move.orderly (m := ⟨_, _, _⟩) hstep hc), hfirst, or_assoc]
    simp only [mem_cons, exists_eq_or_imp]

variable {t : Task}

/-- A request that has come to its end has been answered, as its phase says. -/
theorem Orderly.exists_answer (h : Orderly c) (ht : t ∈ c.tasks) (hdone : t.prog.isDone = true) :
    ∃ response, t.tag.answer = some response ∧ t.tag.phase.success = some response.success := by
  have hobeys := h.obeys t ht
  cases hprog : t.prog with
  | call op next =>
    rw [hprog] at hdone
    cases hdone
  | done a =>
    rw [hprog] at hobeys
    obtain ⟨response, hresponse⟩ := Option.isSome_iff_exists.mp hobeys
    exact ⟨response, hresponse, h.answered t ht response hresponse⟩

theorem World.not_foreign_of {w : World} (h : w.of request) : ¬ w.foreign request := by
  rintro (⟨tenant, hrow, hne⟩ | ⟨image, himage, hne⟩)
  · exact hne (Option.some.inj (hrow.symm.trans h.1))
  · exact hne (Option.some.inj (himage.symm.trans h.2))

/-- One launch at most; requests for another tenant or image do not launch and are refused; and
requests for the tenant and the image of a successful launch are answered with success. -/
structure Idempotent (ms : List (Move cfg)) (c : Config cfg) : Prop where
  oneLaunch : ms.countP Move.launches ≤ 1
  foreignRefused : ∀ t ∈ c.tasks, c.world.foreign t.tag.request →
    t.tag.phase.hasLaunched = false ∧
      (t.prog.isDone = true → t.tag.answer.any (fun response => !response.success) = true)
  retriesAccepted : ∀ t ∈ c.tasks, t.tag.phase = .launched true → ∀ u ∈ c.tasks,
    u.tag.request = t.tag.request → u.prog.isDone = true →
      u.tag.answer.any Response.success = true

/-- No request for the tenant and the image of a successful launch looks for the association while
there is none. -/
def AssociationsFound (ms : List (Move cfg)) (c : Config cfg) : Prop :=
  ∀ t ∈ c.tasks, t.tag.phase = .launched true → ∀ m ∈ ms, Move.misses m t.tag.request = false

theorem Orderly.oneLaunch
    (h : (starts cfg).Path (initial cfg row) ms c) : ms.countP Move.launches ≤ 1 := by
  have hc := path_orderly h
  have hlaunched := path_launched h (initial_orderly row)
  have hwinner : ∀ p : Phase, p.hasLaunched = true → p.winner = true := by
    intro p hp
    cases p with
    | launched ok => rfl
    | _ => cases hp
  have hone : launched c.tasks ≤ 1 := Tasks.countP_le_one fun i j t u ht hu hpt hpu =>
    hc.one i j t u ht hu (hwinner _ hpt) (hwinner _ hpu)
  have hstart : launched (initial cfg row).tasks = 0 := rfl
  omega

theorem Orderly.foreignRefused (h : Orderly c) (ht : t ∈ c.tasks)
    (hforeign : c.world.foreign t.tag.request) : t.tag.phase.hasLaunched = false ∧
      (t.prog.isDone = true → t.tag.answer.any (fun response => !response.success) = true) := by
  have hholds := h.holds t ht
  constructor
  · cases hphase : t.tag.phase with
    | launched ok =>
      rw [hphase] at hholds
      exact absurd hforeign (World.not_foreign_of hholds.2)
    | _ => rfl
  · intro hdone
    obtain ⟨response, hresponse, hsuccess⟩ := h.exists_answer ht hdone
    rw [hresponse, Option.any_some]
    cases hvalue : response.success with
    | false => rfl
    | true =>
      -- the phases that answer with success are those of the row's tenant and image
      rw [hvalue] at hsuccess
      cases hphase : t.tag.phase with
      | launched ok =>
        rw [hphase] at hholds
        exact absurd hforeign (World.not_foreign_of hholds.2)
      | deduplicated =>
        rw [hphase] at hholds
        exact absurd hforeign (World.not_foreign_of hholds)
      | _ =>
        rw [hphase] at hsuccess
        cases hsuccess

/-- A request like one that has launched is refused only for want of an association. -/
theorem Orderly.success_or_missed (h : Orderly c) {u : Task} (ht : t ∈ c.tasks) (hu : u ∈ c.tasks)
    (hlaunched : t.tag.phase = .launched true) (hrequest : u.tag.request = t.tag.request) {b : Bool}
    (hsuccess : u.tag.phase.success = some b) : b = true ∨ Task.missed u t.tag.request := by
  have hholds := h.holds t ht
  have hholds' := h.holds u hu
  rw [hlaunched] at hholds
  rw [hrequest] at hholds'
  cases hphase : u.tag.phase with
  | launched ok =>
    obtain ⟨i, hi⟩ := mem_iff_getElem?.mp ht
    obtain ⟨j, hj⟩ := mem_iff_getElem?.mp hu
    obtain rfl : i = j := h.one i j t u hi hj (by rw [hlaunched]; rfl) (by rw [hphase]; rfl)
    obtain rfl : t = u := Option.some.inj (hi.symm.trans hj)
    rw [hlaunched] at hsuccess
    exact Or.inl (Option.some.inj hsuccess).symm
  | deduplicated =>
    rw [hphase] at hsuccess
    exact Or.inl (Option.some.inj hsuccess).symm
  | refused why =>
    rw [hphase] at hholds'
    cases why with
    | image => exact absurd hholds.1 hholds'
    | taken => exact absurd hholds' (World.not_foreign_of hholds.2)
    | missing => exact Or.inr ⟨hrequest, hphase⟩
    | vanished => exact absurd hholds' id
  | _ =>
    rw [hphase] at hsuccess
    cases hsuccess

/-- **Start requests are idempotent in every run in which no retry looks for the association between
the insertion of the row and the association; and in a run whose requests have all come to their
end, only then.** -/
theorem starts_idempotent_iff {row : Option (String × Option String)}
    (h : (starts cfg).Path (initial cfg row) ms c) :
    (AssociationsFound ms c → Idempotent ms c) ∧
      ((∀ t ∈ c.tasks, t.prog.isDone = true) → Idempotent ms c → AssociationsFound ms c) := by
  have hc := path_orderly h
  have hmissed : ∀ request, (∃ t ∈ c.tasks, Task.missed t request) ↔
      ∃ m ∈ ms, Move.misses m request = true := by
    intro request
    rw [path_missed_iff h (initial_orderly row) request]
    exact or_iff_right fun ⟨t, ht, _⟩ => not_mem_nil ht
  constructor
  · intro hfound
    refine ⟨Orderly.oneLaunch h, fun t ht => hc.foreignRefused ht, ?_⟩
    intro t ht hlaunched u hu hrequest hdone
    obtain ⟨response, hresponse, hsuccess⟩ := hc.exists_answer hu hdone
    rw [hresponse, Option.any_some]
    rcases hc.success_or_missed ht hu hlaunched hrequest hsuccess with hsuccess | hmiss
    · exact hsuccess
    · obtain ⟨m, hm, hmisses⟩ := (hmissed _).mp ⟨u, hu, hmiss⟩
      rw [hfound t ht hlaunched m hm] at hmisses
      cases hmisses
  · intro hdone hidempotent t ht hlaunched m hm
    by_contra hmisses
    rw [Bool.not_eq_false] at hmisses
    obtain ⟨u, hu, hrequest, hphase⟩ := (hmissed _).mpr ⟨m, hm, hmisses⟩
    have haccepted := hidempotent.retriesAccepted t ht hlaunched u hu hrequest (hdone u hu)
    obtain ⟨response, hresponse, hsuccess⟩ := hc.exists_answer hu (hdone u hu)
    rw [hresponse, Option.any_some] at haccepted
    rw [hphase, haccepted] at hsuccess
    cases hsuccess

/-- **Start requests are safe in every run**: there is one launch at most, and requests for another
tenant or image do not launch and are refused. -/
theorem starts_safe (h : (starts cfg).Path (initial cfg row) ms c) :
    ms.countP Move.launches ≤ 1 ∧ ∀ t ∈ c.tasks, c.world.foreign t.tag.request →
      t.tag.phase.hasLaunched = false ∧
        (t.prog.isDone = true → t.tag.answer.any (fun response => !response.success) = true) :=
  ⟨Orderly.oneLaunch h, fun _ ht => (path_orderly h).foreignRefused ht⟩

end Runs

def oneImage : Settings where
  instanceId := "i"
  images id := if id = "image" then some "tenant" else none
  isFile _ := true

/-- A start and a retry of it, one after the other. -/
theorem starts_idempotent_iff_retry :
    ∃ ms c, (starts oneImage).Path (initial oneImage none) ms c ∧ c.tasks.length = 2 ∧
      (∀ t ∈ c.tasks, t.prog.isDone = true) ∧
      ((AssociationsFound ms c → Idempotent ms c) ∧
        ((∀ t ∈ c.tasks, t.prog.isDone = true) → Idempotent ms c → AssociationsFound ms c)) := by
  obtain ⟨ms, c, hpath, hlength, hdone⟩ :
      ∃ ms c, (starts oneImage).Path (initial oneImage none) ms c ∧ c.tasks.length = 2 ∧
        ∀ t ∈ c.tasks, t.prog.isDone = true :=
    (starts oneImage).exists_path [[.outside ⟨"tenant", "image"⟩], calls 8 0 true,
      [.outside ⟨"tenant", "image"⟩], calls 4 1 true] (by decide +kernel)
  exact ⟨ms, c, hpath, hlength, hdone, starts_idempotent_iff hpath⟩

/-- **A retry that comes between the two writes is refused, although the start succeeds.** -/
theorem retry_between_writes :
    ∃ ms c, (starts oneImage).Path (initial oneImage none) ms c ∧
      (∀ t ∈ c.tasks, t.prog.isDone = true) ∧ ¬ Idempotent ms c := by
  obtain ⟨ms, c, hpath, hdone, ⟨t, ht, hphase, hrequest⟩, u, hu, hanswer, hrequest'⟩ :
      ∃ ms c, (starts oneImage).Path (initial oneImage none) ms c ∧
        (∀ t ∈ c.tasks, t.prog.isDone = true) ∧
        (∃ t ∈ c.tasks, t.tag.phase = .launched true ∧ t.tag.request = ⟨"tenant", "image"⟩) ∧
        ∃ t ∈ c.tasks, t.tag.answer.any (fun response => !response.success) ∧
          t.tag.request = ⟨"tenant", "image"⟩ :=
    -- the row has been inserted when the retry arrives
    (starts oneImage).exists_path [[.outside ⟨"tenant", "image"⟩], calls 4 0 true,
      [.outside ⟨"tenant", "image"⟩], calls 4 1 true, calls 4 0 true] (by decide +kernel)
  refine ⟨ms, c, hpath, hdone, fun hidempotent => ?_⟩
  have haccepted := hidempotent.retriesAccepted t ht hphase u hu (hrequest'.trans hrequest.symm)
    (hdone u hu)
  obtain ⟨response, hresponse, hsuccess⟩ := (Option.any_eq_true _ _).mp haccepted
  rw [hresponse, Option.any_some, hsuccess] at hanswer
  cases hanswer

/-- A start, and a request of another tenant. -/
theorem starts_safe_foreign :
    ∃ ms c, (starts oneImage).Path (initial oneImage none) ms c ∧ ms.countP Move.launches ≤ 1 ∧
      ∃ t ∈ c.tasks, t.tag.answer.any (fun response => !response.success) = true := by
  obtain ⟨ms, c, hpath, t, ht, hrow, hother, hdone⟩ :
      ∃ ms c, (starts oneImage).Path (initial oneImage none) ms c ∧ ∃ t ∈ c.tasks,
        c.world.row = some "tenant" ∧ "tenant" ≠ t.tag.request.tenantId ∧ t.prog.isDone = true :=
    (starts oneImage).exists_path [[.outside ⟨"tenant", "image"⟩], calls 8 0 true,
      [.outside ⟨"other", "image"⟩], calls 2 1 true] (by decide +kernel)
  have hsafe := starts_safe hpath
  exact ⟨ms, c, hpath, hsafe.1, t, ht, (hsafe.2 t ht (.inl ⟨_, hrow, hother⟩)).2 hdone⟩

end Runtara.Environment.Start
