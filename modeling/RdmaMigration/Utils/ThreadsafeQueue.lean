import Mathlib.Data.Fintype.Basic
import RdmaMigration.Lib.AtomicObject
import RdmaMigration.Lib.Simulation
import RdmaMigration.Lib.Update

/-! # The thread-safe queue

`ThreadsafeQueue` of miscutils.hpp, through which messages, connections and segment
records pass between the threads: a `std::queue`, a mutex and a condition variable.
Any number of threads are inside its four methods. Every statement that touches the
queue is a step of its own, so that nothing but the mutex keeps the threads apart;
`wait` gives up the mutex and falls asleep in one step, `notify_one` wakes any one of
the sleepers, and a sleeper may also wake up without being notified.
-/

namespace RdmaMigration.Utils.ThreadsafeQueue

open Lib Function

inductive Call (α : Type*) where
  | enqueue (t : α)
  | dequeue
  | peek
  | empty
  deriving DecidableEq, Repr

/-- What a call returns. The null pointer of `peek` is `none`. -/
inductive Answer (α : Type*) where
  | done
  | value (v : α)
  | front (v : Option α)
  | isEmpty (b : Bool)
  deriving DecidableEq, Repr

/-- Where a thread is. `testing` is the start of the body with the mutex held, `reading`,
`popping` and `peeking` are the statements after the test of `q.empty()`, `woken` has to
get the mutex back inside `wait`, `returning` still has to release it. Outside a call the
thread remembers the last answer it got. -/
inductive Point (α : Type*) where
  | outside (last : Option (Answer α))
  | locking (call : Call α)
  | testing (call : Call α)
  | reading
  | popping (v : α)
  | peeking
  | notifying
  | sleeping
  | woken
  | returning (answer : Answer α)
  | returned (answer : Answer α)
  deriving DecidableEq, Repr

variable {ι α : Type*}

structure State (ι α : Type*) where
  queue : List α
  owner : Option ι
  point : ι → Point α

def State.construct : State ι α := ⟨[], none, fun _ => .outside none⟩

namespace Point

def Inside : Point α → Prop
  | .testing _ | .reading | .popping _ | .peeking | .notifying | .returning _ => True
  | _ => False

instance : DecidablePred (Inside (α := α))
  | .testing _ | .reading | .popping _ | .peeking | .notifying | .returning _ => .isTrue trivial
  | .outside _ | .locking _ | .sleeping | .woken | .returned _ => .isFalse id

def isSleeping : Point α → Bool
  | .sleeping => true
  | _ => false

/-- Getting the mutex, at the start of a method or inside `wait`. -/
def lock : Point α → Option (Point α)
  | .locking c => some (.testing c)
  | .woken => some (.testing .dequeue)
  | _ => none

/-- The next statement of a method under the mutex; `front` and `pop` have no meaning on
an empty queue. A thread that finds nothing to dequeue goes to sleep. -/
def exec (q : List α) : Point α → Option (List α × Point α)
  | .testing (.enqueue t) => some (q ++ [t], .notifying)
  | .testing .dequeue => some (q, if q.isEmpty then .sleeping else .reading)
  | .reading => q.head?.map fun v => (q, .popping v)
  | .popping v =>
      match q with
      | [] => none
      | _ :: rest => some (rest, .returning (.value v))
  | .testing .peek => some (q, if q.isEmpty then .returning (.front none) else .peeking)
  | .peeking => q.head?.map fun v => (q, .returning (.front (some v)))
  | .testing .empty => some (q, .returning (.isEmpty q.isEmpty))
  | _ => none

end Point

inductive Action (ι α : Type*) where
  | call (i : ι) (c : Call α)
  | lock (i : ι)
  | exec (i : ι)
  | notify (i : ι) (wakes : Option ι)
  | wake (i : ι)
  | unlock (i : ι)
  | ret (i : ι)
  deriving DecidableEq, Repr

section Machine

variable [DecidableEq ι]

def State.setPoint (s : State ι α) (i : ι) (p : Point α) : State ι α :=
  { s with point := update s.point i p }

@[simp] theorem State.setPoint_queue (s : State ι α) (i : ι) (p : Point α) :
    (s.setPoint i p).queue = s.queue := rfl

@[simp] theorem State.setPoint_owner (s : State ι α) (i : ι) (p : Point α) :
    (s.setPoint i p).owner = s.owner := rfl

theorem State.setPoint_ne (s : State ι α) {i j : ι} (h : j ≠ i) (p : Point α) :
    (s.setPoint i p).point j = s.point j := update_of_ne h ..

theorem State.setPoint_cases (s : State ι α) (i : ι) (p : Point α) (j : ι) :
    (j = i ∧ (s.setPoint i p).point j = p) ∨ (j ≠ i ∧ (s.setPoint i p).point j = s.point j) :=
  update_cases rfl j

/-- `notify_one`: nobody is woken only when nobody sleeps. -/
def notifyOne [Fintype ι] (s : State ι α) (i : ι) : Option ι → Option (State ι α)
  | none =>
      if ∃ j, (s.point j).isSleeping = true then none
      else some (s.setPoint i (.returning .done))
  | some j =>
      if (s.point j).isSleeping = true then
        some ((s.setPoint i (.returning .done)).setPoint j .woken)
      else none

def step [Fintype ι] (s : State ι α) : Action ι α → Option (State ι α)
  | .call i c =>
      match s.point i with
      | .outside _ => some (s.setPoint i (.locking c))
      | _ => none
  | .lock i =>
      if s.owner.isNone then
        (s.point i).lock.map fun p => { s.setPoint i p with owner := some i }
      else none
  | .exec i =>
      ((s.point i).exec s.queue).map fun result =>
        { s.setPoint i result.2 with
          queue := result.1
          owner := if result.2.isSleeping then none else s.owner }
  | .notify i wakes =>
      match s.point i with
      | .notifying => notifyOne s i wakes
      | _ => none
  | .wake i => if (s.point i).isSleeping then some (s.setPoint i .woken) else none
  | .unlock i =>
      match s.point i with
      | .returning a => some { s.setPoint i (.returned a) with owner := none }
      | _ => none
  | .ret i =>
      match s.point i with
      | .returned a => some (s.setPoint i (.outside (some a)))
      | _ => none

end Machine

/-! ## What the mutex gives -/

def Point.Fits (q : List α) : Point α → Prop
  | .reading | .peeking => q ≠ []
  | .popping v => q.head? = some v
  | _ => True

theorem Point.fits_of_outside {p : Point α} (h : ¬ p.Inside) (q : List α) : p.Fits q := by
  cases p with
  | testing | reading | popping | peeking | notifying | returning => exact absurd trivial h
  | outside | locking | sleeping | woken | returned => trivial

structure Inv (s : State ι α) : Prop where
  owner : ∀ i, (s.point i).Inside ↔ s.owner = some i
  fits : ∀ i, (s.point i).Fits s.queue

theorem construct_inv : Inv (State.construct : State ι α) where
  owner := by
    intro i
    exact ⟨fun h => absurd h id, fun h => absurd h (by simp [State.construct])⟩
  fits := fun _ => trivial

inductive Execs : List α → Point α → List α → Point α → Prop
  | push (q : List α) (t : α) : Execs q (.testing (.enqueue t)) (q ++ [t]) .notifying
  | sleep : Execs [] (.testing .dequeue) [] .sleeping
  | found (v : α) (q : List α) : Execs (v :: q) (.testing .dequeue) (v :: q) .reading
  | read (v : α) (q : List α) : Execs (v :: q) .reading (v :: q) (.popping v)
  | pop (v w : α) (q : List α) : Execs (w :: q) (.popping v) q (.returning (.value v))
  | nothing : Execs [] (.testing .peek) [] (.returning (.front none))
  | look (v : α) (q : List α) : Execs (v :: q) (.testing .peek) (v :: q) .peeking
  | front (v : α) (q : List α) : Execs (v :: q) .peeking (v :: q) (.returning (.front (some v)))
  | test (q : List α) : Execs q (.testing .empty) q (.returning (.isEmpty q.isEmpty))

theorem Point.execs_of_exec {q q' : List α} {p p' : Point α} (h : p.exec q = some (q', p')) :
    Execs q p q' p' := by
  cases p with
  | testing c =>
      cases c with
      | enqueue t =>
          cases h
          exact .push _ t
      | dequeue =>
          cases q with
          | nil =>
              cases h
              exact .sleep
          | cons v q =>
              cases h
              exact .found v q
      | peek =>
          cases q with
          | nil =>
              cases h
              exact .nothing
          | cons v q =>
              cases h
              exact .look v q
      | empty =>
          cases h
          exact .test _
  | reading =>
      cases q with
      | nil => cases h
      | cons v q =>
          cases h
          exact .read v q
  | popping v =>
      cases q with
      | nil => cases h
      | cons w q =>
          cases h
          exact .pop v w _
  | peeking =>
      cases q with
      | nil => cases h
      | cons v q =>
          cases h
          exact .front v q
  | outside | locking | notifying | sleeping | woken | returning | returned => cases h

section Execs

variable {q q' : List α} {p p' : Point α}

theorem Execs.inside (h : Execs q p q' p') : p.Inside := by
  cases h <;> trivial

theorem Execs.inside_iff (h : Execs q p q' p') : p'.Inside ↔ p'.isSleeping = false := by
  cases h <;> simp [Point.Inside, Point.isSleeping]

theorem Execs.fits (h : Execs q p q' p') : p'.Fits q' := by
  cases h <;> simp [Point.Fits]

end Execs

section Steps

variable [DecidableEq ι] {s s' : State ι α} {i : ι}

theorem Inv.setPoint (hi : Inv s) {p : Point α} (hside : p.Inside ↔ (s.point i).Inside)
    (hfits : p.Fits s.queue) : Inv (s.setPoint i p) := by
  refine ⟨?_, ?_⟩
  · intro j
    rcases s.setPoint_cases i p j with ⟨hj, heq⟩ | ⟨-, heq⟩
    · rw [heq, hside, hi.owner i, hj, State.setPoint_owner]
    · rw [heq, State.setPoint_owner]
      exact hi.owner j
  · intro j
    rcases s.setPoint_cases i p j with ⟨-, heq⟩ | ⟨-, heq⟩
    · rw [heq]
      exact hfits
    · rw [heq]
      exact hi.fits j

/-- A step of the only thread that can have the mutex, before or after it. Nobody else
knows anything about the queue. -/
theorem Inv.update (hi : Inv s) {q : List α} {p : Point α} {owner : Option ι}
    (howner : ∀ j, s.owner = some j → j = i) (hfits : p.Fits q)
    (hnext : ∀ j, owner = some j ↔ j = i ∧ p.Inside) :
    Inv ({ s.setPoint i p with queue := q, owner := owner } : State ι α) := by
  have hothers : ∀ j, j ≠ i → ¬ (s.point j).Inside := by
    intro j hj hinside
    exact hj (howner j ((hi.owner j).mp hinside))
  refine ⟨?_, ?_⟩
  · intro j
    dsimp only
    rw [hnext j]
    rcases s.setPoint_cases i p j with ⟨hj, heq⟩ | ⟨hj, heq⟩
    · rw [heq]
      simp only [hj, true_and]
    · rw [heq]
      simp only [hj, false_and, iff_false]
      exact hothers j hj
  · intro j
    dsimp only
    rcases s.setPoint_cases i p j with ⟨-, heq⟩ | ⟨hj, heq⟩
    · rw [heq]
      exact hfits
    · rw [heq]
      exact Point.fits_of_outside (hothers j hj) q

theorem isSleeping_iff {p : Point α} : p.isSleeping = true ↔ p = .sleeping := by
  cases p <;> simp [Point.isSleeping]

inductive Steps (s : State ι α) : Action ι α → State ι α → Prop
  | call {i : ι} {c : Call α} {last : Option (Answer α)} (hpoint : s.point i = .outside last) :
      Steps s (.call i c) (s.setPoint i (.locking c))
  | lock {i : ι} {c : Call α} (hfree : s.owner = none) (hpoint : s.point i = .locking c) :
      Steps s (.lock i) { s.setPoint i (.testing c) with owner := some i }
  | relock {i : ι} (hfree : s.owner = none) (hpoint : s.point i = .woken) :
      Steps s (.lock i) { s.setPoint i (.testing .dequeue) with owner := some i }
  | exec {i : ι} {q : List α} {p : Point α} (hexecs : Execs s.queue (s.point i) q p) :
      Steps s (.exec i) { s.setPoint i p with
        queue := q
        owner := if p.isSleeping then none else s.owner }
  | notifyNobody {i : ι} (hpoint : s.point i = .notifying) (hnone : ∀ j, s.point j ≠ .sleeping) :
      Steps s (.notify i none) (s.setPoint i (.returning .done))
  | notify {i j : ι} (hpoint : s.point i = .notifying)
      (hsleeps : (s.setPoint i (.returning .done)).point j = .sleeping)
      (hj : s.point j = .sleeping) :
      Steps s (.notify i (some j)) ((s.setPoint i (.returning .done)).setPoint j .woken)
  | wake {i : ι} (hpoint : s.point i = .sleeping) : Steps s (.wake i) (s.setPoint i .woken)
  | unlock {i : ι} {a : Answer α} (hpoint : s.point i = .returning a) :
      Steps s (.unlock i) { s.setPoint i (.returned a) with owner := none }
  | ret {i : ι} {a : Answer α} (hpoint : s.point i = .returned a) :
      Steps s (.ret i) (s.setPoint i (.outside (some a)))

theorem steps_of_notify [Fintype ι] {wakes : Option ι} (hpoint : s.point i = .notifying)
    (h : notifyOne s i wakes = some s') : Steps s (.notify i wakes) s' := by
  cases wakes with
  | none =>
      rw [notifyOne, Option.ite_none_left_eq_some] at h
      cases h.2
      exact .notifyNobody hpoint fun j hj => h.1 ⟨j, isSleeping_iff.mpr hj⟩
  | some j =>
      rw [notifyOne, Option.ite_none_right_eq_some] at h
      cases h.2
      have hj := isSleeping_iff.mp h.1
      have hne : j ≠ i := by
        rintro rfl
        rw [hpoint] at hj
        cases hj
      exact .notify hpoint ((s.setPoint_ne hne _).trans hj) hj

theorem steps_of_step [Fintype ι] {a : Action ι α} (h : step s a = some s') : Steps s a s' := by
  cases a with
  | call i c =>
      simp only [step] at h
      split at h
      next last hpoint => cases h; exact .call hpoint
      next => cases h
  | lock i =>
      simp only [step, Option.ite_none_right_eq_some, Option.isNone_iff_eq_none] at h
      obtain ⟨hfree, h⟩ := h
      obtain ⟨p, hlock, rfl⟩ := Option.map_eq_some_iff.mp h
      unfold Point.lock at hlock
      split at hlock
      next c hpoint => cases hlock; exact .lock hfree hpoint
      next hpoint => cases hlock; exact .relock hfree hpoint
      next => cases hlock
  | exec i =>
      obtain ⟨⟨q, p⟩, hexec, rfl⟩ := Option.map_eq_some_iff.mp h
      exact .exec (Point.execs_of_exec hexec)
  | notify i wakes =>
      simp only [step] at h
      split at h
      next hpoint => exact steps_of_notify hpoint h
      next => cases h
  | wake i =>
      simp only [step, Option.ite_none_right_eq_some] at h
      cases h.2
      exact .wake (isSleeping_iff.mp h.1)
  | unlock i =>
      simp only [step] at h
      split at h
      next a hpoint => cases h; exact .unlock hpoint
      next => cases h
  | ret i =>
      simp only [step] at h
      split at h
      next a hpoint => cases h; exact .ret hpoint
      next => cases h

theorem step_inv [Fintype ι] {a : Action ι α} (hi : Inv s) (h : step s a = some s') : Inv s' := by
  cases steps_of_step h with
  | call hpoint | ret hpoint | wake hpoint | notifyNobody hpoint =>
      exact hi.setPoint (by rw [hpoint]; exact Iff.rfl) trivial
  | notify hpoint hsleeps =>
      have hreturn := hi.setPoint (p := .returning .done) (by rw [hpoint]; exact Iff.rfl) trivial
      exact hreturn.setPoint (by rw [hsleeps]; exact Iff.rfl) trivial
  | lock hfree | relock hfree =>
      refine hi.update (by simp [hfree]) trivial ?_
      intro j
      simp [Point.Inside, eq_comm]
  | exec hexecs =>
      rename_i i q p
      have howner : s.owner = some i := (hi.owner i).mp hexecs.inside
      refine hi.update (by simp [howner]) hexecs.fits ?_
      intro j
      rw [hexecs.inside_iff, howner]
      cases hsleep : p.isSleeping with
      | true => simp
      | false => simp [eq_comm]
  | unlock hpoint =>
      rename_i i a
      have howner : s.owner = some i := (hi.owner i).mp (by rw [hpoint]; trivial)
      refine hi.update (by simp [howner]) trivial ?_
      intro j
      simp [Point.Inside]

end Steps

/-! ## The queue is linearizable -/

/-- The sequential queue; `dequeue` has to wait when there is nothing. -/
def sequential (q : List α) : Call α → Option (List α × Answer α)
  | .enqueue t => some (q ++ [t], .done)
  | .dequeue =>
      match q with
      | [] => none
      | v :: rest => some (rest, .value v)
  | .peek => some (q, .front q.head?)
  | .empty => some (q, .isEmpty q.isEmpty)

/-- How far a call has come: its effect is the push, the pop, the read of the front or
the test of `q.empty()`. -/
def Point.phase : Point α → Phase (Call α) (Answer α)
  | .outside _ => .idle
  | .locking c | .testing c => .invoked c
  | .reading | .popping _ | .sleeping | .woken => .invoked .dequeue
  | .peeking => .invoked .peek
  | .notifying => .answered .done
  | .returning a | .returned a => .answered a

def State.view (s : State ι α) : AtomicObject ι (List α) (Call α) (Answer α) :=
  ⟨s.queue, fun i => (s.point i).phase⟩

theorem State.view_phase (s : State ι α) (i : ι) : s.view.phase i = (s.point i).phase := rfl

def Point.takesEffect (q : List α) : Point α → Bool
  | .testing (.enqueue _) | .testing .empty | .popping _ | .peeking => true
  | .testing .peek => q.isEmpty
  | _ => false

def visible (s : State ι α) : Action ι α → Option (ObjectEvent ι (Call α) (Answer α))
  | .call i c => some (.invoke i c)
  | .exec i => if (s.point i).takesEffect s.queue then some (.perform i) else none
  | .ret i =>
      match s.point i with
      | .returned a => some (.respond i a)
      | _ => none
  | _ => none

/-- A statement under the mutex either gives the call its effect or is not seen. The pop
returns what was read because the mutex was held in between. -/
theorem Execs.phase {q q' : List α} {p p' : Point α} (hp : p.Fits q) (h : Execs q p q' p') :
    if p.takesEffect q then
      ∃ c a, p.phase = .invoked c ∧ sequential q c = some (q', a) ∧ p'.phase = .answered a
    else q' = q ∧ p'.phase = p.phase := by
  cases h with
  | push _ t => exact ⟨.enqueue t, .done, rfl, rfl, rfl⟩
  | pop v w =>
      cases hp
      exact ⟨.dequeue, .value v, rfl, rfl, rfl⟩
  | nothing => exact ⟨.peek, .front none, rfl, rfl, rfl⟩
  | front v q => exact ⟨.peek, .front (some v), rfl, rfl, rfl⟩
  | test => exact ⟨.empty, _, rfl, rfl, rfl⟩
  | sleep | found | read | look => exact ⟨rfl, rfl⟩

section Simulation

variable [DecidableEq ι] {s s' : State ι α} {i : ι}

theorem State.view_setPoint (s : State ι α) (i : ι) (p : Point α) :
    (s.setPoint i p).view = s.view.setPhase i p.phase := by
  have hphase : (fun j => ((s.setPoint i p).point j).phase) =
      update (fun j => (s.point j).phase) i p.phase := by
    funext j
    rcases s.setPoint_cases i p j with ⟨hj, heq⟩ | ⟨hj, heq⟩
    · rw [heq, hj, update_self]
    · rw [heq, update_of_ne hj]
  rw [State.view, hphase]
  rfl

theorem State.view_hidden {p : Point α} (h : p.phase = (s.point i).phase) :
    (s.setPoint i p).view = s.view := by
  rw [State.view_setPoint, h]
  exact congrArg (AtomicObject.mk s.queue) (update_eq_self ..)

theorem step_hidden [Fintype ι] {a : Action ι α} (hi : Inv s) (h : step s a = some s')
    (hv : visible s a = none) : s'.view = s.view := by
  cases steps_of_step h with
  | call => cases hv
  | ret hpoint =>
      rw [visible, hpoint] at hv
      cases hv
  | wake hpoint | notifyNobody hpoint => exact State.view_hidden (by rw [hpoint]; rfl)
  | lock _ hpoint | relock _ hpoint =>
      exact State.view_hidden (p := .testing _) (by rw [hpoint]; rfl)
  | unlock hpoint => exact State.view_hidden (p := .returned _) (by rw [hpoint]; rfl)
  | notify hpoint hsleeps =>
      refine (State.view_hidden ?_).trans (State.view_hidden ?_)
      · rw [hsleeps]
        rfl
      · rw [hpoint]
        rfl
  | exec hexecs =>
      rename_i i q p
      have heffect : (s.point i).takesEffect s.queue = false := by
        simpa [visible] using hv
      have hphase := hexecs.phase (hi.fits i)
      rw [heffect, if_neg Bool.false_ne_true] at hphase
      obtain ⟨rfl, hphase⟩ := hphase
      exact State.view_hidden hphase

theorem step_shown [Fintype ι] [DecidableEq α] {a : Action ι α}
    {e : ObjectEvent ι (Call α) (Answer α)} (hi : Inv s) (h : step s a = some s')
    (hv : visible s a = some e) : s.view.step sequential e = some s'.view := by
  cases steps_of_step h with
  | lock | relock | notifyNobody | notify | wake | unlock => cases hv
  | call hpoint =>
      cases hv
      rw [AtomicObject.step, State.view_phase, hpoint, State.view_setPoint]
      rfl
  | ret hpoint =>
      rw [visible, hpoint] at hv
      cases hv
      rw [AtomicObject.step, State.view_phase, hpoint, State.view_setPoint]
      exact if_pos rfl
  | exec hexecs =>
      rename_i i q p
      rw [visible, Option.ite_none_right_eq_some] at hv
      obtain ⟨heffect, he⟩ := hv
      cases he
      have hphase := hexecs.phase (hi.fits i)
      rw [heffect, if_pos rfl] at hphase
      obtain ⟨c, answer, hinvoked, hcall, hanswer⟩ := hphase
      have heffect : s.view.effect sequential i = some (c, answer, q) := by
        rw [AtomicObject.effect, State.view_phase, hinvoked]
        dsimp only
        rw [State.view, hcall]
        rfl
      have hmoved := State.view_setPoint s i p
      rw [hanswer] at hmoved
      rw [AtomicObject.step, heffect]
      exact congrArg (fun o : AtomicObject ι (List α) (Call α) (Answer α) =>
        some { o with value := q }) hmoved.symm

theorem atomic_simulation (ι α : Type*) [DecidableEq ι] [Fintype ι] [DecidableEq α] :
    Simulation (step (ι := ι) (α := α)) (AtomicObject.step sequential) Inv State.view visible where
  keeps := step_inv
  hidden := step_hidden
  shown := step_shown

end Simulation

def enqueued (ops : List (Call α × Answer α)) : List α :=
  ops.filterMap fun op =>
    match op.1 with
    | .enqueue t => some t
    | _ => none

def dequeued (ops : List (Call α × Answer α)) : List α :=
  ops.filterMap fun op =>
    match op.2 with
    | .value v => some v
    | _ => none

/-- First in, first out: every value is taken out once and in the order it was put in. -/
theorem legal_fifo {q q' : List α} {ops : List (Call α × Answer α)}
    (h : Legal sequential q ops q') : q ++ enqueued ops = dequeued ops ++ q' := by
  induction ops generalizing q with
  | nil =>
      cases h
      simp [enqueued, dequeued]
  | cons op ops ih =>
      obtain ⟨c, a⟩ := op
      obtain ⟨u, hu, hrest⟩ := h
      have htail := ih hrest
      cases c with
      | enqueue t =>
          cases hu
          rw [List.append_assoc] at htail
          exact htail
      | dequeue =>
          cases q with
          | nil => cases hu
          | cons v q =>
              cases hu
              exact congrArg (v :: ·) htail
      | peek =>
          cases hu
          exact htail
      | empty =>
          cases hu
          exact htail

/-- Whatever the threads do: the calls and answers of a run are those of a queue on which
every call takes its effect in one step between its start and its return. The calls that
took effect are a run of the sequential queue with the same answers, and the values come
out once each, in the order they went in. -/
theorem queue_linearizable {ι α : Type*} [DecidableEq ι] [Fintype ι] [DecidableEq α]
    {actions : List (Action ι α)} {s : State ι α}
    {events : List (ObjectEvent ι (Call α) (Answer α))} {ops : List (Call α × Answer α)}
    (h : run step State.construct actions = some s)
    (hevents : events = observed step visible State.construct actions)
    (hops : ops = ((AtomicObject.fresh []).performed sequential events).map (·.2)) :
    run (AtomicObject.step sequential) (AtomicObject.fresh []) events = some s.view ∧
      Legal sequential [] ops s.queue ∧ enqueued ops = dequeued ops ++ s.queue := by
  have hatomic : run (AtomicObject.step sequential) (AtomicObject.fresh []) events =
      some s.view := by
    rw [hevents]
    exact (atomic_simulation ι α).run_observed construct_inv h
  have hlegal : Legal sequential [] ops s.queue := by
    rw [hops]
    exact AtomicObject.legal_performed hatomic
  exact ⟨hatomic, hlegal, legal_fifo hlegal⟩

/-- A thread falls asleep in `dequeue`, another one puts 5 and 6 in, and the first returns
with 5. -/
theorem queue_linearizable_two_threads : ∃ s : State (Fin 2) Nat,
    s.point 0 = .outside (some (.value 5)) ∧ s.queue = [6] ∧
    Legal sequential [] [(.enqueue 5, .done), (.enqueue 6, .done), (.dequeue, .value 5)]
      s.queue := by
  let actions : List (Action (Fin 2) Nat) := [.call 0 .dequeue, .lock 0, .exec 0,
    .call 1 (.enqueue 5), .lock 1, .exec 1, .notify 1 (some 0), .unlock 1, .ret 1,
    .call 1 (.enqueue 6), .lock 1, .exec 1, .notify 1 none, .unlock 1, .lock 0, .exec 0,
    .exec 0, .exec 0, .unlock 0, .ret 0]
  have hrun : (run step State.construct actions).map (fun s => (s.point 0, s.queue)) =
      some (.outside (some (.value 5)), [6]) := by
    decide +kernel
  obtain ⟨s, hs, hshown⟩ := Option.map_eq_some_iff.mp hrun
  have hresult := queue_linearizable hs rfl rfl
  rw [Prod.mk.injEq] at hshown
  refine ⟨s, hshown.1, hshown.2, ?_⟩
  have hops : ((AtomicObject.fresh []).performed sequential
      (observed step visible State.construct actions)).map (·.2) =
      [(.enqueue 5, .done), (.enqueue 6, .done), (.dequeue, .value 5)] := by
    decide +kernel
  rw [← hops]
  exact hresult.2.1

end RdmaMigration.Utils.ThreadsafeQueue
