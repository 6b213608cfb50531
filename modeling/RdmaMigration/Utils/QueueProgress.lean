import RdmaMigration.Lib.Progress
import RdmaMigration.Utils.ThreadsafeQueue

/-! # Who waits at a thread-safe queue

A `dequeue` waits only while the queue is empty: a value that is put in while threads
are asleep has woken one of them, or is about to, and a woken thread that finds its
value gone goes back to sleep without taking the wake-up of another value with it. The
managers poll with `empty` and `dequeue` one after the other; that never waits as long
as a single thread polls the queue, and may wait as soon as two do.
-/

namespace RdmaMigration.Utils.ThreadsafeQueue

open Lib Function

variable {ι α : Type*}

/-! ## No wake-up is lost -/

/-- Threads that will look at the queue, or make another one look, before they sleep. -/
def Point.credit : Point α → Nat
  | .woken | .testing .dequeue | .reading | .popping _ | .notifying => 1
  | _ => 0

/-- While a thread sleeps, every value in the queue has a thread that will see to it. -/
def Attended [Fintype ι] (s : State ι α) : Prop :=
  (∃ i, s.point i = .sleeping) → s.queue.length ≤ ∑ i, (s.point i).credit

theorem Execs.credit {q q' : List α} {p p' : Point α} (h : Execs q p q' p') :
    (p' = .sleeping ∧ q' = []) ∨
      (p' ≠ .sleeping ∧ q'.length + p.credit ≤ q.length + p'.credit) := by
  cases h with
  | sleep => exact .inl ⟨rfl, rfl⟩
  | push | found | read | pop | nothing | look | front | test =>
      exact .inr ⟨by simp, by simp [Point.credit]⟩

section Steps

variable [DecidableEq ι] {s s' : State ι α} {i : ι}

theorem sleeper_of_setPoint {p : Point α} (hp : p ≠ .sleeping)
    (h : ∃ j, (s.setPoint i p).point j = .sleeping) : ∃ j, s.point j = .sleeping := by
  obtain ⟨j, hj⟩ := h
  rcases s.setPoint_cases i p j with ⟨-, heq⟩ | ⟨-, heq⟩
  · rw [heq] at hj
    exact absurd hj hp
  · exact ⟨j, heq ▸ hj⟩

variable [Fintype ι]

theorem credit_setPoint (s : State ι α) (i : ι) (p : Point α) :
    ∑ j, ((s.setPoint i p).point j).credit + (s.point i).credit =
      ∑ j, (s.point j).credit + p.credit :=
  sum_update_add Point.credit s.point i p

theorem Attended.move (h : Attended s) {p : Point α} {q : List α} {owner : Option ι}
    (hp : p ≠ .sleeping) (hcredit : q.length + (s.point i).credit ≤ s.queue.length + p.credit) :
    Attended ({ s.setPoint i p with queue := q, owner := owner } : State ι α) := by
  intro hsleeper
  have hbefore := h (sleeper_of_setPoint hp hsleeper)
  have hsum := credit_setPoint s i p
  dsimp only
  omega

theorem step_attended {a : Action ι α} (h : Attended s) (hstep : step s a = some s') :
    Attended s' := by
  cases steps_of_step hstep with
  | call hpoint | lock _ hpoint | relock _ hpoint | wake hpoint | unlock hpoint | ret hpoint =>
      exact h.move (q := s.queue) (by simp) (by simp [hpoint, Point.credit])
  | exec hexecs =>
      rcases hexecs.credit with ⟨-, rfl⟩ | ⟨hp, hcredit⟩
      · intro _
        exact Nat.zero_le _
      · exact h.move hp hcredit
  | notifyNobody _ hnone =>
      intro hsleeper
      obtain ⟨k, hk⟩ := sleeper_of_setPoint (by simp) hsleeper
      exact absurd hk (hnone k)
  | notify hpoint hsleeps hj =>
      -- The wake-up passes from the notifying thread to the sleeper.
      rename_i i j
      intro _
      have hbefore := h ⟨j, hj⟩
      have hfirst := credit_setPoint s i (.returning .done)
      have hsecond := credit_setPoint (s.setPoint i (.returning .done)) j .woken
      rw [hpoint] at hfirst
      rw [hsleeps] at hsecond
      change _ + 1 = _ + 0 at hfirst
      change _ + 0 = _ + 1 at hsecond
      simp only [State.setPoint_queue]
      omega

end Steps

/-! ## Every call returns -/

/-- The statements a thread has before it at most, where waking another thread counts
for all of its statements too. -/
def Point.weight : Point α → Nat
  | .outside _ | .sleeping => 0
  | .returned _ => 1
  | .returning _ => 2
  | .popping _ | .peeking | .testing .empty => 3
  | .reading | .testing .peek | .locking .empty => 4
  | .testing .dequeue | .locking .peek => 5
  | .woken | .locking .dequeue => 6
  | .notifying => 9
  | .testing (.enqueue _) => 10
  | .locking (.enqueue _) => 11

/-- The steps of the calls that have begun; no thread wakes up for no reason. -/
def Begun (_ : State ι α) : Action ι α → Prop
  | .call _ _ | .wake _ => False
  | _ => True

/-- Every call has returned, except for a `dequeue` on an empty queue. -/
def Quiet (s : State ι α) : Prop :=
  ∀ i, (∃ last, s.point i = .outside last) ∨ (s.point i = .sleeping ∧ s.queue = [])

theorem Execs.weight {q q' : List α} {p p' : Point α} (h : Execs q p q' p') :
    p'.weight < p.weight := by
  cases h <;> simp [Point.weight]

section Rank

variable [DecidableEq ι] [Fintype ι] {s s' : State ι α} {i : ι}

theorem weight_setPoint (s : State ι α) (i : ι) (p : Point α) :
    ∑ j, ((s.setPoint i p).point j).weight + (s.point i).weight =
      ∑ j, (s.point j).weight + p.weight :=
  sum_update_add Point.weight s.point i p

theorem weight_falls {p : Point α} (h : p.weight < (s.point i).weight) :
    ∑ j, ((s.setPoint i p).point j).weight < ∑ j, (s.point j).weight := by
  have hsum := weight_setPoint s i p
  omega

theorem begun_falls {a : Action ι α} (ha : Begun s a) (h : step s a = some s') :
    ∑ j, (s'.point j).weight < ∑ j, (s.point j).weight := by
  cases steps_of_step h with
  | call | wake => exact absurd ha id
  | lock hfree hpoint =>
      rename_i i c
      refine weight_falls ?_
      rw [hpoint]
      cases c <;> simp [Point.weight]
  | relock _ hpoint | notifyNobody hpoint | unlock hpoint | ret hpoint =>
      exact weight_falls (by simp [hpoint, Point.weight])
  | exec hexecs => exact weight_falls hexecs.weight
  | notify hpoint hsleeps hj =>
      rename_i i j
      have hfirst := weight_setPoint s i (.returning .done)
      have hsecond := weight_setPoint (s.setPoint i (.returning .done)) j .woken
      rw [hpoint] at hfirst
      rw [hsleeps] at hsecond
      change _ + 9 = _ + 2 at hfirst
      change _ + 0 = _ + 6 at hsecond
      omega

/-- The owner of the mutex can always go on. -/
theorem inside_moves (hi : Inv s) (hinside : (s.point i).Inside) :
    ∃ a s', Begun s a ∧ step s a = some s' := by
  have hfits := hi.fits i
  cases hpoint : s.point i with
  | testing c =>
      have hexec : ∃ r, (s.point i).exec s.queue = some r := by
        rw [hpoint]
        cases c with
        | enqueue | dequeue | peek | empty => exact ⟨_, rfl⟩
      obtain ⟨r, hr⟩ := hexec
      exact ⟨.exec i, _, trivial, by rw [step, hr]; rfl⟩
  | reading =>
      rw [hpoint] at hfits
      obtain ⟨v, q, hq⟩ := List.exists_cons_of_ne_nil hfits
      exact ⟨.exec i, _, trivial, by rw [step, hpoint, hq]; rfl⟩
  | popping v =>
      rw [hpoint] at hfits
      cases hq : s.queue with
      | nil =>
          rw [hq] at hfits
          cases hfits
      | cons w rest => exact ⟨.exec i, _, trivial, by rw [step, hpoint, hq, Point.exec]; rfl⟩
  | peeking =>
      rw [hpoint] at hfits
      obtain ⟨v, q, hq⟩ := List.exists_cons_of_ne_nil hfits
      exact ⟨.exec i, _, trivial, by rw [step, hpoint, hq]; rfl⟩
  | notifying =>
      by_cases hsleeper : ∃ j, (s.point j).isSleeping = true
      · obtain ⟨j, hj⟩ := hsleeper
        exact ⟨.notify i (some j), _, trivial, by rw [step, hpoint]; exact if_pos hj⟩
      · exact ⟨.notify i none, _, trivial, by rw [step, hpoint]; exact if_neg hsleeper⟩
  | returning a => exact ⟨.unlock i, _, trivial, by rw [step, hpoint]⟩
  | outside | locking | sleeping | woken | returned =>
      rw [hpoint] at hinside
      exact absurd hinside id

theorem quiet_of_stuck (hi : Inv s) (hattended : Attended s)
    (hstuck : ∀ a, Begun s a → step s a = none) : Quiet s := by
  have houtside : ∀ i, ¬ (s.point i).Inside := by
    intro i hinside
    obtain ⟨a, s', ha, hs'⟩ := inside_moves hi hinside
    rw [hstuck a ha] at hs'
    cases hs'
  have hfree : s.owner = none := by
    cases howner : s.owner with
    | none => rfl
    | some i => exact absurd ((hi.owner i).mpr howner) (houtside i)
  have hends : ∀ i, (∃ last, s.point i = .outside last) ∨ s.point i = .sleeping := by
    intro i
    cases hpoint : s.point i with
    | outside last => exact .inl ⟨last, rfl⟩
    | sleeping => exact .inr rfl
    | locking c =>
        have hstep := hstuck (.lock i) trivial
        simp [step, hfree, hpoint, Point.lock] at hstep
    | woken =>
        have hstep := hstuck (.lock i) trivial
        simp [step, hfree, hpoint, Point.lock] at hstep
    | returned a =>
        have hstep := hstuck (.ret i) trivial
        simp [step, hpoint] at hstep
    | testing | reading | popping | peeking | notifying | returning =>
        exact absurd (by rw [hpoint]; trivial) (houtside i)
  have hcredit : ∑ i, (s.point i).credit = 0 := by
    refine Finset.sum_eq_zero fun i _ => ?_
    rcases hends i with ⟨last, hpoint⟩ | hpoint
    · rw [hpoint]
      rfl
    · rw [hpoint]
      rfl
  intro i
  rcases hends i with hout | hsleep
  · exact .inl hout
  · have hlen := hattended ⟨i, hsleep⟩
    rw [hcredit] at hlen
    exact .inr ⟨hsleep, List.length_eq_zero_iff.mp (Nat.le_zero.mp hlen)⟩

end Rank

/-- In every state that any number of threads can reach, also by spurious wake-ups: if the
calls that have begun are continued, in any order and without further spurious wake-ups,
then after boundedly many steps each of them has returned, except for the calls of
`dequeue` that sleep at an empty queue. -/
theorem calls_return {ι α : Type*} [DecidableEq ι] [Fintype ι] {s : State ι α}
    (h : Reaches step anyAction State.construct s) : Completes step Begun s Quiet := by
  have hkeep : ∀ u a v, Inv u ∧ Attended u → anyAction u a → step u a = some v →
      Inv v ∧ Attended (ι := ι) (α := α) v := by
    intro u a v hu _ hstep
    exact ⟨step_inv hu.1 hstep, step_attended hu.2 hstep⟩
  have hstart : Inv (State.construct : State ι α) ∧ Attended (State.construct : State ι α) :=
    ⟨construct_inv, fun _ => Nat.zero_le _⟩
  have hs : Inv s ∧ Attended s := h.invariant hkeep hstart
  refine completes_of_rank (?_ : ∀ n u a v, (Inv u ∧ Attended u) ∧ ∑ j, (u.point j).weight = n →
    Begun u a → step u a = some v →
      ∃ m < n, (Inv v ∧ Attended v) ∧ ∑ j, (v.point j).weight = m) ?_ ⟨hs, rfl⟩
  · intro n u a v hu ha hstep
    exact ⟨_, hu.2 ▸ begun_falls ha hstep, hkeep u a v hu.1 trivial hstep, rfl⟩
  · intro n u hu hstuck
    exact quiet_of_stuck hu.1.1 hu.1.2 hstuck

/-- Thread 0 sleeps in `dequeue`, thread 1 is about to put 5 in: both come to an end. -/
theorem calls_return_two_threads : ∃ s t : State (Fin 2) Nat,
    s.point 0 = .sleeping ∧ s.point 1 = .locking (.enqueue 5) ∧ Reaches step Begun s t ∧
      Quiet t := by
  let actions : List (Action (Fin 2) Nat) :=
    [.call 0 .dequeue, .lock 0, .exec 0, .call 1 (.enqueue 5)]
  have hrun : (run step State.construct actions).map (fun s => (s.point 0, s.point 1)) =
      some (.sleeping, .locking (.enqueue 5)) := by
    decide +kernel
  obtain ⟨s, hreach, hshown⟩ := reaches_of_map_run hrun
  rw [Prod.mk.injEq] at hshown
  obtain ⟨t, ht, hquiet⟩ := (calls_return hreach).exists_done
  exact ⟨s, t, hshown.1, hshown.2, ht, hquiet⟩

/-! ## Polling -/

/-- `PollForAccept`, `PollForTransfer` and `PollForClose` call `dequeue` only directly
after `empty` has returned false, and only the threads that poll call it. -/
def Polls (consumers : ι → Prop) (s : State ι α) : Action ι α → Prop
  | .call i .dequeue => consumers i ∧ s.point i = .outside (some (.isEmpty false))
  | _ => True

def Point.Dequeuing : Point α → Prop
  | .locking .dequeue | .testing .dequeue | .reading | .popping _ => True
  | _ => False

/-- The thread has been told that there is something, and has not taken it yet. -/
def Point.Promised : Point α → Prop
  | .returning (.isEmpty false) | .returned (.isEmpty false) => True
  | .outside (some (.isEmpty false)) => True
  | p => p.Dequeuing

structure Lone (consumers : ι → Prop) (s : State ι α) : Prop where
  only : ∀ i, (s.point i).Dequeuing → consumers i
  kept : ∀ i, consumers i → (s.point i).Promised → s.queue ≠ []
  awake : ∀ i, s.point i ≠ .sleeping ∧ s.point i ≠ .woken

theorem promised_of_dequeuing {p : Point α} (h : p.Dequeuing) : p.Promised := by
  cases p with
  | locking | testing | reading | popping | peeking | notifying | sleeping | woken => exact h
  | outside | returning | returned => exact absurd h id

theorem promised_returned {a : Answer α} (h : (Point.returned a).Promised) :
    a = .isEmpty false := by
  cases a with
  | isEmpty b =>
      cases b with
      | true => exact absurd h id
      | false => rfl
  | done | value | front => exact absurd h id

theorem promised_outside {a : Answer α} (h : (Point.outside (some a)).Promised) :
    a = .isEmpty false := by
  cases a with
  | isEmpty b =>
      cases b with
      | true => exact absurd h id
      | false => rfl
  | done | value | front => exact absurd h id

theorem Execs.dequeuing {q q' : List α} {p p' : Point α} (h : Execs q p q' p')
    (hp' : p'.Dequeuing) : p.Dequeuing := by
  cases h <;> trivial

theorem Execs.awake {q q' : List α} {p p' : Point α} (h : Execs q p q' p')
    (hp : p.Dequeuing → q ≠ []) : p' ≠ .sleeping ∧ p' ≠ .woken := by
  cases h with
  | sleep => exact absurd rfl (hp trivial)
  | push | found | read | pop | nothing | look | front | test => simp

theorem Execs.promised {q q' : List α} {p p' : Point α} (h : Execs q p q' p')
    (hp' : p'.Promised) : q' ≠ [] := by
  cases h with
  | test q =>
      cases q with
      | nil => exact absurd hp' id
      | cons v q => simp
  | found | read | look => simp
  | push | sleep | pop | nothing | front => exact absurd hp' id

theorem Execs.emptied {q q' : List α} {p p' : Point α} (h : Execs q p q' p') (hq : q ≠ []) :
    q' ≠ [] ∨ p.Dequeuing := by
  cases h with
  | pop => exact .inr trivial
  | push => exact .inl (by simp)
  | sleep | found | read | nothing | look | front | test => exact .inl hq

section Polls

variable [DecidableEq ι] {consumers : ι → Prop} {s s' : State ι α} {i : ι}

theorem Lone.move (hlone : ∀ i j, consumers i → consumers j → i = j) (h : Lone consumers s)
    {p : Point α} {q : List α} {owner : Option ι} (honly : p.Dequeuing → consumers i)
    (hkept : consumers i → p.Promised → q ≠ []) (hawake : p ≠ .sleeping ∧ p ≠ .woken)
    (hothers : s.queue ≠ [] → q ≠ [] ∨ consumers i) :
    Lone consumers ({ s.setPoint i p with queue := q, owner := owner } : State ι α) := by
  refine ⟨?_, ?_, ?_⟩
  · exact (forall_update_iff _ fun j (x : Point α) => x.Dequeuing → consumers j).mpr
      ⟨honly, fun j _ => h.only j⟩
  · refine (forall_update_iff _ fun j (x : Point α) =>
      consumers j → x.Promised → q ≠ []).mpr ⟨hkept, fun j hji hconsumer hj => ?_⟩
    rcases hothers (h.kept j hconsumer hj) with hq | hi
    · exact hq
    · exact absurd (hlone j i hconsumer hi) hji
  · exact (forall_update_iff _ fun _ (x : Point α) => x ≠ .sleeping ∧ x ≠ .woken).mpr
      ⟨hawake, fun j _ => h.awake j⟩

theorem Lone.step [Fintype ι] (hlone : ∀ i j, consumers i → consumers j → i = j)
    (h : Lone consumers s) {a : Action ι α} (ha : Polls consumers s a)
    (hstep : step s a = some s') : Lone consumers s' := by
  cases steps_of_step hstep with
  | call hpoint =>
      rename_i i c last
      refine h.move hlone (q := s.queue) ?_ ?_ (by simp) .inl
      · intro hp
        cases c with
        | dequeue => exact ha.1
        | enqueue | peek | empty => exact absurd hp id
      · intro hconsumer hp
        cases c with
        | dequeue => exact h.kept i hconsumer (by rw [ha.2]; trivial)
        | enqueue | peek | empty => exact absurd hp id
  | lock hfree hpoint =>
      rename_i i c
      refine h.move hlone (q := s.queue) ?_ ?_ (by simp) .inl
      · intro hp
        refine h.only i ?_
        rw [hpoint]
        cases c <;> trivial
      · intro hconsumer hp
        refine h.kept i hconsumer ?_
        rw [hpoint]
        cases c <;> trivial
  | relock _ hpoint => exact absurd hpoint (h.awake _).2
  | exec hexecs =>
      refine h.move hlone ?_ (fun _ => hexecs.promised) ?_ ?_
      · intro hp
        exact h.only _ (hexecs.dequeuing hp)
      · exact hexecs.awake fun hp => h.kept _ (h.only _ hp) (promised_of_dequeuing hp)
      · intro hq
        exact (hexecs.emptied hq).imp_right (h.only _)
  | notifyNobody =>
      exact h.move hlone (q := s.queue) (fun hp => absurd hp id) (fun _ hp => absurd hp id)
        (by simp) .inl
  | notify _ _ hj => exact absurd hj (h.awake _).1
  | wake hpoint => exact absurd hpoint (h.awake _).1
  | unlock hpoint =>
      refine h.move hlone (q := s.queue) (fun hp => absurd hp id) ?_ (by simp) .inl
      intro hconsumer hp
      refine h.kept _ hconsumer ?_
      rw [hpoint, promised_returned hp]
      trivial
  | ret hpoint =>
      refine h.move hlone (q := s.queue) (fun hp => absurd hp id) ?_ (by simp) .inl
      intro hconsumer hp
      refine h.kept _ hconsumer ?_
      rw [hpoint, promised_outside hp]
      trivial

end Polls

/-! ## A call with nobody in its way -/

section Alone

variable [DecidableEq ι]

def State.moved (s : State ι α) (i : ι) (p : Point α) (owner : Option ι) (q : List α) :
    State ι α :=
  ⟨q, owner, update s.point i p⟩

@[simp] theorem State.moved_point (s : State ι α) (i : ι) (p : Point α) (owner : Option ι)
    (q : List α) : (s.moved i p owner q).point i = p := update_self ..

theorem State.moved_point_ne (s : State ι α) {i j : ι} (h : j ≠ i) (p : Point α)
    (owner : Option ι) (q : List α) : (s.moved i p owner q).point j = s.point j :=
  update_of_ne h ..

theorem State.moved_awake {s : State ι α} (h : ∀ j, s.point j ≠ .sleeping) {p : Point α}
    (hp : p ≠ .sleeping) (i : ι) (owner : Option ι) (q : List α) (j : ι) :
    (s.moved i p owner q).point j ≠ .sleeping :=
  (forall_update_iff _ fun _ (x : Point α) => x ≠ .sleeping).mpr ⟨hp, fun j _ => h j⟩ j

variable [Fintype ι] {s : State ι α} {i : ι} {q : List α}

theorem step_moved_call {last : Option (Answer α)} (c : Call α) (howner : s.owner = none)
    (hpoint : s.point i = .outside last) :
    step s (.call i c) = some (s.moved i (.locking c) none s.queue) := by
  simp [step, hpoint, State.moved, State.setPoint, howner]

theorem step_moved_lock {p p' : Point α} (h : p.lock = some p') :
    step (s.moved i p none q) (.lock i) = some (s.moved i p' (some i) q) := by
  simp [step, h, State.moved, State.setPoint]

theorem step_moved_exec {p p' : Point α} {q' : List α} (h : p.exec q = some (q', p'))
    (hp' : p'.isSleeping = false) :
    step (s.moved i p (some i) q) (.exec i) = some (s.moved i p' (some i) q') := by
  simp [step, h, hp', State.moved, State.setPoint]

theorem step_moved_notify (h : ∀ j, s.point j ≠ .sleeping) :
    step (s.moved i .notifying (some i) q) (.notify i none) =
      some (s.moved i (.returning .done) (some i) q) := by
  have hnobody : ¬ ∃ j, ((s.moved i .notifying (some i) q).point j).isSleeping = true := by
    rintro ⟨j, hj⟩
    exact State.moved_awake h (by simp) i _ q j (isSleeping_iff.mp hj)
  rw [step, State.moved_point]
  simp only [notifyOne, if_neg hnobody]
  simp [State.moved, State.setPoint]

theorem step_moved_unlock (a : Answer α) :
    step (s.moved i (.returning a) (some i) q) (.unlock i) =
      some (s.moved i (.returned a) none q) := by
  simp [step, State.moved, State.setPoint]

theorem step_moved_ret (a : Answer α) :
    step (s.moved i (.returned a) none q) (.ret i) =
      some (s.moved i (.outside (some a)) none q) := by
  simp [step, State.moved, State.setPoint]

/-- A call that runs while the others stay where they are does what the sequential queue
does, and returns its answer. -/
theorem call_alone {ok : State ι α → Action ι α → Prop}
    (hok : ∀ t a, (∀ j c, a ≠ .call j c) → ok t a) {c : Call α} (hcall : ok s (.call i c))
    (howner : s.owner = none) {last : Option (Answer α)} (hpoint : s.point i = .outside last)
    (hawake : ∀ j, s.point j ≠ .sleeping) {a : Answer α}
    (hseq : sequential s.queue c = some (q, a)) :
    Reaches step ok s (s.moved i (.outside (some a)) none q) := by
  have hstart : Reaches step ok s (s.moved i (.testing c) (some i) s.queue) :=
    ((Reaches.refl step ok s).snoc hcall (step_moved_call c howner hpoint)).snoc
      (hok _ (.lock i) (by simp)) (step_moved_lock rfl)
  have hexec : ∀ {p p' : Point α} {r r' : List α}, p.exec r = some (r', p') →
      p'.isSleeping = false → Reaches step ok s (s.moved i p (some i) r) →
      Reaches step ok s (s.moved i p' (some i) r') := by
    intro p p' r r' hp hp' hr
    exact hr.snoc (hok _ (.exec i) (by simp)) (step_moved_exec hp hp')
  have hbody : Reaches step ok s (s.moved i (.returning a) (some i) q) := by
    cases c with
    | enqueue t =>
        cases hseq
        exact (hexec rfl rfl hstart).snoc (hok _ (.notify i none) (by simp))
          (step_moved_notify hawake)
    | dequeue =>
        cases hq : s.queue with
        | nil =>
            rw [hq] at hseq
            cases hseq
        | cons v rest =>
            rw [hq] at hseq hstart
            cases hseq
            exact hexec (p := .popping v) rfl rfl
              (hexec (p := .reading) rfl rfl (hexec (p := .testing .dequeue) rfl rfl hstart))
    | peek =>
        cases hq : s.queue with
        | nil =>
            rw [hq] at hseq hstart
            cases hseq
            exact hexec (p := .testing .peek) rfl rfl hstart
        | cons v rest =>
            rw [hq] at hseq hstart
            cases hseq
            exact hexec (p := .peeking) rfl rfl (hexec (p := .testing .peek) rfl rfl hstart)
    | empty =>
        cases hseq
        exact hexec (p := .testing .empty) rfl rfl hstart
  exact (hbody.snoc (hok _ (.unlock i) (by simp)) (step_moved_unlock a)).snoc
    (hok _ (.ret i) (by simp)) (step_moved_ret a)

end Alone

/-- Two threads that poll the same queue: both are told that there is something, one of them
takes it, and the other one falls asleep. -/
theorem two_polls_sleep [DecidableEq ι] [Fintype ι] {consumers : ι → Prop} {i j : ι}
    (hi : consumers i) (hj : consumers j) (hij : j ≠ i) (v : α) :
    ∃ s : State ι α, Reaches step (Polls consumers) State.construct s ∧
      s.point j = .sleeping := by
  have hok : ∀ (t : State ι α) (a : Action ι α), (∀ k c, a ≠ .call k c) →
      Polls consumers t a := by
    intro t a ha
    cases a with
    | call k c => exact absurd rfl (ha k c)
    | lock | exec | notify | wake | unlock | ret => trivial
  let told : Point α := .outside (some (.isEmpty false))
  let s₁ : State ι α := State.construct.moved i (.outside (some .done)) none [v]
  let s₂ := s₁.moved i told none [v]
  let s₃ := s₂.moved j told none [v]
  let s₄ := s₃.moved i (.outside (some (.value v))) none []
  have hawake₁ : ∀ k, s₁.point k ≠ .sleeping := State.moved_awake (by simp [State.construct])
    (by simp) i none [v]
  have hawake₂ : ∀ k, s₂.point k ≠ .sleeping :=
    State.moved_awake hawake₁ (by simp [told]) i none [v]
  have hawake₃ : ∀ k, s₃.point k ≠ .sleeping :=
    State.moved_awake hawake₂ (by simp [told]) j none [v]
  have h₁ : Reaches step (Polls consumers) State.construct s₁ :=
    call_alone (c := .enqueue v) hok trivial rfl rfl (by simp [State.construct]) rfl
  have h₂ : Reaches step (Polls consumers) s₁ s₂ :=
    call_alone (c := .empty) hok trivial rfl (State.moved_point ..) hawake₁ rfl
  have houtside : s₂.point j = .outside none := by
    rw [State.moved_point_ne _ hij, State.moved_point_ne _ hij]
    rfl
  have h₃ : Reaches step (Polls consumers) s₂ s₃ :=
    call_alone (c := .empty) hok trivial rfl houtside hawake₂ rfl
  have htold : s₃.point i = told := by
    rw [State.moved_point_ne _ (Ne.symm hij), State.moved_point]
  have h₄ : Reaches step (Polls consumers) s₃ s₄ :=
    call_alone (c := .dequeue) hok ⟨hi, htold⟩ rfl htold hawake₃ rfl
  have htold' : s₄.point j = told := by
    rw [State.moved_point_ne _ hij, State.moved_point]
  have hcall : Polls consumers s₄ (.call j .dequeue) := ⟨hj, htold'⟩
  have hlocking := ((h₁.trans h₂).trans (h₃.trans h₄)).snoc hcall
    (step_moved_call .dequeue rfl htold')
  have hlocked := hlocking.snoc (hok _ (.lock j) (by simp)) (step_moved_lock rfl)
  refine ⟨s₄.moved j .sleeping none [], hlocked.snoc (hok _ (.exec j) (by simp)) ?_,
    State.moved_point ..⟩
  simp [step, State.moved, State.setPoint, s₄, Point.exec, Point.isSleeping]

/-- Polling never waits if and only if a single thread polls. -/
theorem polls_never_wait_iff {ι α : Type*} [DecidableEq ι] [Fintype ι] [Inhabited α]
    (consumers : ι → Prop) :
    (∀ s : State ι α, Reaches step (Polls consumers) State.construct s →
      ∀ i, s.point i ≠ .sleeping) ↔ ∀ i j, consumers i → consumers j → i = j := by
  constructor
  · intro h i j hi hj
    by_contra hij
    obtain ⟨s, hs, hsleeps⟩ := two_polls_sleep hi hj (Ne.symm hij) (default : α)
    exact h s hs j hsleeps
  · intro hlone s hs i
    have hstart : Lone consumers (State.construct : State ι α) :=
      ⟨fun _ h => absurd h id, fun _ _ h => absurd h id, fun _ => by simp [State.construct]⟩
    have hinv : Lone consumers s :=
      hs.invariant (fun _ _ _ hu ha hstep => hu.step hlone ha hstep) hstart
    exact (hinv.awake i).1

end RdmaMigration.Utils.ThreadsafeQueue
