import Mathlib.Algebra.Order.BigOperators.Group.Finset
import Mathlib.Data.Fintype.Prod
import Mathlib.Order.Fin.Basic
import RdmaMigration.Lib.Progress
import RdmaMigration.Lib.Update

/-! # Taking the mesh down

`~RDMAMemoryManager` calls `done` on the connection to every other server, in the order
of their ids, and waits in each call until the connection is gone. A connection goes when
both its ends have called `done`, so the servers wait for each other here too. No cycle
of waits can form: a server that waits for one which has not come to it yet waits for a
server which itself waits for a lower id, and there is a lowest.

No other message is in flight any more when the destructors run. The completion thread of
an end calls `rdma_disconnect` once it has seen the peer's `MSG_DONE` arrive and its own
one leave; the event threads of both ends then get the event on which `on_disconnect`
posts `disconnection_sem` and frees the connection.
-/

namespace RdmaMigration.Coordinator

open Lib Function

/-- What has become of one end: `disconnecting` has the event of the disconnection still to
come to the event thread, `freed` is the state after `on_disconnect`. -/
inductive Teardown where
  | established
  | disconnecting
  | freed
  deriving DecidableEq, Repr

namespace Teardown

def disconnect : Teardown → Teardown
  | .established => .disconnecting
  | f => f

theorem disconnect_ne (f : Teardown) : f.disconnect ≠ .established := by
  cases f <;> simp [disconnect]

theorem disconnect_freed {f : Teardown} : f.disconnect = .freed ↔ f = .freed := by
  cases f <;> simp [disconnect]

def rank : Teardown → Nat
  | .established => 2
  | .disconnecting => 1
  | .freed => 0

theorem rank_disconnect (f : Teardown) : f.disconnect.rank ≤ f.rank := by
  cases f <;> decide

end Teardown

/-- One end of a connection. `called` is set by `done`, which stores its semaphore in
`disconnection_sem` and posts the `MSG_DONE`. -/
structure LinkEnd where
  called : Bool
  sentDone : Bool
  recvDone : Bool
  fate : Teardown
  deriving DecidableEq, Repr

namespace LinkEnd

def established : LinkEnd := ⟨false, false, false, .established⟩

def disconnect (e : LinkEnd) : LinkEnd := { e with fate := e.fate.disconnect }

def rank (e : LinkEnd) : Nat := (!e.sentDone).toNat + (!e.recvDone).toNat + e.fate.rank

end LinkEnd

/-- Where a server is: `closing k` is the loop of the destructor before peer `k`,
`waiting k` is inside `done` for it. -/
inductive Destructor (n : Nat) where
  | running
  | closing (next : Nat)
  | waiting (peer : Fin n)
  | returned
  deriving DecidableEq, Repr

/-- `conn (i, k)` is the end at server `i` of its connection to `k`. -/
structure Shutdown (n : Nat) where
  stage : Fin n → Destructor n
  conn : Fin n × Fin n → LinkEnd

namespace Shutdown

variable {n : Nat}

def initial (n : Nat) : Shutdown n := ⟨fun _ => .running, fun _ => .established⟩

def setStage (s : Shutdown n) (i : Fin n) (st : Destructor n) : Shutdown n :=
  { s with stage := update s.stage i st }

def setConn (s : Shutdown n) (x : Fin n × Fin n) (e : LinkEnd) : Shutdown n :=
  { s with conn := update s.conn x e }

def next (s : Shutdown n) (i : Fin n) (k : Nat) : Shutdown n :=
  if h : k < n then
    if k = i then s.setStage i (.closing (k + 1))
    else
      (s.setStage i (.waiting ⟨k, h⟩)).setConn (i, ⟨k, h⟩)
        { s.conn (i, ⟨k, h⟩) with called := true }
  else s.setStage i .returned

def rdmaDisconnect (conn : Fin n × Fin n → LinkEnd) (i k : Fin n) : Fin n × Fin n → LinkEnd :=
  fun e => if e = (i, k) ∨ e = (k, i) then (conn e).disconnect else conn e

/-- A handler of the completion thread sets a flag of the end, and disconnects if the
other one is set as well. -/
def handle (s : Shutdown n) (i k : Fin n) (e : LinkEnd) : Shutdown n :=
  let conn := update s.conn (i, k) e
  { s with conn := if e.sentDone && e.recvDone then rdmaDisconnect conn i k else conn }

inductive Action (n : Nat) where
  | shutDown (i : Fin n)
  | next (i : Fin n)
  | onRecvDone (i k : Fin n)
  | onSendDone (i k : Fin n)
  | onDisconnect (i k : Fin n)
  | wake (i : Fin n)
  deriving DecidableEq, Repr

/-- `onRecvDone` and `onSendDone` are the branches for `MSG_DONE` of `on_recv_finish` and
`on_send_finish`. A freed connection has no handlers: one that comes late works on freed
memory, and nothing can be said of what it does. -/
def step (s : Shutdown n) : Action n → Option (Shutdown n)
  | .shutDown i =>
      match s.stage i with
      | .running => some (s.setStage i (.closing 0))
      | _ => none
  | .next i =>
      match s.stage i with
      | .closing k => some (s.next i k)
      | _ => none
  | .onRecvDone i k =>
      let e := s.conn (i, k)
      if (s.conn (k, i)).called = true ∧ e.recvDone = false ∧ e.fate ≠ .freed then
        some (s.handle i k { e with recvDone := true })
      else none
  | .onSendDone i k =>
      let e := s.conn (i, k)
      if e.called = true ∧ e.sentDone = false ∧ e.fate ≠ .freed then
        some (s.handle i k { e with sentDone := true })
      else none
  | .onDisconnect i k =>
      let e := s.conn (i, k)
      if e.fate = .disconnecting then some (s.setConn (i, k) { e with fate := .freed }) else none
  | .wake i =>
      match s.stage i with
      | .waiting k =>
          if (s.conn (i, k)).fate = .freed then some (s.setStage i (.closing (k + 1))) else none
      | _ => none

end Shutdown

/-! ## The two ends of a connection -/

namespace Destructor

variable {n : Nat}

def reached : Destructor n → Nat
  | .running => 0
  | .closing k => k
  | .waiting k => k + 1
  | .returned => n

def passed : Destructor n → Nat
  | .running => 0
  | .closing k => k
  | .waiting k => k
  | .returned => n

def rank : Destructor n → Nat
  | .running => 2 * n + 2
  | .closing k => 2 * (n - k) + 1
  | .waiting k => 2 * (n - k)
  | .returned => 0

end Destructor

namespace Shutdown

variable {n : Nat} {s t : Shutdown n}

def Handled (s : Shutdown n) (e : Fin n × Fin n) : Prop :=
  (s.conn e).sentDone = true ∧ (s.conn e).recvDone = true

/-- What the ends of the connections know of each other. -/
structure Agreed (s : Shutdown n) : Prop where
  sent : ∀ i k, (s.conn (i, k)).sentDone = true → (s.conn (i, k)).called = true
  received : ∀ i k, (s.conn (i, k)).recvDone = true → (s.conn (k, i)).called = true
  both : ∀ i k, (s.conn (i, k)).fate ≠ .established → (s.conn (k, i)).fate ≠ .established
  handled : ∀ i k, (s.conn (i, k)).fate ≠ .established → s.Handled (i, k) ∨ s.Handled (k, i)
  parted : ∀ i k, s.Handled (i, k) → (s.conn (i, k)).fate ≠ .established

/-- The destructor of a server has called `done` on the connections up to where it is, and
those before are freed. -/
structure Staged (s : Shutdown n) (i : Fin n) : Prop where
  called : ∀ k, (s.conn (i, k)).called = true ↔ (k : Nat) < (s.stage i).reached ∧ k ≠ i
  freed : ∀ k : Fin n, (k : Nat) < (s.stage i).passed → k ≠ i → (s.conn (i, k)).fate = .freed
  bound : (s.stage i).reached ≤ n
  other : ∀ k, s.stage i = .waiting k → k ≠ i

structure Inv (s : Shutdown n) : Prop where
  staged : ∀ i, s.Staged i
  agreed : s.Agreed

theorem initial_inv (n : Nat) : Inv (initial n) where
  staged := by
    intro i
    refine ⟨fun k => ?_, fun k hk => ?_, Nat.zero_le n, fun k hk => ?_⟩
    · simp [initial, LinkEnd.established, Destructor.reached]
    · exact absurd hk (Nat.not_lt_zero k)
    · cases hk
  agreed := by
    constructor <;> simp [initial, LinkEnd.established, Handled]

theorem Inv.called_of_parting (h : Inv s) {i k : Fin n}
    (hfate : (s.conn (i, k)).fate ≠ .established) :
    (s.conn (i, k)).called = true ∧ (s.conn (k, i)).called = true := by
  rcases h.agreed.handled i k hfate with ⟨hsent, hrecv⟩ | ⟨hsent, hrecv⟩
  · exact ⟨h.agreed.sent i k hsent, h.agreed.received i k hrecv⟩
  · exact ⟨h.agreed.received k i hrecv, h.agreed.sent k i hsent⟩

theorem Staged.kept {i : Fin n} (h : s.Staged i) (hstage : t.stage i = s.stage i)
    (hcalled : ∀ k, (t.conn (i, k)).called = (s.conn (i, k)).called)
    (hfreed : ∀ k, (s.conn (i, k)).fate = .freed → (t.conn (i, k)).fate = .freed) :
    t.Staged i where
  called := fun k => by rw [hcalled, hstage, h.called]
  freed := fun k hk hne => hfreed k (h.freed k (hstage ▸ hk) hne)
  bound := hstage ▸ h.bound
  other := fun k hk => h.other k (hstage ▸ hk)

/-! ### The completion thread -/

section Handle

variable {i k : Fin n} {e : LinkEnd}

theorem handle_conn (s : Shutdown n) (i k : Fin n) (e : LinkEnd) (x : Fin n × Fin n) :
    (s.handle i k e).conn x =
      if (e.sentDone && e.recvDone) = true ∧ (x = (i, k) ∨ x = (k, i)) then
        (update s.conn (i, k) e x).disconnect
      else update s.conn (i, k) e x := by
  unfold handle rdmaDisconnect
  by_cases he : (e.sentDone && e.recvDone) = true
  · simp [he]
  · simp [he]

theorem handle_kept {β : Type*} (f : LinkEnd → β) (hf : ∀ e, f e.disconnect = f e)
    (x : Fin n × Fin n) : f ((s.handle i k e).conn x) = f (update s.conn (i, k) e x) := by
  rw [handle_conn]
  split
  · exact hf _
  · rfl

theorem handle_called (he : e.called = (s.conn (i, k)).called) (x : Fin n × Fin n) :
    ((s.handle i k e).conn x).called = (s.conn x).called := by
  rw [handle_kept LinkEnd.called fun _ => rfl]
  exact update_kept rfl LinkEnd.called he x

theorem handle_fate (he : e.fate = (s.conn (i, k)).fate) (x : Fin n × Fin n) :
    ((s.handle i k e).conn x).fate =
      if (e.sentDone && e.recvDone) = true ∧ (x = (i, k) ∨ x = (k, i)) then
        (s.conn x).fate.disconnect
      else (s.conn x).fate := by
  have hold : (update s.conn (i, k) e x).fate = (s.conn x).fate :=
    update_kept rfl LinkEnd.fate he x
  rw [handle_conn, apply_ite LinkEnd.fate, LinkEnd.disconnect, hold]

theorem handle_freed (he : e.fate = (s.conn (i, k)).fate) (x : Fin n × Fin n) :
    ((s.handle i k e).conn x).fate = .freed ↔ (s.conn x).fate = .freed := by
  rw [handle_fate he]
  split
  · exact Teardown.disconnect_freed
  · exact Iff.rfl

theorem handle_handled (x : Fin n × Fin n) :
    (s.handle i k e).Handled x ↔
      x = (i, k) ∧ (e.sentDone && e.recvDone) = true ∨ x ≠ (i, k) ∧ s.Handled x := by
  unfold Handled
  rw [handle_kept LinkEnd.sentDone fun _ => rfl, handle_kept LinkEnd.recvDone fun _ => rfl]
  by_cases hx : x = (i, k)
  · simp [hx]
  · simp [hx]

variable (hcalled : e.called = (s.conn (i, k)).called)
  (hfate : e.fate = (s.conn (i, k)).fate)
  (hsent : (s.conn (i, k)).sentDone = true → e.sentDone = true)
  (hrecv : (s.conn (i, k)).recvDone = true → e.recvDone = true)
  (hsent' : e.sentDone = true → (s.conn (i, k)).called = true)
  (hrecv' : e.recvDone = true → (s.conn (k, i)).called = true)

include hcalled hfate hsent hrecv hsent' hrecv'

theorem handle_agreed (h : s.Agreed) : (s.handle i k e).Agreed where
  sent := by
    intro a b hab
    rw [handle_called hcalled]
    rw [handle_kept LinkEnd.sentDone fun _ => rfl] at hab
    by_cases hx : (a, b) = (i, k)
    · rw [hx, update_self] at hab
      rw [hx]
      exact hsent' hab
    · rw [update_of_ne hx] at hab
      exact h.sent a b hab
  received := by
    intro a b hab
    rw [handle_called hcalled]
    rw [handle_kept LinkEnd.recvDone fun _ => rfl] at hab
    by_cases hx : (a, b) = (i, k)
    · rw [hx, update_self] at hab
      cases hx
      exact hrecv' hab
    · rw [update_of_ne hx] at hab
      exact h.received a b hab
  both := by
    intro a b hab
    rw [handle_fate hfate] at hab ⊢
    split
    · exact Teardown.disconnect_ne _
    · rename_i hno
      rw [if_neg] at hab
      · exact h.both a b hab
      · rintro ⟨hdone, hx⟩
        refine hno ⟨hdone, ?_⟩
        simp only [Prod.mk.injEq] at hx ⊢
        tauto
  handled := by
    intro a b hab
    rw [handle_handled, handle_handled]
    rw [handle_fate hfate] at hab
    split at hab
    case isTrue hparts =>
      -- The end that disconnects has handled both.
      rcases hparts.2 with hx | hx
      · exact .inl (.inl ⟨hx, hparts.1⟩)
      · cases hx
        exact .inr (.inl ⟨rfl, hparts.1⟩)
    case isFalse hno =>
      have hmono : ∀ x, s.Handled x → x = (i, k) ∧ (e.sentDone && e.recvDone) = true ∨
          x ≠ (i, k) ∧ s.Handled x := by
        intro x hold
        by_cases hx : x = (i, k)
        · rw [hx] at hold
          exact .inl ⟨hx, by rw [hsent hold.1, hrecv hold.2]; rfl⟩
        · exact .inr ⟨hx, hold⟩
      exact (h.handled a b hab).imp (hmono _) (hmono _)
  parted := by
    intro a b hab
    rw [handle_fate hfate]
    rcases (handle_handled _).mp hab with ⟨hx, hdone⟩ | ⟨-, hold⟩
    · rw [if_pos ⟨hdone, .inl hx⟩]
      exact Teardown.disconnect_ne _
    · split
      · exact Teardown.disconnect_ne _
      · exact h.parted a b hold

theorem handle_inv (h : Inv s) : Inv (s.handle i k e) where
  staged := fun j => (h.staged j).kept rfl (fun l => handle_called hcalled (j, l))
    fun l => (handle_freed hfate (j, l)).mpr
  agreed := handle_agreed hcalled hfate hsent hrecv hsent' hrecv' h.agreed

end Handle

/-! ### The destructor and the event thread -/

theorem Agreed.kept (h : s.Agreed)
    (hcalled : ∀ x, (s.conn x).called = true → (t.conn x).called = true)
    (hsent : ∀ x, (t.conn x).sentDone = (s.conn x).sentDone)
    (hrecv : ∀ x, (t.conn x).recvDone = (s.conn x).recvDone)
    (hfate : ∀ x, (t.conn x).fate = .established ↔ (s.conn x).fate = .established) :
    t.Agreed := by
  have hhandled : ∀ x, t.Handled x ↔ s.Handled x := by
    intro x
    rw [Handled, Handled, hsent, hrecv]
  refine ⟨?_, ?_, ?_, ?_, ?_⟩
  · intro i k hik
    exact hcalled _ (h.sent i k (hsent _ ▸ hik))
  · intro i k hik
    exact hcalled _ (h.received i k (hrecv _ ▸ hik))
  · intro i k hik
    rw [ne_eq, hfate] at hik ⊢
    exact h.both i k hik
  · intro i k hik
    rw [hhandled, hhandled]
    exact h.handled i k ((hfate _).not.mp hik)
  · intro i k hik
    exact (hfate _).not.mpr (h.parted i k ((hhandled _).mp hik))

section Destructor

variable {i : Fin n}

theorem setStage_self (s : Shutdown n) (i : Fin n) (st : Destructor n) :
    (s.setStage i st).stage i = st :=
  update_self ..

theorem setConn_kept {x : Fin n × Fin n} {e : LinkEnd} {β : Type} (f : LinkEnd → β)
    (hf : f e = f (s.conn x)) (y : Fin n × Fin n) : f ((s.setConn x e).conn y) = f (s.conn y) :=
  update_kept rfl f hf y

theorem setStage_inv (h : Inv s) {st : Destructor n}
    (hcalled : ∀ k, (s.conn (i, k)).called = true ↔ (k : Nat) < st.reached ∧ k ≠ i)
    (hfreed : ∀ k : Fin n, (k : Nat) < st.passed → k ≠ i → (s.conn (i, k)).fate = .freed)
    (hbound : st.reached ≤ n) (hother : ∀ k, st = .waiting k → k ≠ i) :
    Inv (s.setStage i st) where
  staged := by
    intro j
    by_cases hj : j = i
    · subst hj
      constructor <;> rw [setStage_self]
      · exact hcalled
      · exact hfreed
      · exact hbound
      · exact hother
    · exact (h.staged j).kept (update_of_ne hj ..) (fun _ => rfl) fun _ => id
  agreed := h.agreed.kept (fun _ => id) (fun _ => rfl) (fun _ => rfl) fun _ => Iff.rfl

theorem shutDown_inv (h : Inv s) (hstage : s.stage i = .running) :
    Inv (s.setStage i (.closing 0)) := by
  have hi := h.staged i
  refine setStage_inv h (fun k => ?_) (fun k hk => absurd hk (Nat.not_lt_zero _))
    (Nat.zero_le n) (by simp)
  have hcalled := hi.called k
  rw [hstage] at hcalled
  exact hcalled

theorem skip_inv (h : Inv s) (hstage : s.stage i = .closing i) :
    Inv (s.setStage i (.closing (i + 1))) := by
  have hi := h.staged i
  refine setStage_inv h (fun k => ?_) (fun k hk hne => hi.freed k ?_ hne) i.isLt (by simp)
  · rw [hi.called, hstage]
    simp only [Destructor.reached, ne_eq, Fin.ext_iff]
    omega
  · rw [hstage]
    simp only [Destructor.passed, ne_eq, Fin.ext_iff] at hk hne ⊢
    omega

theorem return_inv (h : Inv s) {k : Nat} (hstage : s.stage i = .closing k) (hk : ¬ k < n) :
    Inv (s.setStage i .returned) := by
  have hi := h.staged i
  have hbound := hi.bound
  rw [hstage] at hbound
  have hn : k = n := Nat.le_antisymm hbound (Nat.not_lt.mp hk)
  subst hn
  refine setStage_inv h (fun l => ?_) (fun l hl => hi.freed l ?_) le_rfl (by simp)
  · rw [hi.called, hstage]
    rfl
  · rw [hstage]
    exact hl

theorem wake_inv (h : Inv s) {k : Fin n} (hstage : s.stage i = .waiting k)
    (hfreed : (s.conn (i, k)).fate = .freed) : Inv (s.setStage i (.closing (k + 1))) := by
  have hi := h.staged i
  refine setStage_inv h (fun l => ?_) (fun l hl hne => ?_) k.isLt (by simp)
  · rw [hi.called, hstage]
    rfl
  · by_cases hlk : l = k
    · rw [hlk, hfreed]
    · refine hi.freed l ?_ hne
      rw [hstage]
      simp only [Destructor.passed, Fin.ext_iff] at hl hlk ⊢
      omega

theorem call_inv (h : Inv s) {k : Fin n} (hstage : s.stage i = .closing k) (hne : k ≠ i) :
    Inv ((s.setStage i (.waiting k)).setConn (i, k) { s.conn (i, k) with called := true }) := by
  have hkept := @setConn_kept n (s.setStage i (.waiting k)) (i, k)
    { s.conn (i, k) with called := true }
  have hcalled : ∀ x, (((s.setStage i (.waiting k)).setConn (i, k)
      { s.conn (i, k) with called := true }).conn x).called = true ↔
        x = (i, k) ∨ (s.conn x).called = true := by
    intro x
    by_cases hx : x = (i, k)
    · simp [setConn, setStage, hx]
    · simp [setConn, setStage, hx]
  refine ⟨fun j => ?_, h.agreed.kept (fun x hx => (hcalled x).mpr (.inr hx))
    (hkept LinkEnd.sentDone rfl) (hkept LinkEnd.recvDone rfl) fun x => ?_⟩
  · have hj := h.staged j
    by_cases hji : j = i
    · subst hji
      have hst : ((s.setStage j (.waiting k)).setConn (j, k)
          { s.conn (j, k) with called := true }).stage j = .waiting k := setStage_self s j _
      refine ⟨fun l => ?_, fun l hl hlj => ?_, ?_, fun l hl => ?_⟩
      · rw [hcalled, hj.called, hstage, hst]
        simp only [Destructor.reached, Prod.mk.injEq, true_and, ne_eq, Fin.ext_iff] at hne ⊢
        omega
      · rw [hst] at hl
        rw [hkept LinkEnd.fate rfl]
        refine hj.freed l ?_ hlj
        rw [hstage]
        exact hl
      · rw [hst]
        exact k.isLt
      · rw [hst, Destructor.waiting.injEq] at hl
        exact hl ▸ hne
    · refine hj.kept (update_of_ne hji ..) (fun l => ?_) fun l hl => ?_
      · exact congrArg LinkEnd.called (update_of_ne (by simp [hji]) ..)
      · rw [hkept LinkEnd.fate rfl]
        exact hl
  · rw [hkept LinkEnd.fate rfl]
    rfl

theorem next_inv (h : Inv s) {k : Nat} (hstage : s.stage i = .closing k) : Inv (s.next i k) := by
  unfold next
  split
  case isFalse hk => exact return_inv h hstage hk
  case isTrue hk =>
    split
    case isTrue hself =>
      subst hself
      exact skip_inv h hstage
    case isFalse hother =>
      exact @call_inv n s i h ⟨k, hk⟩ hstage fun heq => hother (congrArg Fin.val heq)

theorem onDisconnect_inv (h : Inv s) {k : Fin n} (hfate : (s.conn (i, k)).fate = .disconnecting) :
    Inv (s.setConn (i, k) { s.conn (i, k) with fate := .freed }) := by
  have hkept := @setConn_kept n s (i, k) { s.conn (i, k) with fate := .freed }
  refine ⟨fun j => (h.staged j).kept rfl (fun l => hkept LinkEnd.called rfl _) fun l hl => ?_,
    h.agreed.kept (fun x hx => (hkept LinkEnd.called rfl x).trans hx)
      (hkept LinkEnd.sentDone rfl) (hkept LinkEnd.recvDone rfl) fun x => ?_⟩
  · by_cases hx : (j, l) = (i, k)
    · simp [setConn, hx]
    · simpa [setConn, hx] using hl
  · by_cases hx : x = (i, k)
    · simp [setConn, hx, hfate]
    · simp [setConn, hx]

end Destructor

/-! ## Every step brings the end nearer -/

def rank (s : Shutdown n) : Nat := ∑ i, (s.stage i).rank + ∑ x, (s.conn x).rank

theorem rank_setStage {i : Fin n} {st : Destructor n} (h : st.rank < (s.stage i).rank) :
    (s.setStage i st).rank < s.rank := by
  have hsum := sum_update_add Destructor.rank s.stage i st
  show ∑ j, (update s.stage i st j).rank + ∑ x, (s.conn x).rank < s.rank
  unfold rank
  omega

theorem rank_setConn (s : Shutdown n) (x : Fin n × Fin n) (e : LinkEnd) :
    (s.setConn x e).rank + (s.conn x).rank = s.rank + e.rank := by
  have hsum := sum_update_add LinkEnd.rank s.conn x e
  show ∑ j, (s.stage j).rank + ∑ y, (update s.conn x e y).rank + (s.conn x).rank = _
  unfold rank
  omega

theorem rank_setConn_lt {x : Fin n × Fin n} {e : LinkEnd} (h : e.rank < (s.conn x).rank) :
    (s.setConn x e).rank < s.rank := by
  have hset := rank_setConn s x e
  omega

theorem rank_handle {i k : Fin n} {e : LinkEnd} (h : e.rank < (s.conn (i, k)).rank) :
    (s.handle i k e).rank < s.rank := by
  have hle : (s.handle i k e).rank ≤ (s.setConn (i, k) e).rank := by
    refine Nat.add_le_add_left (Finset.sum_le_sum fun x _ => ?_) _
    rw [handle_conn]
    split
    · exact Nat.add_le_add_left (Teardown.rank_disconnect _) _
    · exact le_rfl
  exact lt_of_le_of_lt hle (rank_setConn_lt h)

theorem rank_next {i : Fin n} {k : Nat} (hstage : s.stage i = .closing k) :
    (s.next i k).rank < s.rank := by
  unfold next
  split
  case isFalse => exact rank_setStage (by rw [hstage]; exact Nat.succ_pos _)
  case isTrue hk =>
    split
    · refine rank_setStage ?_
      rw [hstage]
      simp only [Destructor.rank]
      omega
    · have hless : (s.setStage i (.waiting ⟨k, hk⟩)).rank < s.rank := by
        refine rank_setStage ?_
        rw [hstage]
        exact Nat.lt_succ_self _
      have hset := rank_setConn (s.setStage i (.waiting ⟨k, hk⟩)) (i, ⟨k, hk⟩)
        { s.conn (i, ⟨k, hk⟩) with called := true }
      exact lt_of_eq_of_lt (Nat.add_right_cancel hset) hless

theorem step_inv {a : Action n} (h : Inv s) (hstep : s.step a = some t) :
    Inv t ∧ t.rank < s.rank := by
  cases a with
  | shutDown i =>
      simp only [step] at hstep
      split at hstep
      case h_2 => cases hstep
      case h_1 hstage =>
        cases hstep
        exact ⟨shutDown_inv h hstage, rank_setStage (by rw [hstage]; exact Nat.lt_succ_self _)⟩
  | next i =>
      simp only [step] at hstep
      split at hstep
      case h_2 => cases hstep
      case h_1 k hstage =>
        cases hstep
        exact ⟨next_inv h hstage, rank_next hstage⟩
  | onRecvDone i k =>
      obtain ⟨⟨hcalled, hrecv, -⟩, heq⟩ := Option.ite_none_right_eq_some.mp hstep
      cases heq
      exact ⟨handle_inv rfl rfl id (fun _ => rfl) (h.agreed.sent i k) (fun _ => hcalled) h,
        rank_handle (by simp [LinkEnd.rank, hrecv])⟩
  | onSendDone i k =>
      obtain ⟨⟨hcalled, hsent, -⟩, heq⟩ := Option.ite_none_right_eq_some.mp hstep
      cases heq
      exact ⟨handle_inv rfl rfl (fun _ => rfl) id (fun _ => hcalled) (h.agreed.received i k) h,
        rank_handle (by simp [LinkEnd.rank, hsent])⟩
  | onDisconnect i k =>
      obtain ⟨hfate, heq⟩ := Option.ite_none_right_eq_some.mp hstep
      cases heq
      exact ⟨onDisconnect_inv h hfate,
        rank_setConn_lt (by simp [LinkEnd.rank, hfate, Teardown.rank])⟩
  | wake i =>
      simp only [step] at hstep
      split at hstep
      case h_2 => cases hstep
      case h_1 k hstage =>
        obtain ⟨hfreed, heq⟩ := Option.ite_none_right_eq_some.mp hstep
        cases heq
        refine ⟨wake_inv h hstage hfreed, rank_setStage ?_⟩
        rw [hstage]
        simp only [Destructor.rank]
        omega

theorem reaches_inv (h : Reaches step anyAction (initial n) s) : Inv s :=
  Reaches.invariant (fun _ _ _ hinv _ hstep => (step_inv hinv hstep).1) (initial_inv n) h

/-! ## Nobody waits for ever -/

theorem waits_or_returned (hstuck : ∀ a, s.step a = none) (i : Fin n) :
    (∃ k, s.stage i = .waiting k) ∨ s.stage i = .returned := by
  cases hstage : s.stage i with
  | running =>
      have hstart := hstuck (.shutDown i)
      simp [step, hstage] at hstart
  | closing k =>
      have hnext := hstuck (.next i)
      simp [step, hstage] at hnext
  | waiting k => exact .inl ⟨k, rfl⟩
  | returned => exact .inr rfl

section Stuck

variable {i k : Fin n} (h : Inv s) (hstuck : ∀ a, s.step a = none)
include h hstuck

/-- Whoever waits when nothing can happen waits for a server that has not called `done` on
their connection. -/
theorem Inv.not_called (hstage : s.stage i = .waiting k) : (s.conn (k, i)).called = false := by
  by_contra hcalled
  rw [Bool.not_eq_false] at hcalled
  have hwake := hstuck (.wake i)
  have hevent := hstuck (.onDisconnect i k)
  have hown : (s.conn (i, k)).called = true := by
    rw [(h.staged i).called, hstage]
    exact ⟨Nat.lt_succ_self _, (h.staged i).other k hstage⟩
  have hsend := hstuck (.onSendDone i k)
  have hrecv := hstuck (.onRecvDone i k)
  simp only [step, hstage, hown, hcalled, true_and, ite_eq_right_iff, reduceCtorEq, imp_false,
    not_and, not_not] at hwake hevent hsend hrecv
  have hhandled : s.Handled (i, k) := by
    refine ⟨?_, ?_⟩
    · by_contra hnot
      exact hwake (hsend (Bool.not_eq_true _ ▸ hnot))
    · by_contra hnot
      exact hwake (hrecv (Bool.not_eq_true _ ▸ hnot))
  have hparted := h.agreed.parted i k hhandled
  cases hfate : (s.conn (i, k)).fate with
  | established => exact hparted hfate
  | disconnecting => exact hevent hfate
  | freed => exact hwake hfate

/-- A server that one waits for waits itself, for a lower id than that one. -/
theorem Inv.waits_lower (hstage : s.stage i = .waiting k) :
    ∃ l, s.stage k = .waiting l ∧ l < i := by
  have hnot := h.not_called hstuck hstage
  have hcalled := ((h.staged k).called i).not
  rw [hnot] at hcalled
  have hne := (h.staged i).other k hstage
  have hfar : ¬ (i : Nat) < (s.stage k).reached := fun hlt =>
    hcalled.mp (by simp) ⟨hlt, hne.symm⟩
  rcases waits_or_returned hstuck k with ⟨l, hl⟩ | hreturned
  · rw [hl] at hfar
    refine ⟨l, hl, Fin.lt_def.mpr ?_⟩
    simp only [Destructor.reached] at hfar
    omega
  · rw [hreturned] at hfar
    exact absurd i.isLt hfar

theorem Inv.all_returned (i : Fin n) : s.stage i = .returned := by
  induction i using WellFoundedLT.induction with
  | ind i ih =>
      rcases waits_or_returned hstuck i with ⟨k, hk⟩ | hreturned
      · obtain ⟨l, hl, hlow⟩ := h.waits_lower hstuck hk
        obtain ⟨m, hm, -⟩ := h.waits_lower hstuck hl
        rw [ih l hlow] at hm
        cases hm
      · exact hreturned

end Stuck

theorem Inv.freed_of_returned (h : Inv s) {i k : Fin n} (hi : s.stage i = .returned) (hne : k ≠ i) :
    (s.conn (i, k)).fate = .freed := by
  refine (h.staged i).freed k ?_ hne
  rw [hi]
  exact k.isLt

/-- Whenever `on_disconnect` runs, `disconnection_sem` is set, and one end of the connection
has handled both of its `MSG_DONE`s; a destructor returns only after all servers have
entered theirs; and once the servers do, all destructors return, with every connection
freed at both its ends. -/
theorem shutdown_is_barrier (h : Reaches step anyAction (initial n) s) :
    (∀ i k, (s.conn (i, k)).fate ≠ .established →
      (s.conn (i, k)).called = true ∧ (s.Handled (i, k) ∨ s.Handled (k, i))) ∧
    (∀ i, s.stage i = .returned → ∀ j, s.stage j ≠ .running) ∧
    Completes step anyAction s fun t =>
      (∀ i, t.stage i = .returned) ∧ ∀ i k, k ≠ i → (t.conn (i, k)).fate = .freed := by
  have hinv := reaches_inv h
  refine ⟨fun i k hfate => ⟨(hinv.called_of_parting hfate).1, hinv.agreed.handled i k hfate⟩,
    ?_, ?_⟩
  · intro i hi j hj
    by_cases hij : j = i
    · rw [hij, hi] at hj
      cases hj
    · have hfate : (s.conn (i, j)).fate ≠ .established := by
        rw [hinv.freed_of_returned hi hij]
        decide
      have hcalled := ((hinv.staged j).called i).mp (hinv.called_of_parting hfate).2
      rw [hj] at hcalled
      exact absurd hcalled.1 (Nat.not_lt_zero _)
  · refine completes_of_rank (?_ : ∀ m (u : Shutdown n) a v, u.rank = m ∧ Inv u → _ → _ →
      ∃ l < m, v.rank = l ∧ Inv v) ?_ ⟨rfl, hinv⟩
    · rintro m u a v ⟨hm, hu⟩ - hstep
      obtain ⟨hinv, hless⟩ := step_inv hu hstep
      exact ⟨v.rank, hm ▸ hless, rfl, hinv⟩
    · rintro m u ⟨-, hu⟩ hnone
      have hstuck : ∀ a, u.step a = none := fun a => hnone a trivial
      exact ⟨hu.all_returned hstuck, fun i k hne =>
        hu.freed_of_returned (hu.all_returned hstuck i) hne⟩

/-- Two servers shut down; the event thread of the second one frees its end before its
completion thread has seen the `MSG_DONE` of the first. -/
theorem shutdown_is_barrier_two : ∃ s : Shutdown 2, Reaches step anyAction (initial 2) s ∧
    (s.conn (1, 0)).fate = .freed ∧ ¬ s.Handled (1, 0) ∧
    Completes step anyAction s fun t =>
      (∀ i, t.stage i = .returned) ∧ ∀ i k, k ≠ i → (t.conn (i, k)).fate = .freed := by
  have hrun : ((run step (initial 2) [.shutDown 0, .shutDown 1, .next 0, .next 0, .next 1,
      .onSendDone 0 1, .onRecvDone 0 1, .onDisconnect 1 0]).map fun s => s.conn (1, 0)) =
      some ⟨true, false, false, .freed⟩ := by decide
  obtain ⟨s, hreach, hconn⟩ := reaches_of_map_run hrun
  refine ⟨s, hreach, by rw [hconn], ?_, (shutdown_is_barrier hreach).2.2⟩
  rw [Handled, hconn]
  simp

end Shutdown

end RdmaMigration.Coordinator
