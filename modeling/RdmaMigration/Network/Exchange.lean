import RdmaMigration.Lib.Progress
import RdmaMigration.Lib.Update
import RdmaMigration.Network.Disconnect
import RdmaMigration.Network.Receive

/-! # Taking turns on a connection

A connection has one send buffer and one receive buffer at each end, and neither end
guards them: two messages in a row may meet in a buffer and one of them is lost. Users
that take turns are safe from that. Each end sends only after it has taken the answer
to its last message out of `recv_queue`, as the two ends of a single migration do
(`Prepare`, `accept`, `Transfer`, `close`), and so at most one message is between the
call of a sender and the queue of the peer, on the whole connection.

The model puts the sending and the receiving side of both ends together. The messages
that the completion threads exchange on their own (`MSG_MEMINFO` and its acknowledgement)
and the two that end a connection have no part in it.
-/

namespace RdmaMigration.Network

open Lib Function

namespace Sender

/-- The senders whose message is handed up to the user of the peer. The completion of a
`MSG_DECLINE` throws at the end that sent it. -/
def plain : Sender → Bool
  | .send _ | .sendPrepare _ _ _ | .sendAccept _ _ | .sendTransfer _ _ | .sendClose _ _
  | .getPartitionList | .sendPartitionList _ => true
  | .sendMeminfo _ | .sendDecline _ _ | .done => false

end Sender

/-- `dequeued` counts what the user of an end has taken from `recv_queue`. -/
structure Exchange where
  out : Side → SendSide
  into : Side → RecvSide
  dequeued : Side → Nat

def UserCall.copying : UserCall → Nat
  | .copied _ _ => 1
  | _ => 0

namespace SendSide

def calls (st : SendSide) : Nat := st.posted.length + st.user.copying

def starts : Action → Nat
  | .call _ => 1
  | _ => 0

def transports : Action → Bool
  | .post _ | .nicRead | .finish => true
  | _ => false

end SendSide

namespace Exchange

def initial (conn : Side → Connection) (sendJunk recvJunk : Side → RdmaMessage) : Exchange :=
  ⟨fun i => .initial (conn i) (sendJunk i), fun i => .initial (recvJunk i), fun _ => 0⟩

inductive Action where
  | act (i : Side) (a : SendSide.Action)
  | deliver (i : Side)
  | handle (i : Side)
  | dequeue (i : Side)
  deriving DecidableEq, Repr

def setOut (x : Exchange) (i : Side) (st : SendSide) : Exchange :=
  { x with out := update x.out i st }

def setInto (x : Exchange) (i : Side) (st : RecvSide) : Exchange :=
  { x with into := update x.into i st }

/-- `deliver i` writes the next message that the NIC of the peer has read into the receive
buffer of `i`. -/
def step (x : Exchange) : Action → Option Exchange
  | .act i a => if SendSide.receives a then none else ((x.out i).step a).map (x.setOut i)
  | .deliver i =>
      match (x.out i.peer).received[(x.into i).delivered.length]? with
      | none => none
      | some m => ((x.into i).step (.deliver m)).map (x.setInto i)
  | .handle i => ((x.into i).step .handle).map (x.setInto i)
  | .dequeue i =>
      if x.dequeued i < (x.into i).enqueued.length then
        some { x with dequeued := update x.dequeued i (x.dequeued i + 1) }
      else none

/-- It is the turn of `i`: the end that begins has taken an answer to every message it has
sent, the other one has a message left to answer. -/
def Turn (first : Side) (x : Exchange) (i : Side) : Prop :=
  if i = first then x.dequeued i = (x.out i).calls else x.dequeued i = (x.out i).calls + 1

instance (first : Side) (x : Exchange) (i : Side) : Decidable (x.Turn first i) := by
  unfold Turn
  infer_instance

/-- The users take turns, and the send queue takes what is posted. -/
def Alternating (first : Side) (x : Exchange) : Action → Prop
  | .act i (.call sender) => x.Turn first i ∧ sender.plain = true
  | .act _ a => SendSide.refuses a = false
  | _ => True

instance (first : Side) (x : Exchange) (a : Action) : Decidable (x.Alternating first a) := by
  unfold Alternating
  split <;> infer_instance

def Transport (_ : Exchange) : Action → Prop
  | .act _ a => SendSide.transports a = true ∧ SendSide.refuses a = false
  | .deliver _ | .handle _ => True
  | .dequeue _ => False

end Exchange

/-! ## The sending side -/

/-- The message is handed up, and the end that sent it survives its completion. -/
def Plain (m : RdmaMessage) : Prop := (RecvSide.entry m).isSome ∧ m.messageType ≠ .decline

theorem Plain.not_done {m : RdmaMessage} (h : Plain m) : m.messageType ≠ .done := by
  intro hdone
  have hentry := h.1
  simp [RecvSide.entry, hdone, copiesWhole] at hentry

theorem Plain.noted {m : RdmaMessage} (h : Plain m) : onSendFinish m.messageType = .noted := by
  have hdone := h.not_done
  have hdecline := h.2
  cases htype : m.messageType <;> simp_all [onSendFinish]

theorem Sender.plain_message {c : Connection} {sender : Sender} {m : RdmaMessage}
    (h : sender.message c = some m) (hplain : sender.plain = true) :
    Plain m ∧ (sender.wait = .nothing ∨ sender.wait = .completion) := by
  cases sender with
  | sendMeminfo | sendDecline | done => cases hplain
  | send data =>
      obtain ⟨-, heq⟩ := Option.ite_none_right_eq_some.mp h
      cases heq
      exact ⟨⟨rfl, nofun⟩, .inr rfl⟩
  | sendPrepare | sendTransfer =>
      obtain ⟨mr, -, rfl⟩ := Option.map_eq_some_iff.mp h
      exact ⟨⟨rfl, nofun⟩, .inl rfl⟩
  | sendPartitionList list =>
      obtain ⟨-, heq⟩ := Option.ite_none_right_eq_some.mp h
      cases heq
      exact ⟨⟨rfl, nofun⟩, .inl rfl⟩
  | sendAccept | sendClose | getPartitionList =>
      cases h
      exact ⟨⟨rfl, nofun⟩, .inl rfl⟩

namespace SendSide

variable {st st' : SendSide}

/-- One end, as far as its own sends go: whatever it waits for comes with a work request
that is under way. -/
structure Sending (st : SendSide) : Prop where
  intact : Intact st
  live : st.ending = none
  quiet : st.acking = none
  plain : ∀ m ∈ st.posted, Plain m
  copied : ∀ m wait, st.user = .copied m wait →
    Plain m ∧ (wait = .nothing ∨ wait = .completion)
  buffer : st.read ≠ [] → Plain st.sendBuffer
  waits : ∀ wait, st.user = .waiting wait → wait = .completion ∧ true ∈ st.unread ++ st.read

theorem initial_sending (conn : Connection) (junk : RdmaMessage) : Sending (initial conn junk) where
  intact := initial_intact conn junk
  live := rfl
  quiet := rfl
  plain := by simp [initial]
  copied := by simp [initial]
  buffer := by simp [initial]
  waits := by simp [initial]

theorem Sending.posted_length (h : Sending st) :
    st.posted.length = st.received.length + st.unread.length := by
  rw [h.intact.sent, List.length_append, List.length_replicate]

theorem Sending.call (h : Sending st) {sender : Sender} {m : RdmaMessage}
    (hfree : st.inUse = false) (hplain : sender.plain = true)
    (hm : sender.message st.conn = some m) :
    Sending { st.fill m with user := .copied m sender.wait } where
  intact := by
    refine (h.intact.fill fun huse => ?_).of_user fun m' wait hcopied => ?_
    · rw [hfree] at huse
      cases huse
    · cases hcopied
      rfl
  live := h.live
  quiet := h.quiet
  plain := h.plain
  copied := by
    intro m' wait hcopied
    cases hcopied
    exact Sender.plain_message hm hplain
  buffer := fun _ => (Sender.plain_message hm hplain).1
  waits := by simp

theorem Sending.post (h : Sending st) {m : RdmaMessage} {wait : Wait}
    (huser : st.user = .copied m wait) :
    Sending { st with
      unread := st.unread ++ [decide (wait = .completion)]
      posted := st.posted ++ [m]
      user := if wait = .nothing then .idle else .waiting wait } where
  intact := by
    obtain rfl := h.intact.user m wait huser
    have hpost : st.postSend st.sendBuffer (decide (wait = .completion)) true =
        some { st with
          unread := st.unread ++ [decide (wait = .completion)]
          posted := st.posted ++ [st.sendBuffer] } := rfl
    exact (h.intact.postSend hpost rfl).1.of_user (by split <;> simp)
  live := h.live
  quiet := h.quiet
  plain := by
    intro m' hm'
    rcases List.mem_append.mp hm' with hold | hnew
    · exact h.plain m' hold
    · rw [List.mem_singleton.mp hnew]
      exact (h.copied m wait huser).1
  copied := by
    intro m' wait' hcopied
    dsimp only at hcopied
    split at hcopied <;> cases hcopied
  buffer := h.buffer
  waits := by
    intro wait' hwaiting
    dsimp only at hwaiting
    split at hwaiting
    · cases hwaiting
    · rename_i hne
      cases hwaiting
      obtain rfl := ((h.copied m wait huser).2).resolve_left hne
      exact ⟨rfl, by simp⟩

theorem Sending.nicRead (h : Sending st) {wr : Bool} {rest : List Bool}
    (hunread : st.unread = wr :: rest) :
    Sending { st with
      unread := rest
      read := st.read ++ [wr]
      received := st.received ++ [st.sendBuffer] } where
  intact := h.intact.nicRead hunread
  live := h.live
  quiet := h.quiet
  plain := h.plain
  copied := h.copied
  buffer := by
    intro _
    refine h.plain _ ?_
    rw [h.intact.sent, hunread]
    simp
  waits := by
    intro wait hwaiting
    obtain ⟨hwait, hmem⟩ := h.waits wait hwaiting
    rw [hunread] at hmem
    refine ⟨hwait, ?_⟩
    simp only [List.mem_append, List.mem_cons, List.not_mem_nil, or_false] at hmem ⊢
    tauto

theorem Sending.finish (h : Sending st) {wr : Bool} {rest : List Bool}
    (hread : st.read = wr :: rest) : Sending ({ st with read := rest }.signal wr) := by
  have hbuffer : Plain st.sendBuffer := h.buffer (by simp [hread])
  unfold signal
  split
  · exact ⟨⟨h.intact.sent, by simp, h.intact.acking⟩, h.live, h.quiet, h.plain, by simp,
      fun _ => hbuffer, by simp⟩
  · rename_i hno
    refine ⟨⟨h.intact.sent, h.intact.user, h.intact.acking⟩, h.live, h.quiet, h.plain, h.copied,
      fun _ => hbuffer, ?_⟩
    intro wait hwaiting
    obtain ⟨rfl, hmem⟩ := h.waits wait hwaiting
    refine ⟨rfl, ?_⟩
    have hfalse : wr = false := by
      cases wr with
      | false => rfl
      | true => exact absurd ⟨rfl, hwaiting⟩ hno
    rw [hread, hfalse] at hmem
    simpa using hmem

/-- What is left to do for the messages posted and copied; 7 is for what comes after the
NIC has read a message. -/
def load (st : SendSide) : Nat :=
  10 * st.user.copying + 9 * st.unread.length + st.read.length + 7 * st.received.length

theorem Sending.step (h : Sending st) {a : Action} (hrecv : receives a = false)
    (htaken : refuses a = false)
    (hcall : ∀ sender, a = .call sender → sender.plain = true ∧ st.inUse = false)
    (hstep : st.step a = some st') :
    Sending st' ∧ st.received <+: st'.received ∧
      st'.calls = st.calls + starts a ∧
      (transports a = true → st'.load < st.load) := by
  obtain ⟨-, hstep⟩ := Option.ite_none_right_eq_some.mp hstep
  cases liveStep_cases hstep with
  | receiveMeminfo | receiveAck | receiveDone => cases hrecv
  | register | deregister =>
      exact ⟨⟨⟨h.intact.sent, h.intact.user, h.intact.acking⟩, h.live, h.quiet, h.plain,
        h.copied, h.buffer, h.waits⟩, List.prefix_refl _, rfl, nofun⟩
  | call sender m hidle hm =>
      obtain ⟨hplain, hfree⟩ := hcall sender rfl
      refine ⟨h.call hfree hplain hm, List.prefix_refl _, ?_, nofun⟩
      rw [calls, calls, hidle]
      rfl
  | post taken m wait st₁ huser hpost =>
      have heq := postSend_taken hpost (by simpa [refuses] using htaken)
      subst heq
      refine ⟨h.post huser, List.prefix_refl _, ?_, fun _ => ?_⟩
      · simp only [calls, huser, List.length_append, List.length_singleton]
        split <;> simp [UserCall.copying, starts]
      · simp only [load, huser, List.length_append, List.length_singleton]
        split <;> simp only [UserCall.copying] <;> omega
  | postAck taken m st₁ hacking =>
      rw [h.quiet] at hacking
      cases hacking
  | nicRead wr rest hunread =>
      refine ⟨h.nicRead hunread, List.prefix_append _ _, rfl, fun _ => ?_⟩
      simp only [load, hunread, List.length_append, List.length_cons, List.length_nil]
      omega
  | finish wr rest hread =>
      have hnoted : SendSide.finished { st with read := rest } = { st with read := rest } := by
        have hbuffer : Plain st.sendBuffer := h.buffer (by simp [hread])
        simp only [finished, hbuffer.noted]
      rw [hnoted, if_pos h.live]
      have hcopying : ({ st with read := rest }.signal wr).user.copying = st.user.copying := by
        unfold signal
        split
        · rename_i hsem
          have huser : st.user = .waiting .completion := hsem.2
          simp [huser, UserCall.copying]
        · rfl
      obtain ⟨user, huser, -⟩ := signal_eq { st with read := rest } wr
      have hsending := h.finish hread
      rw [huser] at hsending hcopying ⊢
      refine ⟨hsending, List.prefix_refl _, congrArg (st.posted.length + ·) hcopying, fun _ => ?_⟩
      simp only at hcopying
      simp only [load, hcopying, hread, List.length_cons]
      omega

end SendSide

/-! ## The receiving side -/

namespace RecvSide

variable {st st' : RecvSide}

/-- One end, as far as what it receives goes: there is always one receive posted, or about
to be posted again. -/
structure Receiving (st : RecvSide) : Prop where
  inv : Inv st
  armed : st.armed + st.waiting + st.owed = 1
  plain : ∀ m ∈ st.delivered, Plain m

theorem initial_receiving (junk : RdmaMessage) : Receiving (initial junk) :=
  ⟨initial_inv junk, rfl, by simp [initial]⟩

theorem filterMap_entry_length {messages : List RdmaMessage} (h : ∀ m ∈ messages, Plain m) :
    (messages.filterMap entry).length = messages.length := by
  induction messages with
  | nil => rfl
  | cons m messages ih =>
      obtain ⟨e, he⟩ := Option.isSome_iff_exists.mp (h m List.mem_cons_self).1
      rw [List.filterMap_cons_some he, List.length_cons, List.length_cons,
        ih fun m' hm' => h m' (List.mem_cons_of_mem m hm')]

theorem Receiving.count (h : Receiving st) :
    st.delivered.length = st.enqueued.length + st.current.length + st.waiting := by
  obtain ⟨handled, hup, hlog⟩ := h.inv.log
  have hplain : ∀ m ∈ handled, Plain m := by
    intro m hm
    refine h.plain m ?_
    rw [hlog, List.append_assoc]
    exact List.mem_append_left _ hm
  rw [hup.enqueued, filterMap_entry_length hplain, hlog]
  simp only [List.length_append, List.length_replicate]

theorem Receiving.deliver (h : Receiving st) {m : RdmaMessage} (hm : Plain m)
    (hcurrent : st.current = []) (hstep : st.step (.deliver m) = some st') :
    Receiving st' ∧ st'.enqueued = st.enqueued ∧ st'.delivered = st.delivered ++ [m] := by
  have hreading : st.reading = false := by
    unfold current at hcurrent
    unfold reading
    split at hcurrent <;> simp_all
  have hinv := h.inv.deliver (fun hr => by rw [hreading] at hr; cases hr) hstep
  simp only [step] at hstep
  split at hstep
  · cases hstep
  · cases hstep
    refine ⟨⟨hinv, ?_, ?_⟩, rfl, rfl⟩
    · have harmed := h.armed
      show st.armed - 1 + (st.waiting + 1) + st.owed = 1
      omega
    · intro m' hm'
      rcases List.mem_append.mp hm' with hold | hnew
      · exact h.plain m' hold
      · rwa [List.mem_singleton.mp hnew]

theorem handle_keeps (hstep : st.handle = some st')
    (hbuffer : st.waiting ≠ 0 → st.recvBuffer.messageType ≠ .done) :
    st'.armed + st'.waiting + st'.owed = st.armed + st.waiting + st.owed ∧
      st.enqueued <+: st'.enqueued := by
  unfold RecvSide.handle at hstep
  cases hpc : st.handler with
  | idle =>
      simp only [hpc] at hstep
      split at hstep
      · cases hstep
      · rename_i hwaiting
        rw [if_neg (hbuffer hwaiting)] at hstep
        cases hstep
        refine ⟨?_, List.prefix_refl _⟩
        simp only [owed, hpc]
        omega
  | rearming type =>
      simp only [hpc] at hstep
      cases hstep
      refine ⟨?_, List.prefix_refl _⟩
      rw [owed_afterRearming]
      simp only [owed, hpc]
      omega
  | copied type m =>
      simp only [hpc] at hstep
      cases hstep
      split <;> exact ⟨by simp [owed, hpc, store, enqueue], List.prefix_append _ _⟩
  | enqueueing data =>
      simp only [hpc] at hstep
      cases hstep
      exact ⟨by simp [owed, hpc, enqueue], List.prefix_append _ _⟩
  | _ =>
      simp only [hpc] at hstep
      cases hstep
      exact ⟨by simp [owed, hpc, store], List.prefix_refl _⟩

theorem Receiving.handle (h : Receiving st) (hstep : st.handle = some st') :
    Receiving st' ∧ st.enqueued <+: st'.enqueued := by
  have hbuffer : st.waiting ≠ 0 → st.recvBuffer.messageType ≠ .done := by
    intro hwaiting
    obtain ⟨handled, -, hlog⟩ := h.inv.log
    refine Plain.not_done (h.plain _ ?_)
    rw [hlog]
    exact List.mem_append_right _ (List.mem_replicate.mpr ⟨hwaiting, rfl⟩)
  obtain ⟨harmed, hqueue⟩ := handle_keeps hstep hbuffer
  refine ⟨⟨h.inv.handle hstep, harmed.trans h.armed, ?_⟩, hqueue⟩
  rw [(handle_work hstep).2]
  exact h.plain

end RecvSide

/-! ## The whole connection -/

namespace Exchange

variable {first : Side} {x y : Exchange}

structure Inv (first : Side) (x : Exchange) : Prop where
  sending : ∀ i, (x.out i).Sending
  receiving : ∀ i, (x.into i).Receiving
  wire : ∀ i, (x.into i).delivered <+: (x.out i.peer).received
  dequeued : ∀ i, x.dequeued i ≤ (x.into i).enqueued.length
  asked : (x.out first).calls ≤ x.dequeued first + 1
  answered : (x.out first.peer).calls ≤ x.dequeued first.peer

theorem initial_inv (first : Side) (conn : Side → Connection)
    (sendJunk recvJunk : Side → RdmaMessage) : Inv first (initial conn sendJunk recvJunk) where
  sending := fun i => SendSide.initial_sending (conn i) (sendJunk i)
  receiving := fun i => RecvSide.initial_receiving (recvJunk i)
  wire := fun _ => List.prefix_refl _
  dequeued := fun _ => le_rfl
  asked := Nat.zero_le _
  answered := le_rfl

theorem Inv.flow (h : Inv first x) (i : Side) :
    ∃ wire queued, (x.out i).received.length = (x.into i.peer).delivered.length + wire ∧
      (x.into i.peer).enqueued.length = x.dequeued i.peer + queued ∧
      (x.out i).calls = x.dequeued i.peer + queued + (x.into i.peer).current.length +
        (x.into i.peer).waiting + wire + (x.out i).unread.length + (x.out i).user.copying := by
  have hwire := (h.wire i.peer).length_le
  rw [Side.peer_peer] at hwire
  have hcount := (h.receiving i.peer).count
  have hposted := (h.sending i).posted_length
  have hdequeued := h.dequeued i.peer
  refine ⟨(x.out i).received.length - (x.into i.peer).delivered.length,
    (x.into i.peer).enqueued.length - x.dequeued i.peer, by omega, by omega, ?_⟩
  unfold SendSide.calls
  omega

/-- The turns: no more than one message is under way, counting both directions. -/
theorem Inv.one_pending (h : Inv first x) (i : Side) :
    (x.out i).calls + (x.out i.peer).calls ≤ x.dequeued i + x.dequeued i.peer + 1 ∧
      x.dequeued i.peer ≤ (x.out i).calls ∧ x.dequeued i ≤ (x.out i.peer).calls := by
  obtain ⟨_, _, -, -, hone⟩ := h.flow i
  obtain ⟨_, _, -, -, htwo⟩ := h.flow i.peer
  rw [Side.peer_peer] at htwo
  have hasked := h.asked
  have hanswered := h.answered
  rcases Side.eq_or_eq_peer i first with hi | hi
  · rw [hi] at hasked hanswered
    omega
  · rw [hi] at hasked hanswered
    rw [Side.peer_peer] at hanswered
    omega

/-- On its turn an end finds its buffer free. -/
theorem Inv.free_of_turn (h : Inv first x) {i : Side} (hturn : x.Turn first i)
    (hidle : (x.out i).user = .idle) : (x.out i).inUse = false := by
  obtain ⟨wire, queued, -, -, hflow⟩ := h.flow i
  obtain ⟨-, -, hle⟩ := h.one_pending i
  have hcalls : (x.out i).calls ≤ x.dequeued i.peer := by
    unfold Turn at hturn
    split at hturn
    case isTrue hi =>
      have hanswered := h.answered
      rw [← hi] at hanswered
      omega
    case isFalse hi =>
      have hfirst : first = i.peer := (Side.eq_or_eq_peer i first).resolve_left (Ne.symm hi)
      have hasked := h.asked
      rw [hfirst] at hasked
      omega
  have hunread : (x.out i).unread = [] := List.eq_nil_of_length_eq_zero (by omega)
  simp [SendSide.inUse, hunread, (h.sending i).quiet, hidle]

theorem setOut_self (x : Exchange) (i : Side) (st : SendSide) : (x.setOut i st).out i = st :=
  update_self ..

theorem setOut_peer (x : Exchange) (i : Side) (st : SendSide) :
    (x.setOut i st).out i.peer = x.out i.peer :=
  update_of_ne (Side.peer_ne i) ..

theorem Inv.setOut (h : Inv first x) {i : Side} {st : SendSide} (hst : st.Sending)
    (hgrows : (x.out i).received <+: st.received) (hasked : i = first → st.calls ≤ x.dequeued i + 1)
    (hanswered : i ≠ first → st.calls ≤ x.dequeued i) : Inv first (x.setOut i st) := by
  have hother : ∀ j, j ≠ i → (x.setOut i st).out j = x.out j := fun j hj =>
    update_of_ne hj ..
  refine ⟨?_, h.receiving, fun j => ?_, h.dequeued, ?_, ?_⟩
  · exact (forall_update_iff _ fun _ => SendSide.Sending).mpr
      ⟨hst, fun j _ => h.sending j⟩
  · by_cases hj : j.peer = i
    · rw [hj, setOut_self]
      rw [← hj] at hgrows
      exact (h.wire j).trans hgrows
    · rw [hother _ hj]
      exact h.wire j
  · by_cases hj : first = i
    · rw [hj, setOut_self]
      exact hasked hj.symm
    · rw [hother _ hj]
      exact h.asked
  · by_cases hj : first.peer = i
    · rw [hj, setOut_self]
      exact hanswered fun hi => Side.peer_ne first (hj.trans hi)
    · rw [hother _ hj]
      exact h.answered

theorem Inv.setInto (h : Inv first x) {i : Side} {st : RecvSide} (hst : st.Receiving)
    (hwire : st.delivered <+: (x.out i.peer).received)
    (hqueue : (x.into i).enqueued <+: st.enqueued) : Inv first (x.setInto i st) := by
  refine ⟨h.sending, ?_, ?_, ?_, h.asked, h.answered⟩
  · exact (forall_update_iff _ fun _ => RecvSide.Receiving).mpr
      ⟨hst, fun j _ => h.receiving j⟩
  · exact (forall_update_iff _ fun j (st : RecvSide) =>
      st.delivered <+: (x.out j.peer).received).mpr ⟨hwire, fun j _ => h.wire j⟩
  · exact (forall_update_iff _ fun j (st : RecvSide) =>
      x.dequeued j ≤ st.enqueued.length).mpr
        ⟨(h.dequeued i).trans hqueue.length_le, fun j _ => h.dequeued j⟩

def load (x : Exchange) (i : Side) : Nat :=
  (x.out i).load - 7 * (x.into i.peer).delivered.length + (x.into i.peer).work

def rank (x : Exchange) : Nat := x.load .client + x.load .server

theorem rank_eq (x : Exchange) (i : Side) : x.rank = x.load i + x.load i.peer := by
  cases i
  · rfl
  · exact Nat.add_comm _ _

theorem Inv.rank_setOut (h : Inv first x) {i : Side} {st : SendSide}
    (hst : st.load < (x.out i).load) (hreceived : (x.out i).received <+: st.received) :
    (x.setOut i st).rank < x.rank := by
  have hwire := (h.wire i.peer).length_le
  rw [Side.peer_peer] at hwire
  have hlen := hreceived.length_le
  have hge : 7 * st.received.length ≤ st.load := Nat.le_add_left _ _
  have hinto : (x.setOut i st).into = x.into := rfl
  rw [rank_eq _ i, rank_eq x i]
  simp only [load, setOut_self, setOut_peer, hinto]
  omega

theorem rank_setInto {i : Side} {st : RecvSide}
    (hst : (x.out i.peer).load - 7 * st.delivered.length + st.work < x.load i.peer) :
    (x.setInto i st).rank < x.rank := by
  have hself : (x.setInto i st).into i = st := update_self ..
  have hother : (x.setInto i st).into i.peer = x.into i.peer :=
    update_of_ne (Side.peer_ne i) ..
  have hout : (x.setInto i st).out = x.out := rfl
  rw [rank_eq _ i, rank_eq x i]
  simp only [load, Side.peer_peer, hself, hother, hout] at hst ⊢
  omega

theorem Inv.calls_le (h : Inv first x) (i : Side) :
    (i = first → (x.out i).calls ≤ x.dequeued i + 1) ∧
      (i ≠ first → (x.out i).calls ≤ x.dequeued i) := by
  refine ⟨?_, ?_⟩
  · rintro rfl
    exact h.asked
  · intro hne
    have hi : i = first.peer := (Side.eq_or_eq_peer first i).resolve_left hne
    rw [hi]
    exact h.answered

theorem Inv.act (h : Inv first x) {i : Side} {a : SendSide.Action} {st : SendSide}
    (hok : x.Alternating first (.act i a)) (hrecv : SendSide.receives a = false)
    (hstep : (x.out i).step a = some st) : Inv first (x.setOut i st) ∧
      (SendSide.transports a = true →
        (x.setOut i st).rank < x.rank ∧ st.calls = (x.out i).calls) := by
  by_cases hcall : ∃ sender, a = .call sender
  · obtain ⟨sender, rfl⟩ := hcall
    obtain ⟨hturn, hplain⟩ : x.Turn first i ∧ sender.plain = true := hok
    have hidle : (x.out i).user = .idle := by
      obtain ⟨-, hlive⟩ := Option.ite_none_right_eq_some.mp hstep
      exact (Option.ite_none_right_eq_some.mp hlive).1
    obtain ⟨hst, hgrows, hcalls, -⟩ := (h.sending i).step hrecv rfl (fun sender' heq => by
      cases heq
      exact ⟨hplain, h.free_of_turn hturn hidle⟩) hstep
    have hone : SendSide.starts (.call sender) = 1 := rfl
    unfold Turn at hturn
    refine ⟨h.setOut hst hgrows (fun hi => ?_) fun hi => ?_, by simp [SendSide.transports]⟩
    · rw [if_pos hi] at hturn
      omega
    · rw [if_neg hi] at hturn
      omega
  · have htaken : SendSide.refuses a = false := by
      cases a with
      | call sender => exact absurd ⟨sender, rfl⟩ hcall
      | _ => exact hok
    obtain ⟨hst, hgrows, hcalls, hless⟩ := (h.sending i).step hrecv htaken
      (fun sender heq => absurd ⟨sender, heq⟩ hcall) hstep
    have hsame : st.calls = (x.out i).calls := by
      rw [hcalls]
      cases a with
      | call sender => exact absurd ⟨sender, rfl⟩ hcall
      | _ => rfl
    obtain ⟨hasked, hanswered⟩ := h.calls_le i
    refine ⟨h.setOut hst hgrows (hsame ▸ hasked) (hsame ▸ hanswered), fun htransports => ?_⟩
    exact ⟨h.rank_setOut (hless htransports) hgrows, hsame⟩

theorem Inv.deliver (h : Inv first x) {i : Side} {m : RdmaMessage} {st : RecvSide}
    (hm : (x.out i.peer).received[(x.into i).delivered.length]? = some m)
    (hstep : (x.into i).step (.deliver m) = some st) :
    Inv first (x.setInto i st) ∧ (x.setInto i st).rank < x.rank := by
  obtain ⟨hlt, hget⟩ := List.getElem?_eq_some_iff.mp hm
  have hplain : Plain m := by
    refine (h.sending i.peer).plain m ?_
    rw [(h.sending i.peer).intact.sent, ← hget]
    exact List.mem_append_left _ (List.getElem_mem hlt)
  have hcurrent : (x.into i).current = [] := by
    obtain ⟨wire, queued, hwire, -, hflow⟩ := h.flow i.peer
    obtain ⟨hone, hle, -⟩ := h.one_pending i
    rw [Side.peer_peer] at hwire hflow
    exact List.eq_nil_of_length_eq_zero (by omega)
  obtain ⟨hst, hqueue, hdelivered⟩ := (h.receiving i).deliver hplain hcurrent hstep
  refine ⟨h.setInto hst ?_ (hqueue ▸ List.prefix_refl _), rank_setInto ?_⟩
  · obtain ⟨rest, hrest⟩ := h.wire i
    rw [← hrest, List.getElem?_append_right le_rfl, Nat.sub_self, ← List.head?_eq_getElem?] at hm
    obtain ⟨tail, rfl⟩ := List.head?_eq_some_iff.mp hm
    exact ⟨tail, by rw [hdelivered, List.append_assoc, List.singleton_append, hrest]⟩
  · have hge : 7 * (x.out i.peer).received.length ≤ (x.out i.peer).load := Nat.le_add_left _ _
    obtain ⟨-, heq⟩ := Option.ite_none_left_eq_some.mp hstep
    cases heq
    rw [load, Side.peer_peer]
    simp only [RecvSide.work, List.length_append, List.length_singleton]
    omega

theorem Inv.dequeue (h : Inv first x) {i : Side} (hlt : x.dequeued i < (x.into i).enqueued.length) :
    Inv first { x with dequeued := update x.dequeued i (x.dequeued i + 1) } := by
  have hle : ∀ j, x.dequeued j ≤ update x.dequeued i (x.dequeued i + 1) j :=
    (forall_update_iff _ fun j d => x.dequeued j ≤ d).mpr
      ⟨Nat.le_succ _, fun _ _ => le_rfl⟩
  exact ⟨h.sending, h.receiving, h.wire,
    (forall_update_iff _ fun j d => d ≤ (x.into j).enqueued.length).mpr
      ⟨hlt, fun j _ => h.dequeued j⟩,
    h.asked.trans (Nat.succ_le_succ (hle first)), h.answered.trans (hle _)⟩

theorem Inv.step (h : Inv first x) {a : Action} (hok : x.Alternating first a)
    (hstep : x.step a = some y) : Inv first y ∧
      (x.Transport a → y.rank < x.rank ∧ ∀ i, (y.out i).calls = (x.out i).calls) := by
  cases a with
  | act i a =>
      simp only [Exchange.step] at hstep
      split at hstep
      case isTrue => cases hstep
      case isFalse hrecv =>
        obtain ⟨st, hst, rfl⟩ := Option.map_eq_some_iff.mp hstep
        obtain ⟨hinv, htransport⟩ := h.act hok (Bool.not_eq_true _ ▸ hrecv) hst
        refine ⟨hinv, fun ht => ?_⟩
        obtain ⟨hless, hcalls⟩ := htransport ht.1
        exact ⟨hless, update_kept rfl SendSide.calls hcalls⟩
  | deliver i =>
      simp only [Exchange.step] at hstep
      split at hstep
      case h_1 => cases hstep
      case h_2 m hm =>
        obtain ⟨st, hst, rfl⟩ := Option.map_eq_some_iff.mp hstep
        obtain ⟨hinv, hless⟩ := h.deliver hm hst
        exact ⟨hinv, fun _ => ⟨hless, fun _ => rfl⟩⟩
  | handle i =>
      obtain ⟨st, hst, rfl⟩ := Option.map_eq_some_iff.mp hstep
      obtain ⟨hreceiving, hqueue⟩ := (h.receiving i).handle hst
      obtain ⟨hwork, hdelivered⟩ := RecvSide.handle_work hst
      refine ⟨h.setInto hreceiving ?_ hqueue, fun _ => ⟨rank_setInto ?_, fun _ => rfl⟩⟩
      · rw [hdelivered]
        exact h.wire i
      · rw [load, Side.peer_peer, hdelivered]
        exact Nat.add_lt_add_left hwork _
  | dequeue i =>
      obtain ⟨hlt, heq⟩ := Option.ite_none_right_eq_some.mp hstep
      cases heq
      exact ⟨h.dequeue hlt, fun ht => absurd ht id⟩

theorem reaches_inv {conn : Side → Connection} {sendJunk recvJunk : Side → RdmaMessage}
    (h : Reaches step (Alternating first) (initial conn sendJunk recvJunk) x) : Inv first x :=
  h.invariant (fun _ _ _ hinv hok hstep => (hinv.step hok hstep).1) (initial_inv first _ _ _)

/-! ## Every message gets there -/

theorem Transport.alternating {a : Action} (h : x.Transport a) : x.Alternating first a := by
  cases a with
  | act i a =>
      cases a with
      | call sender => exact absurd h.1 Bool.false_ne_true
      | _ => exact h.2
  | deliver i => trivial
  | handle i => trivial
  | dequeue i => trivial

/-- When the network has nothing left to do, every call has returned and every message is
handed up. -/
theorem Inv.arrived (h : Inv first x) (hstuck : ∀ a, x.Transport a → x.step a = none) (i : Side) :
    (x.out i).user = .idle ∧ RecvSide.HandedUp (x.into i.peer) (x.out i).posted := by
  have hi := h.sending i
  have hact : ∀ a, SendSide.transports a = true → SendSide.refuses a = false →
      SendSide.receives a = false → (x.out i).liveStep a = none := by
    intro a htransports hrefuses hrecv
    have hnone := hstuck (.act i a) ⟨htransports, hrefuses⟩
    simpa [Exchange.step, hrecv, SendSide.step, hi.live] using hnone
  have hunread : (x.out i).unread = [] := by
    have hnone := hact .nicRead rfl rfl rfl
    cases hlist : (x.out i).unread with
    | nil => rfl
    | cons wr rest => simp [SendSide.liveStep, hlist] at hnone
  have hread : (x.out i).read = [] := by
    have hnone := hact .finish rfl rfl rfl
    cases hlist : (x.out i).read with
    | nil => rfl
    | cons wr rest => simp [SendSide.liveStep, hlist, hi.quiet] at hnone
  have huser : (x.out i).user = .idle := by
    cases hcase : (x.out i).user with
    | idle => rfl
    | copied m wait =>
        have hnone := hact (.post true) rfl rfl rfl
        simp [SendSide.liveStep, hcase, SendSide.postSend] at hnone
    | waiting wait =>
        have hmem := (hi.waits wait hcase).2
        rw [hunread, hread] at hmem
        cases hmem
  have hwork : (x.into i.peer).work = 0 := by
    by_contra hne
    obtain ⟨st, hst⟩ := Option.isSome_iff_exists.mp (RecvSide.handle_isSome hne)
    have hnone := hstuck (.handle i.peer) trivial
    simp [Exchange.step, RecvSide.step, hst] at hnone
  refine ⟨huser, ?_⟩
  have hall : (x.into i.peer).delivered = (x.out i).posted := by
    have hwire := h.wire i.peer
    rw [Side.peer_peer] at hwire
    have hsent := hi.intact.sent
    rw [hunread] at hsent
    rw [hsent, List.length_nil, List.replicate_zero, List.append_nil]
    refine hwire.eq_of_length_le (Nat.le_of_not_lt fun hlt => ?_)
    -- A message on the wire could be delivered: its receive is posted.
    have harmed := (h.receiving i.peer).armed
    have hidle : (x.into i.peer).waiting = 0 ∧ (x.into i.peer).owed = 0 := by
      unfold RecvSide.work at hwork
      unfold RecvSide.owed
      refine ⟨by omega, ?_⟩
      split
      · rename_i hpc
        simp [hpc] at hwork
      · rfl
    have hsome : (x.out i).received[(x.into i.peer).delivered.length]? =
        some ((x.out i).received[(x.into i.peer).delivered.length]) := List.getElem?_eq_getElem hlt
    have hnone := hstuck (.deliver i.peer) trivial
    simp only [Exchange.step, Side.peer_peer, hsome, RecvSide.step] at hnone
    rw [if_neg (by omega)] at hnone
    cases hnone
  rw [← hall]
  exact (h.receiving i.peer).inv.handedUp hwork

theorem Inv.handed_up (h : Inv first x) (i : Side) :
    ∃ handled, RecvSide.HandedUp (x.into i.peer) handled ∧ handled <+: (x.out i).posted ∧
      x.dequeued i.peer ≤ handled.length := by
  have hi := h.receiving i.peer
  obtain ⟨handled, hup, hlog⟩ := hi.inv.log
  have hdelivered : handled <+: (x.into i.peer).delivered :=
    ⟨_, by rw [hlog, List.append_assoc]⟩
  have hwire := h.wire i.peer
  rw [Side.peer_peer] at hwire
  have hposted : (x.out i).received <+: (x.out i).posted := ⟨_, (h.sending i).intact.sent.symm⟩
  refine ⟨handled, hup, (hdelivered.trans hwire).trans hposted, ?_⟩
  have hplain : ∀ m ∈ handled, Plain m := fun m hm => hi.plain m (hdelivered.subset hm)
  rw [← RecvSide.filterMap_entry_length hplain, ← hup.enqueued]
  exact h.dequeued i.peer

/-- Two users that take turns. What an end has handed up is at any time a first part of
what the other posted, complete but for one message on the whole connection, and no copy
overruns its memory; and once a sender has been called, the message gets into the queue of
the peer and the call returns, whatever the order of the steps in between. -/
theorem taking_turns {conn : Side → Connection} {sendJunk recvJunk : Side → RdmaMessage}
    (h : Reaches step (Alternating first) (initial conn sendJunk recvJunk) x) :
    (∃ handled : Side → List RdmaMessage,
      (∀ i, RecvSide.HandedUp (x.into i.peer) (handled i) ∧ handled i <+: (x.out i).posted) ∧
      (x.out .client).posted.length + (x.out .server).posted.length ≤
        (handled .client).length + (handled .server).length + 1) ∧
    (∀ i, (x.into i).overflow = false) ∧
    Completes step Transport x fun t => ∀ i, (t.out i).user = .idle ∧
      (t.out i).posted.length = (x.out i).calls ∧
      RecvSide.HandedUp (t.into i.peer) (t.out i).posted := by
  have hinv := reaches_inv h
  refine ⟨?_, fun i => (hinv.receiving i).inv.fits, ?_⟩
  · choose handled hup hgrows hlength using hinv.handed_up
    refine ⟨handled, fun i => ⟨hup i, hgrows i⟩, ?_⟩
    obtain ⟨hone, -, -⟩ := hinv.one_pending .client
    have hclient := hlength .client
    have hserver := hlength .server
    simp only [Side.peer, SendSide.calls] at hone hclient hserver
    omega
  · refine completes_of_rank (?_ : ∀ m (u : Exchange) a v,
      u.rank = m ∧ Inv first u ∧ (∀ i, (u.out i).calls = (x.out i).calls) → _ → _ →
        ∃ l < m, v.rank = l ∧ Inv first v ∧ ∀ i, (v.out i).calls = (x.out i).calls) ?_
      ⟨rfl, hinv, fun _ => rfl⟩
    · rintro m u a v ⟨hm, hu, hcalls⟩ hok hstep
      obtain ⟨hv, hfalls⟩ := hu.step hok.alternating hstep
      obtain ⟨hless, hsame⟩ := hfalls hok
      exact ⟨v.rank, hm ▸ hless, rfl, hv, fun i => (hsame i).trans (hcalls i)⟩
    · rintro m u ⟨-, hu, hcalls⟩ hstuck i
      obtain ⟨huser, hup⟩ := hu.arrived hstuck i
      refine ⟨huser, ?_, hup⟩
      rw [← hcalls i, SendSide.calls, huser]
      rfl

/-- The four messages of a migration, the last of them posted and not yet read by the
NIC. -/
def migrationTurns : List Action :=
  [.act .client (.register 4096 4096 7), .act .client (.call (.sendPrepare 4096 4096 [])),
    .act .client (.post true), .act .client .nicRead, .deliver .server, .handle .server,
    .handle .server, .handle .server, .handle .server, .dequeue .server,
    .act .server (.call (.sendAccept 4096 4096)), .act .server (.post true),
    .act .server .nicRead, .deliver .client, .handle .client, .handle .client, .handle .client,
    .handle .client, .dequeue .client, .act .client (.call (.sendTransfer 4096 4096)),
    .act .client (.post true), .act .client .nicRead, .deliver .server, .handle .server,
    .handle .server, .handle .server, .handle .server, .dequeue .server,
    .act .server (.call (.sendClose 4096 4096)), .act .server (.post true)]

theorem taking_turns_migration : ∃ x, Reaches step (Alternating .client)
    (initial (fun _ => .empty) (fun _ => .cleared .user) fun _ => .cleared .user) x ∧
    (x.out .server).posted = [sendAccept 4096 4096, sendClose 4096 4096] ∧
    (x.into .client).enqueued = [.whole (sendAccept 4096 4096)] ∧
    ∃ t, Reaches step Transport x t ∧
      RecvSide.HandedUp (t.into .client) (t.out .server).posted := by
  have hrun : (checkedRun step (Alternating .client)
      (initial (fun _ => .empty) (fun _ => .cleared .user) fun _ => .cleared .user)
      migrationTurns).map (fun x => ((x.out .server).posted, (x.into .client).enqueued)) =
      some ([sendAccept 4096 4096, sendClose 4096 4096], [.whole (sendAccept 4096 4096)]) := by
    decide +kernel
  obtain ⟨x, hreach, hpair⟩ := reaches_of_map_checkedRun hrun
  rw [Prod.mk.injEq] at hpair
  obtain ⟨t, ht, hdone⟩ := (taking_turns hreach).2.2.exists_done
  exact ⟨x, hreach, hpair.1, hpair.2, t, ht, (hdone .server).2.2⟩

end Exchange

end RdmaMigration.Network
