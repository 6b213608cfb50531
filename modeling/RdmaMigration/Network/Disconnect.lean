import RdmaMigration.Lib.Update
import RdmaMigration.Network.Send

/-! # Ending a connection

Both ends of one connection. `done` posts a `MSG_DONE`, and the completion thread
calls `rdma_disconnect` from two handlers: when the peer's `MSG_DONE` arrives, and
when it takes a finished send for that of its own `MSG_DONE`.
-/

namespace RdmaMigration.Network

open Lib Function

namespace SendSide

def callsDisconnect (st : SendSide) : Action → Bool
  | .receiveDone => st.sentDone
  | .finish => onSendFinish st.sendBuffer.messageType = .sentDone && st.recvDone
  | _ => false

def receives : Action → Bool
  | .receiveMeminfo | .receiveAck | .receiveDone => true
  | _ => false

/-- What is left after the end: nothing after an exception, and no sending after
`rdma_disconnect`, which puts the queue pair into its error state. -/
def permits (st : SendSide) (act : Action) : Bool :=
  match st.ending with
  | none => true
  | some .terminated => false
  | some .disconnected => act ≠ .nicRead

end SendSide

/-- The two ends, how many of the peer's messages each has taken, how many of its
own sends it has seen finish, and how often it has called `rdma_disconnect`. -/
structure Link where
  side : Side → SendSide
  taken : Side → Nat
  finished : Side → Nat
  disconnects : Side → Nat

namespace Link

def initial (conn : Side → Connection) (junk : Side → RdmaMessage) : Link :=
  ⟨fun i => .initial (conn i) (junk i), fun _ => 0, fun _ => 0, fun _ => 0⟩

inductive Action where
  | act (i : Side) (a : SendSide.Action)
  | receive (i : Side)
  deriving DecidableEq, Repr

def perform (l : Link) (i : Side) (a : SendSide.Action) : Option Link :=
  if (l.side i).permits a then
    ((l.side i).liveStep a).map fun st =>
      { l with
        side := update l.side i st
        finished := update l.finished i (l.finished i + (a == .finish).toNat)
        disconnects := update l.disconnects i
          (l.disconnects i + ((l.side i).callsDisconnect a).toNat) }
  else none

/-- A message without a part in ending the connection is taken once the
completion thread is free. -/
def pass (l : Link) (i : Side) : Option Link :=
  if (l.side i).permits .receiveAck ∧ (l.side i).acking = none then some l else none

/-- `on_recv_finish`. An acknowledgement that nobody waits for hits a semaphore
that is gone. -/
def onRecvFinish (l : Link) (i : Side) (m : RdmaMessage) : Option Link :=
  match m.messageType with
  | .meminfo => l.perform i .receiveMeminfo
  | .ackMeminfo =>
      if (l.side i).user = .waiting .acknowledgement then l.perform i .receiveAck else l.pass i
  | .done => l.perform i .receiveDone
  | _ => l.pass i

def take (l : Link) (i : Side) : Link :=
  { l with taken := update l.taken i (l.taken i + 1) }

/-- `MSG_DONE` is the one message after which no receive is posted. -/
def step (l : Link) : Action → Option Link
  | .act i a => if SendSide.receives a then none else l.perform i a
  | .receive i =>
      if (l.side i).recvDone then none
      else
        match (l.side i.peer).received[l.taken i]? with
        | none => none
        | some m => (l.onRecvFinish i m).map fun l' => l'.take i

/-- A `MSG_DONE` of this end has left it and its send has finished. -/
def SentDone (l : Link) (i : Side) : Prop :=
  ∃ m ∈ (l.side i).received.take (l.finished i), m.messageType = .done

/-- This end has taken a `MSG_DONE` of the peer. -/
def ReceivedDone (l : Link) (i : Side) : Prop :=
  ∃ m ∈ (l.side i.peer).received.take (l.taken i), m.messageType = .done

/-- When `done` copies its message, no send of this end is unfinished. -/
def Settled (l : Link) : Action → Prop
  | .act i (.call .done) =>
      (l.side i).unread = [] ∧ (l.side i).read = [] ∧ (l.side i).acking = none
  | _ => True

instance (l : Link) (a : Action) : Decidable (l.Settled a) := by
  unfold Settled
  split <;> infer_instance

end Link

/-! ## One end -/

theorem Sender.message_done {c : Connection} {sender : Sender} {m : RdmaMessage}
    (h : sender.message c = some m) (hdone : m.messageType = .done) : sender = .done := by
  cases sender with
  | send data =>
      obtain ⟨-, heq⟩ := Option.ite_none_right_eq_some.mp h
      cases heq
      cases hdone
  | sendMeminfo addr =>
      obtain ⟨mr, -, rfl⟩ := Option.map_eq_some_iff.mp h
      cases hdone
  | sendPrepare addr len clientId =>
      obtain ⟨mr, -, rfl⟩ := Option.map_eq_some_iff.mp h
      cases hdone
  | sendTransfer addr len =>
      obtain ⟨mr, -, rfl⟩ := Option.map_eq_some_iff.mp h
      cases hdone
  | sendPartitionList list =>
      obtain ⟨-, heq⟩ := Option.ite_none_right_eq_some.mp h
      cases heq
      cases hdone
  | done => rfl
  | sendAccept addr len =>
      cases h
      cases hdone
  | sendDecline addr len =>
      cases h
      cases hdone
  | sendClose addr len =>
      cases h
      cases hdone
  | getPartitionList =>
      cases h
      cases hdone

namespace SendSide

/-- The work request of `MSG_DONE` is the only one while the buffer holds it. -/
inductive DoneAlone (st : SendSide) : Prop where
  | none (hunread : st.unread = []) (hread : st.read = [])
      (huser : ∀ m wait, st.user = .copied m wait → wait = .disconnection)
  | unread (wr : Bool) (hunread : st.unread = [wr]) (hread : st.read = [])
      (huser : st.user = .waiting .disconnection) (hsent : st.sentDone = false)
  | read (wr : Bool) (hunread : st.unread = []) (hread : st.read = [wr])
      (huser : st.user = .waiting .disconnection) (hsent : st.sentDone = false)
      (hlast : ∃ l m, st.received = l ++ [m] ∧ m.messageType = .done)

theorem DoneAlone.idle {st : SendSide} (h : DoneAlone st)
    (huser : st.user ≠ .waiting .disconnection) : st.unread = [] ∧ st.read = [] ∧
      ∀ m wait, st.user = .copied m wait → wait = .disconnection := by
  cases h with
  | none hunread hread hwait => exact ⟨hunread, hread, hwait⟩
  | unread wr _ _ hwaiting _ => exact absurd hwaiting huser
  | read wr _ _ hwaiting _ _ => exact absurd hwaiting huser

theorem DoneAlone.of_eq {st st' : SendSide} (h : DoneAlone st) (hunread : st'.unread = st.unread)
    (hread : st'.read = st.read) (huser : st'.user = st.user) (hsent : st'.sentDone = st.sentDone)
    (hreceived : st'.received = st.received) : DoneAlone st' := by
  cases h with
  | none hu hr hw => exact .none (hunread.trans hu) (hread.trans hr) (huser ▸ hw)
  | unread wr hu hr hw hs =>
      exact .unread wr (hunread.trans hu) (hread.trans hr) (huser.trans hw) (hsent.trans hs)
  | read wr hu hr hw hs hlast =>
      exact .read wr (hunread.trans hu) (hread.trans hr) (huser.trans hw) (hsent.trans hs)
        (hreceived ▸ hlast)

structure Parting (st : SendSide) (finished disconnects : Nat) : Prop where
  flow : st.received.length = finished + st.read.length
  sent : st.sentDone = true → st.user = .waiting .disconnection ∧
    ∃ m ∈ st.received.take finished, m.messageType = .done
  alone : st.sendBuffer.messageType = .done → st.acking = none ∧ DoneAlone st
  count : disconnects = (st.sentDone && st.recvDone).toNat

theorem initial_parting (conn : Connection) (junk : RdmaMessage) :
    Parting (initial conn junk) 0 0 :=
  ⟨rfl, by simp [initial], fun _ => ⟨rfl, .none rfl rfl (by simp [initial])⟩, rfl⟩

variable {st st' : SendSide} {finished disconnects : Nat}

theorem Parting.not_sent (h : Parting st finished disconnects)
    (huser : st.user ≠ .waiting .disconnection) : st.sentDone = false := by
  cases hsent : st.sentDone with
  | false => rfl
  | true => exact absurd (h.sent hsent).1 huser

theorem Parting.conn (h : Parting st finished disconnects) (conn : Connection) :
    Parting { st with conn := conn } finished disconnects where
  flow := h.flow
  sent := h.sent
  alone := fun hdone => ⟨(h.alone hdone).1, (h.alone hdone).2.of_eq rfl rfl rfl rfl rfl⟩
  count := h.count

theorem Parting.other (h : Parting st finished disconnects)
    (hbuffer : st'.sendBuffer.messageType ≠ .done)
    (hreceived : st'.received = st.received) (hread : st'.read = st.read)
    (hsent : st'.sentDone = st.sentDone) (hrecv : st'.recvDone = st.recvDone)
    (huser : st.user = .waiting .disconnection → st'.user = st.user) :
    Parting st' finished disconnects where
  flow := by rw [hreceived, hread, h.flow]
  sent := by
    intro hdone
    rw [hsent] at hdone
    obtain ⟨hwait, hleft⟩ := h.sent hdone
    rw [hreceived, huser hwait]
    exact ⟨hwait, hleft⟩
  alone := fun hdone => absurd hdone hbuffer
  count := by rw [hsent, hrecv, h.count]

theorem Parting.call (h : Parting st finished disconnects) {sender : Sender} {m : RdmaMessage}
    (hidle : st.user = .idle) (hm : sender.message st.conn = some m)
    (hsettled : sender = .done → st.unread = [] ∧ st.read = [] ∧ st.acking = none) :
    Parting { st.fill m with user := .copied m sender.wait } finished disconnects where
  flow := h.flow
  sent := fun hdone => nomatch hdone.symm.trans (h.not_sent (by simp [hidle]))
  alone := by
    intro hdone
    obtain rfl := Sender.message_done hm hdone
    obtain ⟨hunread, hread, hacking⟩ := hsettled rfl
    refine ⟨hacking, .none hunread hread fun m' wait hcopied => ?_⟩
    cases hcopied
    rfl
  count := h.count

theorem Parting.post (h : Parting st finished disconnects) {m : RdmaMessage} {wait : Wait}
    {taken : Bool} (huser : st.user = .copied m wait)
    (hpost : st.postSend m (wait = .completion) taken = some st') :
    Parting { st' with user := if wait = .nothing then .idle else .waiting wait } finished
      disconnects := by
  obtain ⟨unread, posted, rfl, honly⟩ := postSend_eq hpost
  have hnot := h.not_sent (by simp [huser])
  refine ⟨h.flow, fun hdone => (nomatch hdone.symm.trans hnot), fun hdone => ?_, h.count⟩
  obtain ⟨hacking, halone⟩ := h.alone hdone
  obtain ⟨hunread, hread, hwait⟩ := halone.idle (by simp [huser])
  obtain rfl := hwait m wait huser
  exact ⟨hacking, .unread _ (honly hunread hread) hread rfl hnot⟩

theorem Parting.postAck (h : Parting st finished disconnects) {m : RdmaMessage} {taken : Bool}
    (hacking : st.acking = some m) (hpost : st.postSend m false taken = some st') :
    Parting { st' with acking := none } finished disconnects := by
  obtain ⟨unread, posted, rfl, -⟩ := postSend_eq hpost
  refine h.other (fun hdone => ?_) rfl rfl rfl rfl fun _ => rfl
  rw [(h.alone hdone).1] at hacking
  cases hacking

theorem Parting.receiveAck (h : Parting st finished disconnects)
    (huser : st.user = .waiting .acknowledgement) :
    Parting { st with user := .idle } finished disconnects := by
  have hnot := h.not_sent (by simp [huser])
  refine ⟨h.flow, fun hdone => (nomatch hdone.symm.trans hnot), fun hdone => ?_, h.count⟩
  obtain ⟨hacking, halone⟩ := h.alone hdone
  obtain ⟨hunread, hread, -⟩ := halone.idle (by simp [huser])
  exact ⟨hacking, .none hunread hread (by simp)⟩

theorem Parting.receiveDone (h : Parting st finished disconnects) {ending : Option Ending}
    (hrecv : st.recvDone = false) :
    Parting { st with recvDone := true, ending := ending } finished
      (disconnects + st.sentDone.toNat) where
  flow := h.flow
  sent := h.sent
  alone := fun hdone => ⟨(h.alone hdone).1, (h.alone hdone).2.of_eq rfl rfl rfl rfl rfl⟩
  count := by
    rw [h.count, hrecv]
    simp

theorem Parting.nicRead (h : Parting st finished disconnects) {wr : Bool} {rest : List Bool}
    (hunread : st.unread = wr :: rest) :
    Parting { st with
      unread := rest
      read := st.read ++ [wr]
      received := st.received ++ [st.sendBuffer] } finished disconnects where
  flow := by
    simp only [List.length_append, List.length_singleton]
    rw [h.flow, Nat.add_assoc]
  sent := by
    intro hdone
    obtain ⟨hwait, m, hm, htype⟩ := h.sent hdone
    have hle : finished ≤ st.received.length := by
      rw [h.flow]
      exact Nat.le_add_right _ _
    refine ⟨hwait, m, ?_, htype⟩
    rwa [List.take_append_of_le_length hle]
  alone := by
    intro hdone
    obtain ⟨hacking, halone⟩ := h.alone hdone
    refine ⟨hacking, ?_⟩
    cases halone with
    | none hnone _ _ =>
        rw [hunread] at hnone
        cases hnone
    | unread wr' hone hread huser hsent =>
        rw [hunread] at hone
        cases hone
        exact .read wr rfl (by simp [hread]) huser hsent ⟨_, _, rfl, hdone⟩
    | read wr' hnone _ _ _ _ =>
        rw [hunread] at hnone
        cases hnone
  count := h.count

theorem signal_eq (st : SendSide) (sem : Bool) : ∃ user, st.signal sem = { st with user := user } ∧
    (st.user = .waiting .disconnection → user = st.user) := by
  unfold signal
  split
  · rename_i hwaiting
    refine ⟨_, rfl, fun huser => ?_⟩
    rw [huser] at hwaiting
    exact absurd hwaiting.2 (by decide)
  · exact ⟨st.user, rfl, fun _ => rfl⟩

theorem Parting.finish_other (h : Parting st finished disconnects) {wr : Bool}
    {rest : List Bool} (hread : st.read = wr :: rest) (hbuffer : st.sendBuffer.messageType ≠ .done)
    {user : UserCall} (huser : st.user = .waiting .disconnection → user = st.user)
    {ending : Option Ending} :
    Parting { st with read := rest, user := user, ending := ending } (finished + 1)
      disconnects where
  flow := by
    have hflow := h.flow
    rw [hread, List.length_cons] at hflow
    show st.received.length = finished + 1 + rest.length
    omega
  sent := by
    intro hdone
    obtain ⟨hwait, m, hm, htype⟩ := h.sent hdone
    refine ⟨(huser hwait).trans hwait, m, ?_, htype⟩
    exact (List.take_subset_take_left _ (Nat.le_succ finished)) hm
  alone := fun hdone => absurd hdone hbuffer
  count := h.count

theorem Parting.finish_done (h : Parting st finished disconnects) {wr : Bool}
    {rest : List Bool} (hread : st.read = wr :: rest) (hbuffer : st.sendBuffer.messageType = .done)
    {user : UserCall} (huser : st.user = .waiting .disconnection → user = st.user)
    {ending : Option Ending} :
    Parting { st with read := rest, sentDone := true, user := user, ending := ending }
      (finished + 1) (disconnects + st.recvDone.toNat) := by
  obtain ⟨hacking, halone⟩ := h.alone hbuffer
  cases halone with
  | none _ hnone _ =>
      rw [hread] at hnone
      cases hnone
  | unread wr' _ hnone _ _ =>
      rw [hread] at hnone
      cases hnone
  | read wr' hunread hone hwait hsent hlast =>
      rw [hread] at hone
      cases hone
      obtain ⟨l, m, hreceived, htype⟩ := hlast
      have hflow := h.flow
      rw [hread, List.length_singleton] at hflow
      refine ⟨hflow, fun _ => ⟨(huser hwait).trans hwait, m, ?_, htype⟩, fun _ => ⟨hacking, ?_⟩, ?_⟩
      · show m ∈ st.received.take (finished + 1)
        rw [List.take_of_length_le (by omega), hreceived]
        simp
      · refine .none hunread rfl fun m' wait hcopied => ?_
        have hcopied' : user = .copied m' wait := hcopied
        rw [huser hwait, hwait] at hcopied'
        cases hcopied'
      · rw [h.count, hsent]
        simp

theorem Parting.finish (h : Parting st finished disconnects) {wr : Bool} {rest : List Bool}
    (hread : st.read = wr :: rest) (hst : st' = { st with read := rest }.finished ∨
      st' = ({ st with read := rest }.finished).signal wr) :
    Parting st' (finished + 1) (disconnects + (st.callsDisconnect .finish).toNat) := by
  -- Handing the semaphore on can only change `user`, and not that of `done`.
  have huser : ∃ user, st' = { { st with read := rest }.finished with user := user } ∧
      (({ st with read := rest }.finished).user = .waiting .disconnection →
        user = ({ st with read := rest }.finished).user) := by
    rcases hst with rfl | rfl
    · exact ⟨_, rfl, fun _ => rfl⟩
    · exact signal_eq _ wr
  obtain ⟨user, rfl, hkept⟩ := huser
  unfold SendSide.finished at hkept ⊢
  cases hfinish : onSendFinish st.sendBuffer.messageType with
  | noted =>
      have hbuffer : st.sendBuffer.messageType ≠ .done := by
        simp [← onSendFinish_eq_sentDone, hfinish]
      simp only [hfinish] at hkept ⊢
      simpa [callsDisconnect, hfinish] using h.finish_other hread hbuffer hkept
  | throws =>
      have hbuffer : st.sendBuffer.messageType ≠ .done := by
        simp [← onSendFinish_eq_sentDone, hfinish]
      simp only [hfinish] at hkept ⊢
      simpa [callsDisconnect, hfinish] using h.finish_other hread hbuffer hkept
  | sentDone =>
      have hbuffer : st.sendBuffer.messageType = .done := onSendFinish_eq_sentDone.mp hfinish
      simp only [hfinish] at hkept ⊢
      simpa [callsDisconnect, hfinish] using h.finish_done hread hbuffer hkept

theorem Parting.liveStep (h : Parting st finished disconnects) {act : Action}
    (hsettled : act = .call .done → st.unread = [] ∧ st.read = [] ∧ st.acking = none)
    (hrecv : act = .receiveDone → st.recvDone = false) (hstep : st.liveStep act = some st') :
    Parting st' (finished + (act == .finish).toNat)
      (disconnects + (st.callsDisconnect act).toNat) := by
  cases liveStep_cases hstep with
  | register | deregister => exact h.conn _
  | call sender m hidle hm => exact h.call hidle hm fun hsender => hsettled (by rw [hsender])
  | post taken m wait st₁ huser hpost => exact h.post huser hpost
  | receiveMeminfo => exact h.other (fun hdone => by cases hdone) rfl rfl rfl rfl fun _ => rfl
  | postAck taken m st₁ hacking hpost => exact h.postAck hacking hpost
  | receiveAck huser => exact h.receiveAck huser
  | receiveDone => exact h.receiveDone (hrecv rfl)
  | nicRead wr rest hunread => exact h.nicRead hunread
  | finish wr rest hread =>
      refine h.finish hread ?_
      split
      · exact .inr rfl
      · exact .inl rfl

end SendSide

/-! ## Both ends -/

namespace Link

structure Inv (l : Link) : Prop where
  parting : ∀ i, (l.side i).Parting (l.finished i) (l.disconnects i)
  received : ∀ i, (l.side i).recvDone = true → l.ReceivedDone i

theorem liveStep_grows {st st' : SendSide} {a : SendSide.Action} (h : st.liveStep a = some st') :
    st.received <+: st'.received ∧
      (st'.recvDone = true → st.recvDone = true ∨ a = .receiveDone) := by
  cases SendSide.liveStep_cases h with
  | register | deregister | call | receiveMeminfo | receiveAck => exact ⟨List.prefix_rfl, .inl⟩
  | post _ _ _ _ _ hpost | postAck _ _ _ _ hpost =>
      obtain ⟨unread, posted, rfl, -⟩ := SendSide.postSend_eq hpost
      exact ⟨List.prefix_rfl, .inl⟩
  | receiveDone => exact ⟨List.prefix_rfl, fun _ => .inr rfl⟩
  | nicRead => exact ⟨List.prefix_append _ _, .inl⟩
  | finish wr rest =>
      have hfinished : ({ st with read := rest }.finished).received = st.received ∧
          ({ st with read := rest }.finished).recvDone = st.recvDone := by
        unfold SendSide.finished
        split <;> exact ⟨rfl, rfl⟩
      have hreceived : st.received <+: ({ st with read := rest }.finished).received := by
        rw [hfinished.1]
      split
      · obtain ⟨user, hsignal, -⟩ := SendSide.signal_eq ({ st with read := rest }.finished) wr
        rw [hsignal]
        exact ⟨hreceived, fun hdone => .inl (hfinished.2.symm.trans hdone)⟩
      · exact ⟨hreceived, fun hdone => .inl (hfinished.2.symm.trans hdone)⟩

variable {l l' : Link} {i : Side} {a : SendSide.Action}

theorem perform_grows (h : l.perform i a = some l') :
    l'.taken = l.taken ∧ (∀ j, (l.side j).received <+: (l'.side j).received) ∧
      ∀ j, (l'.side j).recvDone = true →
        (l.side j).recvDone = true ∨ (j = i ∧ a = .receiveDone) := by
  obtain ⟨-, h⟩ := Option.ite_none_right_eq_some.mp h
  obtain ⟨st, hst, rfl⟩ := Option.map_eq_some_iff.mp h
  obtain ⟨hreceived, hrecv⟩ := liveStep_grows hst
  refine ⟨rfl, fun j => ?_, fun j => ?_⟩
  · by_cases hj : j = i
    · subst hj
      simpa using hreceived
    · simp [hj]
  · by_cases hj : j = i
    · subst hj
      simpa using hrecv
    · simp only [update_of_ne hj]
      exact .inl

theorem parting_perform (hparting : ∀ j, (l.side j).Parting (l.finished j) (l.disconnects j))
    (hsettled : a = .call .done →
      (l.side i).unread = [] ∧ (l.side i).read = [] ∧ (l.side i).acking = none)
    (hrecv : a = .receiveDone → (l.side i).recvDone = false) (h : l.perform i a = some l') :
    ∀ j, (l'.side j).Parting (l'.finished j) (l'.disconnects j) := by
  obtain ⟨-, h⟩ := Option.ite_none_right_eq_some.mp h
  obtain ⟨st, hst, rfl⟩ := Option.map_eq_some_iff.mp h
  intro j
  by_cases hj : j = i
  · subst hj
    simp only [update_self]
    exact (hparting j).liveStep hsettled hrecv hst
  · simp only [update_of_ne hj]
    exact hparting j

theorem ReceivedDone.mono (h : l.ReceivedDone i) (htaken : l.taken i ≤ l'.taken i)
    (hreceived : (l.side i.peer).received <+: (l'.side i.peer).received) : l'.ReceivedDone i := by
  obtain ⟨m, hm, htype⟩ := h
  refine ⟨m, ?_, htype⟩
  obtain ⟨rest, hrest⟩ := hreceived
  have hlong := List.take_subset_take_left (l.side i.peer).received htaken hm
  rw [← hrest, List.take_append]
  exact List.mem_append_left _ hlong

theorem taken_le_take (l : Link) (i j : Side) : l.taken j ≤ (l.take i).taken j := by
  by_cases hj : j = i
  · subst hj
    simp [take]
  · simp [take, hj]

theorem Inv.perform (hinv : Inv l) (hsettled : a = .call .done →
      (l.side i).unread = [] ∧ (l.side i).read = [] ∧ (l.side i).acking = none)
    (ha : a ≠ .receiveDone) (h : l.perform i a = some l') : Inv l' := by
  refine ⟨parting_perform hinv.parting hsettled (fun hdone => absurd hdone ha) h, ?_⟩
  obtain ⟨htaken, hreceived, hrecv⟩ := perform_grows h
  intro j hj
  rcases hrecv j hj with hold | ⟨-, hdone⟩
  · exact (hinv.received j hold).mono (by rw [htaken]) (hreceived j.peer)
  · exact absurd hdone ha

theorem Inv.take (hinv : Inv l) (i : Side) : Inv (l.take i) :=
  ⟨hinv.parting, fun j hj =>
    (hinv.received j hj).mono (taken_le_take l i j) List.prefix_rfl⟩

theorem pass_eq (h : l.pass i = some l') : l' = l :=
  (Option.some.inj (Option.ite_none_right_eq_some.mp h).2).symm

theorem Inv.receiveDone (hinv : Inv l) (hrecv : (l.side i).recvDone = false) {m : RdmaMessage}
    (hm : (l.side i.peer).received[l.taken i]? = some m) (htype : m.messageType = .done)
    (h : l.perform i .receiveDone = some l') : Inv (l'.take i) := by
  obtain ⟨htaken, hreceived, hflags⟩ := perform_grows h
  have hparting := parting_perform (a := .receiveDone) hinv.parting nofun (fun _ => hrecv) h
  refine ⟨hparting, fun j hj => ?_⟩
  rcases hflags j hj with hold | ⟨rfl, -⟩
  · refine (hinv.received j hold).mono ?_ (hreceived j.peer)
    rw [← htaken]
    exact taken_le_take l' i j
  · refine ⟨m, ?_, htype⟩
    obtain ⟨rest, hrest⟩ := hreceived j.peer
    have hm' : (l'.side j.peer).received[l.taken j]? = some m := by
      rw [← hrest]
      exact getElem?_append_of_some hm
    show m ∈ (l'.side j.peer).received.take (update l'.taken j (l'.taken j + 1) j)
    rw [update_self, htaken, List.take_add_one, hm']
    simp

theorem step_inv (hinv : Inv l) {act : Action} (hok : l.Settled act)
    (h : l.step act = some l') : Inv l' := by
  cases act with
  | act i a =>
      obtain ⟨hnot, h⟩ := Option.ite_none_left_eq_some.mp h
      refine hinv.perform ?_ ?_ h
      · rintro rfl
        exact hok
      · rintro rfl
        exact hnot rfl
  | receive i =>
      obtain ⟨hrecv, h⟩ := Option.ite_none_left_eq_some.mp h
      split at h
      case h_1 => cases h
      case h_2 m hm =>
        obtain ⟨l₁, hl₁, rfl⟩ := Option.map_eq_some_iff.mp h
        unfold onRecvFinish at hl₁
        split at hl₁
        · exact (hinv.perform (a := .receiveMeminfo) nofun nofun hl₁).take i
        · split at hl₁
          · exact (hinv.perform (a := .receiveAck) nofun nofun hl₁).take i
          · rw [pass_eq hl₁]
            exact hinv.take i
        · rename_i htype
          exact hinv.receiveDone (by simpa using hrecv) hm htype hl₁
        · rw [pass_eq hl₁]
          exact hinv.take i

/-- Whatever was sent before, each end disconnects at most once, and not before
its own `MSG_DONE` has been sent and the peer's received. -/
theorem disconnected_once_both_done {conn : Side → Connection} {junk : Side → RdmaMessage}
    {l : Link} (h : Reaches step Settled (initial conn junk) l) (i : Side) :
    l.disconnects i ≤ 1 ∧ (l.disconnects i ≠ 0 → l.SentDone i ∧ l.ReceivedDone i) := by
  have hinv : Inv l := h.invariant (fun _ _ _ hinv hok hstep => step_inv hinv hok hstep)
    ⟨fun j => SendSide.initial_parting (conn j) (junk j),
      fun _ hrecv => absurd hrecv Bool.false_ne_true⟩
  have hcount := (hinv.parting i).count
  refine ⟨?_, fun hne => ?_⟩
  · rw [hcount]
    exact Bool.toNat_le _
  · rw [hcount] at hne
    have hboth : ((l.side i).sentDone && (l.side i).recvDone) = true := by
      by_contra hnot
      rw [Bool.not_eq_true] at hnot
      exact hne (by rw [hnot]; rfl)
    rw [Bool.and_eq_true] at hboth
    exact ⟨((hinv.parting i).sent hboth.1).2, hinv.received i hboth.2⟩

/-- An acceptance goes out and its send finishes before `done`; then both ends
are done. -/
def orderlyEnd : List Action :=
  [.act .client (.call (.sendAccept 4096 4096)), .act .client (.post true),
    .act .client .nicRead, .act .client .finish, .receive .server,
    .act .client (.call .done), .act .client (.post true), .act .client .nicRead,
    .act .server (.call .done), .act .server (.post true), .act .server .nicRead,
    .act .client .finish, .receive .client, .receive .server, .act .server .finish]

theorem disconnected_once_both_done_orderly :
    ∃ l, Reaches step Settled (initial (fun _ => .empty) fun _ => .cleared .user) l ∧
      ∀ i, l.disconnects i = 1 ∧ l.SentDone i ∧ l.ReceivedDone i := by
  have hrun : (checkedRun step Settled (initial (fun _ => .empty) fun _ => .cleared .user)
      orderlyEnd).map (fun l => (l.disconnects .client, l.disconnects .server)) = some (1, 1) := by
    decide +kernel
  obtain ⟨l, hreach, hcounts⟩ := reaches_of_map_checkedRun hrun
  rw [Prod.mk.injEq] at hcounts
  have hone : ∀ i, l.disconnects i = 1 := fun i => by
    cases i with
    | client => exact hcounts.1
    | server => exact hcounts.2
  refine ⟨l, hreach, fun i => ⟨hone i, (disconnected_once_both_done hreach i).2 ?_⟩⟩
  rw [hone i]
  decide

/-- The client is done while the send of an acceptance has not finished, and the
server is done first. -/
def hastyEnd : List Action :=
  [.act .client (.call (.sendAccept 4096 4096)), .act .client (.post true),
    .act .client .nicRead, .act .server (.call .done), .act .server (.post true),
    .act .server .nicRead, .receive .client, .act .client (.call .done),
    .act .client (.post true)]

/-- The finished send of the acceptance is taken for that of `MSG_DONE`. Either
the connection is ended before `MSG_DONE` has left, or it is ended twice. -/
theorem disconnected_early_and_twice :
    (∃ l, Reaches step anyAction (initial (fun _ => .empty) fun _ => .cleared .user) l ∧
      l.disconnects .client = 1 ∧ ¬ l.SentDone .client) ∧
    ∃ l, Reaches step anyAction (initial (fun _ => .empty) fun _ => .cleared .user) l ∧
      l.disconnects .client = 2 := by
  constructor
  · have hrun : (run step (initial (fun _ => .empty) fun _ => .cleared .user)
        (hastyEnd ++ [.act .client .finish])).map
        (fun l => (l.disconnects .client,
          (l.side .client).received.map RdmaMessage.messageType)) = some (1, [.accept]) := by
      decide +kernel
    obtain ⟨l, hreach, hpair⟩ := reaches_of_map_run hrun
    rw [Prod.mk.injEq] at hpair
    refine ⟨l, hreach, hpair.1, ?_⟩
    rintro ⟨m, hm, htype⟩
    have hmem : MessageType.done ∈ (l.side .client).received.map RdmaMessage.messageType :=
      htype ▸ List.mem_map_of_mem (List.mem_of_mem_take hm)
    rw [hpair.2] at hmem
    exact absurd hmem (by decide)
  · have hrun : (run step (initial (fun _ => .empty) fun _ => .cleared .user)
        (hastyEnd ++ [.act .client .nicRead, .act .client .finish, .act .client .finish])).map
        (fun l => l.disconnects .client) = some 2 := by
      decide +kernel
    obtain ⟨l, hreach, htwo⟩ := reaches_of_map_run hrun
    exact ⟨l, hreach, htwo⟩

end Link

end RdmaMigration.Network
