import RdmaMigration.Lib.Run
import RdmaMigration.Network.Message

/-! # The sending side of a connection

Every sender copies its message into the one `send_buffer` of the connection and
posts a work request that points there. User calls hold `user_mutex`, the
completion thread posts its acknowledgements without it, and the NIC reads the
buffer of a work request at some time after it was posted, in the order of the
posts.
-/

namespace RdmaMigration.Network

open Lib

def maxDataSize : Nat := 2048

/-- `max_send_wr`, the least number of work requests the queue takes. -/
def maxSendWr : Nat := 1024

/-- What a sender waits for after its post: the completion of its own work
request, the acknowledgement of the peer, or the end of the connection. -/
inductive Wait where
  | nothing
  | completion
  | acknowledgement
  | disconnection
  deriving DecidableEq, Repr

inductive Sender where
  | send (data : List Char)
  | sendMeminfo (addr : Nat)
  | sendPrepare (addr len : Nat) (clientId : List Char)
  | sendAccept (addr len : Nat)
  | sendDecline (addr len : Nat)
  | sendTransfer (addr len : Nat)
  | sendClose (addr len : Nat)
  | getPartitionList
  | sendPartitionList (list : List Char)
  | done
  deriving DecidableEq, Repr

namespace Sender

/-- The message built; `none` is the exception of `send` for a long text, the
overrun of `sendPartitionList` for a long list, or the null pointer of a region
that is not registered. -/
def message (c : Connection) : Sender → Option RdmaMessage
  | .send data =>
      if data.length ≤ maxDataSize then
        some { RdmaMessage.cleared .user with data := data, dataSize := data.length }
      else none
  | .sendMeminfo addr =>
      (c.registrations.lookup addr).map fun mr =>
        { RdmaMessage.cleared .meminfo with regionInfo := ⟨addr, mr.length, mr.rkey⟩ }
  | .sendPrepare addr len clientId => c.sendPrepare addr len clientId
  | .sendAccept addr len => some (Network.sendAccept addr len)
  | .sendDecline addr len => some (Network.sendDecline addr len)
  | .sendTransfer addr len => c.sendTransfer addr len
  | .sendClose addr len => some (Network.sendClose addr len)
  | .getPartitionList => some (.cleared .getPartitions)
  | .sendPartitionList list =>
      if list.length ≤ maxDataSize then
        some { RdmaMessage.cleared .sentPartitions with data := list, dataSize := list.length }
      else none
  | .done => some (.cleared .done)

def wait : Sender → Wait
  | .send _ => .completion
  | .sendMeminfo _ => .acknowledgement
  | .done => .disconnection
  | _ => .nothing

end Sender

/-- The call that holds `user_mutex`: none, one that has copied its message into
the buffer and is about to post it, or one that waits. -/
inductive UserCall where
  | idle
  | copied (m : RdmaMessage) (wait : Wait)
  | waiting (wait : Wait)
  deriving DecidableEq, Repr

/-- How a connection comes to its end: `rdma_disconnect`, or an exception that
leaves the completion thread. -/
inductive Ending where
  | disconnected
  | terminated
  deriving DecidableEq, Repr

/-- What `on_send_finish` does about the message it finds in the buffer. -/
inductive Finished where
  | noted
  | sentDone
  | throws
  deriving DecidableEq, Repr

def onSendFinish : MessageType → Finished
  | .user | .meminfo | .ackMeminfo => .noted
  | .done => .sentDone
  | .prepare | .accept | .transfer | .doneTransfer | .getPartitions | .sentPartitions => .noted
  | .decline => .throws

theorem onSendFinish_eq_sentDone {type : MessageType} :
    onSendFinish type = .sentDone ↔ type = .done := by
  cases type <;> simp [onSendFinish]

/-- A work request is the flag whether its context has a semaphore. `unread` has
the ones the NIC has yet to read, `read` the ones whose completion has yet to be
handled. `posted` lists the messages passed to `post_rdma_send`, `received` what
the peer got. -/
structure SendSide where
  conn : Connection
  sendBuffer : RdmaMessage
  user : UserCall
  acking : Option RdmaMessage
  unread : List Bool
  read : List Bool
  sentDone : Bool
  recvDone : Bool
  ending : Option Ending
  posted : List RdmaMessage
  received : List RdmaMessage

namespace SendSide

def initial (conn : Connection) (junk : RdmaMessage) : SendSide :=
  ⟨conn, junk, .idle, none, [], [], false, false, none, [], []⟩

inductive Action where
  | register (addr size rkey : Nat)
  | deregister (addr : Nat)
  | call (sender : Sender)
  | post (taken : Bool)
  | receiveMeminfo
  | postAck (taken : Bool)
  | receiveAck
  | receiveDone
  | nicRead
  | finish
  deriving DecidableEq, Repr

def fill (st : SendSide) (m : RdmaMessage) : SendSide := { st with sendBuffer := m }

def postSend (st : SendSide) (m : RdmaMessage) (sem taken : Bool) : Option SendSide :=
  if taken then some { st with unread := st.unread ++ [sem], posted := st.posted ++ [m] }
  else if maxSendWr ≤ st.unread.length + st.read.length then
    some { st with posted := st.posted ++ [m] }
  else none

def signal (st : SendSide) (sem : Bool) : SendSide :=
  if sem ∧ st.user = .waiting .completion then { st with user := .idle } else st

/-- `on_send_finish`, for the message in the buffer at that time. -/
def finished (st : SendSide) : SendSide :=
  match onSendFinish st.sendBuffer.messageType with
  | .noted => st
  | .sentDone =>
      { st with
        sentDone := true
        ending := if st.recvDone then some .disconnected else st.ending }
  | .throws => { st with ending := some .terminated }

def ackMeminfo : RdmaMessage := .cleared .ackMeminfo

def liveStep (st : SendSide) : Action → Option SendSide
  | .register addr size rkey =>
      if st.user = .idle then some { st with conn := st.conn.registerMemory addr size rkey }
      else none
  | .deregister addr =>
      if st.user = .idle then
        (st.conn.deregisterMemory addr).map fun conn => { st with conn := conn }
      else none
  | .call sender =>
      if st.user = .idle then
        (sender.message st.conn).map fun m =>
          { st.fill m with user := .copied m sender.wait }
      else none
  | .post taken =>
      match st.user with
      | .copied m wait =>
          (st.postSend m (wait = .completion) taken).map fun st' =>
            { st' with user := if wait = .nothing then .idle else .waiting wait }
      | _ => none
  | .receiveMeminfo =>
      if st.acking = none then some { st.fill ackMeminfo with acking := some ackMeminfo } else none
  | .postAck taken =>
      match st.acking with
      | some m => (st.postSend m false taken).map fun st' => { st' with acking := none }
      | none => none
  | .receiveAck =>
      if st.acking = none ∧ st.user = .waiting .acknowledgement then some { st with user := .idle }
      else none
  | .receiveDone =>
      if st.acking = none then
        some { st with
          recvDone := true
          ending := if st.sentDone then some .disconnected else st.ending }
      else none
  | .nicRead =>
      match st.unread with
      | [] => none
      | wr :: rest =>
          some { st with
            unread := rest
            read := st.read ++ [wr]
            received := st.received ++ [st.sendBuffer] }
  | .finish =>
      match st.acking, st.read with
      | none, wr :: rest =>
          let st' := { st with read := rest }.finished
          some (if st'.ending = none then st'.signal wr else st')
      | _, _ => none

def step (st : SendSide) (act : Action) : Option SendSide :=
  if st.ending = none then st.liveStep act else none

/-! ## What each step does -/

inductive Live (st : SendSide) : Action → SendSide → Prop
  | register (addr size rkey : Nat) : Live st (.register addr size rkey)
      { st with conn := st.conn.registerMemory addr size rkey }
  | deregister (addr : Nat) (conn : Connection) : Live st (.deregister addr)
    { st with conn := conn }
  | call (sender : Sender) (m : RdmaMessage) (hidle : st.user = .idle)
      (hm : sender.message st.conn = some m) :
      Live st (.call sender) { st.fill m with user := .copied m sender.wait }
  | post (taken : Bool) (m : RdmaMessage) (wait : Wait) (st₁ : SendSide)
      (huser : st.user = .copied m wait)
      (hpost : st.postSend m (wait = .completion) taken = some st₁) :
      Live st (.post taken) { st₁ with user := if wait = .nothing then .idle else .waiting wait }
  | receiveMeminfo :
      Live st .receiveMeminfo { st.fill ackMeminfo with acking := some ackMeminfo }
  | postAck (taken : Bool) (m : RdmaMessage) (st₁ : SendSide) (hacking : st.acking = some m)
      (hpost : st.postSend m false taken = some st₁) :
      Live st (.postAck taken) { st₁ with acking := none }
  | receiveAck (huser : st.user = .waiting .acknowledgement) :
      Live st .receiveAck { st with user := .idle }
  | receiveDone : Live st .receiveDone { st with
      recvDone := true
      ending := if st.sentDone then some .disconnected else st.ending }
  | nicRead (wr : Bool) (rest : List Bool) (hunread : st.unread = wr :: rest) :
      Live st .nicRead { st with
        unread := rest
        read := st.read ++ [wr]
        received := st.received ++ [st.sendBuffer] }
  | finish (wr : Bool) (rest : List Bool) (hread : st.read = wr :: rest) :
      Live st .finish (if ({ st with read := rest }.finished).ending = none then
        ({ st with read := rest }.finished).signal wr else { st with read := rest }.finished)

variable {st st' : SendSide} {act : Action} {m : RdmaMessage} {sem taken : Bool}

theorem liveStep_cases (h : st.liveStep act = some st') :
    Live st act st' := by
  cases act with
  | register addr size rkey =>
      obtain ⟨-, heq⟩ := Option.ite_none_right_eq_some.mp h
      cases heq
      exact .register addr size rkey
  | deregister addr =>
      obtain ⟨-, heq⟩ := Option.ite_none_right_eq_some.mp h
      obtain ⟨conn, -, rfl⟩ := Option.map_eq_some_iff.mp heq
      exact .deregister addr conn
  | call sender =>
      obtain ⟨hidle, heq⟩ := Option.ite_none_right_eq_some.mp h
      obtain ⟨m, hm, rfl⟩ := Option.map_eq_some_iff.mp heq
      exact .call sender m hidle hm
  | post taken =>
      simp only [liveStep] at h
      split at h
      case h_2 => cases h
      case h_1 m wait huser =>
        obtain ⟨st₁, hpost, rfl⟩ := Option.map_eq_some_iff.mp h
        exact .post taken m wait st₁ huser hpost
  | receiveMeminfo =>
      obtain ⟨-, heq⟩ := Option.ite_none_right_eq_some.mp h
      cases heq
      exact .receiveMeminfo
  | postAck taken =>
      simp only [liveStep] at h
      split at h
      case h_2 => cases h
      case h_1 m hacking =>
        obtain ⟨st₁, hpost, rfl⟩ := Option.map_eq_some_iff.mp h
        exact .postAck taken m st₁ hacking hpost
  | receiveAck =>
      obtain ⟨⟨-, huser⟩, heq⟩ := Option.ite_none_right_eq_some.mp h
      cases heq
      exact .receiveAck huser
  | receiveDone =>
      obtain ⟨-, heq⟩ := Option.ite_none_right_eq_some.mp h
      cases heq
      exact .receiveDone
  | nicRead =>
      simp only [liveStep] at h
      split at h
      case h_1 => cases h
      case h_2 wr rest hunread =>
        cases h
        exact .nicRead wr rest hunread
  | finish =>
      simp only [liveStep] at h
      split at h
      case h_2 => cases h
      case h_1 wr rest _ hread =>
        cases h
        exact .finish wr rest hread

theorem postSend_eq (h : st.postSend m sem taken = some st') :
    ∃ unread posted, st' = { st with unread := unread, posted := posted } ∧
      (st.unread = [] → st.read = [] → unread = [sem]) := by
  unfold postSend at h
  split at h
  · cases h
    refine ⟨_, _, rfl, fun hunread _ => ?_⟩
    rw [hunread, List.nil_append]
  · obtain ⟨hfull, heq⟩ := Option.ite_none_right_eq_some.mp h
    cases heq
    refine ⟨_, _, rfl, fun hunread hread => ?_⟩
    rw [hunread, hread] at hfull
    exact absurd hfull (by decide)

/-! ## When messages arrive as they were posted -/

def inUse (st : SendSide) : Bool :=
  !st.unread.isEmpty || st.acking.isSome ||
    match st.user with
    | .copied _ _ => true
    | _ => false

def copies (st : SendSide) : Action → Option RdmaMessage
  | .call sender => sender.message st.conn
  | .receiveMeminfo => some ackMeminfo
  | _ => none

def refuses : Action → Bool
  | .post taken => !taken
  | .postAck taken => !taken
  | _ => false

/-- The step would end the connection: both sides are done, or the completion of
a `MSG_DECLINE` is handled. -/
def ends (st : SendSide) : Action → Bool
  | .receiveDone => st.sentDone
  | .finish =>
      match onSendFinish st.sendBuffer.messageType with
      | .noted => false
      | .sentDone => st.recvDone
      | .throws => true
  | _ => false

/-- The step leaves a buffer that is in use as it is, its post is taken, and it
does not end the connection over a message still to be read. -/
def Undisturbed (st : SendSide) (act : Action) : Prop :=
  (∀ m ∈ st.copies act, st.inUse → m = st.sendBuffer) ∧ refuses act = false ∧
    (st.ends act → st.inUse = false)

instance (st : SendSide) (act : Action) : Decidable (Undisturbed st act) := by
  unfold Undisturbed
  infer_instance

theorem inUse_eq_false (h : st.inUse = false) :
    st.unread = [] ∧ st.acking = none ∧ ∀ m wait, st.user ≠ .copied m wait := by
  unfold inUse at h
  cases huser : st.user <;> simp_all

structure Intact (st : SendSide) : Prop where
  sent : st.posted = st.received ++ List.replicate st.unread.length st.sendBuffer
  user : ∀ m wait, st.user = .copied m wait → m = st.sendBuffer
  acking : ∀ m ∈ st.acking, m = st.sendBuffer

theorem initial_intact (conn : Connection) (junk : RdmaMessage) : Intact (initial conn junk) :=
  ⟨rfl, by simp [initial], by simp [initial]⟩

theorem Intact.fill (h : Intact st) (hm : st.inUse → m = st.sendBuffer) : Intact (st.fill m) := by
  cases huse : st.inUse with
  | true =>
      have hsame : st.fill m = st := by rw [SendSide.fill, hm huse]
      rwa [hsame]
  | false =>
      obtain ⟨hunread, hacking, huser⟩ := inUse_eq_false huse
      refine ⟨?_, fun m' wait hcopied => absurd hcopied (huser m' wait), ?_⟩
      · have hsent := h.sent
        rw [hunread] at hsent
        simpa [SendSide.fill, hunread] using hsent
      · intro m' hm'
        have hsome : m' ∈ st.acking := hm'
        rw [hacking] at hsome
        cases hsome

theorem postSend_taken (h : st.postSend m sem taken = some st') (htaken : taken = true) :
    st' = { st with unread := st.unread ++ [sem], posted := st.posted ++ [m] } := by
  rw [postSend, if_pos htaken] at h
  exact (Option.some.inj h).symm

theorem Intact.postSend (h : Intact st)
    (hpost : st.postSend st.sendBuffer sem taken = some st') (htaken : taken = true) :
    Intact st' ∧ st'.user = st.user ∧ st'.acking = st.acking ∧ st'.sendBuffer = st.sendBuffer := by
  have heq := postSend_taken hpost htaken
  subst heq
  refine ⟨⟨?_, h.user, h.acking⟩, rfl, rfl, rfl⟩
  show st.posted ++ [st.sendBuffer] =
    st.received ++ List.replicate (st.unread ++ [sem]).length st.sendBuffer
  rw [h.sent, List.length_append, List.length_singleton, List.replicate_succ', List.append_assoc]

theorem Intact.of_user (h : Intact st) {user : UserCall}
    (huser : ∀ m wait, user = .copied m wait → m = st.sendBuffer) :
    Intact { st with user := user } :=
  ⟨h.sent, huser, h.acking⟩

theorem Intact.nicRead {wr : Bool} {rest : List Bool} (h : Intact st)
    (hunread : st.unread = wr :: rest) :
    Intact { st with
      unread := rest
      read := st.read ++ [wr]
      received := st.received ++ [st.sendBuffer] } := by
  refine ⟨?_, h.user, h.acking⟩
  have hsent := h.sent
  rw [hunread, List.length_cons, List.replicate_succ] at hsent
  simpa using hsent

theorem Intact.finished (h : Intact st) : Intact st.finished := by
  unfold SendSide.finished
  split
  · exact h
  · exact ⟨h.sent, h.user, h.acking⟩
  · exact ⟨h.sent, h.user, h.acking⟩

theorem Intact.signal (h : Intact st) (sem : Bool) : Intact (st.signal sem) := by
  unfold SendSide.signal
  split
  · exact h.of_user (by simp)
  · exact h

theorem Intact.liveStep (h : Intact st)
    (hcopies : ∀ m ∈ st.copies act, st.inUse → m = st.sendBuffer) (htaken : refuses act = false)
    (hstep : st.liveStep act = some st') : Intact st' := by
  cases liveStep_cases hstep with
  | register | deregister | receiveDone => exact ⟨h.sent, h.user, h.acking⟩
  | call sender m hidle hm =>
      refine (h.fill (hcopies m hm)).of_user fun m' wait hcopied => ?_
      cases hcopied
      rfl
  | post taken m wait st₁ huser hpost =>
      rw [h.user m wait huser] at hpost
      have hposted := (h.postSend hpost (by simpa [refuses] using htaken)).1
      exact hposted.of_user (by split <;> simp)
  | receiveMeminfo =>
      have hfill := h.fill (hcopies ackMeminfo rfl)
      refine ⟨hfill.sent, hfill.user, fun m hm => ?_⟩
      exact (Option.mem_some.mp hm).symm
  | postAck taken m st₁ hacking hpost =>
      rw [h.acking m hacking] at hpost
      have hposted := (h.postSend hpost (by simpa [refuses] using htaken)).1
      exact ⟨hposted.sent, hposted.user, by simp⟩
  | receiveAck => exact h.of_user (by simp)
  | nicRead wr rest hunread => exact h.nicRead hunread
  | finish wr rest =>
      have hread : Intact { st with read := rest } := ⟨h.sent, h.user, h.acking⟩
      split
      · exact hread.finished.signal wr
      · exact hread.finished

theorem finished_ending (hlive : st.ending = none)
    (h : st.finished.ending ≠ none) : st.ends .finish = true ∧ st.finished.unread = st.unread := by
  unfold finished at *
  cases hfinish : onSendFinish st.sendBuffer.messageType with
  | noted => simp_all
  | sentDone => simp_all [ends]
  | throws => simp_all [ends]

theorem signal_ending (st : SendSide) (sem : Bool) : (st.signal sem).ending = st.ending := by
  unfold signal
  split <;> rfl

/-- Only the steps that `ends` names end a connection, and they read nothing. -/
theorem liveStep_ending (hlive : st.ending = none)
    (hstep : st.liveStep act = some st') (hended : st'.ending ≠ none) :
    st.ends act = true ∧ st'.unread = st.unread := by
  cases liveStep_cases hstep with
  | register | deregister | call | receiveMeminfo | receiveAck | nicRead =>
      exact absurd hlive hended
  | post _ _ _ _ _ hpost | postAck _ _ _ _ hpost =>
      obtain ⟨unread, posted, rfl, -⟩ := postSend_eq hpost
      exact absurd hlive hended
  | receiveDone =>
      refine ⟨?_, rfl⟩
      cases hsent : st.sentDone <;> simp_all [ends]
  | finish wr rest =>
      split at hended
      · rename_i hnone
        exact absurd ((signal_ending _ wr).trans hnone) hended
      · rename_i hsome
        rw [if_neg hsome]
        have hlive' : { st with read := rest }.ending = none := hlive
        exact finished_ending hlive' hsome

structure Inv (st : SendSide) : Prop where
  intact : Intact st
  ended : st.ending ≠ none → st.unread = []

theorem Inv.step (h : Inv st) (hok : Undisturbed st act)
    (hstep : st.step act = some st') : Inv st' := by
  obtain ⟨hcopies, htaken, hends⟩ := hok
  obtain ⟨hlive, hstep⟩ := Option.ite_none_right_eq_some.mp hstep
  refine ⟨h.intact.liveStep hcopies htaken hstep, ?_⟩
  intro hended
  obtain ⟨hact, hunread⟩ := liveStep_ending hlive hstep hended
  rw [hunread]
  exact (inUse_eq_false (hends hact)).1

/-- The peer receives what was posted, in order, except for what the NIC has yet
to read; and once the connection has ended it has received everything. -/
theorem posted_messages_arrive {conn : Connection} {junk : RdmaMessage} {st : SendSide}
    (hreach : Reaches step Undisturbed (initial conn junk) st) :
    st.received <+: st.posted ∧ st.received.length + st.unread.length = st.posted.length ∧
      ((st.unread = [] ∨ st.ending ≠ none) → st.received = st.posted) := by
  have hinv : Inv st :=
    hreach.invariant (fun _ _ _ h => h.step) ⟨initial_intact conn junk, by simp [initial]⟩
  have hsent := hinv.intact.sent
  refine ⟨⟨_, hsent.symm⟩, ?_, ?_⟩
  · rw [hsent, List.length_append, List.length_replicate]
  · intro hdone
    have hunread : st.unread = [] := hdone.elim id hinv.ended
    rw [hunread] at hsent
    simpa using hsent.symm

def wholeExchange : List Action :=
  [.register 4096 4096 7, .call (.sendPrepare 4096 4096 []), .post true, .nicRead, .receiveMeminfo,
    .postAck true, .finish, .nicRead, .finish, .call (.sendTransfer 4096 4096), .post true,
    .nicRead, .call .done, .post true, .nicRead, .finish, .finish, .receiveDone]

theorem posted_messages_arrive_whole_exchange :
    ∃ st, Reaches step Undisturbed (initial .empty (.cleared .user)) st ∧
      st.ending = some .disconnected ∧
      st.received.map RdmaMessage.messageType = [.prepare, .ackMeminfo, .transfer, .done] ∧
      st.received = st.posted := by
  have hrun : (checkedRun step Undisturbed (initial .empty (.cleared .user)) wholeExchange).map
      (fun st => (st.ending, st.received.map RdmaMessage.messageType)) =
      some (some .disconnected, [.prepare, .ackMeminfo, .transfer, .done]) := by
    decide +kernel
  obtain ⟨st, hreach, hpair⟩ := reaches_of_map_checkedRun hrun
  have hending : st.ending = some .disconnected := congrArg Prod.fst hpair
  have harrive := (posted_messages_arrive hreach).2.2 (.inr (by simp [hending]))
  exact ⟨st, hreach, hending, congrArg Prod.snd hpair, harrive⟩

/-- Two acceptances in a row: the second is in the buffer before the NIC has read
the first, and the peer receives it twice. -/
theorem second_message_received_twice :
    ∃ st, Reaches step anyAction (initial .empty (.cleared .user)) st ∧ st.unread = [] ∧
      st.posted = [sendAccept 4096 4096, sendAccept 8192 4096] ∧
      st.received = [sendAccept 8192 4096, sendAccept 8192 4096] := by
  have hrun : (run step (initial .empty (.cleared .user))
      [.call (.sendAccept 4096 4096), .post true, .call (.sendAccept 8192 4096), .post true,
        .nicRead, .nicRead]).map (fun st => (st.unread, st.posted, st.received)) =
      some ([], [sendAccept 4096 4096, sendAccept 8192 4096],
        [sendAccept 8192 4096, sendAccept 8192 4096]) := by
    decide +kernel
  obtain ⟨st, hreach, htriple⟩ := reaches_of_map_run hrun
  simp only [Prod.mk.injEq] at htriple
  exact ⟨st, hreach, htriple.1, htriple.2.1, htriple.2.2⟩

end SendSide

end RdmaMigration.Network
