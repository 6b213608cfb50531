import RdmaMigration.Lib.Run
import RdmaMigration.Network.Message

/-! # The receiving side of a connection

All receives of a connection are posted on its one `recv_buffer`. The completion
thread looks at the type of the message that has arrived, posts the next receive,
and only then takes the message out of the buffer, while the NIC is free to write
the next one there.
-/

namespace RdmaMigration.Network

open Lib

/-- What `recv_queue` holds: the text of a `MSG_USER` with its size, or the copy
of a whole message. -/
inductive Entry where
  | text (data : List Char) (size : Nat)
  | whole (m : RdmaMessage)
  deriving DecidableEq, Repr

/-- The branches of `on_recv_finish` that copy the whole message out. -/
def copiesWhole : MessageType → Bool
  | .prepare | .accept | .transfer | .doneTransfer | .decline | .getPartitions | .sentPartitions =>
      true
  | .user | .meminfo | .ackMeminfo | .done => false

inductive Handler where
  /-- Between two completions. -/
  | idle
  /-- In front of `post_rdma_receive`, in the branch for the type. -/
  | rearming (type : MessageType)
  /-- In front of `malloc(msg->data_size)`. -/
  | allocating
  /-- In front of `memcpy(msg_for_user, msg->data, msg->data_size)`. -/
  | copyingText (capacity : Nat)
  /-- In front of reading `msg->data_size` for the queue. -/
  | enqueueing (data : List Char)
  /-- In front of reading `msg->region_info.addr`. -/
  | locating
  /-- In front of `remote_registrations[addr] = msg->region_info`. -/
  | storing (addr : Nat)
  /-- In front of posting the acknowledgement. -/
  | acknowledging
  /-- In front of `memcpy(msg_for_user, msg, sizeof(struct rdma_message))`. -/
  | copyingWhole (type : MessageType)
  /-- The copy made, in front of the rest of the branch. -/
  | copied (type : MessageType) (m : RdmaMessage)
  deriving DecidableEq, Repr

/-- `armed` counts the receives posted and not used, `waiting` the completions
that have not been taken from the queue. `enqueued` lists what was ever put into
`recv_queue`, `delivered` what the NIC wrote. -/
structure RecvSide where
  recvBuffer : RdmaMessage
  armed : Nat
  waiting : Nat
  handler : Handler
  remoteRegistrations : AList fun _ : Nat => RemoteRegion
  acknowledged : Nat
  recvDone : Bool
  overflow : Bool
  enqueued : List Entry
  delivered : List RdmaMessage

namespace RecvSide

def initial (junk : RdmaMessage) : RecvSide := ⟨junk, 1, 0, .idle, ∅, 0, false, false, [], []⟩

inductive Action where
  | deliver (m : RdmaMessage)
  | handle
  deriving DecidableEq, Repr

/-- What `memcpy` takes of the data of a message, whose array is filled up with
null bytes. -/
def bytes (m : RdmaMessage) (n : Nat) : List Char := m.data.takeD n (Char.ofNat 0)

def store (st : RecvSide) (addr : Nat) (region : RemoteRegion) : RecvSide :=
  { st with remoteRegistrations := st.remoteRegistrations.insert addr region }

def enqueue (st : RecvSide) (e : Entry) : RecvSide := { st with enqueued := st.enqueued ++ [e] }

def afterRearming : MessageType → Handler
  | .user => .allocating
  | .meminfo => .locating
  | .ackMeminfo => .idle
  | type => .copyingWhole type

def handle (st : RecvSide) : Option RecvSide :=
  match st.handler with
  | .idle =>
      if st.waiting = 0 then none
      else if st.recvBuffer.messageType = .done then
        some { st with waiting := st.waiting - 1, recvDone := true }
      else
        some { st with
          waiting := st.waiting - 1
          handler := .rearming st.recvBuffer.messageType }
  | .rearming type => some { st with armed := st.armed + 1, handler := afterRearming type }
  | .allocating => some { st with handler := .copyingText st.recvBuffer.dataSize }
  | .copyingText capacity =>
      some { st with
        overflow := st.overflow || capacity < st.recvBuffer.dataSize
        handler := .enqueueing (bytes st.recvBuffer st.recvBuffer.dataSize) }
  | .enqueueing data =>
      some { st.enqueue (.text data st.recvBuffer.dataSize) with handler := .idle }
  | .locating => some { st with handler := .storing st.recvBuffer.regionInfo.addr }
  | .storing addr =>
      some { st.store addr st.recvBuffer.regionInfo with handler := .acknowledging }
  | .acknowledging => some { st with acknowledged := st.acknowledged + 1, handler := .idle }
  | .copyingWhole type => some { st with handler := .copied type st.recvBuffer }
  | .copied type m =>
      let st := if type = .transfer then st.store m.regionInfo.addr m.regionInfo else st
      some { st.enqueue (.whole m) with handler := .idle }

def step (st : RecvSide) : Action → Option RecvSide
  | .deliver m =>
      if st.armed = 0 then none
      else
        some { st with
          recvBuffer := m
          armed := st.armed - 1
          waiting := st.waiting + 1
          delivered := st.delivered ++ [m] }
  | .handle => st.handle

/-! ## What a message is meant to leave behind -/

def entry (m : RdmaMessage) : Option Entry :=
  match m.messageType with
  | .user => some (.text (bytes m m.dataSize) m.dataSize)
  | type => if copiesWhole type then some (.whole m) else none

def announced (regions : AList fun _ : Nat => RemoteRegion) (m : RdmaMessage) :
    AList fun _ : Nat => RemoteRegion :=
  if m.messageType = .meminfo ∨ m.messageType = .transfer then
    regions.insert m.regionInfo.addr m.regionInfo
  else regions

/-- The messages have been handed up, and no others. -/
structure HandedUp (st : RecvSide) (messages : List RdmaMessage) : Prop where
  enqueued : st.enqueued = messages.filterMap entry
  regions : st.remoteRegistrations = messages.foldl announced ∅

def reading (st : RecvSide) : Bool :=
  match st.handler with
  | .idle | .rearming _ | .acknowledging | .copied _ _ => false
  | .allocating | .copyingText _ | .enqueueing _ | .locating | .storing _ | .copyingWhole _ => true

/-- No message is written over one that is still being read. -/
def Undisturbed (st : RecvSide) : Action → Prop
  | .deliver m => st.reading → m = st.recvBuffer
  | .handle => True

instance (st : RecvSide) (act : Action) : Decidable (Undisturbed st act) := by
  cases act <;> (unfold Undisturbed; infer_instance)

/-! ## The invariant -/

def current (st : RecvSide) : List RdmaMessage :=
  match st.handler with
  | .idle | .acknowledging => []
  | .copied _ m => [m]
  | _ => [st.recvBuffer]

def Agrees (m : RdmaMessage) : Handler → Prop
  | .idle | .acknowledging => True
  | .rearming type => m.messageType = type ∧ type ≠ .done
  | .allocating => m.messageType = .user
  | .copyingText capacity => m.messageType = .user ∧ capacity = m.dataSize
  | .enqueueing data => m.messageType = .user ∧ data = bytes m m.dataSize
  | .locating => m.messageType = .meminfo
  | .storing addr => m.messageType = .meminfo ∧ addr = m.regionInfo.addr
  | .copyingWhole type => m.messageType = type ∧ copiesWhole type
  | .copied type m => m.messageType = type ∧ copiesWhole type

def owed (st : RecvSide) : Nat :=
  match st.handler with
  | .rearming _ => 1
  | _ => 0

structure Inv (st : RecvSide) : Prop where
  one : st.armed + st.waiting + st.owed ≤ 1
  agrees : Agrees st.recvBuffer st.handler
  fits : st.overflow = false
  log : ∃ handled, HandedUp st handled ∧
    st.delivered = handled ++ st.current ++ List.replicate st.waiting st.recvBuffer

theorem initial_inv (junk : RdmaMessage) : Inv (initial junk) :=
  ⟨by simp [initial, owed], trivial, rfl, [], ⟨rfl, rfl⟩, rfl⟩

variable {st st' : RecvSide} {m : RdmaMessage}

theorem HandedUp.next {messages : List RdmaMessage}
    (h : HandedUp st messages) (henqueued : st'.enqueued = st.enqueued ++ (entry m).toList)
    (hregions : st'.remoteRegistrations = announced st.remoteRegistrations m) :
    HandedUp st' (messages ++ [m]) := by
  refine ⟨?_, ?_⟩
  · rw [henqueued, h.enqueued, List.filterMap_append]
    cases hentry : entry m <;> simp [hentry]
  · rw [hregions, h.regions, List.foldl_append, List.foldl_cons, List.foldl_nil]

theorem entry_of_whole (h : copiesWhole m.messageType = true) :
    entry m = some (.whole m) := by
  unfold entry
  split
  · rename_i htype
    rw [htype] at h
    cases h
  · rw [if_pos h]

theorem afterRearming_agrees (h : m.messageType ≠ .done) :
    Agrees m (afterRearming m.messageType) := by
  cases htype : m.messageType <;> simp_all [afterRearming, Agrees, copiesWhole]

theorem owed_afterRearming (st : RecvSide) (armed : Nat) (type : MessageType) :
    { st with armed := armed, handler := afterRearming type }.owed = 0 := by
  cases type <;> rfl

theorem HandedUp.rearmed {handled : List RdmaMessage}
    (h : HandedUp st handled) (htype : st.recvBuffer.messageType ≠ .done) :
    let st' : RecvSide :=
      { st with armed := st.armed + 1, handler := afterRearming st.recvBuffer.messageType }
    ∃ handled', HandedUp st' handled' ∧ handled' ++ st'.current = handled ++ [st.recvBuffer] := by
  by_cases hack : st.recvBuffer.messageType = .ackMeminfo
  · refine ⟨handled ++ [st.recvBuffer], h.next ?_ ?_, ?_⟩
    · simp [entry, hack, copiesWhole]
    · simp [announced, hack]
    · simp [current, hack, afterRearming]
  · refine ⟨handled, ⟨h.enqueued, h.regions⟩, ?_⟩
    cases hcase : st.recvBuffer.messageType <;> simp_all [current, afterRearming]

theorem Inv.handle (h : Inv st) (hstep : st.handle = some st') : Inv st' := by
  obtain ⟨hone, hagrees, hfits, handled, hup, hlog⟩ := h
  unfold RecvSide.handle at hstep
  unfold Agrees at hagrees
  unfold owed at hone
  unfold current at hlog
  cases hpc : st.handler with
  | idle =>
      simp only [hpc] at hstep hlog hone
      split at hstep
      · cases hstep
      · have hwaiting : st.waiting = 1 := by omega
        rw [hwaiting] at hlog
        split at hstep
        · rename_i hdone
          cases hstep
          refine ⟨by simp [owed]; omega, trivial, hfits, handled ++ [st.recvBuffer], ?_, ?_⟩
          · refine hup.next ?_ ?_
            · simp [entry, hdone, copiesWhole]
            · simp [announced, hdone]
          · simpa [current, hpc, hwaiting] using hlog
        · cases hstep
          refine ⟨by simp [owed]; omega, ⟨rfl, ‹_›⟩, hfits, handled,
            ⟨hup.enqueued, hup.regions⟩, ?_⟩
          simpa [current, hwaiting] using hlog
  | rearming type =>
      simp only [hpc] at hstep hlog hone hagrees
      obtain ⟨rfl, htype⟩ := hagrees
      cases hstep
      obtain ⟨handled', hup', hsame⟩ := hup.rearmed htype
      refine ⟨?_, afterRearming_agrees htype, hfits, handled', hup', ?_⟩
      · rw [owed_afterRearming]
        simp only
        omega
      · rw [hsame]
        exact hlog
  | allocating =>
      simp only [hpc] at hstep hlog hone hagrees
      cases hstep
      exact ⟨hone, ⟨hagrees, rfl⟩, hfits, handled, ⟨hup.enqueued, hup.regions⟩, hlog⟩
  | copyingText capacity =>
      simp only [hpc] at hstep hlog hone hagrees
      obtain ⟨htype, rfl⟩ := hagrees
      cases hstep
      refine ⟨hone, ⟨htype, rfl⟩, ?_, handled, ⟨hup.enqueued, hup.regions⟩, hlog⟩
      simp [hfits]
  | enqueueing data =>
      simp only [hpc] at hstep hlog hone hagrees
      obtain ⟨htype, rfl⟩ := hagrees
      cases hstep
      refine ⟨hone, trivial, hfits, handled ++ [st.recvBuffer], hup.next ?_ ?_, ?_⟩
      · simp [enqueue, entry, htype]
      · simp [enqueue, announced, htype]
      · simpa [enqueue, current] using hlog
  | locating =>
      simp only [hpc] at hstep hlog hone hagrees
      cases hstep
      exact ⟨hone, ⟨hagrees, rfl⟩, hfits, handled, ⟨hup.enqueued, hup.regions⟩, hlog⟩
  | storing addr =>
      simp only [hpc] at hstep hlog hone hagrees
      obtain ⟨htype, rfl⟩ := hagrees
      cases hstep
      refine ⟨hone, trivial, hfits, handled ++ [st.recvBuffer], hup.next ?_ ?_, ?_⟩
      · simp [store, entry, htype, copiesWhole]
      · simp [store, announced, htype]
      · simpa [store, current] using hlog
  | acknowledging =>
      simp only [hpc] at hstep hlog hone
      cases hstep
      exact ⟨hone, trivial, hfits, handled, ⟨hup.enqueued, hup.regions⟩, hlog⟩
  | copyingWhole type =>
      simp only [hpc] at hstep hlog hone hagrees
      cases hstep
      exact ⟨hone, hagrees, hfits, handled, ⟨hup.enqueued, hup.regions⟩, hlog⟩
  | copied type m =>
      simp only [hpc] at hstep hlog hone hagrees
      obtain ⟨rfl, hwhole⟩ := hagrees
      have hentry := entry_of_whole hwhole
      by_cases htransfer : m.messageType = .transfer
      · rw [if_pos htransfer] at hstep
        cases hstep
        refine ⟨hone, trivial, hfits, handled ++ [m], hup.next ?_ ?_, ?_⟩
        · simp [store, enqueue, hentry]
        · simp [store, enqueue, announced, htransfer]
        · simpa [store, enqueue, current] using hlog
      · rw [if_neg htransfer] at hstep
        cases hstep
        refine ⟨hone, trivial, hfits, handled ++ [m], hup.next ?_ ?_, ?_⟩
        · simp [enqueue, hentry]
        · have hmeminfo : m.messageType ≠ .meminfo := by
            intro heq
            rw [heq] at hwhole
            cases hwhole
          simp [enqueue, announced, htransfer, hmeminfo]
        · simpa [enqueue, current] using hlog

theorem current_of_not_reading (h : st.reading = false) (hone : st.owed = 0) (m : RdmaMessage) :
    { st with recvBuffer := m }.current = st.current ∧
      (Agrees st.recvBuffer st.handler → Agrees m st.handler) := by
  unfold reading at h
  unfold owed at hone
  cases hpc : st.handler <;> simp_all [current, Agrees]

theorem Inv.deliver (h : Inv st)
    (hok : Undisturbed st (.deliver m)) (hstep : st.step (.deliver m) = some st') : Inv st' := by
  obtain ⟨hone, hagrees, hfits, handled, hup, hlog⟩ := h
  simp only [step] at hstep
  split at hstep
  · cases hstep
  · have hwaiting : st.waiting = 0 := by omega
    have howed : st.owed = 0 := by omega
    have hone' : st.armed - 1 + (st.waiting + 1) + st.owed ≤ 1 := by omega
    rw [hwaiting, List.replicate_zero, List.append_nil] at hlog
    have hsame : { st with recvBuffer := m }.current = st.current ∧
        (Agrees st.recvBuffer st.handler → Agrees m st.handler) := by
      cases hreading : st.reading with
      | true =>
          rw [hok hreading]
          exact ⟨rfl, id⟩
      | false => exact current_of_not_reading hreading howed m
    cases hstep
    refine ⟨hone', hsame.2 hagrees, hfits, handled, ⟨hup.enqueued, hup.regions⟩, ?_⟩
    show st.delivered ++ [m] =
      handled ++ { st with recvBuffer := m }.current ++ List.replicate (st.waiting + 1) m
    rw [hsame.1, hwaiting, hlog]
    rfl

theorem Inv.step {act : Action} (h : Inv st) (hok : Undisturbed st act)
    (hstep : st.step act = some st') : Inv st' := by
  cases act with
  | deliver m => exact h.deliver hok hstep
  | handle => exact h.handle hstep

/-! ## Every message is handed up -/

def work (st : RecvSide) : Nat :=
  6 * st.waiting +
    match st.handler with
    | .idle => 0
    | .rearming _ => 5
    | .allocating | .locating => 3
    | .copyingText _ | .storing _ | .copyingWhole _ => 2
    | .enqueueing _ | .acknowledging | .copied _ _ => 1

theorem handle_isSome (h : st.work ≠ 0) : st.handle.isSome := by
  unfold work at h
  cases hpc : st.handler with
  | idle =>
      have hwaiting : st.waiting ≠ 0 := by
        intro hzero
        simp [hpc, hzero] at h
      simp only [handle, hpc, if_neg hwaiting]
      split <;> rfl
  | _ => simp [handle, hpc]

theorem handle_work (h : st.handle = some st') :
    st'.work < st.work ∧ st'.delivered = st.delivered := by
  unfold handle at h
  cases hpc : st.handler with
  | idle =>
      simp only [hpc] at h
      split at h
      · cases h
      · split at h <;> cases h
        all_goals
          refine ⟨?_, rfl⟩
          simp only [work, hpc]
          omega
  | rearming type =>
      simp only [hpc] at h
      cases h
      refine ⟨?_, rfl⟩
      cases type <;> simp [work, afterRearming, hpc]
  | copied type m =>
      simp only [hpc] at h
      cases h
      split <;> simp [work, hpc, store, enqueue]
  | _ =>
      simp only [hpc] at h
      cases h
      simp [work, hpc, store, enqueue]

theorem Inv.handedUp (h : Inv st) (hwork : st.work = 0) :
    HandedUp st st.delivered := by
  obtain ⟨-, -, -, handled, hup, hlog⟩ := h
  unfold work at hwork
  have hwaiting : st.waiting = 0 := by omega
  have hidle : st.handler = .idle := by
    cases hpc : st.handler <;> simp_all
  rw [hwaiting] at hlog
  have hall : st.delivered = handled := by simpa [current, hidle] using hlog
  rwa [hall]

/-- Left alone, the completion thread hands up everything that was delivered. -/
theorem Inv.catches_up (h : Inv st) :
    ∃ st', Reaches RecvSide.step Undisturbed st st' ∧ st'.delivered = st.delivered ∧
      HandedUp st' st.delivered := by
  induction hn : st.work using Nat.strong_induction_on generalizing st with
  | _ n ih =>
      by_cases hwork : st.work = 0
      · exact ⟨st, .refl _ _ _, rfl, h.handedUp hwork⟩
      · obtain ⟨st₁, hstep⟩ := Option.isSome_iff_exists.mp (handle_isSome hwork)
        obtain ⟨hless, hsame⟩ := handle_work hstep
        obtain ⟨st', ⟨acts, halong, hrun⟩, hdelivered, hup⟩ :=
          ih st₁.work (hn ▸ hless) (h.handle hstep) rfl
        have hfirst : st.step .handle = some st₁ := hstep
        refine ⟨st', ⟨.handle :: acts, ⟨trivial, ?_⟩, ?_⟩, hdelivered.trans hsame, hsame ▸ hup⟩
        · intro u hu
          rw [hfirst] at hu
          cases hu
          exact halong
        · rw [run_cons, hfirst]
          exact hrun

/-- What was handed up at any time is a first part of what was delivered, at most
the message being handled and the one behind it are missing, and the completion
thread gets to them. -/
theorem delivered_messages_handed_up {junk : RdmaMessage} {st : RecvSide}
    (hreach : Reaches step Undisturbed (initial junk) st) :
    (∃ handled, HandedUp st handled ∧ handled <+: st.delivered ∧
        st.delivered.length ≤ handled.length + 2) ∧
      st.overflow = false ∧
      ∃ st', Reaches step Undisturbed st st' ∧ st'.delivered = st.delivered ∧
        HandedUp st' st.delivered := by
  have hinv : Inv st := hreach.invariant (fun _ _ _ h => h.step) (initial_inv junk)
  refine ⟨?_, hinv.fits, hinv.catches_up⟩
  obtain ⟨hone, -, -, handled, hup, hlog⟩ := hinv
  refine ⟨handled, hup, ⟨st.current ++ List.replicate st.waiting st.recvBuffer, ?_⟩, ?_⟩
  · rw [hlog, List.append_assoc]
  · have hcurrent : st.current.length ≤ 1 := by
      unfold current
      split <;> simp
    rw [hlog]
    simp only [List.length_append, List.length_replicate]
    omega

/-- A region announced, a text and a transfer, each delivered as soon as the one
before it is out of the buffer. -/
def threeMessages : List Action :=
  [.deliver ⟨.meminfo, ⟨4096, 4096, 7⟩, [], 0⟩, .handle, .handle, .handle, .handle,
    .deliver ⟨.user, ⟨0, 0, 0⟩, ['h', 'i'], 2⟩, .handle, .handle, .handle, .handle, .handle,
    .handle, .deliver ⟨.transfer, ⟨8192, 4096, 9⟩, [], 0⟩]

theorem delivered_messages_handed_up_three :
    ∃ st, Reaches step Undisturbed (initial (.cleared .user)) st ∧ st.delivered.length = 3 ∧
      ∃ st', Reaches step Undisturbed st st' ∧ HandedUp st' st.delivered := by
  have hrun : (checkedRun step Undisturbed (initial (.cleared .user)) threeMessages).map
      (fun st => st.delivered.length) = some 3 := by
    decide +kernel
  obtain ⟨st, hreach, hlength⟩ := reaches_of_map_checkedRun hrun
  obtain ⟨-, -, st', hreach', -, hup⟩ := delivered_messages_handed_up hreach
  exact ⟨st, hreach, hlength, st', hreach', hup⟩

/-- Two acceptances in a burst: the second is written into the buffer
after the receive is posted again and before the first is copied out. -/
theorem burst_loses_message :
    ∃ st, Reaches step anyAction (initial (.cleared .user)) st ∧ st.work = 0 ∧
      st.delivered = [sendAccept 4096 4096, sendAccept 8192 4096] ∧
      st.enqueued = [.whole (sendAccept 8192 4096), .whole (sendAccept 8192 4096)] := by
  have hrun : (run step (initial (.cleared .user))
      [.deliver (sendAccept 4096 4096), .handle, .handle, .deliver (sendAccept 8192 4096),
        .handle, .handle, .handle, .handle, .handle, .handle]).map
      (fun st => (st.work, st.delivered, st.enqueued)) =
      some (0, [sendAccept 4096 4096, sendAccept 8192 4096],
        [.whole (sendAccept 8192 4096), .whole (sendAccept 8192 4096)]) := by
    decide +kernel
  obtain ⟨st, hreach, htriple⟩ := reaches_of_map_run hrun
  simp only [Prod.mk.injEq] at htriple
  exact ⟨st, hreach, htriple.1, htriple.2.1, htriple.2.2⟩

end RecvSide

end RdmaMigration.Network
