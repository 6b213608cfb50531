import RdmaMigration.Manager.Protocol
import RdmaMigration.Network.Image

/-! # From the receive queue to the poller

`GetMessage` casts whatever it takes from `recv_queue` to a whole `rdma_message`. For
the messages that are queued whole this is what the sender has built. Of a `MSG_USER`
only the data is queued, so that the user's own bytes are taken for a type, an address
and a length.
-/

namespace RdmaMigration.Manager

open Lib Network

/-- `RDMAMessage`; `data` is the memory behind its pointer. -/
structure PollMessage where
  addr : Nat
  size : Nat
  type : PollType
  data : Memory

def messageTypeOf (code : Nat) : PollType :=
  match MessageType.ofCode code with
  | some type => getMessageType type
  | none => .done

def getMessage (p : Memory) : PollMessage :=
  { addr := readLE p Image.addrOffset 8
    size := readLE p Image.lengthOffset 8
    type := messageTypeOf (readLE p Image.messageTypeOffset 4)
    data := fun i => p (Image.dataOffset + i) }

theorem getMessage_type {p : Memory} {t : MessageType} {a len key : Nat} {bytes : List UInt8}
    (hp : Image.Holds p t a len key bytes) : (getMessage p).type = getMessageType t := by
  show messageTypeOf (readLE p Image.messageTypeOffset 4) = getMessageType t
  rw [hp.messageType, messageTypeOf, MessageType.ofCode_code]

/-- The messages that the senders build, with what the poller is to find in them. -/
inductive BuiltBy : Memory → PollType → Nat → Nat → List UInt8 → Prop where
  | send {m : Memory} {payload : List UInt8} (h : Image.send payload = some m) :
      BuiltBy m .user 0 0 payload
  | sendPrepare {c : Connection} {m : Memory} {addr len : Nat}
      (h : Image.sendPrepare c addr len = some m) : BuiltBy m .prepare addr len []
  | sendPrepareFor {c : Connection} {m : Memory} {addr len : Nat} {clientId : List UInt8}
      (h : Image.sendPrepareFor c addr len clientId = some m) :
      BuiltBy m .prepare addr len clientId
  | sendAccept (addr len : Nat) : BuiltBy (Image.sendAccept addr len) .accept addr len []
  | sendDecline (addr len : Nat) : BuiltBy (Image.sendDecline addr len) .decline addr len []
  | sendTransfer {c : Connection} {m : Memory} {addr len : Nat}
      (h : Image.sendTransfer c addr len = some m) : BuiltBy m .transfer addr len []
  | sendClose (addr len : Nat) : BuiltBy (Image.sendClose addr len) .done addr len []
  | getPartitionList : BuiltBy Image.getPartitionList .getPartitions 0 0 []
  | sendPartitionList (str : List UInt8) :
      BuiltBy (Image.sendPartitionList str) .sentPartitions 0 0 str

section BuiltBy

variable {m : Memory} {type : PollType} {addr len : Nat} {payload : List UInt8}

theorem BuiltBy.holds (h : BuiltBy m type addr len payload) (htype : type ≠ .user)
    (haddr : addr < 2 ^ 64) (hlen : len < 2 ^ 64) (hfits : payload.length ≤ maxDataSize) :
    ∃ t rkey, Image.Holds m t addr len rkey payload ∧ copiesWhole t = true ∧
      getMessageType t = type := by
  cases h with
  | send h => exact absurd rfl htype
  | sendPrepare h =>
      obtain ⟨mr, -, hholds⟩ := Image.holds_sendPrepare haddr hlen h
      exact ⟨_, _, hholds, rfl, rfl⟩
  | sendPrepareFor h =>
      obtain ⟨mr, -, hholds⟩ := Image.holds_sendPrepareFor haddr hlen hfits h
      exact ⟨_, _, hholds, rfl, rfl⟩
  | sendTransfer h =>
      obtain ⟨mr, -, hholds⟩ := Image.holds_sendTransfer haddr hlen h
      exact ⟨_, _, hholds, rfl, rfl⟩
  | sendAccept | sendDecline | sendClose =>
      exact ⟨_, _, Image.holds_sendRange _ haddr hlen, rfl, rfl⟩
  | getPartitionList => exact ⟨_, _, Image.holds_cleared _, rfl, rfl⟩
  | sendPartitionList str => exact ⟨_, _, Image.holds_sendPartitionList hfits, rfl, rfl⟩

theorem onRecvFinish_user (h : Image.Holds m .user addr len 0 payload) (heap : Memory) :
    Image.onRecvFinish heap m =
      some fun x => if x < payload.length then m (Image.dataOffset + x) else heap x := by
  simp [Image.onRecvFinish, h.messageType, MessageType.ofCode_code, h.dataSize]

/-- No payload of a `MSG_USER` is read back on every heap: the poller looks for its last
byte behind the queued copy, and for the address too if the payload is empty. -/
theorem exists_heap_misread (h : Image.Holds m .user addr len 0 payload) :
    ∃ heap p, Image.onRecvFinish heap m = some p ∧
      ((getMessage p).addr = 0 → ∃ i, ∃ hi : i < payload.length,
        (getMessage p).data i ≠ payload[i]) := by
  rcases Nat.eq_zero_or_pos payload.length with hempty | hpos
  · refine ⟨fun _ => 1, _, onRecvFinish_user h _, fun haddr => absurd haddr ?_⟩
    simp only [hempty, Nat.not_lt_zero, if_false]
    decide
  · have hlast : payload.length - 1 < payload.length := Nat.sub_one_lt_of_lt hpos
    refine ⟨fun _ => payload[payload.length - 1] + 1, _, onRecvFinish_user h _, fun _ =>
      ⟨payload.length - 1, hlast, ?_⟩⟩
    have hbehind : ¬ Image.dataOffset + (payload.length - 1) < payload.length := by
      unfold Image.dataOffset
      omega
    show (if Image.dataOffset + (payload.length - 1) < payload.length then _ else _) ≠ _
    rw [if_neg hbehind]
    grind

/-- Whatever the heap has behind the queued copy. -/
theorem message_reaches_poller (h : BuiltBy m type addr len payload) (haddr : addr < 2 ^ 64)
    (hlen : len < 2 ^ 64) (hfits : payload.length ≤ maxDataSize) :
    (∀ heap, ∃ p, Image.onRecvFinish heap m = some p ∧ (getMessage p).type = type ∧
      (getMessage p).addr = addr ∧ (getMessage p).size = len ∧
      ∀ i, (hi : i < payload.length) → (getMessage p).data i = payload[i]) ↔ type ≠ .user := by
  constructor
  · rintro hreaches rfl
    cases h with
    | send h =>
        obtain ⟨heap, p, hqueued, hmisread⟩ := exists_heap_misread (Image.holds_send h)
        obtain ⟨p', hqueued', -, hzero, -, hdata⟩ := hreaches heap
        cases hqueued.symm.trans hqueued'
        obtain ⟨i, hi, hne⟩ := hmisread hzero
        exact hne (hdata i hi)
  · intro htype heap
    obtain ⟨t, rkey, hholds, hwhole, rfl⟩ := h.holds htype haddr hlen hfits
    obtain ⟨p, hqueued, hp, -⟩ := hholds.queued hwhole hfits heap
    exact ⟨p, hqueued, getMessage_type hp, hp.addr, hp.length, hp.data⟩

/-- A `MSG_PREPARE` with the client id 7. -/
theorem message_reaches_poller_prepare : ∃ m p,
    Image.sendPrepareFor ⟨AList.singleton 4096 ⟨8192, 3⟩, ∅, []⟩ 4096 8192 [55] = some m ∧
    Image.onRecvFinish (fun _ => 1) m = some p ∧ (getMessage p).type = .prepare ∧
    (getMessage p).addr = 4096 ∧ (getMessage p).size = 8192 ∧ (getMessage p).data 0 = 55 := by
  obtain ⟨m, hm⟩ : ∃ m, Image.sendPrepareFor ⟨AList.singleton 4096 ⟨8192, 3⟩, ∅, []⟩ 4096 8192
      [55] = some m := ⟨_, rfl⟩
  obtain ⟨p, hp, htype, haddr, hsize, hdata⟩ :=
    (message_reaches_poller (.sendPrepareFor hm) (by decide) (by decide) (by decide)).mpr
      (by decide) fun _ => 1
  exact ⟨m, p, hm, hp, htype, haddr, hsize, hdata 0 (by decide)⟩

/-- The payload of a `MSG_USER` that the poller takes for a `PREPARE` of 8192 bytes at
the address 16. -/
def disguised : List UInt8 :=
  [6, 0, 0, 0, 0, 0, 0, 0, 16, 0, 0, 0, 0, 0, 0, 0, 0, 32, 0, 0, 0, 0, 0, 0]

theorem user_message_misread : ∃ m p, Image.send disguised = some m ∧
    BuiltBy m .user 0 0 disguised ∧ Image.onRecvFinish (fun _ => 1) m = some p ∧
    (getMessage p).type = .prepare ∧ (getMessage p).addr = 16 ∧ (getMessage p).size = 8192 ∧
    (getMessage p).data 0 = 1 := by
  have hrun : ((Image.send disguised).bind fun m => Image.onRecvFinish (fun _ => 1) m).map
      (fun p => ((getMessage p).type, (getMessage p).addr, (getMessage p).size,
        (getMessage p).data 0)) = some (.prepare, 16, 8192, 1) := by
    decide +kernel
  obtain ⟨p, hp, hfacts⟩ := Option.map_eq_some_iff.mp hrun
  obtain ⟨m, hm, hqueued⟩ := Option.bind_eq_some_iff.mp hp
  simp only [Prod.mk.injEq] at hfacts
  exact ⟨m, p, hm, .send hm, hqueued, hfacts⟩

end BuiltBy

end RdmaMigration.Manager
