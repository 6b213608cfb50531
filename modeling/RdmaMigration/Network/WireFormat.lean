import Mathlib.Data.List.TakeDrop
import RdmaMigration.Network.Image

/-! # The wire format

A message at two levels: the record that the exchange of messages is modelled with, and
the bytes of a `struct rdma_message` as they are posted, received and copied out. For
every sender the bytes are those of its record, and what the completion thread of the
peer puts into `recv_queue` is what it would put there for the record.
-/

namespace RdmaMigration.Network

open Lib

/-! ## The values that fit -/

def IsText (s : List Char) : Prop := ∀ ch ∈ s, ch.toNat < 256

def Connection.Typed (c : Connection) : Prop :=
  ∀ addr mr, c.registrations.lookup addr = some mr →
    addr < 2 ^ 64 ∧ mr.length < 2 ^ 64 ∧ mr.rkey < 2 ^ 32

/-- So do the arguments of a sender. A text that is too long is refused by `send` only. -/
def Sender.Typed : Sender → Prop
  | .send data => IsText data
  | .sendMeminfo _ | .getPartitionList | .done => True
  | .sendPrepare addr len clientId =>
      addr < 2 ^ 64 ∧ len < 2 ^ 64 ∧ clientId.length ≤ maxDataSize ∧ IsText clientId
  | .sendAccept addr len | .sendDecline addr len | .sendTransfer addr len
  | .sendClose addr len => addr < 2 ^ 64 ∧ len < 2 ^ 64
  | .sendPartitionList list => list.length ≤ maxDataSize ∧ IsText list

namespace Image

/-! ## The bytes of every sender -/

def sendMeminfo (c : Connection) (addr : Nat) : Option Memory :=
  (c.registrations.lookup addr).map fun mr =>
    let m := setMessageType cleared .meminfo
    let m := setAddr m addr
    let m := setLength m mr.length
    setRkey m mr.rkey

def done : Memory := setMessageType cleared .done

def ofSender (c : Connection) : Sender → Option Memory
  | .send data => send (data.map byteOf)
  | .sendMeminfo addr => sendMeminfo c addr
  | .sendPrepare addr len clientId => sendPrepareFor c addr len (clientId.map byteOf)
  | .sendAccept addr len => some (sendAccept addr len)
  | .sendDecline addr len => some (sendDecline addr len)
  | .sendTransfer addr len => sendTransfer c addr len
  | .sendClose addr len => some (sendClose addr len)
  | .getPartitionList => some getPartitionList
  | .sendPartitionList list => some (sendPartitionList (list.map byteOf))
  | .done => some done

/-- The memory behind a pointer in `recv_queue` is the entry. -/
def Shows (p : Memory) : Entry → Prop
  | .text data size => data.length = size ∧ ∀ i, (h : i < data.length) → p i = byteOf data[i]
  | .whole m => read p = some m

def Encodes (img : Memory) (m : RdmaMessage) : Prop :=
  ∃ bytes, Holds img m.messageType m.regionInfo.addr m.regionInfo.length m.regionInfo.rkey bytes ∧
    bytes.length ≤ maxDataSize ∧ m.data = bytes.map charOf ∧ m.dataSize = bytes.length

theorem Holds.encodes {img : Memory} {type : MessageType} {a len key : Nat} {text : List Char}
    (h : Holds img type a len key (text.map byteOf)) (hfits : text.length ≤ maxDataSize)
    (htext : IsText text) : Encodes img ⟨type, ⟨a, len, key⟩, text, text.length⟩ :=
  ⟨text.map byteOf, h, by rwa [List.length_map], (map_charOf_byteOf htext).symm,
    (List.length_map _).symm⟩

theorem Holds.encodes_empty {img : Memory} {type : MessageType} {a len key : Nat}
    (h : Holds img type a len key []) : Encodes img ⟨type, ⟨a, len, key⟩, [], 0⟩ :=
  ⟨[], h, Nat.zero_le _, rfl, rfl⟩

theorem holds_region (type : MessageType) {addr len key : Nat} (haddr : addr < 2 ^ 64)
    (hlen : len < 2 ^ 64) (hkey : key < 2 ^ 32) :
    Holds (setRkey (setLength (setAddr (setMessageType cleared type) addr) len) key) type addr len
      key [] := by
  have hholds := (((holds_cleared type).setAddr haddr).setLength hlen).setRkey key
  rwa [Nat.mod_eq_of_lt hkey] at hholds

theorem encodes_of_lookup {c : Connection} (hc : c.Typed) {addr : Nat}
    {image : Registration → Memory} {message : Registration → RdmaMessage}
    (h : ∀ mr, addr < 2 ^ 64 → mr.length < 2 ^ 64 → mr.rkey < 2 ^ 32 →
      Encodes (image mr) (message mr)) :
    Option.Rel Encodes ((c.registrations.lookup addr).map image)
      ((c.registrations.lookup addr).map message) := by
  cases hmr : c.registrations.lookup addr with
  | none => exact .none
  | some mr =>
      obtain ⟨haddr, hlength, hkey⟩ := hc addr mr hmr
      exact .some (h mr haddr hlength hkey)

theorem ofSender_encodes {c : Connection} (hc : c.Typed) {sender : Sender} (hs : sender.Typed) :
    Option.Rel Encodes (ofSender c sender) (sender.message c) := by
  cases sender with
  | send data =>
      have hlen : (data.map byteOf).length = data.length := List.length_map _
      simp only [ofSender, send, Sender.message]
      by_cases hfits : data.length ≤ maxDataSize
      · rw [if_neg (by omega), if_pos hfits]
        exact .some (((holds_cleared .user).copyData (hlen ▸ hfits)).encodes hfits hs)
      · rw [if_pos (by omega), if_neg hfits]
        exact .none
  | sendMeminfo addr =>
      exact encodes_of_lookup hc fun mr haddr hlength hkey =>
        (holds_region .meminfo haddr hlength hkey).encodes_empty
  | sendPrepare addr len clientId =>
      obtain ⟨haddr, hlen, hfits, htext⟩ := hs
      refine encodes_of_lookup hc fun mr _ _ hkey => ?_
      have hholds := holds_region .prepare haddr hlen hkey
      exact (hholds.copyData (by rwa [List.length_map])).encodes hfits htext
  | sendTransfer addr len =>
      exact encodes_of_lookup hc fun mr _ _ hkey =>
        (holds_region .transfer hs.1 hs.2 hkey).copyNone.encodes_empty
  | sendAccept | sendDecline | sendClose =>
      exact .some (holds_sendRange _ hs.1 hs.2).encodes_empty
  | getPartitionList | done => exact .some (holds_cleared _).encodes_empty
  | sendPartitionList list =>
      rw [Sender.message, if_pos hs.1]
      have hholds := @holds_sendPartitionList (list.map byteOf) (by rw [List.length_map]; exact hs.1)
      exact .some (hholds.encodes hs.1 hs.2)

/-! ## The receiver -/

theorem Encodes.read {img : Memory} {m : RdmaMessage} (h : Encodes img m) :
    read img = some m := by
  obtain ⟨bytes, hholds, -, hdata, hsize⟩ := h
  rw [hholds.read, ← hdata, ← hsize]

theorem byteOf_charOf (b : UInt8) : byteOf (charOf b) = b := by
  have hvalid : b.toNat.isValidChar := .inl (Nat.lt_trans b.toNat_lt (by decide))
  have hnat : (Char.ofNat b.toNat).toNat = b.toNat := by
    rw [Char.ofNat, dif_pos hvalid]
    rfl
  rw [byteOf, charOf, hnat, UInt8.ofNat_toNat]

theorem Encodes.queued {img : Memory} {m : RdmaMessage} (h : Encodes img m) (heap : Memory) :
    Option.Rel Shows (onRecvFinish heap img) (RecvSide.entry m) := by
  obtain ⟨bytes, hholds, hfits, hdata, hsize⟩ := h
  have htype : MessageType.ofCode (readLE img messageTypeOffset 4) = some m.messageType := by
    rw [hholds.messageType, MessageType.ofCode_code]
  have hlen : m.data.length = m.dataSize := by rw [hdata, hsize, List.length_map]
  by_cases hwhole : copiesWhole m.messageType = true
  · obtain ⟨p, hp, hcopy, -⟩ := hholds.queued hwhole hfits heap
    have hentry : RecvSide.entry m = some (.whole m) := by
      cases hm : m.messageType <;> simp_all [RecvSide.entry, copiesWhole]
    rw [hp, hentry]
    exact .some (Encodes.read ⟨bytes, hcopy, hfits, hdata, hsize⟩)
  · by_cases huser : m.messageType = .user
    · have htext : RecvSide.entry m = some (.text m.data m.dataSize) := by
        simp only [RecvSide.entry, huser, RecvSide.bytes, ← hlen]
        rw [List.takeD_eq_take _ le_rfl, List.take_length]
      rw [htext]
      simp only [onRecvFinish, htype, hholds.dataSize, huser, Option.bind_eq_bind,
        Option.bind_some, if_true]
      refine .some ⟨hlen, fun i hi => ?_⟩
      have hlt : i < bytes.length := by rwa [hdata, List.length_map] at hi
      simp [hlt, hholds.data i hlt, hdata, byteOf_charOf]
    · have hentry : RecvSide.entry m = none := by
        cases hm : m.messageType <;> simp_all [RecvSide.entry, copiesWhole]
      have hnone : onRecvFinish heap img = none := by
        simp [onRecvFinish, htype, huser, hwhole]
      rw [hnone, hentry]
      exact .none

/-- For every sender and all arguments that fit their types: the bytes that are posted are
those of the sender's message, with every field where the receiver looks for it; and when
they are in its buffer, the receiver enqueues what belongs to the message, whatever the
heap holds. -/
theorem wire_format_agrees {c : Connection} (hc : c.Typed) {sender : Sender} (hs : sender.Typed) :
    (ofSender c sender).bind read = sender.message c ∧
      ∀ img m, ofSender c sender = some img → sender.message c = some m → ∀ heap,
        Option.Rel Shows (onRecvFinish heap img) (RecvSide.entry m) := by
  have hencodes := ofSender_encodes hc hs
  generalize ofSender c sender = image, sender.message c = message at hencodes ⊢
  cases hencodes with
  | none => exact ⟨rfl, by simp⟩
  | some h =>
      refine ⟨h.read, ?_⟩
      intro img m himage hmessage heap
      cases himage
      cases hmessage
      exact h.queued heap

/-- A list of two ids on its way to the peer that asked for it. -/
theorem wire_format_agrees_list :
    (ofSender .empty (.sendPartitionList ['3', ',', '7', ','])).bind read =
      some ⟨.sentPartitions, ⟨0, 0, 0⟩, ['3', ',', '7', ','], 4⟩ := by
  have htyped : Connection.empty.Typed := by
    intro addr mr h
    cases h
  exact (@wire_format_agrees _ htyped (.sendPartitionList ['3', ',', '7', ','])
    ⟨by decide, by simp [IsText]⟩).1

end Image

end RdmaMigration.Network
