import RdmaMigration.Lib.Bytes
import RdmaMigration.Network.Receive
import RdmaMigration.Network.Send

/-! # Messages as bytes

`struct rdma_message` as it lies in memory: the type, the region, 2048 bytes of data
and the size of the data, on a machine with 64-bit pointers. The senders clear the
whole struct, fill in their fields and post it; `on_recv_finish` hands copies of what
has arrived to `recv_queue`. An address in a memory is an offset from the start of the
struct, or from the pointer that is enqueued.
-/

namespace RdmaMigration.Network

open Lib

def MessageType.code : MessageType → Nat
  | getPartitions => 0
  | sentPartitions => 1
  | user => 2
  | meminfo => 3
  | ackMeminfo => 4
  | done => 5
  | prepare => 6
  | accept => 7
  | decline => 8
  | transfer => 9
  | doneTransfer => 10

def MessageType.ofCode : Nat → Option MessageType
  | 0 => some getPartitions
  | 1 => some sentPartitions
  | 2 => some user
  | 3 => some meminfo
  | 4 => some ackMeminfo
  | 5 => some done
  | 6 => some prepare
  | 7 => some accept
  | 8 => some decline
  | 9 => some transfer
  | 10 => some doneTransfer
  | _ => none

theorem MessageType.ofCode_code (type : MessageType) : ofCode type.code = some type := by
  cases type <;> rfl

theorem MessageType.code_lt (type : MessageType) : type.code < 256 ^ 4 := by
  cases type <;> decide

namespace Image

/-! ## The layout -/

def messageTypeOffset : Nat := 0

def addrOffset : Nat := 8

def lengthOffset : Nat := 16

def rkeyOffset : Nat := 24

def dataOffset : Nat := 32

def dataSizeOffset : Nat := dataOffset + maxDataSize

def size : Nat := dataSizeOffset + 8

def cleared : Memory := fun _ => 0

def setMessageType (m : Memory) (type : MessageType) : Memory :=
  writeLE m messageTypeOffset 4 type.code

def setAddr (m : Memory) (addr : Nat) : Memory := writeLE m addrOffset 8 addr

def setLength (m : Memory) (length : Nat) : Memory := writeLE m lengthOffset 8 length

def setRkey (m : Memory) (rkey : Nat) : Memory := writeLE m rkeyOffset 4 rkey

def setDataSize (m : Memory) (dataSize : Nat) : Memory := writeLE m dataSizeOffset 8 dataSize

def copyData (m : Memory) (bytes : List UInt8) : Memory := writeBytes m dataOffset bytes

/-! ## The senders -/

/-- `send`; `none` is the `logic_error` of a payload that is too long. -/
def send (payload : List UInt8) : Option Memory :=
  if maxDataSize < payload.length then none
  else
    let m := setMessageType cleared .user
    let m := copyData m payload
    some (setDataSize m payload.length)

/-- `send_prepare`; `none` is the null pointer of an address that is not registered. -/
def sendPrepare (c : Connection) (startAddr len : Nat) : Option Memory :=
  (c.registrations.lookup startAddr).map fun mr =>
    let m := setMessageType cleared .prepare
    let m := setAddr m startAddr
    let m := setLength m len
    let m := setRkey m mr.rkey
    setDataSize m 0

def sendPrepareFor (c : Connection) (startAddr len : Nat) (clientId : List UInt8) :
    Option Memory :=
  (c.registrations.lookup startAddr).map fun mr =>
    let m := setMessageType cleared .prepare
    let m := setAddr m startAddr
    let m := setLength m len
    let m := setRkey m mr.rkey
    let m := copyData m clientId
    setDataSize m clientId.length

def getPartitionList : Memory := setMessageType cleared .getPartitions

/-- The characters of the list and a null byte behind them. The assertion on the size
only logs. -/
def copyList (m : Memory) (str : List UInt8) : Memory :=
  writeBytes (copyData m str) (dataOffset + str.length) [0]

def sendPartitionList (str : List UInt8) : Memory :=
  let m := setMessageType cleared .sentPartitions
  let m := copyList m str
  setDataSize m str.length

def sendRange (type : MessageType) (startAddr len : Nat) : Memory :=
  let m := setMessageType cleared type
  let m := setAddr m startAddr
  let m := setLength m len
  setDataSize m 0

def sendDecline (startAddr len : Nat) : Memory := sendRange .decline startAddr len

def sendAccept (startAddr len : Nat) : Memory := sendRange .accept startAddr len

def sendTransfer (c : Connection) (startAddr len : Nat) : Option Memory :=
  (c.registrations.lookup startAddr).map fun mr =>
    let m := setMessageType cleared .transfer
    let m := setAddr m startAddr
    let m := setLength m len
    let m := setRkey m mr.rkey
    setDataSize m 0

def sendClose (addr len : Nat) : Memory := sendRange .doneTransfer addr len

/-! ## The receiver -/

/-- What `on_recv_finish` puts into `recv_queue`: the memory behind the pointer, which
goes over into whatever the heap has there. Of a `MSG_USER` it is the data alone. The
other types that are not queued whole are not queued at all, and an unknown type is
an exception. -/
def onRecvFinish (heap m : Memory) : Option Memory := do
  let type ← MessageType.ofCode (readLE m messageTypeOffset 4)
  if type = .user then
    let dataSize := readLE m dataSizeOffset 8
    some fun x => if x < dataSize then m (dataOffset + x) else heap x
  else if copiesWhole type then some fun x => if x < size then m x else heap x
  else none

/-! ## What a built message holds -/

structure Holds (m : Memory) (type : MessageType) (addr length rkey : Nat)
    (bytes : List UInt8) : Prop where
  messageType : readLE m messageTypeOffset 4 = type.code
  addr : readLE m addrOffset 8 = addr
  length : readLE m lengthOffset 8 = length
  rkey : readLE m rkeyOffset 4 = rkey
  data : ∀ i, (h : i < bytes.length) → m (dataOffset + i) = bytes[i]
  dataSize : readLE m dataSizeOffset 8 = bytes.length

section Holds

variable {m : Memory} {type : MessageType} {a len key : Nat} {bytes : List UInt8}

theorem holds_cleared (type : MessageType) : Holds (setMessageType cleared type) type 0 0 0 [] := by
  have hzero : ∀ b w, 4 ≤ b → readLE (setMessageType cleared type) b w = 0 := by
    intro b w hb
    rw [setMessageType, readLE_writeLE_apart (.inr (by unfold messageTypeOffset; omega))]
    exact readLE_zero b w
  refine ⟨?_, hzero _ _ (by decide), hzero _ _ (by decide), hzero _ _ (by decide),
    fun i h => absurd h (Nat.not_lt_zero i), hzero _ _ (by decide)⟩
  rw [setMessageType, readLE_writeLE, Nat.mod_eq_of_lt type.code_lt]

theorem data_writeLE {b w v : Nat} (hb : b + w ≤ dataOffset)
    (hdata : ∀ i, (h : i < bytes.length) → m (dataOffset + i) = bytes[i]) :
    ∀ i, (h : i < bytes.length) → writeLE m b w v (dataOffset + i) = bytes[i] := by
  intro i h
  rw [writeLE_outside]
  · exact hdata i h
  · unfold Covers
    dsimp only
    omega

theorem Holds.setAddr (h : Holds m type a len key bytes) {addr : Nat} (haddr : addr < 2 ^ 64) :
    Holds (setAddr m addr) type addr len key bytes := by
  refine ⟨?_, ?_, ?_, ?_, data_writeLE (by decide) h.data, ?_⟩
  · rw [Image.setAddr, readLE_writeLE_apart (by decide), h.messageType]
  · exact (readLE_writeLE m addrOffset 8 addr).trans (Nat.mod_eq_of_lt haddr)
  · rw [Image.setAddr, readLE_writeLE_apart (by decide), h.length]
  · rw [Image.setAddr, readLE_writeLE_apart (by decide), h.rkey]
  · rw [Image.setAddr, readLE_writeLE_apart (by decide), h.dataSize]

theorem Holds.setLength (h : Holds m type a len key bytes) {length : Nat}
    (hlength : length < 2 ^ 64) : Holds (setLength m length) type a length key bytes := by
  refine ⟨?_, ?_, ?_, ?_, data_writeLE (by decide) h.data, ?_⟩
  · rw [Image.setLength, readLE_writeLE_apart (by decide), h.messageType]
  · rw [Image.setLength, readLE_writeLE_apart (by decide), h.addr]
  · exact (readLE_writeLE m lengthOffset 8 length).trans (Nat.mod_eq_of_lt hlength)
  · rw [Image.setLength, readLE_writeLE_apart (by decide), h.rkey]
  · rw [Image.setLength, readLE_writeLE_apart (by decide), h.dataSize]

theorem Holds.setRkey (h : Holds m type a len key bytes) (rkey : Nat) :
    Holds (setRkey m rkey) type a len (rkey % 2 ^ 32) bytes := by
  refine ⟨?_, ?_, ?_, ?_, data_writeLE (by decide) h.data, ?_⟩
  · rw [Image.setRkey, readLE_writeLE_apart (by decide), h.messageType]
  · rw [Image.setRkey, readLE_writeLE_apart (by decide), h.addr]
  · rw [Image.setRkey, readLE_writeLE_apart (by decide), h.length]
  · exact readLE_writeLE m rkeyOffset 4 rkey
  · rw [Image.setRkey, readLE_writeLE_apart (by decide), h.dataSize]

theorem Holds.setData (h : Holds m type a len key []) {m' : Memory}
    (hfits : bytes.length ≤ maxDataSize) (hfront : ∀ x < dataOffset, m' x = m x)
    (hdata : ∀ i, (h : i < bytes.length) → m' (dataOffset + i) = bytes[i]) :
    Holds (setDataSize m' bytes.length) type a len key bytes := by
  have hread : ∀ b w, b + w ≤ dataOffset →
      readLE (setDataSize m' bytes.length) b w = readLE m b w := by
    intro b w hb
    rw [setDataSize, readLE_writeLE_apart (.inl (by unfold dataSizeOffset; omega))]
    refine readLE_congr fun x hx => hfront x ?_
    have hlt := hx.2
    dsimp only at hlt
    omega
  refine ⟨?_, ?_, ?_, ?_, ?_, ?_⟩
  · rw [hread _ _ (by decide), h.messageType]
  · rw [hread _ _ (by decide), h.addr]
  · rw [hread _ _ (by decide), h.length]
  · rw [hread _ _ (by decide), h.rkey]
  · intro i hi
    rw [setDataSize, writeLE_outside]
    · exact hdata i hi
    · unfold Covers dataSizeOffset
      dsimp only
      omega
  · have hsmall : bytes.length < 256 ^ 8 := Nat.lt_of_le_of_lt hfits (by decide)
    rw [setDataSize, readLE_writeLE, Nat.mod_eq_of_lt hsmall]

theorem Holds.copyData (h : Holds m type a len key []) (hfits : bytes.length ≤ maxDataSize) :
    Holds (setDataSize (copyData m bytes) bytes.length) type a len key bytes := by
  refine h.setData hfits ?_ fun i hi => writeBytes_inside hi
  intro x hx
  rw [Image.copyData, writeBytes_outside]
  unfold Covers
  dsimp only
  omega

theorem Holds.copyNone (h : Holds m type a len key []) :
    Holds (setDataSize m 0) type a len key [] :=
  h.setData (Nat.zero_le _) (fun _ _ => rfl) h.data

/-- A list of 2048 bytes fills the data, and its null byte falls into the size, which
is written after it. -/
theorem Holds.copyList (h : Holds m type a len key []) (hfits : bytes.length ≤ maxDataSize) :
    Holds (setDataSize (copyList m bytes) bytes.length) type a len key bytes := by
  refine h.setData hfits ?_ ?_
  · intro x hx
    rw [Image.copyList, writeBytes_outside, Image.copyData, writeBytes_outside]
    · unfold Covers
      dsimp only
      omega
    · unfold Covers
      dsimp only
      omega
  · intro i hi
    rw [Image.copyList, writeBytes_outside, Image.copyData, writeBytes_inside hi]
    unfold Covers
    dsimp only
    omega

end Holds

/-! ## The senders, field by field -/

section Senders

variable {c : Connection} {startAddr len : Nat} {m : Memory} {payload : List UInt8}

theorem holds_send (h : send payload = some m) : Holds m .user 0 0 0 payload := by
  unfold send at h
  split at h
  · cases h
  next hfits =>
    cases h
    exact (holds_cleared .user).copyData (Nat.le_of_not_lt hfits)

theorem holds_sendPrepare (haddr : startAddr < 2 ^ 64) (hlen : len < 2 ^ 64)
    (h : sendPrepare c startAddr len = some m) : ∃ mr, c.registrations.lookup startAddr = some mr ∧
      Holds m .prepare startAddr len (mr.rkey % 2 ^ 32) [] := by
  obtain ⟨mr, hmr, rfl⟩ := Option.map_eq_some_iff.mp h
  have hkeyed := (((holds_cleared .prepare).setAddr haddr).setLength hlen).setRkey mr.rkey
  exact ⟨mr, hmr, hkeyed.copyNone⟩

theorem holds_sendPrepareFor (haddr : startAddr < 2 ^ 64) (hlen : len < 2 ^ 64)
    (hfits : payload.length ≤ maxDataSize) (h : sendPrepareFor c startAddr len payload = some m) :
    ∃ mr, c.registrations.lookup startAddr = some mr ∧
      Holds m .prepare startAddr len (mr.rkey % 2 ^ 32) payload := by
  obtain ⟨mr, hmr, rfl⟩ := Option.map_eq_some_iff.mp h
  have hkeyed := (((holds_cleared .prepare).setAddr haddr).setLength hlen).setRkey mr.rkey
  exact ⟨mr, hmr, hkeyed.copyData hfits⟩

theorem holds_sendTransfer (haddr : startAddr < 2 ^ 64) (hlen : len < 2 ^ 64)
    (h : sendTransfer c startAddr len = some m) : ∃ mr, c.registrations.lookup startAddr = some mr ∧
      Holds m .transfer startAddr len (mr.rkey % 2 ^ 32) [] := by
  obtain ⟨mr, hmr, rfl⟩ := Option.map_eq_some_iff.mp h
  have hkeyed := (((holds_cleared .transfer).setAddr haddr).setLength hlen).setRkey mr.rkey
  exact ⟨mr, hmr, hkeyed.copyNone⟩

theorem holds_sendRange (type : MessageType) (haddr : startAddr < 2 ^ 64) (hlen : len < 2 ^ 64) :
    Holds (sendRange type startAddr len) type startAddr len 0 [] :=
  (((holds_cleared type).setAddr haddr).setLength hlen).copyNone

theorem holds_sendPartitionList (hfits : payload.length ≤ maxDataSize) :
    Holds (sendPartitionList payload) .sentPartitions 0 0 0 payload :=
  (holds_cleared .sentPartitions).copyList hfits

end Senders

/-! ## The messages as records -/

def charOf (b : UInt8) : Char := Char.ofNat b.toNat

def byteOf (c : Char) : UInt8 := UInt8.ofNat c.toNat

theorem charOf_byteOf {c : Char} (h : c.toNat < 256) : charOf (byteOf c) = c := by
  rw [charOf, byteOf, UInt8.toNat_ofNat', Nat.mod_eq_of_lt h, Char.ofNat_toNat]

def read (m : Memory) : Option RdmaMessage := do
  let type ← MessageType.ofCode (readLE m messageTypeOffset 4)
  let dataSize := readLE m dataSizeOffset 8
  return ⟨type, ⟨readLE m addrOffset 8, readLE m lengthOffset 8, readLE m rkeyOffset 4⟩,
    (List.range dataSize).map fun i => charOf (m (dataOffset + i)), dataSize⟩

theorem Holds.read {m : Memory} {type : MessageType} {a len key : Nat} {bytes : List UInt8}
    (h : Holds m type a len key bytes) :
    read m = some ⟨type, ⟨a, len, key⟩, bytes.map charOf, bytes.length⟩ := by
  have hdata : (List.range bytes.length).map (fun i => charOf (m (dataOffset + i))) =
      bytes.map charOf := by
    refine List.ext_getElem (by simp) ?_
    intro i hi hi'
    rw [List.length_map] at hi'
    simp [h.data i hi']
  simp [Image.read, h.messageType, h.addr, h.length, h.rkey, h.dataSize, hdata,
    MessageType.ofCode_code]

theorem map_charOf_byteOf {text : List Char} (hbytes : ∀ ch ∈ text, ch.toNat < 256) :
    (text.map byteOf).map charOf = text := by
  have hsame : text.map (charOf ∘ byteOf) = text.map id :=
    List.map_congr_left fun ch hch => charOf_byteOf (hbytes ch hch)
  rw [List.map_map, hsame, List.map_id]

/-- A message other than `MSG_USER` is queued as it is, whatever it holds. -/
theorem onRecvFinish_whole {m : Memory} {type : MessageType}
    (htype : readLE m messageTypeOffset 4 = type.code) (hwhole : copiesWhole type = true)
    (heap : Memory) :
    ∃ p, onRecvFinish heap m = some p ∧ (∀ x < size, p x = m x) ∧
      ∀ b w, b + w ≤ size → readLE p b w = readLE m b w := by
  have huser : type ≠ .user := by
    rintro rfl
    cases hwhole
  have hcopy : ∀ x < size, (fun x => if x < size then m x else heap x) x = m x :=
    fun x hx => if_pos hx
  refine ⟨fun x => if x < size then m x else heap x, ?_, hcopy, ?_⟩
  · simp [onRecvFinish, htype, MessageType.ofCode_code, huser, hwhole]
  · intro b w hb
    refine readLE_congr fun x hx => hcopy x ?_
    have hlt := hx.2
    dsimp only at hlt
    omega

theorem Holds.queued {m : Memory} {type : MessageType} {a len key : Nat} {bytes : List UInt8}
    (h : Holds m type a len key bytes) (hwhole : copiesWhole type = true)
    (hfits : bytes.length ≤ maxDataSize) (heap : Memory) :
    ∃ p, onRecvFinish heap m = some p ∧ Holds p type a len key bytes ∧ ∀ x < size, p x = m x := by
  obtain ⟨p, hp, hcopy, hread⟩ := onRecvFinish_whole h.messageType hwhole heap
  refine ⟨p, hp, ⟨?_, ?_, ?_, ?_, ?_, ?_⟩, hcopy⟩
  · rw [hread _ _ (by decide), h.messageType]
  · rw [hread _ _ (by decide), h.addr]
  · rw [hread _ _ (by decide), h.length]
  · rw [hread _ _ (by decide), h.rkey]
  · intro i hi
    have hlt : dataOffset + i < size := by
      unfold size dataSizeOffset
      omega
    exact (hcopy _ hlt).trans (h.data i hi)
  · rw [hread _ _ (by decide), h.dataSize]

end Image

end RdmaMigration.Network
