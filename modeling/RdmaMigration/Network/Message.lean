import Mathlib.Data.List.AList
import Mathlib.Data.List.Sort
import RdmaMigration.Lib.MachineInt

/-! # Messages and connections

`rdma_message`, the messages the senders of `RDMAServerPrototype` build, and the
two registration maps of a connection. An entry of `registrations` is a memory
region the NIC knows; an entry of `remoteRegistrations` is what the peer told us
about one of its regions.
-/

namespace RdmaMigration.Network

open Lib

inductive MessageType where
  | getPartitions
  | sentPartitions
  | user
  | meminfo
  | ackMeminfo
  | done
  | prepare
  | accept
  | decline
  | transfer
  | doneTransfer
  deriving DecidableEq, Repr

structure RemoteRegion where
  addr : Nat
  length : Nat
  rkey : Nat
  deriving DecidableEq, Repr

structure RdmaMessage where
  messageType : MessageType
  regionInfo : RemoteRegion
  data : List Char
  dataSize : Nat
  deriving DecidableEq, Repr

def RdmaMessage.cleared (type : MessageType) : RdmaMessage := ⟨type, ⟨0, 0, 0⟩, [], 0⟩

/-- `send_accept`, `send_decline` and `send_close` send a range without a key. -/
def RdmaMessage.ofRange (type : MessageType) (addr len : Nat) : RdmaMessage :=
  { RdmaMessage.cleared type with regionInfo := ⟨addr, len, 0⟩ }

def sendAccept (addr len : Nat) : RdmaMessage := .ofRange .accept addr len

def sendDecline (addr len : Nat) : RdmaMessage := .ofRange .decline addr len

def sendClose (addr len : Nat) : RdmaMessage := .ofRange .doneTransfer addr len

structure Registration where
  length : Nat
  rkey : Nat
  deriving DecidableEq, Repr

structure Connection where
  registrations : AList fun _ : Nat => Registration
  remoteRegistrations : AList fun _ : Nat => RemoteRegion
  recvQueue : List RdmaMessage

namespace Connection

def empty : Connection := ⟨∅, ∅, []⟩

/-- `register_memory_with_conn`: the size parameter is an `int`, which
`ibv_reg_mr` takes back as a `size_t`. -/
def registerMemory (c : Connection) (addr size rkey : Nat) : Connection :=
  { c with registrations := c.registrations.insert addr ⟨toSizeT (toInt32 size), rkey⟩ }

theorem lookup_registerMemory (c : Connection) {addr size rkey : Nat} (hsize : size < 2 ^ 31) :
    (c.registerMemory addr size rkey).registrations.lookup addr = some ⟨size, rkey⟩ := by
  have hlen : toSizeT (toInt32 size) = size := by
    rw [toInt32_of_lt hsize, toSizeT_natCast (by omega)]
  rw [registerMemory, AList.lookup_insert, hlen]

theorem lookup_registerMemory_ne (c : Connection) {addr addr' : Nat} (size rkey : Nat)
    (h : addr' ≠ addr) : (c.registerMemory addr size rkey).registrations.lookup addr' =
      c.registrations.lookup addr' :=
  AList.lookup_insert_ne h

def unregister (c : Connection) (addr : Nat) : Connection :=
  { c with registrations := c.registrations.erase addr }

/-- `deregister_memory`. The index operator makes a null entry for an unknown
address, and `none` is `ibv_dereg_mr` on that null pointer. -/
def deregisterMemory (c : Connection) (addr : Nat) : Option Connection :=
  (c.registrations.lookup addr).map fun _ => c.unregister addr

/-- `send_prepare`, with the client id as payload in the fault-tolerant build.
`none` is the null pointer of an address that is not registered. -/
def sendPrepare (c : Connection) (addr len : Nat) (clientId : List Char) : Option RdmaMessage :=
  (c.registrations.lookup addr).map fun mr =>
    ⟨.prepare, ⟨addr, len, mr.rkey⟩, clientId, clientId.length⟩

def sendTransfer (c : Connection) (addr len : Nat) : Option RdmaMessage :=
  (c.registrations.lookup addr).map fun mr =>
    { RdmaMessage.cleared .transfer with regionInfo := ⟨addr, len, mr.rkey⟩ }

def announce (c : Connection) (m : RdmaMessage) : Connection :=
  if m.messageType = .transfer then
    { c with remoteRegistrations := c.remoteRegistrations.insert m.regionInfo.addr m.regionInfo }
  else c

def receive (c : Connection) (m : RdmaMessage) : Connection :=
  { c.announce m with recvQueue := c.recvQueue ++ [m] }

end Connection

inductive Side where
  | client
  | server
  deriving DecidableEq, Repr

def Side.peer : Side → Side
  | .client => .server
  | .server => .client

@[simp] theorem Side.peer_peer (i : Side) : i.peer.peer = i := by cases i <;> rfl

theorem Side.peer_ne (i : Side) : i.peer ≠ i := by cases i <;> decide

theorem Side.eq_or_eq_peer (i j : Side) : j = i ∨ j = i.peer := by
  cases i <;> cases j <;> decide

/-- The loops of `rdma_read` over a registration map: the first region, in the
order of the addresses, that contains the whole range. -/
def firstContaining {ν : Type} (regions : AList fun _ : Nat => ν) (length : ν → Nat)
    (addr len : Nat) : Option ν :=
  ((regions.entries.insertionSort fun x y => x.1 ≤ y.1).find? fun e =>
    e.1 ≤ addr ∧ wrap64 (addr + len) ≤ wrap64 (e.1 + length e.2)).map (·.2)

theorem firstContaining_isSome {ν : Type} {regions : AList fun _ : Nat => ν} {length : ν → Nat}
    {addr len base : Nat} {region : ν} (h : regions.lookup base = some region)
    (hlo : base ≤ addr) (hhi : wrap64 (addr + len) ≤ wrap64 (base + length region)) :
    (firstContaining regions length addr len).isSome := by
  have hmem : (⟨base, region⟩ : Sigma fun _ : Nat => ν) ∈
      regions.entries.insertionSort fun x y => x.1 ≤ y.1 :=
    (List.mem_insertionSort _).mpr (AList.mem_lookup_iff.mp h)
  simp only [firstContaining, Option.isSome_map, List.find?_isSome]
  exact ⟨_, hmem, by simp [hlo, hhi]⟩

theorem firstContaining_mem {ν : Type} {regions : AList fun _ : Nat => ν} {length : ν → Nat}
    {addr len : Nat} {region : ν} (h : firstContaining regions length addr len = some region) :
    ∃ base, regions.lookup base = some region ∧ base ≤ addr ∧
      wrap64 (addr + len) ≤ wrap64 (base + length region) := by
  obtain ⟨e, he, rfl⟩ := Option.map_eq_some_iff.mp h
  have hcontains := List.find?_some he
  simp only [decide_eq_true_eq] at hcontains
  have hmem := (List.mem_insertionSort _).mp (List.mem_of_find?_eq_some he)
  exact ⟨e.1, AList.mem_lookup_iff.mpr hmem, hcontains⟩

/-- Where only one region contains the range, it is found whatever the order. -/
theorem firstContaining_eq {ν : Type} {regions : AList fun _ : Nat => ν} {length : ν → Nat}
    {addr len base : Nat} {region : ν} (h : regions.lookup base = some region)
    (hlo : base ≤ addr) (hhi : wrap64 (addr + len) ≤ wrap64 (base + length region))
    (honly : ∀ base' region', regions.lookup base' = some region' → base' ≤ addr →
      wrap64 (addr + len) ≤ wrap64 (base' + length region') → base' = base) :
    firstContaining regions length addr len = some region := by
  obtain ⟨found, hfound⟩ := Option.isSome_iff_exists.mp (firstContaining_isSome h hlo hhi)
  obtain ⟨base', hlookup, hlo', hhi'⟩ := firstContaining_mem hfound
  rw [honly base' found hlookup hlo' hhi', h, Option.some.injEq] at hlookup
  rw [hfound, hlookup]

/-- The two regions that `rdma_read` finds: the read is posted with the `lkey` of
the first and the `rkey` of the second. `none` is the result -1. -/
def Connection.rdmaRead (c : Connection) (localAddr remoteAddr len : Nat) :
    Option (Registration × RemoteRegion) := do
  let mr ← firstContaining c.registrations Registration.length localAddr len
  let region ← firstContaining c.remoteRegistrations RemoteRegion.length remoteAddr len
  return (mr, region)

/-- The NIC serves a remote access to a range with the key of a region that contains it.
A region whose entry has been overwritten is not counted. -/
def Connection.Serves (c : Connection) (rkey addr len : Nat) : Prop :=
  ∃ e ∈ c.registrations.entries,
    e.2.rkey = rkey ∧ e.1 ≤ addr ∧ addr + len ≤ e.1 + e.2.length

instance (c : Connection) (rkey addr len : Nat) : Decidable (c.Serves rkey addr len) :=
  inferInstanceAs (Decidable (∃ e ∈ c.registrations.entries, _))

theorem Connection.serves_of_lookup {c : Connection} {addr len : Nat} {mr : Registration}
    (h : c.registrations.lookup addr = some mr) (hlen : len ≤ mr.length) :
    c.Serves mr.rkey addr len :=
  ⟨⟨addr, mr⟩, AList.mem_lookup_iff.mp h, rfl, Nat.le_refl _, Nat.add_le_add_left hlen _⟩

end RdmaMigration.Network
