import RdmaMigration.Lib.Ranges
import RdmaMigration.Lib.Update
import RdmaMigration.Network.Message
import RdmaMigration.Paging.Pages

/-! # The state of one memory manager

Segment records live on a heap and are never deleted; the tables, the free lists
and the three queues hold pointers to them, so that one update shows through all
of them. `mapped` and `bytes` are the part of the process's address space that
the manager maps itself.
-/

namespace RdmaMigration.Manager

open Lib Network Paging

/-- The compile-time switches that the modelled functions read. -/
structure Build where
  faultTolerant : Bool
  paging : Bool
  deriving DecidableEq, Repr

inductive SegmentState where
  | dirty
  | invalid
  | shared
  | clean
  | owned
  deriving DecidableEq, Repr

structure RDMAMemory where
  vaddr : Nat
  size : Nat
  owner : Int
  state : SegmentState
  pair : Int
  applicationId : Int
  pages : Pages
  deriving DecidableEq, Repr

/-- The constructors with the default page size; `none` is the `length_error` of
the page vector. Without fault tolerance there is no `application_id`. -/
def RDMAMemory.construct (owner : Int) (addr size : Nat) (appId : Int) : Option RDMAMemory :=
  (Pages.construct addr size defaultPageSize).map fun pages =>
    ⟨addr, size, owner, .clean, -1, appId, pages⟩

theorem RDMAMemory.construct_eq {owner appId : Int} {addr size : Nat} {r : RDMAMemory}
    (h : RDMAMemory.construct owner addr size appId = some r) :
    r.vaddr = addr ∧ r.size = size ∧ r.owner = owner ∧ r.state = .clean ∧ r.pair = -1 ∧
      r.applicationId = appId := by
  obtain ⟨pages, -, rfl⟩ := Option.map_eq_some_iff.mp h
  exact ⟨rfl, rfl, rfl, rfl, rfl, rfl⟩

/-- The ways a call can end other than by returning. -/
inductive Fault where
  | endIterator
  | outOfRange
  | lengthError
  | nullPointer
  | invalidArgument
  | remoteAccess
  deriving DecidableEq, Repr

structure Server where
  serverId : Int
  endAddress : Nat
  allocAddress : Nat
  heap : List RDMAMemory
  memoryMap : AList fun _ : Nat => Nat
  freeMap : AList fun _ : Nat => List Nat
  localSegments : AList fun _ : Nat => Nat
  incomingTransfers : List Nat
  incomingAccepts : List Nat
  incomingDones : List Nat
  connections : Int → Connection
  nextKey : Nat
  mapped : List (Nat × Nat)
  bytes : Nat → UInt8

def allocatableRangeStart : Nat := 2 ^ 44

def allocatableRangeEnd : Nat := 2 ^ 47 - 2 ^ 44

def perServer (numServers : Nat) : Nat :=
  (allocatableRangeEnd - allocatableRangeStart) / numServers

def startAddress (numServers : Nat) (serverId : Int) : Nat :=
  allocatableRangeStart + serverId.toNat * perServer numServers

def Server.construct (numServers : Nat) (serverId : Int) : Server :=
  { serverId := serverId
    endAddress := startAddress numServers serverId + perServer numServers
    allocAddress := startAddress numServers serverId
    heap := []
    memoryMap := ∅
    freeMap := ∅
    localSegments := ∅
    incomingTransfers := []
    incomingAccepts := []
    incomingDones := []
    connections := fun _ => .empty
    nextKey := 1
    mapped := []
    bytes := fun _ => 0 }

namespace Server

/-! ## Records and tables -/

def table (b : Build) (s : Server) : AList fun _ : Nat => Nat :=
  if b.faultTolerant then s.localSegments else s.memoryMap

def setTable (b : Build) (s : Server) (t : AList fun _ : Nat => Nat) : Server :=
  if b.faultTolerant then { s with localSegments := t } else { s with memoryMap := t }

def modify (s : Server) (p : Nat) (f : RDMAMemory → RDMAMemory) : Server :=
  { s with heap := s.heap.modify p f }

/-- `UpdateState` and `UpdatePair` find the record and leave everything alone
when there is none. -/
def updateRecord (b : Build) (s : Server) (addr : Nat) (f : RDMAMemory → RDMAMemory) : Server :=
  match (s.table b).lookup addr with
  | some p => s.modify p f
  | none => s

def updateState (b : Build) (s : Server) (addr : Nat) (state : SegmentState) : Server :=
  s.updateRecord b addr fun r => { r with state := state }

def updatePair (b : Build) (s : Server) (addr : Nat) (id : Int) : Server :=
  s.updateRecord b addr fun r => { r with pair := id }

theorem updateRecord_eq (b : Build) (s : Server) (addr : Nat) (f : RDMAMemory → RDMAMemory) :
    s.updateRecord b addr f = { s with heap := (s.updateRecord b addr f).heap } := by
  unfold updateRecord
  split
  · rfl
  · rfl

@[simp] theorem table_updateState (b : Build) (s : Server) (addr : Nat) (state : SegmentState) :
    (s.updateState b addr state).table b = s.table b := by
  rw [updateState, updateRecord_eq]
  rfl

@[simp] theorem incomingTransfers_updateState (b : Build) (s : Server) (addr : Nat)
    (state : SegmentState) :
    (s.updateState b addr state).incomingTransfers = s.incomingTransfers := by
  rw [updateState, updateRecord_eq]

def insertRecord (b : Build) (s : Server) (addr : Nat) (r : RDMAMemory) : Server :=
  { s.setTable b ((s.table b).insert addr s.heap.length) with heap := s.heap ++ [r] }

/-- The end of every `allocate`: the constructed record is entered under `addr`.
The constructor may have thrown. -/
def enter (b : Build) (s : Server) (addr : Nat) (made : Option RDMAMemory) :
    Server × Except Fault (Option Nat) :=
  match made with
  | none => (s, .error .lengthError)
  | some r => (s.insertRecord b addr r, .ok (some r.vaddr))

theorem enter_cases {b : Build} {s s' : Server} {addr : Nat} {made : Option RDMAMemory}
    {result : Except Fault (Option Nat)} (h : s.enter b addr made = (s', result)) :
    (s' = s ∧ result = .error .lengthError) ∨
      ∃ r, made = some r ∧ s' = s.insertRecord b addr r ∧ result = .ok (some r.vaddr) := by
  cases made with
  | none =>
      cases h
      exact .inl ⟨rfl, rfl⟩
  | some r =>
      cases h
      exact .inr ⟨r, rfl, rfl, rfl⟩

theorem insertRecord_of_memoryMap {b : Build} (hb : b.faultTolerant = false) (s : Server)
    (addr : Nat) (r : RDMAMemory) :
    s.insertRecord b addr r =
      { s with heap := s.heap ++ [r], memoryMap := s.memoryMap.insert addr s.heap.length } := by
  simp [insertRecord, setTable, table, hb]

/-! ## The address space -/

/-- The kernel maps whole pages. -/
def pageUp (size : Nat) : Nat := 4096 * ((size + 4095) / 4096)

theorem le_pageUp (size : Nat) : size ≤ pageUp size := by
  unfold pageUp
  omega

/-- Where `mmap` without `MAP_FIXED` may place a mapping: on a page boundary, in
user space, and never over an existing mapping. It refuses a size of zero. -/
def MapsAt (s : Server) (size res : Nat) : Prop :=
  0 < size ∧ res % 4096 = 0 ∧ res + pageUp size ≤ 2 ^ 47 ∧
    ∀ q ∈ s.mapped, ¬ Overlap (res, pageUp size) q

instance (s : Server) (size res : Nat) : Decidable (s.MapsAt size res) :=
  inferInstanceAs (Decidable (_ ∧ _))

/-- A new mapping reads as zeros. -/
def mmap (s : Server) (size res : Nat) : Server :=
  { s with
    mapped := (res, pageUp size) :: s.mapped
    bytes := fun a => if Covers (res, pageUp size) a then 0 else s.bytes a }

@[simp] theorem mmap_heap (s : Server) (size res : Nat) : (s.mmap size res).heap = s.heap := rfl

@[simp] theorem mmap_memoryMap (s : Server) (size res : Nat) :
    (s.mmap size res).memoryMap = s.memoryMap := rfl

def munmap (s : Server) (addr size : Nat) : Server :=
  { s with mapped := cut (addr, pageUp size) s.mapped }

end Server

end RdmaMigration.Manager
