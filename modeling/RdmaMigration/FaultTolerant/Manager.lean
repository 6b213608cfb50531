import RdmaMigration.Coordinator.Node

/-! # The manager with fault tolerance

The calls of `RDMAMemoryManager` that go through ZooKeeper: segments have an id
given by the application, `local_segments` takes the place of `memory_map`, there
are no free lists, and the poller keeps the records of a migration up to date.
-/

namespace RdmaMigration.FaultTolerant

open Lib Network Manager Coordinator

def build (paging : Bool) : Build := ⟨true, paging⟩

@[simp] theorem build_faultTolerant (paging : Bool) : (build paging).faultTolerant = true := rfl

variable (paging : Bool)

def plain {α : Type} (x : Except Fault α) : Zk α := fun s => x.map fun a => (a, s)

theorem plain_eq_ok {α : Type} {x : Except Fault α} {s : Session} {r : α × Session} :
    plain x s = .ok r ↔ ∃ a, x = .ok a ∧ r = (a, s) := by
  cases x with
  | error e => simp [plain, Except.map]
  | ok a => simp [plain, Except.map, eq_comm]

def enter (s : Server) (res size : Nat) (id : Int) : Zk (Server × Option Nat) := do
  let r ← Zk.orThrow .lengthError (RDMAMemory.construct s.serverId res size id)
  return (s.insertRecord (build paging) res r, some r.vaddr)

/-- `allocate(size, application_id)`. `mapped` is the answer of `mmap`; an answer
other than the address asked for is only logged. -/
def allocate (s : Server) (size : Nat) (id : Int) (mapped : Option Nat) :
    Zk (Server × Option Nat) := do
  let address ← getAllocationAddress size
  match mapped with
  | none => return (s, none)
  | some res =>
      let s := s.mmap size res
      if ← createMemorySegmentNode address size s.serverId (-1) id then
        if ← addToProcessList s.serverId id then enter paging s res size id
        else return (s.munmap res size, none)
      else return (s.munmap res size, none)

/-- The local part of `deallocate`. The size unmapped is the one recorded in
ZooKeeper. -/
def forget (s : Server) (addr size : Nat) : Zk Server :=
  match s.localSegments.lookup addr with
  | none => return s
  | some p => do
      let memory ← Zk.orThrow .nullPointer s.heap[p]?
      let _ ← removeFromProcessList s.serverId memory.applicationId
      return { s.munmap addr size with localSegments := s.localSegments.erase addr }

/-- `deallocate(application_id)`, and whether it returns 0. -/
def deallocate (s : Server) (id : Int) : Zk (Server × Bool) := do
  let map ← getMemorySegment id
  let addr ← Zk.orThrow .invalidArgument (stoul (map.field Key.address))
  let size ← Zk.orThrow .invalidArgument (stoull (map.field Key.size))
  let s ← forget s addr size
  let removed ← deleteMemorySegment id
  return (s, removed)

/-- `accept(v_addr, size, source, client_id)`. The id is entered into the process
list before the result of `allocate` is looked at. -/
def accept (s : Server) (addr size : Nat) (source id : Int) (mapped : Option Nat) :
    Zk (Server × RdmaMessage) := do
  let (s, result) := s.allocateAt (build paging) size id mapped
  let mem ← plain result
  let _ ← addToProcessList s.serverId id
  return s.answer (build paging) addr size source mem

def onAccept (s : Server) (addr : Nat) : Zk Server := do
  let p ← Zk.orThrow .endIterator (s.localSegments.lookup addr)
  let memory ← Zk.orThrow .nullPointer s.heap[p]?
  let _ ← updateSegmentDestination memory.applicationId memory.pair
  return { s with incomingAccepts := s.incomingAccepts ++ [p] }

def close (s : Server) (addr size : Nat) (source : Int) : Zk (Server × RdmaMessage) := do
  let p ← Zk.orThrow .nullPointer (s.localSegments.lookup addr)
  let memory ← Zk.orThrow .nullPointer s.heap[p]?
  let _ ← cleanMemorySegment s.serverId memory.applicationId
  plain (s.close (build paging) addr size source)

def getLocalSegmentsList (s : Server) : List Int :=
  s.localSegments.entries.filterMap fun e =>
    (s.heap[e.2]?).bind fun memory =>
      if memory.state = .clean then some memory.applicationId else none

def partitionsReply (s : Server) : RdmaMessage :=
  let list := processListToZs (getLocalSegmentsList s)
  { RdmaMessage.cleared .sentPartitions with data := list, dataSize := list.length }

/-- One round of `poller_thread_method`, as `Server.handle`. -/
def handle (s remote : Server) (m : RdmaMessage) (source : Int) (mapped : Option Nat) :
    Zk (Server × Option RdmaMessage) :=
  let addr := m.regionInfo.addr
  let size := m.regionInfo.length
  match getMessageType m.messageType with
  | .prepare => do
      let (s, reply) ← accept paging s addr size source (atol (cStr m.data)) mapped
      return (s, some reply)
  | .accept => do return (← onAccept s addr, none)
  | .decline => do return (← plain (s.deregisterMemory source addr), none)
  | .transfer => do
      return (← plain (s.receiveTransfer (build paging) remote addr size source), none)
  | .done => do return (← plain (s.onClose (build paging) addr source), none)
  | .getPartitions => return (s, some (partitionsReply s))
  | .sentPartitions | .user => return (s, none)

/-- `RDMAContainerBase::PollForClose` of a container whose pool is at `addr`: the
record it took from the queue and whether its `deallocate` returned 0, or nothing
when it returns false. -/
def pollForClose (s : Server) (addr : Nat) : Zk (Server × Option (RDMAMemory × Bool)) :=
  match s.incomingDones with
  | [] => return (s, none)
  | p :: rest => do
      let memory ← Zk.orThrow .nullPointer s.heap[p]?
      if memory.vaddr = addr then
        let (s, removed) ← deallocate { s with incomingDones := rest } memory.applicationId
        return (s, some (memory, removed))
      else return (s, none)

def recordedAddress (z : Session) (id : Int) : Option Nat :=
  (zsToMap (textOf (z.arrive.store.get (.segment id)))).bind fun map =>
    stoul (map.field Key.address)

/-! ## What each call does to the server -/

section Cases

variable {paging : Bool} {s s' : Server} {m : RdmaMessage} {addr size : Nat} {id source : Int}
  {mapped result : Option Nat} {z t : Session}

theorem allocate_cases (h : allocate paging s size id mapped z = .ok ((s', result), t)) :
    (mapped = none ∧ s' = s ∧ result = none) ∨
    ∃ res, mapped = some res ∧
      ((s' = (s.mmap size res).munmap res size ∧ result = none) ∨
      ∃ r, RDMAMemory.construct s.serverId res size id = some r ∧
        s' = (s.mmap size res).insertRecord (build paging) res r ∧ result = some r.vaddr) := by
  obtain ⟨address, z₁, -, h⟩ := Zk.bind_eq_ok.mp h
  cases mapped with
  | none =>
      cases Zk.pure_eq_ok.mp h
      exact .inl ⟨rfl, rfl, rfl⟩
  | some res =>
      refine .inr ⟨res, rfl, ?_⟩
      obtain ⟨created, z₂, -, h⟩ := Zk.bind_eq_ok.mp h
      cases created with
      | false =>
          cases Zk.pure_eq_ok.mp h
          exact .inl ⟨rfl, rfl⟩
      | true =>
          obtain ⟨added, z₃, -, h⟩ := Zk.bind_eq_ok.mp h
          cases added with
          | false =>
              cases Zk.pure_eq_ok.mp h
              exact .inl ⟨rfl, rfl⟩
          | true =>
              obtain ⟨r, z₄, hr, h⟩ := Zk.bind_eq_ok.mp h
              cases Zk.pure_eq_ok.mp h
              obtain ⟨r, hconstruct, heq⟩ := Zk.orThrow_eq_ok.mp hr
              cases heq
              exact .inr ⟨r, hconstruct, rfl, rfl⟩

theorem forget_cases (h : forget s addr size z = .ok (s', t)) :
    s' = s ∨ ((s.localSegments.lookup addr).isSome ∧
      s' = { s.munmap addr size with localSegments := s.localSegments.erase addr }) := by
  cases hlookup : s.localSegments.lookup addr with
  | none =>
      simp only [forget, hlookup] at h
      cases Zk.pure_eq_ok.mp h
      exact .inl rfl
  | some p =>
      simp only [forget, hlookup] at h
      obtain ⟨memory, z₁, -, h⟩ := Zk.bind_eq_ok.mp h
      obtain ⟨removed, z₂, -, h⟩ := Zk.bind_eq_ok.mp h
      cases Zk.pure_eq_ok.mp h
      exact .inr ⟨rfl, rfl⟩

theorem deallocate_cases {removed : Bool} (h : deallocate s id z = .ok ((s', removed), t)) :
    (∃ z', deleteMemorySegment id z' = .ok (removed, t)) ∧
    (s' = s ∨ ∃ addr size, recordedAddress z id = some addr ∧
      (s.localSegments.lookup addr).isSome ∧
      s' = { s.munmap addr size with localSegments := s.localSegments.erase addr }) := by
  obtain ⟨map, z₁, hmap, h⟩ := Zk.bind_eq_ok.mp h
  obtain ⟨addr, z₂, haddr, h⟩ := Zk.bind_eq_ok.mp h
  obtain ⟨size, z₃, -, h⟩ := Zk.bind_eq_ok.mp h
  obtain ⟨s₁, z₄, hforget, h⟩ := Zk.bind_eq_ok.mp h
  obtain ⟨deleted, z₅, hdelete, h⟩ := Zk.bind_eq_ok.mp h
  cases Zk.pure_eq_ok.mp h
  obtain ⟨n, z₆, hget, hread⟩ := Zk.bind_eq_ok.mp hmap
  cases hget
  obtain ⟨map', hmap', heq⟩ := Zk.orThrow_eq_ok.mp hread
  cases heq
  obtain ⟨addr', haddr', heq⟩ := Zk.orThrow_eq_ok.mp haddr
  cases heq
  refine ⟨⟨z₄, hdelete⟩, ?_⟩
  rcases forget_cases hforget with hsame | ⟨hsome, hforgotten⟩
  · exact .inl hsame
  · have hrecorded : recordedAddress z id = some addr := by
      rw [recordedAddress, hmap']
      exact haddr'
    exact .inr ⟨addr, size, hrecorded, hsome, hforgotten⟩

theorem accept_cases (h : accept paging s addr size source id mapped z = .ok ((s', m), t)) :
    (mapped = none ∧ (s', m) = s.answer (build paging) addr size source none) ∨
    ∃ res r, mapped = some res ∧ RDMAMemory.construct s.serverId res size id = some r ∧
      (s', m) = ((s.mmap size res).insertRecord (build paging) res r).answer (build paging)
        addr size source (some res) := by
  unfold accept at h
  cases hallocate : s.allocateAt (build paging) size id mapped with
  | mk s₁ result =>
      simp only [hallocate] at h
      obtain ⟨mem, z₁, hplain, h⟩ := Zk.bind_eq_ok.mp h
      obtain ⟨mem', rfl, heq⟩ := plain_eq_ok.mp hplain
      cases heq
      obtain ⟨added, z₂, -, h⟩ := Zk.bind_eq_ok.mp h
      have hanswer := congrArg Prod.fst (Zk.pure_eq_ok.mp h)
      rcases Server.allocateAt_ok hallocate with ⟨rfl, rfl, rfl⟩ | ⟨res, r, rfl, hr, rfl, rfl⟩
      · exact .inl ⟨rfl, hanswer⟩
      · exact .inr ⟨res, r, rfl, hr, hanswer⟩

theorem onAccept_cases (h : onAccept s addr z = .ok (s', t)) :
    ∃ p, s.localSegments.lookup addr = some p ∧
      s' = { s with incomingAccepts := s.incomingAccepts ++ [p] } := by
  obtain ⟨p, z₁, hp, h⟩ := Zk.bind_eq_ok.mp h
  obtain ⟨memory, z₂, -, h⟩ := Zk.bind_eq_ok.mp h
  obtain ⟨updated, z₃, -, h⟩ := Zk.bind_eq_ok.mp h
  cases Zk.pure_eq_ok.mp h
  obtain ⟨p, hlookup, heq⟩ := Zk.orThrow_eq_ok.mp hp
  cases heq
  exact ⟨p, hlookup, rfl⟩

theorem close_cases (h : close paging s addr size source z = .ok ((s', m), t)) :
    ∃ p, s.localSegments.lookup addr = some p ∧
      s.close (build paging) addr size source = .ok (s', m) := by
  obtain ⟨p, z₁, hp, h⟩ := Zk.bind_eq_ok.mp h
  obtain ⟨memory, z₂, -, h⟩ := Zk.bind_eq_ok.mp h
  obtain ⟨cleaned, z₃, -, h⟩ := Zk.bind_eq_ok.mp h
  obtain ⟨r, hclose, heq⟩ := plain_eq_ok.mp h
  cases heq
  obtain ⟨p, hlookup, heq⟩ := Zk.orThrow_eq_ok.mp hp
  cases heq
  exact ⟨p, hlookup, hclose⟩

theorem pollForClose_cases {taken : Option (RDMAMemory × Bool)}
    (h : pollForClose s addr z = .ok ((s', taken), t)) :
    (s' = s ∧ taken = none ∧ ∀ p ∈ s.incomingDones.head?,
      ∃ memory, s.heap[p]? = some memory ∧ memory.vaddr ≠ addr) ∨
    ∃ p rest memory removed, s.incomingDones = p :: rest ∧ s.heap[p]? = some memory ∧
      memory.vaddr = addr ∧ taken = some (memory, removed) ∧
      deallocate { s with incomingDones := rest } memory.applicationId z =
        .ok ((s', removed), t) := by
  cases hdones : s.incomingDones with
  | nil =>
      simp only [pollForClose, hdones] at h
      cases Zk.pure_eq_ok.mp h
      exact .inl ⟨rfl, rfl, by simp⟩
  | cons p rest =>
      simp only [pollForClose, hdones] at h
      obtain ⟨memory, z₁, hmemory, h⟩ := Zk.bind_eq_ok.mp h
      obtain ⟨memory, hheap, heq⟩ := Zk.orThrow_eq_ok.mp hmemory
      cases heq
      split at h
      · rename_i hown
        obtain ⟨⟨s₁, removed⟩, z₂, hdeallocate, h⟩ := Zk.bind_eq_ok.mp h
        cases Zk.pure_eq_ok.mp h
        exact .inr ⟨p, rest, memory, removed, rfl, hheap, hown, rfl, hdeallocate⟩
      · rename_i hother
        cases Zk.pure_eq_ok.mp h
        exact .inl ⟨rfl, rfl, by simp [hheap, hother]⟩

end Cases

end RdmaMigration.FaultTolerant
