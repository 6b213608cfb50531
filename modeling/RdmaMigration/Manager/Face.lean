import RdmaMigration.Manager.Ledger

/-! # What the calls do to memory and connections

The face of a manager is what its peers and its application depend on: where its
records lie, what is mapped, the bytes, the connections and the queues. For the
poller's handlers it is said here as well when they return. All of this is about the
build without fault tolerance.
-/

namespace RdmaMigration.Manager

open Lib Network Paging

/-- Where a manager's records lie, and where it has memory. -/
structure Layout where
  serverId : Int
  extents : List (Nat × Nat)
  memoryMap : AList fun _ : Nat => Nat
  freeMap : AList fun _ : Nat => List Nat
  mapped : List (Nat × Nat)

structure Face extends Layout where
  bytes : Nat → UInt8
  connections : Int → Connection
  transfers : List Nat
  accepts : List Nat
  dones : List Nat

def Face.setConnection (f : Face) (peer : Int) (c : Connection) : Face :=
  { f with connections := Function.update f.connections peer c }

def RDMAMemory.extent (r : RDMAMemory) : Nat × Nat := (r.vaddr, r.size)

namespace Server

def face (s : Server) : Face :=
  { serverId := s.serverId
    extents := s.heap.map RDMAMemory.extent
    memoryMap := s.memoryMap
    freeMap := s.freeMap
    mapped := s.mapped
    bytes := s.bytes
    connections := s.connections
    transfers := s.incomingTransfers
    accepts := s.incomingAccepts
    dones := s.incomingDones }

theorem heap_of_extent {s : Server} {p : Nat} {r : Nat × Nat} (h : s.face.extents[p]? = some r) :
    ∃ memory, s.heap[p]? = some memory ∧ memory.vaddr = r.1 ∧ memory.size = r.2 := by
  have hmap : (s.heap.map RDMAMemory.extent)[p]? = some r := h
  rw [List.getElem?_map, Option.map_eq_some_iff] at hmap
  obtain ⟨memory, hmemory, rfl⟩ := hmap
  exact ⟨memory, hmemory, rfl, rfl⟩

theorem face_modify {s : Server} {p : Nat} {f : RDMAMemory → RDMAMemory}
    (hf : ∀ r, (f r).extent = r.extent) : (s.modify p f).face = s.face := by
  simp [face, modify, map_modify_eq hf]

theorem face_updateRecord {b : Build} {s : Server} {addr : Nat} {f : RDMAMemory → RDMAMemory}
    (hf : ∀ r, (f r).extent = r.extent) : (s.updateRecord b addr f).face = s.face := by
  unfold updateRecord
  split
  · exact face_modify hf
  · rfl

@[simp] theorem face_updateState (b : Build) (s : Server) (addr : Nat) (state : SegmentState) :
    (s.updateState b addr state).face = s.face := face_updateRecord fun _ => rfl

@[simp] theorem face_updatePair (b : Build) (s : Server) (addr : Nat) (id : Int) :
    (s.updatePair b addr id).face = s.face := face_updateRecord fun _ => rfl

@[simp] theorem face_setConnection (s : Server) (peer : Int) (c : Connection) :
    (s.setConnection peer c).face = s.face.setConnection peer c := rfl

@[simp] theorem face_registerMemory (s : Server) (peer : Int) (addr size : Nat) :
    (s.registerMemory peer addr size).face =
      s.face.setConnection peer
        ((s.face.connections peer).registerMemory addr size s.nextKey) := rfl

theorem face_insertRecord {b : Build} (hb : b.faultTolerant = false) (s : Server) (addr : Nat)
    (r : RDMAMemory) : (s.insertRecord b addr r).face =
      { s.face with
        extents := s.face.extents ++ [r.extent]
        memoryMap := s.face.memoryMap.insert addr s.face.extents.length } := by
  simp [insertRecord_of_memoryMap hb, face]

@[simp] theorem nextKey_updatePair (b : Build) (s : Server) (addr : Nat) (id : Int) :
    (s.updatePair b addr id).nextKey = s.nextKey := by
  rw [updatePair, updateRecord_eq]

@[simp] theorem nextKey_insertRecord (b : Build) (s : Server) (addr : Nat) (r : RDMAMemory) :
    (s.insertRecord b addr r).nextKey = s.nextKey := by
  unfold insertRecord setTable
  split
  · rfl
  · rfl

theorem face_mmap (s : Server) (size res : Nat) :
    (s.mmap size res).face =
      { s.face with
        mapped := (res, pageUp size) :: s.face.mapped
        bytes := fun a => if Covers (res, pageUp size) a then 0 else s.face.bytes a } := rfl

/-! ## The sending side -/

section Calls

variable {b : Build} {s s' : Server} {m : RdmaMessage} {addr size : Nat} {peer : Int}

theorem prepare_face {clientId : RDMAMemory → List Char}
    (h : s.prepare b addr size peer clientId = .ok (s', m)) :
    s'.face = s.face.setConnection peer
      ((s.face.connections peer).registerMemory addr size s.nextKey) ∧
    m.messageType = .prepare ∧ m.regionInfo.addr = addr ∧ m.regionInfo.length = size := by
  obtain ⟨p, memory, key, -, -, rfl, rfl⟩ := prepare_cases h
  refine ⟨?_, rfl, rfl, rfl⟩
  rw [face_registerMemory, face_updatePair, nextKey_updatePair]

theorem transfer_face (h : s.transfer b addr size peer = .ok (s', m)) :
    s'.face = s.face ∧ m.messageType = .transfer ∧
      ∃ mr, (s.face.connections peer).registrations.lookup addr = some mr ∧
        m.regionInfo = ⟨addr, size, mr.rkey⟩ := by
  obtain ⟨p, mr, -, hmr, rfl, rfl⟩ := transfer_cases h
  exact ⟨face_modify fun _ => rfl, rfl, mr, hmr, rfl⟩

theorem deregisterMemory_ok {mr : Registration}
    (h : (s.face.connections peer).registrations.lookup addr = some mr) :
    s.deregisterMemory peer addr =
      .ok (s.setConnection peer ((s.connections peer).unregister addr)) := by
  have hlookup : (s.connections peer).registrations.lookup addr = some mr := h
  simp [deregisterMemory, Connection.deregisterMemory, hlookup, deref, bind, Except.bind, pure,
    Except.pure]

theorem close_face (h : s.close b addr size peer = .ok (s', m)) :
    s'.face = s.face.setConnection peer ((s.face.connections peer).unregister addr) ∧
      m = sendClose addr size := by
  obtain ⟨rfl, rfl⟩ := close_cases h
  have hconnections : (s.updateState b addr .clean).connections = s.connections :=
    congrArg Face.connections (face_updateState b s addr .clean)
  rw [face_setConnection, face_updateState, hconnections]
  exact ⟨rfl, rfl⟩

/-! ## The handlers -/

theorem onAccept_face (hb : b.faultTolerant = false) {p : Nat}
    (hp : s.face.memoryMap.lookup addr = some p) :
    ∃ s', s.onAccept b addr = .ok s' ∧
      s'.face = { s.face with accepts := s.face.accepts ++ [p] } := by
  have hlookup : s.memoryMap.lookup addr = some p := hp
  exact ⟨{ s with incomingAccepts := s.incomingAccepts ++ [p] },
    by simp [onAccept, table, hb, hlookup, deref, bind, Except.bind, pure, Except.pure], rfl⟩

theorem onClose_face (hb : b.faultTolerant = false) {p : Nat} {mr : Registration}
    (hp : s.face.memoryMap.lookup addr = some p)
    (hmr : (s.face.connections peer).registrations.lookup addr = some mr) :
    ∃ s', s.onClose b addr peer = .ok s' ∧
      s'.face = { s.face.setConnection peer ((s.face.connections peer).unregister addr) with
        dones := s.face.dones ++ [p] } := by
  have hlookup : s.memoryMap.lookup addr = some p := hp
  refine ⟨{ s.setConnection peer ((s.connections peer).unregister addr) with
    incomingDones := s.incomingDones ++ [p] }, ?_, rfl⟩
  simp [onClose, deregisterMemory_ok hmr, table, hb, setConnection, hlookup, deref, bind,
    Except.bind, pure, Except.pure]

/-- The record is made at the address that `mmap` answers; the range registered is the
one asked for. -/
theorem accept_face (hb : b.faultTolerant = false) {res : Nat}
    (h : s.accept b addr size peer (some res) = .ok (s', m)) :
    s'.face = { s.face.setConnection peer
          ((s.face.connections peer).registerMemory addr size s.nextKey) with
        extents := s.face.extents ++ [(res, size)]
        memoryMap := s.face.memoryMap.insert res s.face.extents.length
        mapped := (res, pageUp size) :: s.face.mapped
        bytes := fun a => if Covers (res, pageUp size) a then 0 else s.face.bytes a } ∧
    m = sendAccept res size := by
  rcases accept_cases h with ⟨hnone, -⟩ | ⟨res', r, hmapped, hr, rfl, rfl⟩
  · simp at hnone
  · rw [Option.some.injEq] at hmapped
    obtain ⟨hvaddr, hsize, -⟩ := RDMAMemory.construct_eq hr
    have hextent : r.extent = (res, size) := by rw [RDMAMemory.extent, hvaddr, hsize, hmapped]
    refine ⟨?_, by rw [hmapped]⟩
    rw [face_registerMemory, face_updatePair, nextKey_updatePair, nextKey_insertRecord,
      face_insertRecord hb, hextent, ← hmapped, face_mmap]
    rfl

theorem accept_declined (h : s.accept b addr size peer none = .ok (s', m)) :
    s' = s ∧ m = sendDecline 0 size := by
  cases h
  exact ⟨rfl, rfl⟩

theorem onTransfer_face {remote : Server}
    (h : b.paging = false → Readable s remote peer addr size) :
    ∃ s', s.onTransfer b remote addr size peer = .ok s' ∧
      s'.face = { s.face with
        bytes := fun a => if b.paging = false ∧ Covers (addr, size) a then remote.face.bytes a
          else s.face.bytes a } := by
  cases hpaging : b.paging with
  | true =>
      refine ⟨s.updateState b addr .shared, by simp [onTransfer, hpaging, pure, Except.pure], ?_⟩
      simp
  | false =>
      have hpull := pull_of_readable (h hpaging)
      refine ⟨_, by simp [onTransfer, hpaging, hpull, bind, Except.bind, pure, Except.pure]; rfl,
        ?_⟩
      rw [face_updateState]
      simp [face]

theorem receiveTransfer_face {remote : Server} (hb : b.faultTolerant = false) {p : Nat}
    (hp : s.face.memoryMap.lookup addr = some p)
    (h : b.paging = false → Readable s remote peer addr size) :
    ∃ s', s.receiveTransfer b remote addr size peer = .ok s' ∧
      s'.face = { s.face with
        bytes := fun a => if b.paging = false ∧ Covers (addr, size) a then remote.face.bytes a
          else s.face.bytes a
        transfers := s.face.transfers ++ [p] } := by
  obtain ⟨t, ht, hface⟩ := onTransfer_face h
  have hlookup : t.memoryMap.lookup addr = some p := by
    have hmap : t.face.memoryMap = s.face.memoryMap := by rw [hface]
    have hmap' : t.memoryMap = s.face.memoryMap := hmap
    rw [hmap', hp]
  refine ⟨{ t with incomingTransfers := t.incomingTransfers ++ [p] }, ?_, ?_⟩
  · simp [receiveTransfer, ht, table, hb, hlookup, deref, bind, Except.bind, pure, Except.pure]
  · have hdrop : ({ t with incomingTransfers := t.incomingTransfers ++ [p] } : Server).face =
        { t.face with transfers := t.face.transfers ++ [p] } := rfl
    rw [hdrop, hface]

theorem receiveTransfer_readable {remote : Server} (hb : b.paging = false)
    (hfound : ((s.connections peer).rdmaRead addr addr size).isSome)
    (h : s.receiveTransfer b remote addr size peer = .ok s') :
    Readable s remote peer addr size := by
  obtain ⟨p, bytes, -, -, hpull⟩ := receiveTransfer_cases h
  obtain ⟨result, hpull⟩ := hpull hb
  rcases pull_cases hpull with ⟨hnone, -⟩ | ⟨hreadable, -⟩
  · rw [hnone] at hfound
    cases hfound
  · exact hreadable

end Calls

/-! ## Allocation -/

section Allocation

variable {s s' : Server} {size addr : Nat} {reuse fresh : Option Nat}
  {result : Except Fault (Option Nat)}

/-- A successful `allocate` has made a new record or taken one from a free list;
otherwise there is at most a mapping that nothing refers to. -/
theorem allocate_face (h : s.allocate size reuse fresh = (s', result)) :
    ((∀ addr, result ≠ .ok (some addr)) ∧
      (s'.face = s.face ∨ ∃ res, fresh = some res ∧ s'.face = (s.mmap size res).face)) ∨
    (∃ res, fresh = some res ∧ result = .ok (some res) ∧
      s'.face = { (s.mmap size res).face with
        extents := s.face.extents ++ [(res, size)]
        memoryMap := s.face.memoryMap.insert res s.face.extents.length }) ∨
    ∃ p rest res memory, s.freeMap.lookup size = some (p :: rest) ∧ reuse = some res ∧
      s.heap[p]? = some memory ∧ result = .ok (some memory.vaddr) ∧
      s'.face = { (s.mmap size res).face with
        freeMap := s.popFree size rest
        memoryMap := s.face.memoryMap.insert memory.vaddr p } := by
  rcases allocate_cases h with hshared | ⟨rfl, e, rfl⟩ | ⟨p, rest, res, memory, hfree, hreuse,
    hmemory, hresult, hs'⟩
  · rcases allocateShared_cases hshared with ⟨rfl, rfl⟩ | ⟨res, hres, -, ⟨hs', rfl⟩ | ⟨r, hr, hs',
      hresult⟩⟩
    · exact .inl ⟨by simp, .inl rfl⟩
    · rw [hs']
      exact .inl ⟨by simp, .inr ⟨res, hres, rfl⟩⟩
    · obtain ⟨hvaddr, hsize, -⟩ := RDMAMemory.construct_eq hr
      have hextent : r.extent = (res, size) := by rw [RDMAMemory.extent, hvaddr, hsize]
      refine .inr (.inl ⟨res, hres, by rw [hresult, hvaddr], ?_⟩)
      rw [hs', face_insertRecord rfl, hextent]
      rfl
  · exact .inl ⟨by simp, .inl rfl⟩
  · rw [hs']
    exact .inr (.inr ⟨p, rest, res, memory, hfree, hreuse, hmemory, hresult, rfl⟩)

theorem deallocate_face (h : s.deallocate addr = .ok s') :
    ∃ p memory, s.memoryMap.lookup addr = some p ∧ s.heap[p]? = some memory ∧
      s'.face = { s.face with
        mapped := cut (memory.vaddr, pageUp memory.size) s.mapped
        freeMap := s.freeMap.insert memory.size
          ((s.freeMap.lookup memory.size).getD [] ++ [p]) } := by
  obtain ⟨p, memory, hp, hmemory, rfl⟩ := deallocate_cases h
  exact ⟨p, memory, hp, hmemory, rfl⟩

end Allocation

end Server

end RdmaMigration.Manager
