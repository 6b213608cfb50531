import RdmaMigration.Manager.Protocol

/-! # What the calls do to the books

The books of a manager are what decides which addresses it hands out and which
records it reports: the blocks its records describe, the table, the free lists
and the queues. What a call does is taken from its `_cases` lemma; most calls leave
the books alone. All of this is about the build without fault tolerance.
-/

namespace RdmaMigration.Manager

open Lib Network Paging

structure Block where
  vaddr : Nat
  size : Nat
  owner : Int
  deriving DecidableEq, Repr

def RDMAMemory.block (r : RDMAMemory) : Block := ⟨r.vaddr, r.size, r.owner⟩

structure Ledger where
  serverId : Int
  endAddress : Nat
  allocAddress : Nat
  blocks : List Block
  memoryMap : AList fun _ : Nat => Nat
  freeMap : AList fun _ : Nat => List Nat
  transfers : List Nat
  accepts : List Nat
  dones : List Nat

namespace Server

def ledger (s : Server) : Ledger :=
  ⟨s.serverId, s.endAddress, s.allocAddress, s.heap.map RDMAMemory.block, s.memoryMap, s.freeMap,
    s.incomingTransfers, s.incomingAccepts, s.incomingDones⟩

theorem ledger_modify {s : Server} {p : Nat} {f : RDMAMemory → RDMAMemory}
    (hf : ∀ r, (f r).block = r.block) : (s.modify p f).ledger = s.ledger := by
  simp [ledger, modify, map_modify_eq hf]

theorem ledger_updateRecord {b : Build} {s : Server} {addr : Nat}
    {f : RDMAMemory → RDMAMemory} (hf : ∀ r, (f r).block = r.block) :
    (s.updateRecord b addr f).ledger = s.ledger := by
  unfold updateRecord
  split
  · exact ledger_modify hf
  · rfl

@[simp] theorem ledger_updateState (b : Build) (s : Server) (addr : Nat) (state : SegmentState) :
    (s.updateState b addr state).ledger = s.ledger := ledger_updateRecord fun _ => rfl

@[simp] theorem ledger_updatePair (b : Build) (s : Server) (addr : Nat) (id : Int) :
    (s.updatePair b addr id).ledger = s.ledger := ledger_updateRecord fun _ => rfl

@[simp] theorem ledger_setConnection (s : Server) (peer : Int) (c : Connection) :
    (s.setConnection peer c).ledger = s.ledger := rfl

@[simp] theorem ledger_registerMemory (s : Server) (peer : Int) (addr size : Nat) :
    (s.registerMemory peer addr size).ledger = s.ledger := rfl

@[simp] theorem ledger_mmap (s : Server) (size res : Nat) :
    (s.mmap size res).ledger = s.ledger := rfl

@[simp] theorem ledger_takeShared (s : Server) (size res : Nat) :
    (s.takeShared size res).ledger =
      { s.ledger with allocAddress := wrap64 (s.allocAddress + size) } := rfl

theorem ledger_insertRecord {b : Build} (hb : b.faultTolerant = false) (s : Server) (addr : Nat)
    (r : RDMAMemory) : (s.insertRecord b addr r).ledger =
      { s.ledger with
        blocks := s.ledger.blocks ++ [r.block]
        memoryMap := s.memoryMap.insert addr s.heap.length } := by
  simp [insertRecord_of_memoryMap hb, ledger]

/-! ## The migration calls -/

section Calls

variable {b : Build} {s s' : Server} {m : RdmaMessage} {addr size : Nat} {peer : Int}

theorem prepare_ledger {clientId : RDMAMemory → List Char}
    (h : s.prepare b addr size peer clientId = .ok (s', m)) :
    s'.ledger = s.ledger ∧ m.regionInfo.addr = addr ∧ m.regionInfo.length = size := by
  obtain ⟨p, memory, key, -, -, rfl, rfl⟩ := prepare_cases h
  exact ⟨by simp, rfl, rfl⟩

theorem accept_ledger (hb : b.faultTolerant = false)
    (h : s.accept b addr size peer (some addr) = .ok (s', m)) :
    s'.ledger = { s.ledger with
        blocks := s.ledger.blocks ++ [⟨addr, size, s.serverId⟩]
        memoryMap := s.memoryMap.insert addr s.heap.length } ∧
      m.regionInfo.addr = addr := by
  rcases accept_cases h with ⟨hnone, -⟩ | ⟨res, r, hmapped, hr, rfl, rfl⟩
  · simp at hnone
  · rw [Option.some.injEq] at hmapped
    obtain ⟨hvaddr, hsize, howner, -⟩ := RDMAMemory.construct_eq hr
    rw [ledger_registerMemory, ledger_updatePair, ledger_insertRecord hb, RDMAMemory.block,
      hvaddr, hsize, howner, ledger_mmap, mmap_memoryMap, mmap_heap, ← hmapped]
    exact ⟨rfl, rfl⟩

theorem onAccept_ledger (hb : b.faultTolerant = false) (h : s.onAccept b addr = .ok s') :
    ∃ p, s.memoryMap.lookup addr = some p ∧
      s'.ledger = { s.ledger with accepts := s.ledger.accepts ++ [p] } := by
  obtain ⟨p, hp, rfl⟩ := onAccept_cases h
  exact ⟨p, by simpa [table, hb] using hp, rfl⟩

theorem transfer_ledger (hb : b.faultTolerant = false)
    (h : s.transfer b addr size peer = .ok (s', m)) :
    ∃ p, s.memoryMap.lookup addr = some p ∧
      s'.ledger = { s.ledger with
        blocks := s.ledger.blocks.modify p fun k => { k with owner := peer } } ∧
      m.regionInfo.addr = addr ∧ m.regionInfo.length = size := by
  obtain ⟨p, mr, hp, -, rfl, rfl⟩ := transfer_cases h
  refine ⟨p, by simpa [table, hb] using hp, ?_, rfl, rfl⟩
  have hmap : (s.heap.modify p fun r => { r with owner := peer, state := .shared }).map
      RDMAMemory.block =
      (s.heap.map RDMAMemory.block).modify p fun k => { k with owner := peer } := by
    apply List.ext_getElem?
    intro q
    rw [List.getElem?_map, List.getElem?_modify, List.getElem?_modify, List.getElem?_map]
    cases s.heap[q]? with
    | none => rfl
    | some r =>
        by_cases hq : p = q
        · simp [hq, RDMAMemory.block]
        · simp [hq]
  simp [ledger, modify, hmap]

theorem receiveTransfer_ledger {remote : Server} (hb : b.faultTolerant = false)
    (h : s.receiveTransfer b remote addr size peer = .ok s') :
    ∃ p, s.memoryMap.lookup addr = some p ∧
      s'.ledger = { s.ledger with transfers := s.ledger.transfers ++ [p] } := by
  obtain ⟨p, bytes, hp, rfl, -⟩ := receiveTransfer_cases h
  refine ⟨p, by simpa [table, hb] using hp, ?_⟩
  exact congrArg (fun k : Ledger => { k with transfers := s.incomingTransfers ++ [p] })
    (ledger_updateState b { s with bytes := bytes } addr _)

theorem close_ledger (h : s.close b addr size peer = .ok (s', m)) :
    s'.ledger = s.ledger ∧ m.regionInfo.addr = addr := by
  obtain ⟨rfl, rfl⟩ := close_cases h
  exact ⟨by simp, rfl⟩

theorem onClose_ledger (hb : b.faultTolerant = false) (h : s.onClose b addr peer = .ok s') :
    ∃ p, s.memoryMap.lookup addr = some p ∧
      s'.ledger = { s.ledger with dones := s.ledger.dones ++ [p] } := by
  obtain ⟨p, hp, rfl⟩ := onClose_cases h
  exact ⟨p, by simpa [table, hb] using hp, rfl⟩

theorem deallocate_ledger (h : s.deallocate addr = .ok s') :
    ∃ p block, s.memoryMap.lookup addr = some p ∧ s.ledger.blocks[p]? = some block ∧
      s'.ledger = { s.ledger with
        freeMap := s.freeMap.insert block.size
          ((s.freeMap.lookup block.size).getD [] ++ [p]) } := by
  obtain ⟨p, memory, hp, hmemory, rfl⟩ := deallocate_cases h
  exact ⟨p, memory.block, hp, by simp [ledger, hmemory], rfl⟩

end Calls

end Server

end RdmaMigration.Manager
