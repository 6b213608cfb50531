import RdmaMigration.Manager.Server

/-! # Allocation without fault tolerance

`allocate(size)`, `deallocate(v_addr)` and `allocate(v_addr, size)`. What `mmap`
answers is an argument of each call, `none` being `MAP_FAILED`; the caller of
the model keeps to answers that `MapsAt` permits.
-/

namespace RdmaMigration.Manager

open Lib Network Paging

namespace Server

def takeShared (s : Server) (size res : Nat) : Server :=
  { s.mmap size res with allocAddress := wrap64 (s.allocAddress + size) }

/-- The part of `allocate` after the label `alloc`. The address that `mmap`
returns is recorded whether or not it is the one asked for. -/
def allocateShared (s : Server) (size : Nat) (fresh : Option Nat) :
    Server × Except Fault (Option Nat) :=
  if s.endAddress < wrap64 (s.allocAddress + size) then (s, .ok none)
  else
    match fresh with
    | none => (s, .ok none)
    | some res =>
        (s.takeShared size res).enter ⟨false, false⟩ res
          (RDMAMemory.construct s.serverId res size 0)

def popFree (s : Server) (size : Nat) (rest : List Nat) : AList fun _ : Nat => List Nat :=
  if rest = [] then s.freeMap.erase size else s.freeMap.insert size rest

/-- `allocate(size)`: the first record on the free list of this size is used
again, at its own address, if `mmap` answers `reuse`. -/
def allocate (s : Server) (size : Nat) (reuse fresh : Option Nat) :
    Server × Except Fault (Option Nat) :=
  match s.freeMap.lookup size with
  | none => s.allocateShared size fresh
  | some [] => (s, .error .outOfRange)
  | some (p :: rest) =>
      match reuse, s.heap[p]? with
      | none, _ => s.allocateShared size fresh
      | some _, none => (s, .error .nullPointer)
      | some res, some memory =>
          ({ s.mmap size res with
              freeMap := s.popFree size rest
              memoryMap := s.memoryMap.insert memory.vaddr p },
            .ok (some memory.vaddr))

/-- `deallocate(v_addr)`: the record goes to the end of the free list of its
size and stays in `memory_map`. -/
def deallocate (s : Server) (addr : Nat) : Except Fault Server :=
  match s.memoryMap.lookup addr with
  | none => .error .endIterator
  | some p =>
      match s.heap[p]? with
      | none => .error .nullPointer
      | some memory =>
          let free := (s.freeMap.lookup memory.size).getD []
          .ok { s.munmap memory.vaddr memory.size with
            freeMap := s.freeMap.insert memory.size (free ++ [p]) }

def allocateAt (b : Build) (s : Server) (size : Nat) (appId : Int) (mapped : Option Nat) :
    Server × Except Fault (Option Nat) :=
  match mapped with
  | none => (s, .ok none)
  | some res =>
      (s.mmap size res).enter b res (RDMAMemory.construct s.serverId res size appId)

theorem lookup_popFree {s : Server} {size p sz : Nat} {rest list : List Nat}
    (hfree : s.freeMap.lookup size = some (p :: rest))
    (h : (s.popFree size rest).lookup sz = some list) :
    (sz = size ∧ list = rest) ∨ (sz ≠ size ∧ s.freeMap.lookup sz = some list) := by
  by_cases hsz : sz = size
  · subst hsz
    unfold popFree at h
    split at h
    · simp at h
    · rw [AList.lookup_insert, Option.some.injEq] at h
      exact .inl ⟨rfl, h.symm⟩
  · right
    refine ⟨hsz, ?_⟩
    unfold popFree at h
    split at h
    · rwa [AList.lookup_erase_ne hsz] at h
    · rwa [AList.lookup_insert_ne hsz] at h

/-! ## The branches of `allocate` -/

section Allocate

variable {s : Server} {size p res : Nat} {rest : List Nat} {fresh : Option Nat}

theorem allocate_of_none (h : s.freeMap.lookup size = none) (reuse : Option Nat) :
    s.allocate size reuse fresh = s.allocateShared size fresh := by
  rw [allocate, h]

theorem allocate_of_failed (h : s.freeMap.lookup size = some (p :: rest)) :
    s.allocate size none fresh = s.allocateShared size fresh := by
  rw [allocate, h]

theorem allocate_of_reuse {memory : RDMAMemory}
    (h : s.freeMap.lookup size = some (p :: rest)) (hmemory : s.heap[p]? = some memory) :
    s.allocate size (some res) fresh =
      ({ s.mmap size res with
          freeMap := s.popFree size rest
          memoryMap := s.memoryMap.insert memory.vaddr p },
        .ok (some memory.vaddr)) := by
  rw [allocate, h]
  dsimp only
  rw [hmemory]

end Allocate

/-! ## What a successful call did -/

theorem allocateShared_cases {s s' : Server} {size : Nat} {fresh : Option Nat}
    {result : Except Fault (Option Nat)} (h : s.allocateShared size fresh = (s', result)) :
    (s' = s ∧ result = .ok none) ∨
    ∃ res, fresh = some res ∧ wrap64 (s.allocAddress + size) ≤ s.endAddress ∧
      ((s' = s.takeShared size res ∧ result = .error .lengthError) ∨
        ∃ r, RDMAMemory.construct s.serverId res size 0 = some r ∧
          s' = (s.takeShared size res).insertRecord ⟨false, false⟩ res r ∧
          result = .ok (some r.vaddr)) := by
  unfold allocateShared at h
  split at h
  · cases h
    exact .inl ⟨rfl, rfl⟩
  · rename_i hend
    cases fresh with
    | none =>
        cases h
        exact .inl ⟨rfl, rfl⟩
    | some res => exact .inr ⟨res, rfl, Nat.le_of_not_lt hend, enter_cases h⟩

theorem allocateAt_ok {b : Build} {s s' : Server} {size : Nat} {appId : Int}
    {mapped mem : Option Nat} (h : s.allocateAt b size appId mapped = (s', .ok mem)) :
    (mapped = none ∧ s' = s ∧ mem = none) ∨
    ∃ res r, mapped = some res ∧ RDMAMemory.construct s.serverId res size appId = some r ∧
      s' = (s.mmap size res).insertRecord b res r ∧ mem = some res := by
  cases mapped with
  | none =>
      cases h
      exact .inl ⟨rfl, rfl, rfl⟩
  | some res =>
      rw [allocateAt] at h
      rcases enter_cases h with ⟨-, hthrew⟩ | ⟨r, hr, hs', hmem⟩
      · simp at hthrew
      · rw [(RDMAMemory.construct_eq hr).1, Except.ok.injEq] at hmem
        exact .inr ⟨res, r, rfl, hr, hs', hmem⟩

theorem allocate_cases {s s' : Server} {size : Nat} {reuse fresh : Option Nat}
    {result : Except Fault (Option Nat)} (h : s.allocate size reuse fresh = (s', result)) :
    s.allocateShared size fresh = (s', result) ∨ (s' = s ∧ ∃ e, result = .error e) ∨
    ∃ p rest res memory, s.freeMap.lookup size = some (p :: rest) ∧ reuse = some res ∧
      s.heap[p]? = some memory ∧ result = .ok (some memory.vaddr) ∧
      s' = { s.mmap size res with
        freeMap := s.popFree size rest
        memoryMap := s.memoryMap.insert memory.vaddr p } := by
  unfold allocate at h
  split at h
  · exact .inl h
  · cases h
    exact .inr (.inl ⟨rfl, _, rfl⟩)
  · rename_i p rest hfree
    split at h
    · exact .inl h
    · cases h
      exact .inr (.inl ⟨rfl, _, rfl⟩)
    · rename_i res memory hmemory
      cases h
      exact .inr (.inr ⟨p, rest, res, memory, hfree, rfl, hmemory, rfl, rfl⟩)

theorem deallocate_cases {s s' : Server} {addr : Nat} (h : s.deallocate addr = .ok s') :
    ∃ p memory, s.memoryMap.lookup addr = some p ∧ s.heap[p]? = some memory ∧
      s' = { s.munmap memory.vaddr memory.size with
        freeMap := s.freeMap.insert memory.size
          ((s.freeMap.lookup memory.size).getD [] ++ [p]) } := by
  unfold deallocate at h
  split at h
  · simp at h
  · rename_i p hp
    split at h
    · simp at h
    · rename_i memory hmemory
      cases h
      exact ⟨p, memory, hp, hmemory, rfl⟩

end Server

end RdmaMigration.Manager
