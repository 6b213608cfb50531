import RdmaMigration.Manager.Protocol
import RdmaMigration.Paging.PullSync
import RdmaMigration.Paging.Threads

/-! # Finding a record by an address

`getRDMAMemory` looks for the segment around an address, and `SetPageSize` and the pulls
of a range for the segment that starts at one. All of them read `memory_map`, whatever
the build.
-/

namespace RdmaMigration.Manager.Server

open Lib Paging

def surrounds (s : Server) (address : Nat) (entry : Sigma fun _ : Nat => Nat) : Bool :=
  decide (entry.1 ≤ address) &&
    (s.heap[entry.2]?).any fun memory => decide (address < wrap64 (memory.vaddr + memory.size))

/-- `getRDMAMemory`; `order` lists the entries of `memory_map` as the iterator meets them,
which an `unordered_map` leaves open. -/
def getRDMAMemory (s : Server) (order : List (Sigma fun _ : Nat => Nat)) (address : Nat) :
    Option Nat :=
  (order.find? (s.surrounds address)).map Sigma.snd

/-- `memory_map.find(address)->second`: the assertion in `SetPageSize` only logs, and the
pulls test nothing. -/
def recordAt (s : Server) (address : Nat) : Except Fault Nat :=
  deref .endIterator (s.memoryMap.lookup address)

def setPageSize (s : Server) (address pageSize : Nat) : Except Fault Server := do
  let p ← s.recordAt address
  return s.modify p fun memory => { memory with pages := memory.pages.setPageSize pageSize }

/-- `PullPagesSync`: the record it works on, and what becomes of its pages. -/
def pullPagesSync (s : Server) (spurious : Nat → Bool) (accessible : Nat → Bool)
    (vaddr size : Nat) : Except Fault (Nat × Except PullError Pulled) := do
  let p ← s.recordAt vaddr
  let memory ← deref .nullPointer s.heap[p]?
  return (p, Pulled.pullPagesSync spurious vaddr size ⟨memory.pages, accessible, []⟩)

/-- `PullPagesAsync`: the record it works on, and the thread it makes of itself there.
`content` is what `malloc` leaves in the word of the limiter. -/
def pullPagesAsync (s : Server) (accessible : Nat → Bool) (content : Int) (vaddr size : Nat)
    (maxAsyncLimit : Int) : Except Fault (Nat × Threads.State) := do
  let p ← s.recordAt vaddr
  let memory ← deref .nullPointer s.heap[p]?
  return (p, Threads.State.request ⟨memory.pages, accessible, [], fun _ => 0, 0, []⟩
    (.pullPagesAsync size maxAsyncLimit content))

theorem setPageSize_eq_ok {s s' : Server} {address pageSize : Nat}
    (h : s.setPageSize address pageSize = .ok s') :
    ∃ p, s.memoryMap.lookup address = some p ∧
      s' = s.modify p fun memory => { memory with pages := memory.pages.setPageSize pageSize } := by
  obtain ⟨p, hp, hret⟩ := bind_eq_ok.mp h
  cases hret
  exact ⟨p, deref_eq_ok.mp hp, rfl⟩

end RdmaMigration.Manager.Server
