import RdmaMigration.Manager.Blocks

/-! # The records behind addresses

What a manager owes to the segments it holds: the search finds the record of a segment
from every address inside it, and `SetPageSize` and the pulls of a range work on that
record. Without fault tolerance the entry of a block that was given back can come before
the entry of a held block over the same addresses.
-/

namespace RdmaMigration.Manager

open Lib

/-- The calls that take an address work on the record of the segment there, for every
segment of `holds` and whatever order the search meets the entries in. -/
structure Server.Resolves (s : Server) (holds : Nat → Option Lot) : Prop where
  search : ∀ addr lot, holds addr = some lot →
    ∀ order : List (Sigma fun _ : Nat => Nat), order.Perm s.memoryMap.entries →
      ∀ a, Covers (addr, lot.size) a → s.getRDMAMemory order a = some lot.record
  setPageSize : ∀ addr lot, holds addr = some lot → ∀ pageSize, s.setPageSize addr pageSize =
    .ok (s.modify lot.record fun memory =>
      { memory with pages := memory.pages.setPageSize pageSize })
  pullPagesSync : ∀ addr lot, holds addr = some lot → ∀ spurious accessible size,
    ∃ pulled, s.pullPagesSync spurious accessible addr size = .ok (lot.record, pulled)
  pullPagesAsync : ∀ addr lot, holds addr = some lot →
    ∀ accessible content size maxAsyncLimit, ∃ threads,
      s.pullPagesAsync accessible content addr size maxAsyncLimit = .ok (lot.record, threads)

namespace Server

variable {s : Server} {holds : Nat → Option Lot}

theorem Resolves.lookup (h : s.Resolves holds) {addr : Nat} {lot : Lot}
    (hlot : holds addr = some lot) : s.memoryMap.lookup addr = some lot.record := by
  obtain ⟨pulled, hpull⟩ :=
    h.pullPagesSync addr lot hlot (fun _ => false) (fun _ => false) 0
  obtain ⟨p, hp, hpull⟩ := bind_eq_ok.mp hpull
  obtain ⟨memory, -, hret⟩ := bind_eq_ok.mp hpull
  cases hret
  exact deref_eq_ok.mp hp

theorem resolves_of_lookup (hsearch : ∀ addr lot, holds addr = some lot →
      ∀ order : List (Sigma fun _ : Nat => Nat), order.Perm s.memoryMap.entries →
        ∀ a, Covers (addr, lot.size) a → s.getRDMAMemory order a = some lot.record)
    (hlookup : ∀ addr lot, holds addr = some lot → s.memoryMap.lookup addr = some lot.record)
    (hheap : ∀ addr lot, holds addr = some lot → ∃ memory, s.heap[lot.record]? = some memory) :
    s.Resolves holds := by
  have hfound : ∀ addr lot, holds addr = some lot → s.recordAt addr = .ok lot.record :=
    fun addr lot hlot => deref_eq_ok.mpr (hlookup addr lot hlot)
  refine ⟨hsearch, ?_, ?_, ?_⟩
  · intro addr lot hlot pageSize
    exact bind_eq_ok.mpr ⟨lot.record, hfound addr lot hlot, rfl⟩
  · intro addr lot hlot spurious accessible size
    obtain ⟨memory, hmemory⟩ := hheap addr lot hlot
    exact ⟨_, bind_eq_ok.mpr ⟨lot.record, hfound addr lot hlot,
      bind_eq_ok.mpr ⟨memory, deref_eq_ok.mpr hmemory, rfl⟩⟩⟩
  · intro addr lot hlot accessible content size maxAsyncLimit
    obtain ⟨memory, hmemory⟩ := hheap addr lot hlot
    exact ⟨_, bind_eq_ok.mpr ⟨lot.record, hfound addr lot hlot,
      bind_eq_ok.mpr ⟨memory, deref_eq_ok.mpr hmemory, rfl⟩⟩⟩

end Server

namespace Holdings

variable {h : Holdings}

def holds (h : Holdings) (addr : Nat) : Option Lot := if h.held addr then h.given addr else none

theorem holds_eq_some {addr : Nat} {lot : Lot} :
    h.holds addr = some lot ↔ h.held addr = true ∧ h.given addr = some lot := by
  rw [holds, Option.ite_none_right_eq_some]

/-- No block that was ever given out lies over a held block at another address. -/
def Clear (h : Holdings) : Prop :=
  ∀ addr lot addr' lot', h.holds addr = some lot → h.given addr' = some lot' → addr' ≠ addr →
    ¬ Overlap (addr', lot'.size) (addr, lot.size)

theorem entry_of_given (hk : h.book.Booked) {addr : Nat} {lot : Lot}
    (hlot : h.given addr = some lot) :
    h.server.memoryMap.lookup addr = some lot.record ∧
      ∃ memory, h.server.heap[lot.record]? = some memory ∧ memory.vaddr = addr := by
  obtain ⟨p, hp⟩ := Option.isSome_iff_exists.mp (hk.given addr (Option.isSome_of_eq_some hlot))
  obtain ⟨size, hrecord, hgiven⟩ := hk.entry addr p hp
  obtain rfl := Option.some.inj (hlot.symm.trans hgiven)
  obtain ⟨memory, hmemory, hvaddr, -⟩ := Server.heap_of_extent hrecord
  exact ⟨hp, memory, hmemory, hvaddr⟩

theorem getRDMAMemory_first (hk : h.book.Booked) {addr : Nat} {lot : Lot}
    (hlot : h.given addr = some lot) {a : Nat} (ha : Covers (addr, lot.size) a)
    (rest : List (Sigma fun _ : Nat => Nat)) :
    h.server.getRDMAMemory (⟨addr, lot.record⟩ :: rest) a = some lot.record := by
  have htest := (surrounds_iff hk (entry_of_given hk hlot).1 hlot a).mpr ha
  rw [Server.getRDMAMemory, List.find?_cons_of_pos htest, Option.map_some]

theorem clear_of_resolves (hk : h.book.Booked) (hr : h.server.Resolves h.holds) : h.Clear := by
  intro addr lot addr' lot' hholds hgiven' hne hover
  obtain ⟨a, ha', ha⟩ := (overlap_iff _ _).mp hover
  obtain ⟨-, hgiven⟩ := holds_eq_some.mp hholds
  obtain ⟨-, memory, hmemory, hvaddr⟩ := entry_of_given hk hgiven
  obtain ⟨hp', memory', hmemory', hvaddr'⟩ := entry_of_given hk hgiven'
  -- an order in which the other entry comes first
  have hmem : ⟨addr', lot'.record⟩ ∈ h.server.memoryMap.entries := AList.mem_lookup_iff.mp hp'
  have hfound := hr.search addr lot hholds _ (List.perm_cons_erase hmem).symm a ha
  rw [getRDMAMemory_first hk hgiven' ha', Option.some.injEq] at hfound
  rw [hfound, hmemory, Option.some.injEq] at hmemory'
  exact hne (by rw [← hvaddr', ← hmemory', hvaddr])

theorem resolves_of_clear (hk : h.book.Booked) (hclear : h.Clear) :
    h.server.Resolves h.holds := by
  refine Server.resolves_of_lookup ?_ ?_ ?_
  · intro addr lot hholds order horder a ha
    obtain ⟨-, hgiven⟩ := holds_eq_some.mp hholds
    have hsome := (getRDMAMemory_isSome_iff hk horder a).mpr ⟨addr, lot, hgiven, ha⟩
    obtain ⟨p, hp⟩ := Option.isSome_iff_exists.mp hsome
    obtain ⟨⟨addr', p'⟩, hfind, rfl⟩ := Option.map_eq_some_iff.mp hp
    have hlookup' : h.server.memoryMap.lookup addr' = some p' :=
      AList.mem_lookup_iff.mpr (horder.mem_iff.mp (List.mem_of_find?_eq_some hfind))
    obtain ⟨size', -, hgiven'⟩ := hk.entry addr' p' hlookup'
    have ha' : Covers (addr', size') a :=
      (surrounds_iff hk hlookup' hgiven' a).mp (List.find?_some hfind)
    by_cases hne : addr' = addr
    · subst hne
      rw [hp, Option.some.inj (hgiven.symm.trans hgiven')]
    · exact absurd ((overlap_iff _ _).mpr ⟨a, ha', ha⟩)
        (hclear addr lot addr' _ hholds hgiven' hne)
  · intro addr lot hholds
    exact (entry_of_given hk (holds_eq_some.mp hholds).2).1
  · intro addr lot hholds
    obtain ⟨-, memory, hmemory, -⟩ := entry_of_given hk (holds_eq_some.mp hholds).2
    exact ⟨memory, hmemory⟩

end Holdings

end RdmaMigration.Manager
