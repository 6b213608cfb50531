import RdmaMigration.FaultTolerant.AllOrNothing
import RdmaMigration.Manager.Resolution

/-! # The records behind addresses, with fault tolerance

The fault-tolerant calls enter their records in `local_segments`. The search for the
segment around an address, `SetPageSize` and the pulls of a range still read
`memory_map`, where no call of this build writes.
-/

namespace RdmaMigration.FaultTolerant.Resolution

open Lib Manager Coordinator

inductive Call where
  | allocate (size : Nat) (id : Int) (mapped : Option Nat) (rounds : Nat)
  | accept (addr size : Nat) (source id : Int) (mapped : Option Nat)
  | deallocate (id : Int)
  deriving DecidableEq, Repr

/-- A call, what ZooKeeper holds when it begins, and what becomes of its requests. -/
structure Action where
  call : Call
  zk : Store
  fates : Path → List Fate
  unset : Path → Int

def Call.Permitted (s : Server) : Call → Prop
  | .allocate size _ mapped _ => ∀ res ∈ mapped, s.MapsAt size res
  | .accept _ size _ _ mapped => ∀ res ∈ mapped, s.MapsAt size res
  | .deallocate _ => True

instance (s : Server) (c : Call) : Decidable (c.Permitted s) := by
  unfold Call.Permitted
  cases c <;> infer_instance

def Call.leaves (paging : Bool) (t : AllOrNothing.Trial) : Call → AllOrNothing.Trial
  | .allocate size id mapped rounds =>
      (AllOrNothing.tried paging
        (Steps.allocate t.world.server.serverId size id mapped rounds) t).2
  | .accept addr size source id mapped =>
      (AllOrNothing.tried paging
        (Steps.accept t.world.server.serverId addr size source id mapped) t).2
  | .deallocate id =>
      (AllOrNothing.tried paging (Steps.deallocate t.world.server.serverId id) t).2

def step (paging : Bool) (s : Server) (a : Action) : Option Server :=
  if a.call.Permitted s then some (a.call.leaves paging ⟨⟨s, a.zk⟩, a.fates, a.unset⟩).world.server
  else none

def holds (s : Server) (addr : Nat) : Option Lot := do
  let p ← s.localSegments.lookup addr
  let memory ← s.heap[p]?
  return ⟨memory.size, p⟩

/-! ## What the calls leave alone -/

/-- `memory_map` is empty, and the entries of `local_segments` lead to records. -/
structure Unlisted (s : Server) : Prop where
  memoryMap : s.memoryMap = ∅
  records : ∀ addr p, s.localSegments.lookup addr = some p → p < s.heap.length

theorem Unlisted.mmap {s : Server} (h : Unlisted s) (size res : Nat) :
    Unlisted (s.mmap size res) := { h with }

theorem Unlisted.munmap {s : Server} (h : Unlisted s) (addr size : Nat) :
    Unlisted (s.munmap addr size) := { h with }

theorem Unlisted.enter {paging : Bool} {s s' : Server} {addr size : Nat} {id : Int}
    {made : Except Fault (Option Nat)} (h : Unlisted s)
    (hmade : enterRecord paging s addr size id = (s', made)) : Unlisted s' := by
  rcases Server.enter_cases hmade with ⟨rfl, -⟩ | ⟨r, -, rfl, -⟩
  · exact h
  · refine ⟨h.memoryMap, fun a p hp => ?_⟩
    have hp' : (s.localSegments.insert addr s.heap.length).lookup a = some p := hp
    show p < (s.heap ++ [r]).length
    rw [List.length_append, List.length_singleton]
    by_cases ha : a = addr
    · rw [ha, AList.lookup_insert, Option.some.injEq] at hp'
      omega
    · rw [AList.lookup_insert_ne ha] at hp'
      have hlt := h.records a p hp'
      omega

theorem Unlisted.erase {s : Server} (h : Unlisted s) (addr : Nat) :
    Unlisted { s with localSegments := s.localSegments.erase addr } where
  memoryMap := h.memoryMap
  records a p hp := by
    by_cases ha : a = addr
    · rw [ha, AList.lookup_erase] at hp
      cases hp
    · rw [AList.lookup_erase_ne ha] at hp
      exact h.records a p hp

theorem Unlisted.modify {s : Server} (h : Unlisted s) (p : Nat) (f : RDMAMemory → RDMAMemory) :
    Unlisted (s.modify p f) where
  memoryMap := h.memoryMap
  records a q hq := by
    show q < (s.heap.modify p f).length
    rw [List.length_modify]
    exact h.records a q hq

theorem Unlisted.answer {s : Server} (h : Unlisted s) (paging : Bool) (addr size : Nat)
    (source : Int) (mem : Option Nat) :
    Unlisted (s.answer (build paging) addr size source mem).1 := by
  cases mem with
  | none => exact h
  | some mem =>
      have hpair : Unlisted (s.updatePair (build paging) mem source) := by
        unfold Server.updatePair Server.updateRecord
        split
        · exact h.modify _ _
        · exact h
      exact ⟨hpair.memoryMap, hpair.records⟩

theorem Unlisted.serve {w : World} (h : Unlisted w.server) (paging : Bool) (fate : Fate)
    (r : Request) : Unlisted (serve paging fate w r).2.server := by
  cases r with
  | get _ | create _ _ | set _ _ _ | remove _ _ | find _ => exact h
  | mmap size res => exact h.mmap size res
  | munmap addr size => exact h.munmap addr size
  | enter addr size id =>
      rcases hmade : enterRecord paging w.server addr size id with ⟨s, made⟩
      rw [serve_enter hmade]
      exact h.enter hmade
  | erase addr => exact h.erase addr
  | reply addr size source mem => exact h.answer paging addr size source mem

theorem unlisted_tried {α : Type} (paging : Bool) (script : Steps α) {t : AllOrNothing.Trial}
    (h : Unlisted t.world.server) :
    Unlisted (AllOrNothing.tried paging script t).2.world.server := by
  refine @Script.run_invariant _ _ _ _ _ _ (fun t => Unlisted t.world.server) ?_ script t h
  intro t r ht
  have hother : Unlisted (t.serveOther paging r).2.world.server := ht.serve paging _ r
  cases r with
  | set | remove => exact ht
  | get | create | mmap | munmap | enter | find | erase | reply => exact hother

theorem step_unlisted {paging : Bool} {s s' : Server} {a : Action} (h : Unlisted s)
    (hstep : step paging s a = some s') : Unlisted s' := by
  rw [step, Option.ite_none_right_eq_some] at hstep
  obtain ⟨-, hs'⟩ := hstep
  cases hs'
  cases hcall : a.call with
  | allocate size id mapped rounds => exact unlisted_tried paging _ h
  | accept addr size source id mapped => exact unlisted_tried paging _ h
  | deallocate id => exact unlisted_tried paging _ h

theorem reaches_unlisted {paging : Bool} {n : Nat} {id : Int} {s : Server}
    (h : Reaches (step paging) anyAction (Server.construct n id) s) : Unlisted s :=
  h.invariant (fun _ _ _ hs _ hstep => step_unlisted hs hstep)
    ⟨rfl, fun _ _ hp => by cases hp⟩

/-! ## The two builds -/

theorem resolves_iff {s : Server} (h : Unlisted s) :
    s.Resolves (holds s) ↔ ∀ addr, s.localSegments.lookup addr = none := by
  constructor
  · intro hr addr
    by_contra hsome
    obtain ⟨p, hp⟩ := Option.ne_none_iff_exists'.mp hsome
    obtain ⟨memory, hmemory⟩ : ∃ memory, s.heap[p]? = some memory :=
      ⟨_, List.getElem?_eq_getElem (h.records addr p hp)⟩
    have hholds : holds s addr = some ⟨memory.size, p⟩ := by
      simp [holds, hp, hmemory]
    have hlookup := hr.lookup hholds
    rw [h.memoryMap] at hlookup
    cases hlookup
  · intro hnone
    have hholds : ∀ addr, holds s addr = none := fun addr => by simp [holds, hnone addr]
    exact Server.resolves_of_lookup (fun addr lot hlot => by simp [hholds] at hlot)
      (fun addr lot hlot => by simp [hholds] at hlot)
      (fun addr lot hlot => by simp [hholds] at hlot)

/-- Of the two builds, the one without fault tolerance finds its segments as long as no
block that was given out before lies over them; the other finds none that it holds. -/
theorem held_segments_resolve {paging : Bool} {n n' : Nat} {id id' : Int} {h : Holdings}
    {s : Server} (hreach : Reaches Holdings.step anyAction (Holdings.start n id) h)
    (hreach' : Reaches (step paging) anyAction (Server.construct n' id') s) :
    (h.server.Resolves h.holds ↔ h.Clear) ∧
      (s.Resolves (holds s) ↔ ∀ addr, s.localSegments.lookup addr = none) :=
  ⟨⟨Holdings.clear_of_resolves (Holdings.reaches_booked hreach),
      Holdings.resolves_of_clear (Holdings.reaches_booked hreach)⟩,
    resolves_iff (reaches_unlisted hreach')⟩

def emptyList : Store := Function.update (fun _ => none) (.process 0) (some ⟨[], 0⟩)

/-- Two blocks far apart without fault tolerance, and with it a segment that is declined. -/
theorem held_segments_resolve_apart :
    (∃ h, Reaches Holdings.step anyAction (Holdings.start 2 0) h ∧
      h.held (2 ^ 44) = true ∧ h.server.Resolves h.holds) ∧
    ∃ s, Reaches (step true) anyAction (Server.construct 2 0) s ∧ s.Resolves (holds s) := by
  have hrun : (run Holdings.step (Holdings.start 2 0)
      [.allocate 4096 none (some (2 ^ 44)), .accept (2 ^ 46) 8192 1 (some (2 ^ 46))]).map
      (fun h => (h.server.memoryMap.keys, h.given (2 ^ 44), h.given (2 ^ 46), h.held (2 ^ 44))) =
        some ([2 ^ 46, 2 ^ 44], some ⟨4096, 0⟩, some ⟨8192, 1⟩, true) := by
    decide +kernel
  have hrun' : (run (step true) (Server.construct 2 0)
      [⟨.accept (2 ^ 44) 4096 1 7 none, emptyList, fun _ => [], fun _ => 0⟩]).map
      (fun s => s.localSegments.entries) = some [] := by
    decide +kernel
  obtain ⟨h, hreach, hshape⟩ := reaches_of_map_run hrun
  obtain ⟨s, hreach', hempty⟩ := reaches_of_map_run hrun'
  simp only [Prod.mk.injEq] at hshape
  obtain ⟨hkeys, hfirst, hsecond, hheld⟩ := hshape
  obtain ⟨hlists, hnone⟩ := held_segments_resolve hreach hreach'
  have hgiven : ∀ addr lot, h.given addr = some lot →
      addr = 2 ^ 46 ∧ lot = ⟨8192, 1⟩ ∨ addr = 2 ^ 44 ∧ lot = ⟨4096, 0⟩ := by
    intro addr lot hlot
    have hkey : addr ∈ h.server.memoryMap.keys :=
      AList.lookup_isSome.mp ((Holdings.reaches_booked hreach).given addr
        (Option.isSome_of_eq_some hlot))
    rw [hkeys] at hkey
    simp only [List.mem_cons, List.not_mem_nil, or_false] at hkey
    rcases hkey with rfl | rfl
    · exact .inl ⟨rfl, Option.some.inj (hlot.symm.trans hsecond)⟩
    · exact .inr ⟨rfl, Option.some.inj (hlot.symm.trans hfirst)⟩
  refine ⟨⟨h, hreach, hheld, hlists.mpr ?_⟩, s, hreach', hnone.mpr fun addr => ?_⟩
  · intro addr lot addr' lot' hholds hgiven' hne
    rcases hgiven addr lot (Holdings.holds_eq_some.mp hholds).2 with ⟨rfl, rfl⟩ | ⟨rfl, rfl⟩ <;>
      rcases hgiven addr' lot' hgiven' with ⟨rfl, rfl⟩ | ⟨rfl, rfl⟩
    · exact absurd rfl hne
    · decide
    · decide
    · exact absurd rfl hne
  · rw [AList.lookup_eq_none, AList.mem_keys, AList.keys, hempty]
    exact List.not_mem_nil

/-- `mmap` places a larger block around one that was given back, the larger one is given
back as well, and the first one is given out again. With fault tolerance no call that
takes an address finds the segment that was just accepted. -/
theorem held_segment_not_found :
    (∃ h, Reaches Holdings.step anyAction (Holdings.start 2 0) h ∧
      h.holds (2 ^ 44 + 4096) = some ⟨4096, 0⟩ ∧
      h.server.memoryMap.entries.Perm [⟨2 ^ 44, 1⟩, ⟨2 ^ 44 + 4096, 0⟩] ∧
      h.server.getRDMAMemory [⟨2 ^ 44, 1⟩, ⟨2 ^ 44 + 4096, 0⟩] (2 ^ 44 + 4096) = some 1) ∧
    ∃ s, Reaches (step true) anyAction (Server.construct 2 0) s ∧
      holds s (2 ^ 44) = some ⟨4096, 0⟩ ∧
      s.getRDMAMemory s.memoryMap.entries (2 ^ 44) = none ∧
      s.setPageSize (2 ^ 44) 4096 = .error .endIterator ∧
      s.pullPagesSync (fun _ => false) (fun _ => true) (2 ^ 44) 4096 = .error .endIterator ∧
      s.pullPagesAsync (fun _ => true) 0 (2 ^ 44) 4096 1 = .error .endIterator := by
  have hrun : (run Holdings.step (Holdings.start 2 0)
      [.allocate 4096 none (some (2 ^ 44 + 4096)), .deallocate (2 ^ 44 + 4096),
        .allocate 8192 none (some (2 ^ 44)), .deallocate (2 ^ 44),
        .allocate 4096 (some (2 ^ 44 + 4096)) none]).map
      (fun h => (h.holds (2 ^ 44 + 4096), h.server.memoryMap.entries,
        h.server.getRDMAMemory [⟨2 ^ 44, 1⟩, ⟨2 ^ 44 + 4096, 0⟩] (2 ^ 44 + 4096))) =
        some (some ⟨4096, 0⟩, [⟨2 ^ 44 + 4096, 0⟩, ⟨2 ^ 44, 1⟩], some 1) := by
    decide +kernel
  have hrun' : (run (step true) (Server.construct 2 0)
      [⟨.accept (2 ^ 44) 4096 1 7 (some (2 ^ 44)), emptyList, fun _ => [], fun _ => 0⟩]).map
      (fun s => (holds s (2 ^ 44), s.memoryMap.entries)) = some (some ⟨4096, 0⟩, []) := by
    decide +kernel
  obtain ⟨h, hreach, hshape⟩ := reaches_of_map_run hrun
  obtain ⟨s, hreach', hshape'⟩ := reaches_of_map_run hrun'
  simp only [Prod.mk.injEq] at hshape hshape'
  obtain ⟨hheld, hentries, hwrong⟩ := hshape
  obtain ⟨hheld', hempty⟩ := hshape'
  have hmap := (reaches_unlisted hreach').memoryMap
  have hfound : s.recordAt (2 ^ 44) = .error .endIterator := by
    rw [Server.recordAt, hmap]
    rfl
  refine ⟨⟨h, hreach, hheld, hentries ▸ List.Perm.swap .., hwrong⟩, s, hreach', hheld', ?_, ?_,
    ?_, ?_⟩
  · rw [hempty]
    rfl
  · rw [Server.setPageSize, hfound]
    rfl
  · rw [Server.pullPagesSync, hfound]
    rfl
  · rw [Server.pullPagesAsync, hfound]
    rfl

end RdmaMigration.FaultTolerant.Resolution
