import RdmaMigration.Manager.Blocks
import RdmaMigration.Manager.LocalAllocator

/-! # What `mmap` answers

Without `MAP_FIXED` an address is a hint: `mmap` may fail, map there, or map somewhere
else. The allocation paths compare the answer with the hint in an assertion that only
logs, or not at all.
-/

namespace RdmaMigration.Manager

open Lib Paging

/-- The page vector of a segment of this size can be built: the number of pages is not
negative as an `int`. -/
def Counted (size : Nat) : Prop := 0 ≤ toInt32 (pageCount size defaultPageSize)

instance (size : Nat) : Decidable (Counted size) := inferInstanceAs (Decidable (_ ≤ _))

theorem RDMAMemory.construct_isSome_iff {owner appId : Int} {addr size : Nat} :
    (RDMAMemory.construct owner addr size appId).isSome ↔ Counted size := by
  have hzero : defaultPageSize ≠ 0 := by decide
  rw [RDMAMemory.construct, Option.isSome_map, Pages.construct, Counted]
  by_cases hneg : toInt32 (pageCount size defaultPageSize) < 0
  · rw [if_pos (.inr hneg)]
    simpa using hneg
  · rw [if_neg (by simp [hzero, hneg])]
    simpa using hneg

namespace Server

def lastHint (s : Server) (size : Nat) (reuse : Option Nat) : Nat :=
  if (s.freeMap.lookup size).isSome ∧ reuse.isSome then s.reuseHint size else s.allocAddress

/-- The call that has led from `s` to `s'` returned the address it asked for, and has
mapped the block there, or it returned null and left nothing behind. -/
def Honours (s s' : Server) (requested size : Nat) : Except Fault (Option Nat) → Prop
  | .ok (some addr) => addr = requested ∧
      ∃ r, s'.mapped = r :: s.mapped ∧ ∀ a, Covers (addr, size) a → Covers r a
  | .ok none => (∀ a, Covered s'.mapped a ↔ Covered s.mapped a) ∧
      s'.memoryMap = s.memoryMap ∧ s'.localSegments = s.localSegments
  | .error _ => False

theorem honours_null (s : Server) (requested size : Nat) :
    s.Honours s requested size (.ok none) := ⟨fun _ => Iff.rfl, rfl, rfl⟩

@[simp] theorem mapped_insertRecord (b : Build) (s : Server) (addr : Nat) (r : RDMAMemory) :
    (s.insertRecord b addr r).mapped = s.mapped := by
  unfold insertRecord setTable
  split
  · rfl
  · rfl

theorem honours_enter_iff {b : Build} {s t : Server} {owner appId : Int}
    {requested size res : Nat} (ht : t.mapped = (res, pageUp size) :: s.mapped) :
    s.Honours (t.enter b res (RDMAMemory.construct owner res size appId)).1 requested size
      (t.enter b res (RDMAMemory.construct owner res size appId)).2 ↔
      res = requested ∧ Counted size := by
  rw [← @RDMAMemory.construct_isSome_iff owner appId res size]
  cases hmade : RDMAMemory.construct owner res size appId with
  | none => exact iff_of_false (fun h => h) fun h => by cases h.2
  | some r =>
      have hle := le_pageUp size
      rw [enter, Honours, (RDMAMemory.construct_eq hmade).1, mapped_insertRecord, ht]
      constructor
      · intro h
        exact ⟨h.1, rfl⟩
      · rintro ⟨rfl, -⟩
        refine ⟨rfl, _, rfl, fun a ha => ?_⟩
        unfold Covers at ha ⊢
        omega

def SharedInPlace (s : Server) (size : Nat) (fresh : Option Nat) : Prop :=
  s.endAddress < wrap64 (s.allocAddress + size) ∨ fresh = none ∨
    fresh = some s.allocAddress ∧ Counted size

theorem honours_allocateShared_iff (s : Server) (size : Nat) (fresh : Option Nat) :
    s.Honours (s.allocateShared size fresh).1 s.allocAddress size
      (s.allocateShared size fresh).2 ↔ s.SharedInPlace size fresh := by
  unfold allocateShared
  split
  next hend => exact iff_of_true (s.honours_null _ _) (.inl hend)
  next hend =>
    cases fresh with
    | none => exact iff_of_true (s.honours_null _ _) (.inr (.inl rfl))
    | some res =>
        dsimp only
        rw [honours_enter_iff rfl]
        simp [SharedInPlace, hend]

/-- A record from a free list: `mmap` covers its block. Otherwise a new block. -/
def InPlace (s : Server) (size : Nat) (reuse fresh : Option Nat) : Prop :=
  if (s.freeMap.lookup size).isSome ∧ reuse.isSome then
    ∀ res ∈ reuse, res ≤ s.reuseHint size ∧ s.reuseHint size + size ≤ res + pageUp size
  else s.SharedInPlace size fresh

theorem honours_allocate_iff {s : Server} {size : Nat} {reuse fresh : Option Nat}
    (hfree : ∀ list, s.freeMap.lookup size = some list →
      list ≠ [] ∧ ∀ p ∈ list, ∃ memory, s.heap[p]? = some memory)
    (hreuse : ∀ res ∈ reuse, s.MapsAt size res) :
    s.Honours (s.allocate size reuse fresh).1 (s.lastHint size reuse) size
      (s.allocate size reuse fresh).2 ↔ s.InPlace size reuse fresh := by
  unfold lastHint InPlace
  cases hlist : s.freeMap.lookup size with
  | none =>
      rw [if_neg (by simp), if_neg (by simp), allocate_of_none hlist]
      exact s.honours_allocateShared_iff size fresh
  | some list =>
      obtain ⟨hne, hrecords⟩ := hfree list hlist
      obtain ⟨p, rest, rfl⟩ := List.exists_cons_of_ne_nil hne
      obtain ⟨memory, hmemory⟩ := hrecords p List.mem_cons_self
      cases reuse with
      | none =>
          rw [if_neg (by simp), if_neg (by simp), allocate_of_failed hlist]
          exact s.honours_allocateShared_iff size fresh
      | some res =>
          have hhint : s.reuseHint size = memory.vaddr := by
            simp [reuseHint, hlist, hmemory]
          have hpos := (hreuse res rfl).1
          rw [if_pos (by simp), if_pos (by simp), hhint, allocate_of_reuse hlist hmemory]
          constructor
          · rintro ⟨-, r, hr, hcovers⟩ res' hres'
            cases hres'
            cases hr
            have hfirst := hcovers memory.vaddr (by unfold Covers; omega)
            have hlast := hcovers (memory.vaddr + (size - 1)) (by unfold Covers; omega)
            unfold Covers at hfirst hlast
            omega
          · intro h
            obtain ⟨hlo, hhi⟩ := h res rfl
            refine ⟨rfl, _, rfl, fun a ha => ?_⟩
            unfold Covers at ha ⊢
            omega

theorem honours_allocateAt_iff (b : Build) (s : Server) (vaddr size : Nat) (appId : Int)
    (mapped : Option Nat) :
    s.Honours (s.allocateAt b size appId mapped).1 vaddr size
      (s.allocateAt b size appId mapped).2 ↔
        mapped = none ∨ mapped = some vaddr ∧ Counted size := by
  cases mapped with
  | none => exact iff_of_true (s.honours_null _ _) (.inl rfl)
  | some res =>
      rw [allocateAt, honours_enter_iff rfl]
      simp

end Server

end RdmaMigration.Manager
