import RdmaMigration.Lib.Arenas
import RdmaMigration.Manager.LocalAllocator

/-! # What `allocate` asks `mmap` for

The ranges that a sequence of `allocate(size)` calls passes to `mmap`, whatever it
answers. The end of the next block is computed modulo `2 ^ 64` before it is compared with
the end of the server's range.
-/

namespace RdmaMigration.Manager

open Lib Function Paging

namespace Server

def askedShared (s : Server) (size : Nat) : List (Nat × Nat) :=
  if s.endAddress < wrap64 (s.allocAddress + size) then [] else [(s.allocAddress, size)]

/-- The address and length of every `mmap` that `allocate(size)` makes: at the block of
the free list, and at `alloc_address` if there is none or `mmap` fails there. -/
def asked (s : Server) (size : Nat) (reuse : Option Nat) : List (Nat × Nat) :=
  match s.freeMap.lookup size with
  | none => s.askedShared size
  | some [] => []
  | some (p :: _) =>
      match s.heap[p]? with
      | none => []
      | some memory =>
          (memory.vaddr, size) :: if reuse.isNone then s.askedShared size else []

/-- Nothing is asked for beyond the end of the range, and a block that would not fit is
refused. -/
def StaysInside (s : Server) (size : Nat) (reuse fresh : Option Nat) : Prop :=
  (∀ r ∈ s.asked size reuse, r.1 + r.2 ≤ s.endAddress) ∧
    (s.endAddress < s.allocAddress + size → s.allocate size reuse fresh = (s, .ok none))

structure Bumped (s : Server) : Prop where
  free : s.freeMap = ∅
  le : s.allocAddress ≤ s.endAddress
  space : s.endAddress ≤ allocatableRangeEnd

theorem Bumped.asked_eq {s : Server} (h : s.Bumped) (size : Nat) (reuse : Option Nat) :
    s.asked size reuse = s.askedShared size := by
  rw [asked, h.free, AList.lookup_empty]

theorem Bumped.allocate_eq {s : Server} (h : s.Bumped) (size : Nat) (reuse fresh : Option Nat) :
    s.allocate size reuse fresh = s.allocateShared size fresh := by
  rw [allocate, h.free, AList.lookup_empty]

theorem Bumped.end_lt {s : Server} (h : s.Bumped) : s.endAddress < 2 ^ 47 :=
  Nat.lt_of_le_of_lt h.space (by decide)

theorem allocateShared_refused {s : Server} {size : Nat}
    (h : s.endAddress < wrap64 (s.allocAddress + size)) (fresh : Option Nat) :
    s.allocateShared size fresh = (s, .ok none) := if_pos h

/-- The sum wraps only if it is `2 ^ 64` or more, and then it is too small. -/
theorem Bumped.staysInside_iff {s : Server} (h : s.Bumped) {size : Nat} (hsize : size < 2 ^ 64)
    (reuse fresh : Option Nat) :
    s.StaysInside size reuse fresh ↔ s.allocAddress + size < 2 ^ 64 := by
  have hle := h.le
  have hspace := h.end_lt
  rw [StaysInside, h.asked_eq, h.allocate_eq, askedShared]
  constructor
  · intro hinside
    by_contra hwraps
    have hsmall : ¬ s.endAddress < wrap64 (s.allocAddress + size) := by
      unfold wrap64
      omega
    rw [if_neg hsmall] at hinside
    have hend := hinside.1 _ List.mem_cons_self
    dsimp only at hend
    omega
  · intro hsum
    have hwrap := wrap64_of_lt hsum
    by_cases hfits : s.endAddress < s.allocAddress + size
    · rw [hwrap, if_pos hfits]
      refine ⟨fun r hr => ?_, fun _ => allocateShared_refused (by rwa [hwrap]) fresh⟩
      cases hr
    · rw [hwrap, if_neg hfits]
      refine ⟨fun r hr => ?_, fun hover => absurd hover hfits⟩
      rw [List.mem_singleton.mp hr]
      exact Nat.le_of_not_lt hfits

theorem construct_bumped {n : Nat} (id : Fin n) : (Server.construct n id).Bumped :=
  ⟨rfl, Nat.le_add_right _ _, (Usage.range_inside id).2⟩

end Server

/-! ## Sequences of allocations -/

structure AllocateCall where
  size : Nat
  reuse : Option Nat
  fresh : Option Nat
  deriving DecidableEq, Repr

namespace AllocateCall

def Mapped (c : AllocateCall) (s : Server) : Prop :=
  (∀ res ∈ c.reuse, s.MapsAt c.size res) ∧ ∀ res ∈ c.fresh, s.MapsAt c.size res

instance (c : AllocateCall) (s : Server) : Decidable (c.Mapped s) :=
  inferInstanceAs (Decidable (_ ∧ _))

/-- An exception of the call does not end the sequence. -/
def step (s : Server) (c : AllocateCall) : Option Server :=
  if c.Mapped s then some (s.allocate c.size c.reuse c.fresh).1 else none

end AllocateCall

namespace Server

theorem enter_frame (b : Build) (t : Server) (addr : Nat) (made : Option RDMAMemory) :
    (t.enter b addr made).1.allocAddress = t.allocAddress ∧
      (t.enter b addr made).1.endAddress = t.endAddress ∧
      (t.enter b addr made).1.freeMap = t.freeMap := by
  cases made with
  | none => exact ⟨rfl, rfl, rfl⟩
  | some r =>
      show (t.insertRecord b addr r).allocAddress = _ ∧ (t.insertRecord b addr r).endAddress = _ ∧
        (t.insertRecord b addr r).freeMap = _
      unfold insertRecord setTable
      split
      · exact ⟨rfl, rfl, rfl⟩
      · exact ⟨rfl, rfl, rfl⟩

def Takes (s : Server) (c : AllocateCall) : Prop :=
  s.askedShared c.size ≠ [] ∧ c.fresh.isSome

instance (s : Server) (c : AllocateCall) : Decidable (s.Takes c) :=
  inferInstanceAs (Decidable (_ ∧ _))

section Bumped

variable {s : Server} {c : AllocateCall}

theorem Bumped.allocate (h : s.Bumped) (hmapped : c.Mapped s) :
    (s.allocate c.size c.reuse c.fresh).1.Bumped ∧
      (s.allocate c.size c.reuse c.fresh).1.endAddress = s.endAddress ∧
      (s.allocate c.size c.reuse c.fresh).1.allocAddress =
        if s.Takes c then s.allocAddress + c.size else s.allocAddress := by
  rw [h.allocate_eq]
  by_cases hend : s.endAddress < wrap64 (s.allocAddress + c.size)
  · have hnot : ¬ s.Takes c := fun htakes => htakes.1 (if_pos hend)
    rw [allocateShared_refused hend, if_neg hnot]
    exact ⟨h, rfl, rfl⟩
  · cases hfresh : c.fresh with
    | none =>
        have hnot : ¬ s.Takes c := by
          rintro ⟨-, hsome⟩
          rw [hfresh] at hsome
          cases hsome
        have hfailed : s.allocateShared c.size none = (s, .ok none) := if_neg hend
        rw [hfailed, if_neg hnot]
        exact ⟨h, rfl, rfl⟩
    | some res =>
        have htakes : s.Takes c := by
          refine ⟨?_, by rw [hfresh]; rfl⟩
          rw [askedShared, if_neg hend]
          exact List.cons_ne_nil _ _
        have htaken : s.allocateShared c.size (some res) =
            (s.takeShared c.size res).enter ⟨false, false⟩ res
              (RDMAMemory.construct s.serverId res c.size 0) := if_neg hend
        obtain ⟨halloc, hends, hfree⟩ := enter_frame ⟨false, false⟩ (s.takeShared c.size res) res
          (RDMAMemory.construct s.serverId res c.size 0)
        -- `mmap` has found room for the block, so that the sum is exact
        obtain ⟨-, -, hroom, -⟩ := hmapped.2 res hfresh
        have hle := le_pageUp c.size
        have hbound := h.le
        have hspace := h.end_lt
        have hnext : (s.takeShared c.size res).allocAddress = s.allocAddress + c.size :=
          wrap64_of_lt (by omega)
        rw [wrap64_of_lt (by omega)] at hend
        rw [htaken, if_pos htakes]
        refine ⟨⟨hfree.trans h.free, ?_, ?_⟩, hends, halloc.trans hnext⟩
        · rw [halloc, hends, hnext]
          exact Nat.le_of_not_lt hend
        · rw [hends]
          exact h.space

theorem Bumped.takes (h : s.Bumped) (hmapped : c.Mapped s) (htakes : s.Takes c) :
    s.askedShared c.size = [(s.allocAddress, c.size)] ∧ 0 < c.size ∧
      s.allocAddress + c.size ≤ s.endAddress := by
  obtain ⟨hasked, hfresh⟩ := htakes
  obtain ⟨res, hres⟩ := Option.isSome_iff_exists.mp hfresh
  obtain ⟨hpos, -⟩ := hmapped.2 res hres
  have hle := (h.allocate hmapped).1.le
  rw [(h.allocate hmapped).2.1, (h.allocate hmapped).2.2, if_pos ⟨hasked, hfresh⟩] at hle
  refine ⟨?_, hpos, hle⟩
  unfold askedShared at hasked ⊢
  split at hasked
  · exact absurd rfl hasked
  · rename_i hend
    exact if_neg hend

end Bumped

end Server

theorem AllocateCall.reaches_bumped {n : Nat} {id : Fin n} {s : Server}
    (h : Reaches AllocateCall.step anyAction (Server.construct n id) s) : s.Bumped := by
  refine h.invariant (fun s c s' hs _ hstep => ?_) (Server.construct_bumped id)
  obtain ⟨hmapped, heq⟩ := Option.ite_none_right_eq_some.mp hstep
  cases heq
  exact (hs.allocate hmapped).1

/-! ## The servers of a cluster -/

structure Hints (n : Nat) where
  server : Fin n → Server
  hints : List Nat
  taken : List (Nat × Nat)

namespace Hints

variable {n : Nat}

def start (n : Nat) : Hints n := ⟨fun i => Server.construct n i, [], []⟩

def step (st : Hints n) : Fin n × AllocateCall → Option (Hints n)
  | (i, c) =>
      if c.Mapped (st.server i) then
        some
          { server := update st.server i
              ((st.server i).allocate c.size c.reuse c.fresh).1
            hints := st.hints ++ ((st.server i).asked c.size c.reuse).map Prod.fst
            taken :=
              if (st.server i).Takes c then ((st.server i).allocAddress, c.size) :: st.taken
              else st.taken }
      else none

/-- The range of the calling server starts on a page, and whole pages are allocated. -/
def WholePages (_ : Hints n) : Fin n × AllocateCall → Prop
  | (i, c) => 4096 ∣ startAddress n i ∧ 4096 ∣ c.size

instance (st : Hints n) (call : Fin n × AllocateCall) : Decidable (st.WholePages call) :=
  inferInstanceAs (Decidable (_ ∧ _))

structure Inv (st : Hints n) : Prop where
  bumped : ∀ i, (st.server i).Bumped
  range : ∀ i, (st.server i).endAddress = startAddress n i + perServer n
  carved : Carved (fun _ : Fin n => True) (fun i => startAddress n i)
    (fun i => startAddress n i + perServer n) (fun i => (st.server i).allocAddress) st.taken
  apart : st.taken.Pairwise fun q r => ¬ Overlap q r
  marks : ∀ i : Fin n, 4096 ∣ startAddress n i → 4096 ∣ (st.server i).allocAddress
  hints : ∀ a ∈ st.hints, 4096 ∣ a
  pages : ∀ r ∈ st.taken, 4096 ∣ r.1 ∧ 4096 ∣ r.2

theorem ranges_disjoint (i j : Fin n) (_ : True) (_ : True) (hij : i ≠ j) :
    startAddress n i + perServer n ≤ startAddress n j ∨
      startAddress n j + perServer n ≤ startAddress n i := by
  have hapart := Usage.ranges_apart hij
  unfold Overlap at hapart
  dsimp only at hapart
  omega

theorem start_inv (n : Nat) : (start n).Inv where
  bumped i := Server.construct_bumped i
  range _ := rfl
  carved := .empty fun i _ => Nat.le_add_right _ _
  apart := .nil
  marks _ h := h
  hints a ha := by cases ha
  pages r hr := by cases hr

section Step

variable {st : Hints n} {i : Fin n} {c : AllocateCall}

theorem Inv.marks_eq (h : st.Inv) (hmapped : c.Mapped (st.server i)) :
    (fun j => (update st.server i
      ((st.server i).allocate c.size c.reuse c.fresh).1 j).allocAddress) =
      update (fun j => (st.server j).allocAddress) i
        (if (st.server i).Takes c then (st.server i).allocAddress + c.size
          else (st.server i).allocAddress) := by
  funext j
  by_cases hj : j = i
  · subst hj
    rw [update_self, update_self]
    exact ((h.bumped j).allocate hmapped).2.2
  · rw [update_of_ne hj, update_of_ne hj]

theorem Inv.carve (h : st.Inv) (hmapped : c.Mapped (st.server i)) (htakes : (st.server i).Takes c) :
    Carved (fun _ : Fin n => True) (fun j => startAddress n j)
      (fun j => startAddress n j + perServer n)
      (update (fun j => (st.server j).allocAddress) i
        ((st.server i).allocAddress + c.size))
      (((st.server i).allocAddress, c.size) :: st.taken) ∧
    (((st.server i).allocAddress, c.size) :: st.taken).Pairwise fun q r => ¬ Overlap q r := by
  obtain ⟨-, hpos, hfit⟩ := (h.bumped i).takes hmapped htakes
  rw [h.range i] at hfit
  refine ⟨h.carved.carve ranges_disjoint trivial hpos hfit, List.pairwise_cons.mpr ⟨?_, h.apart⟩⟩
  intro r hr
  exact h.carved.not_overlap ranges_disjoint trivial hfit hr

end Step

theorem Inv.step {st st' : Hints n} {call : Fin n × AllocateCall} (h : st.Inv)
    (hok : st.WholePages call) (hstep : st.step call = some st') : st'.Inv := by
  obtain ⟨i, c⟩ := call
  obtain ⟨hmapped, heq⟩ := Option.ite_none_right_eq_some.mp hstep
  cases heq
  obtain ⟨hstart, hsize⟩ := hok
  have hmark := h.marks i hstart
  have hallocate := (h.bumped i).allocate hmapped
  constructor
  · intro j
    by_cases hj : j = i
    · subst hj
      dsimp only
      rw [update_self]
      exact hallocate.1
    · dsimp only
      rw [update_of_ne hj]
      exact h.bumped j
  · intro j
    by_cases hj : j = i
    · subst hj
      dsimp only
      rw [update_self, hallocate.2.1, h.range j]
    · dsimp only
      rw [update_of_ne hj, h.range j]
  · dsimp only
    rw [h.marks_eq hmapped]
    split
    next htakes => exact (h.carve hmapped htakes).1
    next =>
      rw [update_eq_self i fun j => (st.server j).allocAddress]
      exact h.carved
  · dsimp only
    split
    next htakes => exact (h.carve hmapped htakes).2
    next => exact h.apart
  · intro j hj
    have hmarks := congrFun (h.marks_eq hmapped) j
    dsimp only at hmarks ⊢
    rw [hmarks]
    by_cases hji : j = i
    · subst hji
      rw [update_self]
      split
      · exact (Nat.dvd_add_iff_right hmark).mp hsize
      · exact hmark
    · rw [update_of_ne hji]
      exact h.marks j hj
  · intro a ha
    rcases List.mem_append.mp ha with hold | hnew
    · exact h.hints a hold
    · rw [(h.bumped i).asked_eq, Server.askedShared] at hnew
      split at hnew
      · cases hnew
      · rw [List.map_singleton, List.mem_singleton] at hnew
        rw [hnew]
        exact hmark
  · intro r hr
    dsimp only at hr
    split at hr
    · rcases List.mem_cons.mp hr with rfl | hold
      · exact ⟨hmark, hsize⟩
      · exact h.pages r hold
    · exact h.pages r hr

theorem reaches_inv {st : Hints n} (h : Reaches step WholePages (start n) st) : st.Inv :=
  h.invariant (fun _ _ _ hinv hok hstep => hinv.step hok hstep) (start_inv n)

end Hints

end RdmaMigration.Manager
