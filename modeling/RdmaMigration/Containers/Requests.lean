import RdmaMigration.Containers.Pool
import RdmaMigration.Lib.Bump

/-! # What the pool of a container hands out

The containers of a segment allocate through `PoolBasedAllocator`s of different element
types, all with the same pool. Each asks the pool for a number of bytes, and the pool moves
`unused_past` behind them. That there was room is only asserted, which ends up in the log,
and nothing is rounded up to the alignment of the type.
-/

namespace RdmaMigration.Containers

open Lib Function

structure ElementType where
  size : Nat
  align : Nat
  size_pos : 0 < size
  size_lt : size < 2 ^ 64
  align_pow : ∃ k, align = 2 ^ k
  align_dvd : align ∣ size

def ElementType.char : ElementType := ⟨1, 1, by decide, by decide, ⟨0, rfl⟩, by decide⟩

def ElementType.pointer : ElementType := ⟨8, 8, by decide, by decide, ⟨3, rfl⟩, by decide⟩

def ElementType.mapNode : ElementType := ⟨40, 8, by decide, by decide, ⟨3, rfl⟩, by decide⟩

namespace PoolBasedAllocator

def maxSize : Nat := 2 ^ 64 - 1

/-- `PoolBasedAllocator<T>::allocate(num)`. An allocator without a pool takes the memory
from `malloc`. -/
def allocate (T : ElementType) (m : Memory) (mempool num : Nat) : Option (Memory × Nat × Bool) :=
  if mempool = 0 then none
  else some (MemoryPool.allocate m (load m mempool) (wrap64 (num * T.size)))

end PoolBasedAllocator

inductive Request where
  | allocate (T : ElementType) (num : Nat)
  | write (addr : Nat) (byte : UInt8)

def asked (rs : List Request) : List (ElementType × Nat) :=
  rs.filterMap fun
    | .allocate T num => some (T, num)
    | .write _ _ => none

def askedBytes (rs : List Request) : List Nat := (asked rs).map fun r => r.2 * r.1.size

namespace Segment

/-- A call with at most `max_size()` elements, or a write outside the header of the segment.
The blocks are the ones that the callers take to be theirs. -/
def serve (st : Segment) : Request → Option Segment
  | .allocate T num =>
      if num ≤ PoolBasedAllocator.maxSize then
        (PoolBasedAllocator.allocate T st.memory st.allocator num).map fun r =>
          { st with memory := r.1, blocks := st.blocks ++ [(r.2.1, num * T.size)] }
      else none
  | .write addr byte =>
      if Covers (st.allocator, headerSize) addr then none
      else some { st with memory := update st.memory addr byte }

/-! ## The pool after any number of calls -/

structure Held (base size total : Nat) (st : Segment) : Prop where
  allocator : st.allocator = base
  mempool : st.mempool = base + sizeofPointer
  pointer : load st.memory base = base + sizeofPointer
  poolAddr : st.pool.poolAddr = base + headerSize
  poolSize : st.pool.poolSize = sub64 size headerSize
  unusedPast : st.pool.unusedPast = wrap64 (base + headerSize + total)

section Held

variable {base size total : Nat} {st st' : Segment}

theorem setUpAllocator_held (m : Memory) {base : Nat} (size : Nat)
    (hbase : base + headerSize < 2 ^ 64) : Held base size 0 (setUpAllocator m base size) := by
  obtain ⟨hmempool, hpointer, hpoolAddr, hpoolSize, hunused, -⟩ :=
    @setUpAllocator_fields m base size hbase
  refine ⟨rfl, hmempool, hpointer, hpoolAddr, hpoolSize, ?_⟩
  rw [hunused, Nat.add_zero, wrap64_of_lt hbase]

/-- `allocate` always returns, and the bytes it moves on by are those modulo `2 ^ 64`. -/
theorem Held.serve_allocate (h : Held base size total st) (hbase : 0 < base) (T : ElementType)
    {num : Nat} (hnum : num ≤ PoolBasedAllocator.maxSize) :
    ∃ st', st.serve (.allocate T num) = some st' ∧ Held base size (total + num * T.size) st' ∧
      st'.blocks = st.blocks ++ [(wrap64 (base + headerSize + total), num * T.size)] := by
  have hpointer : load st.memory st.allocator = base + sizeofPointer := by
    rw [h.allocator]
    exact h.pointer
  obtain ⟨hresult, hmemory⟩ := allocate_eq h.mempool hpointer (wrap64 (num * T.size))
  have hnext : wrap64 (st.pool.unusedPast + wrap64 (num * T.size)) =
      wrap64 (base + headerSize + (total + num * T.size)) := by
    rw [h.unusedPast, wrap64, wrap64, wrap64, wrap64, ← Nat.add_mod, Nat.add_assoc]
  rw [hnext] at hmemory
  have hpool := pool_store_unusedPast h.mempool (wrap64_lt (base + headerSize +
    (total + num * T.size))) (st.blocks ++ [(st.pool.unusedPast, num * T.size)])
  refine ⟨{ st with
    memory := store st.memory (base + 24) (wrap64 (base + headerSize + (total + num * T.size)))
    blocks := st.blocks ++ [(st.pool.unusedPast, num * T.size)] }, ?_, ?_, ?_⟩
  · show (if num ≤ PoolBasedAllocator.maxSize then _ else _) = some _
    rw [if_pos hnum, PoolBasedAllocator.allocate, if_neg (by rw [h.allocator]; omega),
      Option.map_some, hresult, hmemory]
  · refine ⟨h.allocator, h.mempool, ?_, ?_, ?_, ?_⟩
    · exact (load_store_apart (by omega)).trans h.pointer
    · rw [hpool]
      exact h.poolAddr
    · rw [hpool]
      exact h.poolSize
    · rw [hpool]
  · rw [h.unusedPast]

theorem Held.serve_write (h : Held base size total st) {addr : Nat} {byte : UInt8}
    (hstep : st.serve (.write addr byte) = some st') :
    Held base size total st' ∧ st'.blocks = st.blocks := by
  simp only [serve] at hstep
  obtain ⟨hclear, heq⟩ := Option.ite_none_left_eq_some.mp hstep
  cases heq
  rw [h.allocator] at hclear
  have hkept : ∀ x, base ≤ x → x < base + 56 →
      update st.memory addr byte x = st.memory x := by
    intro x hlow hhigh
    refine update_of_ne ?_ ..
    rintro rfl
    exact hclear ⟨hlow, hhigh⟩
  have hpool := pool_of_header h.mempool fun x hlow hhigh => hkept x (by omega) (by omega)
  refine ⟨⟨h.allocator, h.mempool, ?_, ?_, ?_, ?_⟩, rfl⟩
  · exact (load_congr fun x hlow hhigh => hkept x hlow (by omega)).trans h.pointer
  · rw [hpool]
    exact h.poolAddr
  · rw [hpool]
    exact h.poolSize
  · rw [hpool]
    exact h.unusedPast

theorem Held.serve (h : Held base size total st) (hbase : 0 < base) {r : Request}
    (hstep : st.serve r = some st') :
    Held base size (total + (askedBytes [r]).sum) st' ∧
      st'.blocks = st.blocks ++ bump (2 ^ 64) (base + headerSize + total) (askedBytes [r]) := by
  cases r with
  | allocate T num =>
      have hnum : num ≤ PoolBasedAllocator.maxSize := by
        by_contra hmany
        simp [Segment.serve, hmany] at hstep
      obtain ⟨st'', hserve, hheld, hblocks⟩ := h.serve_allocate hbase T hnum
      cases hstep.symm.trans hserve
      exact ⟨hheld, hblocks⟩
  | write addr byte =>
      obtain ⟨hheld, hblocks⟩ := h.serve_write hstep
      refine ⟨hheld, ?_⟩
      rw [hblocks]
      exact (List.append_nil _).symm

theorem askedBytes_cons (r : Request) (rs : List Request) :
    askedBytes (r :: rs) = askedBytes [r] ++ askedBytes rs := by
  rw [askedBytes, askedBytes, askedBytes, ← List.map_append, asked, asked, asked,
    ← List.filterMap_append, List.singleton_append]

theorem Held.run (h : Held base size total st) (hbase : 0 < base) {rs : List Request}
    (hrun : Lib.run Segment.serve st rs = some st') :
    Held base size (total + (askedBytes rs).sum) st' ∧
      st'.blocks = st.blocks ++ bump (2 ^ 64) (base + headerSize + total) (askedBytes rs) := by
  induction rs generalizing st total with
  | nil =>
      cases hrun
      exact ⟨h, (List.append_nil _).symm⟩
  | cons r rs ih =>
      obtain ⟨next, hstep, hrest⟩ := run_cons_some hrun
      obtain ⟨hnext, hblocks⟩ := h.serve hbase hstep
      obtain ⟨hlast, hlater⟩ := ih hnext hrest
      rw [askedBytes_cons, List.sum_append, bump_append, ← Nat.add_assoc]
      refine ⟨hlast, ?_⟩
      rw [hlater, hblocks, List.append_assoc, Nat.add_assoc (base + headerSize)]

end Held

theorem held_of_run {m : Memory} {base size : Nat} (hbase : 0 < base)
    (hhead : base + headerSize < 2 ^ 64) {rs : List Request} {st : Segment}
    (h : Lib.run serve (setUpAllocator m base size) rs = some st) :
    Held base size (askedBytes rs).sum st ∧
      st.blocks = bump (2 ^ 64) (base + headerSize) (askedBytes rs) := by
  have hrun := (setUpAllocator_held m size hhead).run hbase h
  rwa [Nat.zero_add] at hrun

/-! ## Inside the segment -/

/-- The blocks handed out so far lie in the pool and in the segment and do not overlap, and
a request for all that is left is served. -/
structure PoolKept (base size : Nat) (st : Segment) : Prop where
  inPool : ∀ b ∈ st.blocks,
    st.pool.poolAddr ≤ b.1 ∧ b.1 + b.2 ≤ st.pool.poolAddr + st.pool.poolSize
  inSegment : ∀ b ∈ st.blocks, base ≤ b.1 ∧ b.1 + b.2 ≤ base + size
  disjoint : st.blocks.Pairwise fun q r => ¬ Overlap q r
  exactFit : ∀ (T : ElementType) num, num ≤ PoolBasedAllocator.maxSize →
    st.pool.unusedPast + num * T.size = st.pool.poolAddr + st.pool.poolSize →
    ∃ st', st.serve (.allocate T num) = some st' ∧
      st'.blocks = st.blocks ++ [(st.pool.unusedPast, num * T.size)]

/-- The pool is kept exactly if all that is asked for fits behind the header. -/
theorem pool_kept {m : Memory} {base size : Nat} (hbase : 0 < base)
    (hhead : base + headerSize < 2 ^ 64) (hend : base + size < 2 ^ 64) {rs : List Request}
    {st : Segment} (h : Lib.run serve (setUpAllocator m base size) rs = some st) :
    PoolKept base size st ↔ askedBytes rs = [] ∨ headerSize + (askedBytes rs).sum ≤ size := by
  obtain ⟨hheld, hblocks⟩ := held_of_run hbase hhead h
  have hfit : (∀ b ∈ st.blocks, b.1 + b.2 ≤ base + size) ↔
      askedBytes rs = [] ∨ headerSize + (askedBytes rs).sum ≤ size := by
    rw [hblocks, bump_le_iff hhead hend]
    exact or_congr_right (by omega)
  constructor
  · intro hkept
    exact hfit.mp fun b hb => (hkept.inSegment b hb).2
  · intro hfits
    have hinside := hfit.mpr hfits
    have htiles : ∃ hi, Tiles (base + headerSize) st.blocks hi := by
      rcases hfits with hnone | hsum
      · exact ⟨base + headerSize, by rw [hblocks, hnone]; rfl⟩
      · exact ⟨_, hblocks ▸ bump_tiles (by omega)⟩
    obtain ⟨hi, htiles⟩ := htiles
    have hlow : ∀ b ∈ st.blocks, base + headerSize ≤ b.1 := fun b hb => (htiles.bounds hb).1
    refine ⟨?_, ?_, htiles.apart, ?_⟩
    · intro b hb
      have hlow := hlow b hb
      have hhigh := hinside b hb
      rw [hheld.poolAddr, hheld.poolSize, sub64_of_le (by omega) (by omega)]
      omega
    · intro b hb
      have hlow := hlow b hb
      exact ⟨by omega, hinside b hb⟩
    · intro T num hnum _
      obtain ⟨st', hserve, -, hmore⟩ := hheld.serve_allocate hbase T hnum
      exact ⟨st', hserve, by rw [hmore, hheld.unusedPast]⟩

theorem pool_kept_full : ∃ st, Lib.run serve (setUpAllocator (fun _ => 0) (2 ^ 44) 4096)
      [.allocate .char 40, .write (2 ^ 44 + 56) 7, .allocate .mapNode 100] = some st ∧
    PoolKept (2 ^ 44) 4096 st := by
  have hrun : (Lib.run serve (setUpAllocator (fun _ => 0) (2 ^ 44) 4096)
      [.allocate .char 40, .write (2 ^ 44 + 56) 7, .allocate .mapNode 100]).isSome = true := by
    decide +kernel
  obtain ⟨st, hst⟩ := Option.isSome_iff_exists.mp hrun
  exact ⟨st, hst, (pool_kept (by decide) (by decide) (by decide) hst).mpr (.inr (by decide))⟩

/-- The pool of the default size is left by a string of that size, and the size of `2 ^ 61`
pointers wraps to zero. -/
theorem pool_overrun :
    (∃ st, Lib.run serve (setUpAllocator (fun _ => 0) (2 ^ 44) (2 ^ 22)) [.allocate .char (2 ^ 22)] =
        some st ∧
      st.blocks = [(2 ^ 44 + 56, 2 ^ 22)] ∧ ¬ PoolKept (2 ^ 44) (2 ^ 22) st) ∧
    ∃ st, Lib.run serve (setUpAllocator (fun _ => 0) (2 ^ 44) (2 ^ 22))
        [.allocate .pointer (2 ^ 61), .allocate .pointer 1] = some st ∧
      st.blocks = [(2 ^ 44 + 56, 2 ^ 64), (2 ^ 44 + 56, 8)] ∧ ¬ PoolKept (2 ^ 44) (2 ^ 22) st := by
  have hlong : (Lib.run serve (setUpAllocator (fun _ => 0) (2 ^ 44) (2 ^ 22))
      [.allocate .char (2 ^ 22)]).map Segment.blocks = some [(2 ^ 44 + 56, 2 ^ 22)] := by
    decide +kernel
  have hwrap : (Lib.run serve (setUpAllocator (fun _ => 0) (2 ^ 44) (2 ^ 22))
      [.allocate .pointer (2 ^ 61), .allocate .pointer 1]).map Segment.blocks =
      some [(2 ^ 44 + 56, 2 ^ 64), (2 ^ 44 + 56, 8)] := by
    decide +kernel
  obtain ⟨st, hst, hblocks⟩ := Option.map_eq_some_iff.mp hlong
  obtain ⟨st', hst', hblocks'⟩ := Option.map_eq_some_iff.mp hwrap
  refine ⟨⟨st, hst, hblocks, ?_⟩, st', hst', hblocks', ?_⟩
  · intro hkept
    have hin := hkept.inSegment (2 ^ 44 + 56, 2 ^ 22) (by rw [hblocks]; decide)
    exact absurd hin (by decide)
  · intro hkept
    have hin := hkept.inSegment (2 ^ 44 + 56, 2 ^ 64) (by rw [hblocks']; decide)
    exact absurd hin (by decide)

/-! ## Alignment -/

theorem align_dvd_limit (T : ElementType) : T.align ∣ 2 ^ 64 := by
  obtain ⟨k, hk⟩ := T.align_pow
  have hle : T.align ≤ T.size := Nat.le_of_dvd T.size_pos T.align_dvd
  have hlt : 2 ^ k < 2 ^ 64 := by
    rw [← hk]
    exact Nat.lt_of_le_of_lt hle T.size_lt
  rw [hk]
  exact pow_dvd_pow 2 (Nat.le_of_lt ((Nat.pow_lt_pow_iff_right (by decide)).mp hlt))

def BlocksAligned (rs : List Request) (st : Segment) : Prop :=
  ∀ (k num : Nat) (T : ElementType) (b : Nat × Nat),
    (asked rs)[k]? = some (T, num) → st.blocks[k]? = some b → T.align ∣ b.1

/-- Every block is aligned for its type exactly if the bytes asked for before it bring it
there. -/
theorem pool_blocks_aligned {m : Memory} {base size : Nat} (hbase : 0 < base)
    (hhead : base + headerSize < 2 ^ 64) {rs : List Request} {st : Segment}
    (h : Lib.run serve (setUpAllocator m base size) rs = some st) :
    BlocksAligned rs st ↔ ∀ (k num : Nat) (T : ElementType), (asked rs)[k]? = some (T, num) →
      T.align ∣ base + headerSize + ((askedBytes rs).take k).sum := by
  obtain ⟨-, hblocks⟩ := held_of_run hbase hhead h
  have hblock : ∀ {k num : Nat} {T : ElementType}, (asked rs)[k]? = some (T, num) → st.blocks[k]? =
      some ((base + headerSize + ((askedBytes rs).take k).sum) % 2 ^ 64, num * T.size) := by
    intro k num T hk
    rw [hblocks, getElem?_bump, askedBytes, List.getElem?_map, hk]
    rfl
  constructor
  · intro haligned k num T hk
    exact (Nat.dvd_mod_iff (align_dvd_limit T)).mp (haligned k num T _ hk (hblock hk))
  · intro hoffsets k num T b hk hb
    cases (hblock hk).symm.trans hb
    exact (Nat.dvd_mod_iff (align_dvd_limit T)).mpr (hoffsets k num T hk)

theorem pool_blocks_aligned_words :
    ∃ st, Lib.run serve (setUpAllocator (fun _ => 0) (2 ^ 44) 4096)
        [.allocate .char 16, .allocate .mapNode 2, .allocate .char 3] = some st ∧
      BlocksAligned [.allocate .char 16, .allocate .mapNode 2, .allocate .char 3] st := by
  have hrun : (Lib.run serve (setUpAllocator (fun _ => 0) (2 ^ 44) 4096)
      [.allocate .char 16, .allocate .mapNode 2, .allocate .char 3]).isSome = true := by
    decide +kernel
  obtain ⟨st, hst⟩ := Option.isSome_iff_exists.mp hrun
  refine ⟨st, hst, (pool_blocks_aligned (by decide) (by decide) hst).mpr ?_⟩
  intro k num T hk
  match k with
  | 0 =>
      cases hk
      decide
  | 1 =>
      cases hk
      decide
  | 2 =>
      cases hk
      decide
  | k + 3 => cases hk

/-- A map node behind the 31 characters of a string and its terminator. -/
theorem map_node_unaligned :
    ∃ st, 4096 ∣ 2 ^ 44 ∧
      Lib.run serve (setUpAllocator (fun _ => 0) (2 ^ 44) (2 ^ 22))
        [.allocate .char 31, .allocate .mapNode 1] = some st ∧
      st.blocks = [(2 ^ 44 + 56, 31), (2 ^ 44 + 87, 40)] ∧
      ¬ BlocksAligned [.allocate .char 31, .allocate .mapNode 1] st := by
  have hrun : (Lib.run serve (setUpAllocator (fun _ => 0) (2 ^ 44) (2 ^ 22))
      [.allocate .char 31, .allocate .mapNode 1]).map Segment.blocks =
      some [(2 ^ 44 + 56, 31), (2 ^ 44 + 87, 40)] := by
    decide +kernel
  obtain ⟨st, hst, hblocks⟩ := Option.map_eq_some_iff.mp hrun
  refine ⟨st, by decide, hst, hblocks, ?_⟩
  intro haligned
  have hnode := haligned 1 1 .mapNode (2 ^ 44 + 87, 40) rfl (by rw [hblocks]; rfl)
  exact absurd hnode (by decide)

end Segment

end RdmaMigration.Containers
