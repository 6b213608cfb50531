import RdmaMigration.Lib.Bytes
import RdmaMigration.Lib.MachineInt
import RdmaMigration.Lib.Run

/-! # The memory of a container

A container lives in one segment. The segment begins with a pointer to the
memory pool, the `MemoryPool` record itself and a slot for the address of the
container, and the blocks of the pool follow. After a migration the record is
used in place, so that the bytes up to `unused_past` have to be all there is.
-/

namespace RdmaMigration.Containers

open Lib Function

def sizeofPointer : Nat := 8

def sizeofMemoryPool : Nat := 40

def headerSize : Nat := sizeofPointer + sizeofMemoryPool + sizeofPointer

def load (m : Memory) (a : Nat) : Nat := readLE m a sizeofPointer

def store (m : Memory) (a v : Nat) : Memory := writeLE m a sizeofPointer v

structure MemoryPool where
  poolAddr : Nat
  poolSize : Nat
  unusedPast : Nat
  addr : Nat
  size : Nat
  deriving DecidableEq, Repr

namespace MemoryPool

/-! The fields, in the order of their declaration. -/

def poolAddrAt (p : Nat) : Nat := p
def poolSizeAt (p : Nat) : Nat := p + 8
def unusedPastAt (p : Nat) : Nat := p + 16
def addrAt (p : Nat) : Nat := p + 24
def sizeAt (p : Nat) : Nat := p + 32

def read (m : Memory) (p : Nat) : MemoryPool :=
  ⟨load m (poolAddrAt p), load m (poolSizeAt p), load m (unusedPastAt p), load m (addrAt p),
    load m (sizeAt p)⟩

/-- `MemoryPool::allocate`: the memory, the block, and whether the assertion that
the pool is not exhausted holds. -/
def allocate (m : Memory) (p bytes : Nat) : Memory × Nat × Bool :=
  let result := load m (unusedPastAt p)
  let m := store m (unusedPastAt p) (wrap64 (result + bytes))
  (m, result, load m (unusedPastAt p) < wrap64 (load m (addrAt p) + load m (sizeAt p)))

end MemoryPool

open MemoryPool

/-- A container: `allocator` is the address of the pool pointer that
`PoolBasedAllocator` keeps, `mempool` the pool, `blocks` what was allocated. -/
structure Segment where
  memory : Memory
  allocator : Nat
  mempool : Nat
  blocks : List (Nat × Nat)

namespace Segment

def setUpAllocator (m : Memory) (memory size : Nat) : Segment :=
  let m := store m memory (wrap64 (memory + sizeofPointer))
  let pool := load m memory
  let m := store m (poolAddrAt pool) (wrap64 (memory + headerSize))
  let m := store m (unusedPastAt pool) (load m (poolAddrAt pool))
  let m := store m (poolSizeAt pool) (sub64 size headerSize)
  let m := store m (sizeAt pool) size
  let m := store m (addrAt pool) memory
  ⟨m, memory, pool, []⟩

def pool (st : Segment) : MemoryPool := MemoryPool.read st.memory st.mempool

def slot (memory : Nat) : Nat := wrap64 (memory + sizeofPointer + sizeofMemoryPool)

def prepare (st : Segment) (container : Nat) : Segment :=
  { st with memory := store st.memory (slot st.pool.addr) container }

def pullRange (st : Segment) (vaddr : Nat) : Nat × Nat := (vaddr, sub64 st.pool.unusedPast vaddr)

/-- `remote_instantiate` in a segment at `vaddr`: the container and its address. -/
def remoteInstantiate (m : Memory) (vaddr : Nat) (blocks : List (Nat × Nat)) : Segment × Nat :=
  let m := store m vaddr (wrap64 (vaddr + sizeofPointer))
  (⟨m, vaddr, load m vaddr, blocks⟩, load m (slot vaddr))

/-! ## Runs -/

inductive Action where
  /-- An allocation that does not run out of memory. -/
  | allocate (bytes : Nat)
  /-- The container writes to one of its blocks. -/
  | write (addr : Nat) (byte : UInt8)
  deriving DecidableEq

def step (st : Segment) : Action → Option Segment
  | .allocate bytes =>
      let r := MemoryPool.allocate st.memory (load st.memory st.allocator) bytes
      if r.2.2 then some { st with memory := r.1, blocks := st.blocks ++ [(r.2.1, bytes)] }
      else none
  | .write addr byte =>
      if ∃ b ∈ st.blocks, Covers b addr then
        some { st with memory := update st.memory addr byte }
      else none

def NoWrap (st : Segment) : Action → Prop
  | .allocate bytes => st.pool.unusedPast + bytes < 2 ^ 64
  | .write _ _ => True

instance (st : Segment) (a : Action) : Decidable (st.NoWrap a) := by
  unfold NoWrap
  split <;> infer_instance

def header (base : Nat) : List (Nat × Nat) :=
  [(base, sizeofPointer), (base + sizeofPointer, sizeofMemoryPool),
    (base + sizeofPointer + sizeofMemoryPool, sizeofPointer)]

/-! ## The layout -/

theorem load_store (m : Memory) {a v : Nat} (hv : v < 2 ^ 64) : load (store m a v) a = v := by
  rw [load, store, readLE_writeLE]
  exact Nat.mod_eq_of_lt hv

theorem load_store_apart {m : Memory} {a b v : Nat} (h : a + 8 ≤ b ∨ b + 8 ≤ a) :
    load (store m b v) a = load m a := readLE_writeLE_apart h

theorem load_congr {m m' : Memory} {a : Nat} (h : ∀ x, a ≤ x → x < a + 8 → m x = m' x) :
    load m a = load m' a := readLE_congr fun x hx => h x hx.1 hx.2

theorem pool_eq {st : Segment} {base : Nat} (h : st.mempool = base + sizeofPointer) :
    st.pool = ⟨load st.memory (base + 8), load st.memory (base + 16), load st.memory (base + 24),
      load st.memory (base + 32), load st.memory (base + 40)⟩ := by
  rw [pool, h]
  rfl

/-- The fields that every later step relies on; the blocks lie side by side
behind the header. -/
structure Inv (base : Nat) (st : Segment) : Prop where
  allocator : st.allocator = base
  mempool : st.mempool = base + sizeofPointer
  pointer : load st.memory base = base + sizeofPointer
  addr : st.pool.addr = base
  tiles : Tiles (base + headerSize) st.blocks st.pool.unusedPast
  bound : st.pool.unusedPast < 2 ^ 64

theorem setUpAllocator_fields (m : Memory) {base size : Nat} (hbase : base + headerSize < 2 ^ 64) :
    (setUpAllocator m base size).mempool = base + sizeofPointer ∧
      load (setUpAllocator m base size).memory base = base + sizeofPointer ∧
      (setUpAllocator m base size).pool.poolAddr = base + headerSize ∧
      (setUpAllocator m base size).pool.poolSize = sub64 size headerSize ∧
      (setUpAllocator m base size).pool.unusedPast = base + headerSize ∧
      (setUpAllocator m base size).pool.addr = base := by
  have hwide : headerSize = 56 := rfl
  have hpointer : sizeofPointer = 8 := rfl
  have hpool : wrap64 (base + 8) = base + 8 := wrap64_of_lt (by omega)
  have hstart : wrap64 (base + headerSize) = base + headerSize := wrap64_of_lt hbase
  have hsize : sub64 size 56 < 2 ^ 64 := Nat.mod_lt _ (by decide)
  rw [hwide] at hbase hstart
  simp only [setUpAllocator, pool, MemoryPool.read, hpointer, hpool, hwide, hstart, poolAddrAt,
    poolSizeAt, unusedPastAt, addrAt, sizeAt]
  simp (disch := omega) only [load_store, load_store_apart, and_self]

theorem setUpAllocator_inv (m : Memory) {base size : Nat} (hbase : base + headerSize < 2 ^ 64) :
    Inv base (setUpAllocator m base size) := by
  obtain ⟨hmempool, hpointer, -, -, hunused, haddr⟩ := @setUpAllocator_fields m base size hbase
  refine ⟨rfl, hmempool, hpointer, haddr, ?_, ?_⟩
  · rw [hunused]
    rfl
  · rw [hunused]
    exact hbase

variable {base : Nat} {st st' : Segment}

theorem Inv.le_unusedPast (h : Inv base st) : base + 56 ≤ st.pool.unusedPast := h.tiles.le

theorem pool_of_header (h : st.mempool = base + sizeofPointer) {m : Memory}
    (hm : ∀ x, base + 8 ≤ x → x < base + 48 → m x = st.memory x) :
    ({ st with memory := m } : Segment).pool = st.pool := by
  have hload : ∀ a, base + 8 ≤ a → a + 8 ≤ base + 48 → load m a = load st.memory a := by
    intro a hlow hhigh
    exact load_congr fun x hx hx' => hm x (by omega) (by omega)
  rw [pool_eq h, @pool_eq { st with memory := m } base h, MemoryPool.mk.injEq]
  refine ⟨hload _ ?_ ?_, hload _ ?_ ?_, hload _ ?_ ?_, hload _ ?_ ?_, hload _ ?_ ?_⟩ <;> omega

theorem Inv.of_header (h : Inv base st) {m : Memory} (hpointer : load m base = base + sizeofPointer)
    (hm : ∀ x, base + 8 ≤ x → x < base + 48 → m x = st.memory x) :
    Inv base { st with memory := m } ∧ ({ st with memory := m } : Segment).pool = st.pool := by
  have hpool := pool_of_header h.mempool hm
  refine ⟨⟨h.allocator, h.mempool, hpointer, ?_, ?_, ?_⟩, hpool⟩
  · rw [hpool]
    exact h.addr
  · rw [hpool]
    exact h.tiles
  · rw [hpool]
    exact h.bound

theorem allocate_eq (hpool : st.mempool = base + sizeofPointer)
    (hpointer : load st.memory st.allocator = base + sizeofPointer) (bytes : Nat) :
    (MemoryPool.allocate st.memory (load st.memory st.allocator) bytes).2.1 =
        st.pool.unusedPast ∧
      (MemoryPool.allocate st.memory (load st.memory st.allocator) bytes).1 =
        store st.memory (base + 24) (wrap64 (st.pool.unusedPast + bytes)) := by
  rw [hpointer, pool_eq hpool]
  exact ⟨rfl, rfl⟩

theorem pool_store_unusedPast (h : st.mempool = base + sizeofPointer) {v : Nat} (hv : v < 2 ^ 64)
    (blocks : List (Nat × Nat)) :
    ({ st with memory := store st.memory (base + 24) v, blocks := blocks } : Segment).pool =
      { st.pool with unusedPast := v } := by
  rw [pool_eq h, @pool_eq { st with
    memory := store st.memory (base + 24) v, blocks := blocks } base h]
  simp (disch := omega) only [load_store, load_store_apart]

theorem Inv.allocate (h : Inv base st) {bytes : Nat} (hwrap : st.pool.unusedPast + bytes < 2 ^ 64) :
    Inv base { st with
      memory := store st.memory (base + 24) (st.pool.unusedPast + bytes)
      blocks := st.blocks ++ [(st.pool.unusedPast, bytes)] } := by
  have hpool := pool_store_unusedPast h.mempool hwrap
    (st.blocks ++ [(st.pool.unusedPast, bytes)])
  refine ⟨h.allocator, h.mempool, (load_store_apart (by omega)).trans h.pointer, ?_, ?_, ?_⟩
  · rw [hpool]
    exact h.addr
  · rw [hpool]
    exact h.tiles.snoc
  · rw [hpool]
    exact hwrap

theorem step_inv (h : Inv base st) {a : Action} (hok : st.NoWrap a) (hstep : st.step a = some st') :
    Inv base st' := by
  cases a with
  | allocate bytes =>
      obtain ⟨hresult, hmemory⟩ := allocate_eq h.mempool (by rw [h.allocator]; exact h.pointer) bytes
      have hok' : st.pool.unusedPast + bytes < 2 ^ 64 := hok
      simp only [step, hresult, hmemory, wrap64_of_lt hok'] at hstep
      obtain ⟨-, heq⟩ := Option.ite_none_right_eq_some.mp hstep
      cases heq
      exact h.allocate hok'
  | write addr byte =>
      simp only [step] at hstep
      obtain ⟨⟨b, hb, hcover⟩, heq⟩ := Option.ite_none_right_eq_some.mp hstep
      cases heq
      -- The blocks begin behind the header.
      have hlow : base + 56 ≤ b.1 := (h.tiles.bounds hb).1
      have haddr : base + 56 ≤ addr := hlow.trans hcover.1
      have hkept : ∀ x, x < base + 56 → update st.memory addr byte x = st.memory x :=
        fun x hx => update_of_ne (by omega) ..
      refine (h.of_header ?_ fun x _ hx => hkept x (by omega)).1
      exact (load_congr fun x _ hx => hkept x (by omega)).trans h.pointer

theorem Inv.header_tiles (h : Inv base st) :
    Tiles base (header base ++ st.blocks) st.pool.unusedPast :=
  ⟨rfl, rfl, rfl, h.tiles⟩

theorem Inv.slot_eq (h : Inv base st) : slot base = base + 48 := by
  have hle := h.le_unusedPast
  have hlt := h.bound
  exact wrap64_of_lt (by simp only [sizeofPointer, sizeofMemoryPool]; omega)

theorem Inv.pullRange_eq (h : Inv base st) :
    st.pullRange base = (base, st.pool.unusedPast - base) := by
  have hle := h.le_unusedPast
  rw [pullRange, sub64_of_le (by omega) h.bound]

theorem Inv.prepare (h : Inv base st) (container : Nat) :
    Inv base (st.prepare container) ∧ (st.prepare container).pool = st.pool := by
  rw [Segment.prepare, h.addr, h.slot_eq]
  refine h.of_header ((load_store_apart (by omega)).trans h.pointer) fun x _ hx => ?_
  refine writeLE_outside fun hcover => ?_
  have := hcover.1
  dsimp only at this
  omega

theorem prepare_memory_block (h : Inv base st) (container : Nat) {a : Nat} (ha : base + 56 ≤ a) :
    (st.prepare container).memory a = st.memory a := by
  rw [Segment.prepare, h.addr, h.slot_eq]
  refine writeLE_outside fun hcover => ?_
  have := hcover.2
  simp only [sizeofPointer] at this
  omega

/-! ## The container elsewhere -/

def migrate (st : Segment) (base container : Nat) (elsewhere : Memory) : Segment × Nat :=
  let source := st.prepare container
  remoteInstantiate (overlay source.memory elsewhere (source.pullRange base)) base st.blocks

theorem Inv.migrate (h : Inv base st) {container : Nat} (hc : container < 2 ^ 64)
    (elsewhere : Memory) :
    Inv base (st.migrate base container elsewhere).1 ∧
      (st.migrate base container elsewhere).1.pool = st.pool ∧
      (st.migrate base container elsewhere).2 = container ∧
      ∀ a, base + 56 ≤ a → a < st.pool.unusedPast →
        (st.migrate base container elsewhere).1.memory a = st.memory a := by
  obtain ⟨hsource, hpool⟩ := h.prepare container
  have hle := h.le_unusedPast
  have hlt := h.bound
  have hwrap : wrap64 (base + sizeofPointer) = base + 8 :=
    wrap64_of_lt (by simp only [sizeofPointer]; omega)
  have hcopied : ∀ x, base ≤ x → x < st.pool.unusedPast →
      overlay (st.prepare container).memory elsewhere ((st.prepare container).pullRange base) x =
        (st.prepare container).memory x := by
    intro x hlow hhigh
    refine overlay_inside ?_
    rw [hsource.pullRange_eq, hpool]
    exact ⟨hlow, by dsimp only; omega⟩
  have hslot : load (st.prepare container).memory (base + 48) = container := by
    rw [Segment.prepare, h.addr, h.slot_eq]
    exact load_store _ hc
  unfold Segment.migrate remoteInstantiate
  simp only [hwrap, h.slot_eq]
  generalize overlay (st.prepare container).memory elsewhere
    ((st.prepare container).pullRange base) = m at hcopied ⊢
  have hpointer : load (store m base (base + 8)) base = base + 8 := load_store _ (by omega)
  have hkept : ∀ x, base + 8 ≤ x → x < st.pool.unusedPast →
      store m base (base + 8) x = (st.prepare container).memory x := by
    intro x hlow hhigh
    rw [← hcopied x (by omega) hhigh]
    refine writeLE_outside fun hcover => ?_
    have := hcover.2
    simp only [sizeofPointer] at this
    omega
  obtain ⟨hinv, hsame⟩ := hsource.of_header hpointer fun x hlow hhigh => hkept x hlow (by omega)
  have hstate : (⟨store m base (base + 8), base, load (store m base (base + 8)) base, st.blocks⟩ :
      Segment) = { st.prepare container with memory := store m base (base + 8) } := by
    simp only [hpointer, Segment.prepare, h.allocator, h.mempool, sizeofPointer]
  rw [hstate]
  refine ⟨hinv, hsame.trans hpool, ?_, ?_⟩
  · rw [load_store_apart (by omega), ← hslot]
    exact load_congr fun x hx hx' => hcopied x (by omega) (by omega)
  · intro a hlow hhigh
    exact (hkept a (by omega) hhigh).trans (prepare_memory_block h container hlow)

theorem blocks_grow {a : Action} (h : st.step a = some st') :
    st.blocks <+: st'.blocks := by
  cases a with
  | allocate bytes =>
      simp only [step] at h
      obtain ⟨-, heq⟩ := Option.ite_none_right_eq_some.mp h
      cases heq
      exact List.prefix_append _ _
  | write addr byte =>
      simp only [step] at h
      obtain ⟨-, heq⟩ := Option.ite_none_right_eq_some.mp h
      cases heq
      exact List.prefix_rfl

theorem Inv.reaches (h : Inv base st) (hreach : Reaches step NoWrap st st') : Inv base st' :=
  hreach.invariant (fun _ _ _ hinv hok hstep => step_inv hinv hok hstep) h

theorem blocks_kept (hreach : Reaches step NoWrap st st') : st.blocks <+: st'.blocks :=
  @Reaches.invariant _ _ step NoWrap (fun t => st.blocks <+: t.blocks)
    (fun _ _ _ hkept _ hstep => hkept.trans (blocks_grow hstep)) _ _ List.prefix_rfl hreach

/-- Whatever the container has allocated and written, the bytes up to
`unused_past` carry all of it, and the pool goes on where it was. -/
theorem migrated_container_complete {m : Memory} {base size : Nat}
    (hbase : base + headerSize < 2 ^ 64) {st : Segment}
    (h : Reaches step NoWrap (setUpAllocator m base size) st) (container : Nat)
    (hc : container < 2 ^ 64) (elsewhere : Memory) :
    (header base ++ st.blocks).Pairwise (fun q r => ¬ Overlap q r) ∧
      (∀ r ∈ header base ++ st.blocks, base ≤ r.1 ∧ r.1 + r.2 ≤ st.pool.unusedPast) ∧
      (st.migrate base container elsewhere).1.pool = st.pool ∧
      (st.migrate base container elsewhere).2 = container ∧
      (∀ b ∈ st.blocks, ∀ a, Covers b a →
        (st.migrate base container elsewhere).1.memory a = st.memory a) ∧
      ∀ t, Reaches step NoWrap (st.migrate base container elsewhere).1 t →
        t.blocks.Pairwise (fun q r => ¬ Overlap q r) ∧ st.blocks <+: t.blocks := by
  have hinv := (setUpAllocator_inv m hbase).reaches h
  obtain ⟨hdest, hpool, hcontainer, hbytes⟩ := hinv.migrate hc elsewhere
  refine ⟨hinv.header_tiles.apart, fun r hr => hinv.header_tiles.bounds hr, hpool, hcontainer, ?_,
    fun t ht => ?_⟩
  · intro b hb a ha
    obtain ⟨hlow, hhigh⟩ := hinv.tiles.bounds hb
    exact hbytes a (hlow.trans ha.1) (Nat.lt_of_lt_of_le ha.2 hhigh)
  · have hkept : (st.migrate base container elsewhere).1.blocks <+: t.blocks := blocks_kept ht
    exact ⟨(hdest.reaches ht).tiles.apart, hkept⟩

def twoBlocks : List Action := [.allocate 100, .write (2 ^ 44 + 60) 9, .allocate 40]

/-- A container with two blocks, one of them written to, and another block after
the migration. -/
theorem migrated_container_complete_two :
    ∃ st t, Reaches step NoWrap (setUpAllocator (fun _ => 0) (2 ^ 44) (2 ^ 22)) st ∧
      Reaches step NoWrap (st.migrate (2 ^ 44) (2 ^ 44 + 56) fun _ => 7).1 t ∧
      st.blocks.length = 2 ∧ t.blocks.length = 3 ∧
      t.blocks.Pairwise (fun q r => ¬ Overlap q r) := by
  have hrun : (checkedRun step NoWrap (setUpAllocator (fun _ => 0) (2 ^ 44) (2 ^ 22))
      twoBlocks).map (fun st => (st.blocks.length,
        (checkedRun step NoWrap (st.migrate (2 ^ 44) (2 ^ 44 + 56) fun _ => 7).1
          [.allocate 8]).map fun t => t.blocks.length)) = some (2, some 3) := by
    decide +kernel
  obtain ⟨st, hreach, hpair⟩ := reaches_of_map_checkedRun hrun
  rw [Prod.mk.injEq] at hpair
  obtain ⟨t, ht, hlength⟩ := Option.map_eq_some_iff.mp hpair.2
  have hfurther := reaches_of_checkedRun ht
  have hcomplete := migrated_container_complete (by decide) hreach (2 ^ 44 + 56) (by decide)
    fun _ => 7
  exact ⟨st, t, hreach, hfurther, hpair.1, hlength, (hcomplete.2.2.2.2.2 t hfurther).1⟩

/-- An allocation of almost `2 ^ 64` bytes moves `unused_past` backwards, and the
assertion holds: the next block is the first one again. -/
theorem block_handed_out_twice :
    ∃ st, Reaches step anyAction (setUpAllocator (fun _ => 0) (2 ^ 44) (2 ^ 22)) st ∧
      st.blocks = [(2 ^ 44 + 56, 100), (2 ^ 44 + 156, 2 ^ 64 - 100), (2 ^ 44 + 56, 8)] ∧
      ¬ st.blocks.Pairwise (fun q r => ¬ Overlap q r) := by
  have hrun : (run step (setUpAllocator (fun _ => 0) (2 ^ 44) (2 ^ 22))
      [.allocate 100, .allocate (2 ^ 64 - 100), .allocate 8]).map Segment.blocks =
      some [(2 ^ 44 + 56, 100), (2 ^ 44 + 156, 2 ^ 64 - 100), (2 ^ 44 + 56, 8)] := by
    decide +kernel
  obtain ⟨st, hreach, hblocks⟩ := reaches_of_map_run hrun
  refine ⟨st, hreach, hblocks, ?_⟩
  rw [hblocks]
  decide

end Segment

end RdmaMigration.Containers
