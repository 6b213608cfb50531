import RdmaMigration.Containers.Pool
import RdmaMigration.Lib.Simulation

/-! # A container that moves about

What a container is for: its user allocates blocks, writes to them and reads what was
written, and the container may be migrated any number of times in between, each time to
a server whose memory holds anything at all. As long as the blocks stay inside the
segment, which the pool only asserts, the user does not notice. The machine of the
container with its segment, its pool record in the segment and the address of the
container object simulates a store of blocks that is nowhere in particular.
-/

namespace RdmaMigration.Containers

open Lib Function

/-- What the user of a container does. `read` is a read with the byte it returned. -/
inductive Use where
  | allocate (bytes : Nat)
  | write (addr : Nat) (byte : UInt8)
  | read (addr : Nat) (byte : UInt8)
  deriving DecidableEq

/-! ## A store of blocks -/

/-- `content` has the bytes that have been written; `container` is the address of the
container object. -/
structure BlockStore where
  next : Nat
  blocks : List (Nat × Nat)
  container : Nat
  content : Nat → Option UInt8

namespace BlockStore

def instantiated (base object : Nat) : BlockStore :=
  ⟨base + headerSize + object, [(base + headerSize, object)], base + headerSize, fun _ => none⟩

def step (s : BlockStore) : Use → Option BlockStore
  | .allocate bytes =>
      some { s with next := s.next + bytes, blocks := s.blocks ++ [(s.next, bytes)] }
  | .write addr byte =>
      if ∃ b ∈ s.blocks, Covers b addr then
        some { s with content := update s.content addr (some byte) }
      else none
  | .read addr byte => if s.content addr = some byte then some s else none

end BlockStore

/-! ## The container -/

/-- An allocation through the pool pointer. The block is handed out whether or not the
assertion that there was room holds. -/
def Segment.take (st : Segment) (bytes : Nat) : Segment × Nat :=
  let r := MemoryPool.allocate st.memory (load st.memory st.allocator) bytes
  ({ st with memory := r.1, blocks := st.blocks ++ [(r.2.1, bytes)] }, r.2.1)

/-- `cont` is the pointer to the container object, `written` marks the bytes the user has
written. -/
structure MovingContainer where
  segment : Segment
  cont : Nat
  written : Nat → Bool

namespace MovingContainer

def instantiate (m : Memory) (memory size object : Nat) : MovingContainer :=
  let st := (Segment.setUpAllocator m memory size).take object
  ⟨st.1, st.2, fun _ => false⟩

inductive Action where
  | use (u : Use)
  | migrate (elsewhere : Memory)

/-- The user writes to its blocks and reads bytes it has written. `migrate` is `Prepare`
with the address of the container object, the pull of the used bytes into the memory of
another server and `remote_instantiate` there. -/
def step (c : MovingContainer) : Action → Option MovingContainer
  | .use (.allocate bytes) => some { c with segment := (c.segment.take bytes).1 }
  | .use (.write addr byte) =>
      (c.segment.step (.write addr byte)).map fun st =>
        { c with segment := st, written := update c.written addr true }
  | .use (.read addr byte) =>
      if c.written addr = true ∧ c.segment.memory addr = byte then some c else none
  | .migrate elsewhere =>
      let arrived := c.segment.migrate c.segment.pool.addr c.cont elsewhere
      some { c with segment := arrived.1, cont := arrived.2 }

/-- The new block ends inside the segment: the assertion of the pool does not fire, and
where the segment ends below `2 ^ 64` nothing wraps. -/
def Room (c : MovingContainer) : Action → Prop
  | .use (.allocate bytes) =>
      c.segment.pool.unusedPast + bytes < c.segment.pool.addr + c.segment.pool.size
  | .use (.write _ _) | .use (.read _ _) | .migrate _ => True

instance (c : MovingContainer) (a : Action) : Decidable (c.Room a) := by
  unfold Room
  split <;> infer_instance

def visible : Action → Option Use
  | .use u => some u
  | .migrate _ => none

def view (c : MovingContainer) : BlockStore where
  next := c.segment.pool.unusedPast
  blocks := c.segment.blocks
  container := c.cont
  content := fun a => if c.written a = true then some (c.segment.memory a) else none

end MovingContainer

/-! ## Steps of the segment -/

namespace Segment

variable {base : Nat} {st st' : Segment}

theorem take_eq (hpool : st.mempool = base + sizeofPointer)
    (hpointer : load st.memory st.allocator = base + sizeofPointer) {bytes : Nat}
    (hwrap : st.pool.unusedPast + bytes < 2 ^ 64) :
    st.take bytes = ({ st with
      memory := store st.memory (base + 24) (st.pool.unusedPast + bytes)
      blocks := st.blocks ++ [(st.pool.unusedPast, bytes)] }, st.pool.unusedPast) := by
  obtain ⟨hresult, hmemory⟩ := allocate_eq hpool hpointer bytes
  rw [wrap64_of_lt hwrap] at hmemory
  simp only [take, hresult, hmemory]

theorem Inv.take (h : Inv base st) {bytes : Nat} (hwrap : st.pool.unusedPast + bytes < 2 ^ 64) :
    st.take bytes = ({ st with
      memory := store st.memory (base + 24) (st.pool.unusedPast + bytes)
      blocks := st.blocks ++ [(st.pool.unusedPast, bytes)] }, st.pool.unusedPast) :=
  take_eq h.mempool (by rw [h.allocator]; exact h.pointer) hwrap

theorem setUpAllocator_size (m : Memory) {base size : Nat} (hbase : base + headerSize < 2 ^ 64)
    (hsize : size < 2 ^ 64) : (setUpAllocator m base size).pool.size = size := by
  have hwide : headerSize = 56 := rfl
  have hpointer : sizeofPointer = 8 := rfl
  rw [hwide] at hbase
  have hpool : wrap64 (base + 8) = base + 8 := wrap64_of_lt (by omega)
  have hstart : wrap64 (base + 56) = base + 56 := wrap64_of_lt hbase
  simp only [setUpAllocator, pool, MemoryPool.read, hpointer, hpool, hwide, hstart,
    MemoryPool.poolAddrAt, MemoryPool.poolSizeAt, MemoryPool.unusedPastAt, MemoryPool.addrAt,
    MemoryPool.sizeAt]
  simp (disch := omega) only [load_store, load_store_apart]

end Segment

/-! ## The simulation -/

namespace MovingContainer

variable {base size : Nat} {c c' : MovingContainer}

structure Inv (base size : Nat) (c : MovingContainer) : Prop where
  segment : Segment.Inv base c.segment
  sized : c.segment.pool.size = size
  fits : base + size < 2 ^ 64
  cont : c.cont = base + headerSize
  written : ∀ a, c.written a = true → base + headerSize ≤ a ∧ a < c.segment.pool.unusedPast

theorem content_congr {m m' : Memory} {written : Nat → Bool}
    (h : ∀ a, written a = true → m a = m' a) :
    (fun a => if written a = true then some (m a) else none) =
      fun a => if written a = true then some (m' a) else none := by
  funext a
  by_cases ha : written a = true
  · rw [if_pos ha, if_pos ha, h a ha]
  · rw [if_neg ha, if_neg ha]

/-! ### Allocation -/

theorem Inv.allocated (h : Inv base size c) {bytes : Nat}
    (hend : c.segment.pool.unusedPast + bytes < base + size) :
    let st : Segment := { c.segment with
      memory := store c.segment.memory (base + 24) (c.segment.pool.unusedPast + bytes)
      blocks := c.segment.blocks ++ [(c.segment.pool.unusedPast, bytes)] }
    Inv base size { c with segment := st } ∧
      BlockStore.step c.view (.allocate bytes) = some (view { c with segment := st }) := by
  intro st
  have hlt : c.segment.pool.unusedPast + bytes < 2 ^ 64 := hend.trans h.fits
  have hpool : st.pool = { c.segment.pool with unusedPast := c.segment.pool.unusedPast + bytes } :=
    Segment.pool_store_unusedPast h.segment.mempool hlt _
  have hkept : ∀ a, c.written a = true → st.memory a = c.segment.memory a := by
    intro a ha
    have hlow := (h.written a ha).1
    refine writeLE_outside fun hcover => ?_
    have hhigh := hcover.2
    simp only [sizeofPointer, headerSize, sizeofMemoryPool] at hhigh hlow
    omega
  refine ⟨⟨h.segment.allocate hlt, ?_, h.fits, h.cont, fun a ha => ?_⟩, ?_⟩
  · rw [hpool]
    exact h.sized
  · obtain ⟨hlow, hhigh⟩ := h.written a ha
    rw [hpool]
    exact ⟨hlow, Nat.lt_of_lt_of_le hhigh (Nat.le_add_right _ _)⟩
  · simp only [BlockStore.step, view, hpool, content_congr hkept]
    rfl

theorem Inv.use_allocate (h : Inv base size c) {bytes : Nat}
    (hroom : c.Room (.use (.allocate bytes))) :
    (c.step (.use (.allocate bytes))).map view = BlockStore.step c.view (.allocate bytes) ∧
      ∀ c', c.step (.use (.allocate bytes)) = some c' → Inv base size c' := by
  have hend : c.segment.pool.unusedPast + bytes < base + size := by
    have hroom' : c.segment.pool.unusedPast + bytes <
        c.segment.pool.addr + c.segment.pool.size := hroom
    rwa [h.segment.addr, h.sized] at hroom'
  obtain ⟨hinv, hspec⟩ := h.allocated hend
  rw [hspec, step, h.segment.take (hend.trans h.fits)]
  refine ⟨rfl, fun c' hc' => ?_⟩
  cases hc'
  exact hinv

/-! ### Writing and reading -/

theorem Inv.use_write (h : Inv base size c) (addr : Nat) (byte : UInt8) :
    (c.step (.use (.write addr byte))).map view = BlockStore.step c.view (.write addr byte) ∧
      ∀ c', c.step (.use (.write addr byte)) = some c' → Inv base size c' := by
  by_cases hcover : ∃ b ∈ c.segment.blocks, Covers b addr
  · have hstep : c.segment.step (.write addr byte) =
        some { c.segment with memory := update c.segment.memory addr byte } :=
      if_pos hcover
    have hinv := Segment.step_inv h.segment (a := .write addr byte) trivial hstep
    obtain ⟨b, hb, hin⟩ := hcover
    obtain ⟨hlow, hhigh⟩ := h.segment.tiles.bounds hb
    have haddr : base + headerSize ≤ addr ∧ addr < c.segment.pool.unusedPast :=
      ⟨hlow.trans hin.1, Nat.lt_of_lt_of_le hin.2 hhigh⟩
    have hpool := Segment.pool_of_header h.segment.mempool
      (m := update c.segment.memory addr byte) fun x _ hx =>
        update_of_ne (by have := haddr.1; simp only [headerSize, sizeofPointer,
          sizeofMemoryPool] at this; omega) ..
    have hspec : BlockStore.step c.view (.write addr byte) = some { c.view with
        content := update c.view.content addr (some byte) } := if_pos ⟨b, hb, hin⟩
    have hcontent : (fun a => if update c.written addr true a = true then
        some (update c.segment.memory addr byte a) else none) =
        update c.view.content addr (some byte) := by
      funext a
      by_cases ha : a = addr
      · simp [ha]
      · simp [ha, view]
    rw [hspec, step, hstep]
    refine ⟨?_, fun c' hc' => ?_⟩
    · simp only [Option.map_some, view, hpool, hcontent]
    · cases hc'
      refine ⟨hinv, ?_, h.fits, h.cont, fun a ha => ?_⟩
      · rw [hpool]
        exact h.sized
      · rw [hpool]
        by_cases hsame : a = addr
        · rw [hsame]
          exact haddr
        · exact h.written a (by simpa [hsame] using ha)
  · have hnone : c.segment.step (.write addr byte) = none := if_neg hcover
    have hspec : BlockStore.step c.view (.write addr byte) = none := if_neg hcover
    rw [hspec, step, hnone]
    exact ⟨rfl, by simp⟩

theorem Inv.use_read (h : Inv base size c) (addr : Nat) (byte : UInt8) :
    (c.step (.use (.read addr byte))).map view = BlockStore.step c.view (.read addr byte) ∧
      ∀ c', c.step (.use (.read addr byte)) = some c' → Inv base size c' := by
  have hcontent : c.view.content addr = some byte ↔
      c.written addr = true ∧ c.segment.memory addr = byte := by
    simp [view]
  by_cases hread : c.written addr = true ∧ c.segment.memory addr = byte
  · rw [step, if_pos hread, BlockStore.step, if_pos (hcontent.mpr hread)]
    refine ⟨rfl, fun c' hc' => ?_⟩
    cases hc'
    exact h
  · rw [step, if_neg hread, BlockStore.step, if_neg (mt hcontent.mp hread)]
    exact ⟨rfl, nofun⟩

/-- A use of the container is the same use of the store it shows. -/
theorem Inv.use (h : Inv base size c) (u : Use) (hroom : c.Room (.use u)) :
    (c.step (.use u)).map view = BlockStore.step c.view u ∧
      ∀ c', c.step (.use u) = some c' → Inv base size c' := by
  cases u with
  | allocate bytes => exact h.use_allocate hroom
  | write addr byte => exact h.use_write addr byte
  | read addr byte => exact h.use_read addr byte

/-! ### Migration -/

theorem Inv.migrate (h : Inv base size c) {elsewhere : Memory}
    (hstep : c.step (.migrate elsewhere) = some c') : Inv base size c' ∧ c'.view = c.view := by
  have hcont : c.cont < 2 ^ 64 := by
    have hle := h.segment.le_unusedPast
    have hlt := h.segment.bound
    rw [h.cont]
    simp only [headerSize, sizeofPointer, sizeofMemoryPool]
    omega
  obtain ⟨hinv, hpool, hcontainer, hbytes⟩ := h.segment.migrate hcont elsewhere
  rw [step, h.segment.addr] at hstep
  cases hstep
  refine ⟨⟨hinv, ?_, h.fits, ?_, ?_⟩, ?_⟩
  · rw [hpool]
    exact h.sized
  · rw [hcontainer]
    exact h.cont
  · rw [hpool]
    exact h.written
  · have hkept := content_congr fun a (ha : c.written a = true) =>
      hbytes a (h.written a ha).1 (h.written a ha).2
    simp only [view, hpool, hcontainer, hkept]
    rfl

theorem simulation (base size : Nat) :
    Simulation (guarded step Room) BlockStore.step (Inv base size) view fun _ => visible where
  keeps := by
    intro c c' a h hguarded
    obtain ⟨hroom, hstep⟩ := Option.ite_none_right_eq_some.mp hguarded
    cases a with
    | use u => exact (h.use u hroom).2 c' hstep
    | migrate elsewhere => exact (h.migrate hstep).1
  hidden := by
    intro c c' a h hguarded hv
    obtain ⟨-, hstep⟩ := Option.ite_none_right_eq_some.mp hguarded
    cases a with
    | use u => cases hv
    | migrate elsewhere => exact (h.migrate hstep).2
  shown := by
    intro c c' a u h hguarded hv
    obtain ⟨hroom, hstep⟩ := Option.ite_none_right_eq_some.mp hguarded
    cases a with
    | migrate elsewhere => cases hv
    | use =>
        cases hv
        rw [← (h.use u hroom).1, hstep]
        rfl

/-! ### From the beginning -/

theorem setUp_inv (m : Memory) (hbase : base + headerSize < 2 ^ 64) (hfits : base + size < 2 ^ 64) :
    Inv base size ⟨Segment.setUpAllocator m base size, base + headerSize, fun _ => false⟩ where
  segment := Segment.setUpAllocator_inv m hbase
  sized := Segment.setUpAllocator_size m hbase (by omega)
  fits := hfits
  cont := rfl
  written := nofun

theorem instantiate_inv (m : Memory) {object : Nat} (hfits : base + size < 2 ^ 64)
    (hobject : headerSize + object < size) :
    Inv base size (instantiate m base size object) ∧
      (instantiate m base size object).view = .instantiated base object := by
  have hbase : base + headerSize < 2 ^ 64 := by omega
  obtain ⟨hmempool, hpointer, -, -, hunused, haddr⟩ :=
    @Segment.setUpAllocator_fields m base size hbase
  have hset := @setUp_inv base size m hbase hfits
  have htake : (Segment.setUpAllocator m base size).take object =
      (((Segment.setUpAllocator m base size).take object).1, base + headerSize) := by
    rw [Segment.take_eq hmempool hpointer (by rw [hunused]; omega), hunused]
  have hstart : view ⟨Segment.setUpAllocator m base size, base + headerSize, fun _ => false⟩ =
      ⟨base + headerSize, [], base + headerSize, fun _ => none⟩ := by
    simp only [view, hunused]
    rfl
  -- The container object lies where the pool begins.
  have hinstantiate : instantiate m base size object =
      ⟨((Segment.setUpAllocator m base size).take object).1, base + headerSize,
        fun _ => false⟩ := by
    rw [instantiate, htake]
  obtain ⟨hspec, hinv⟩ := @Inv.use_allocate _ _ _ hset object (by
    show (Segment.setUpAllocator m base size).pool.unusedPast + object < _
    rw [hunused, haddr, hset.sized]
    omega)
  rw [hstart] at hspec
  rw [hinstantiate]
  exact ⟨hinv _ rfl, Option.some.inj hspec⟩

/-- However often a container is moved and whatever the memories it is moved into hold,
as long as its blocks stay inside the segment: what its user does goes as it would in a
store that stays where it is, so that every read returns what was last written, the
container object is found where it is, and the pool goes on allocating where it was; and
what can be done next with that store can be done with the container. -/
theorem roaming_unnoticed (m : Memory) {object : Nat} (hfits : base + size < 2 ^ 64)
    (hobject : headerSize + object < size) {as : List Action}
    (hroom : Along step Room (instantiate m base size object) as)
    (hrun : run step (instantiate m base size object) as = some c) :
    run BlockStore.step (.instantiated base object) (as.filterMap visible) = some c.view ∧
      c.cont = base + headerSize ∧
      ∀ u s, c.Room (.use u) → BlockStore.step c.view u = some s →
        ∃ c', c.step (.use u) = some c' ∧ c'.view = s := by
  obtain ⟨hinv, hview⟩ := instantiate_inv m hfits hobject
  have hguarded := run_guarded hroom hrun
  have hlast : Inv base size c := (simulation base size).run_keeps hinv hguarded
  refine ⟨?_, hlast.cont, fun u s hu hs => ?_⟩
  · rw [← hview, ← observed_filterMap hguarded]
    exact (simulation base size).run_observed hinv hguarded
  · rw [← (hlast.use u hu).1] at hs
    exact Option.map_eq_some_iff.mp hs

/-- A container that is moved twice: a byte written before the first move is read after the
second, and a block is allocated and written in between. -/
def twoMoves : List Action :=
  [.use (.allocate 100), .use (.write (2 ^ 44 + 90) 9), .migrate fun _ => 7,
    .use (.allocate 40), .use (.write (2 ^ 44 + 190) 5), .migrate fun _ => 3,
    .use (.read (2 ^ 44 + 90) 9), .use (.read (2 ^ 44 + 190) 5)]

theorem roaming_unnoticed_two_moves :
    ∃ c, Along step Room (instantiate (fun _ => 0) (2 ^ 44) (2 ^ 22) 32) twoMoves ∧
      run step (instantiate (fun _ => 0) (2 ^ 44) (2 ^ 22) 32) twoMoves = some c ∧
      run BlockStore.step (.instantiated (2 ^ 44) 32) (twoMoves.filterMap visible) =
        some c.view := by
  have hexists : (checkedRun step Room (instantiate (fun _ => 0) (2 ^ 44) (2 ^ 22) 32)
      twoMoves).isSome = true := by
    decide +kernel
  obtain ⟨c, hc⟩ := Option.isSome_iff_exists.mp hexists
  obtain ⟨hroom, hrun⟩ := along_of_checkedRun hc
  exact ⟨c, hroom, hrun, (roaming_unnoticed _ (by decide) (by decide) hroom hrun).1⟩

end MovingContainer

end RdmaMigration.Containers
