import RdmaMigration.Lib.Buckets
import RdmaMigration.Lib.Run
import RdmaMigration.Manager.Allocate

/-! # The local allocator over whole runs

A manager that only allocates and deallocates, without fault tolerance and
without migrations, under any failures of `mmap`. The blocks it has handed out
and the blocks of its free lists are all of the address space it has taken.
-/

namespace RdmaMigration.Manager

open Lib Network Paging

def RDMAMemory.range (r : RDMAMemory) : Nat × Nat := (r.vaddr, r.size)

namespace Server

def freeBlocks (s : Server) : List (Nat × Nat) :=
  (pooled s.freeMap).filterMap fun p => (s.heap[p]?).map RDMAMemory.range

/-- The hint of the first `mmap` of `allocate`: the address of the record that
the free list of this size begins with. -/
def reuseHint (s : Server) (size : Nat) : Nat :=
  match s.freeMap.lookup size with
  | some (p :: _) => ((s.heap[p]?).map RDMAMemory.vaddr).getD 0
  | _ => 0

end Server

/-- An `mmap` that maps at its hint if it maps at all. It refuses a size of zero
and a range whose end is not an address. -/
def mmapHint (hint size : Nat) (works : Bool) : Option Nat :=
  if works ∧ 0 < size ∧ hint + size < 2 ^ 64 then some hint else none

theorem mmapHint_eq_some {hint size res : Nat} {works : Bool}
    (h : mmapHint hint size works = some res) :
    res = hint ∧ 0 < size ∧ hint + size < 2 ^ 64 := by
  unfold mmapHint at h
  split at h
  · rename_i hworks
    exact ⟨(Option.some.inj h).symm, hworks.2⟩
  · cases h

/-! ## The machine -/

/-- A manager, the blocks its application holds, and the exceptions its calls
have ended with. -/
structure Usage where
  server : Server
  outstanding : List (Nat × Nat)
  thrown : List Fault

/-- A call, with whether each `mmap` it may make works. -/
inductive Call where
  | allocate (size : Nat) (reuse fresh : Bool)
  | deallocate (addr : Nat)
  deriving DecidableEq, Repr

namespace Usage

def start (numServers : Nat) (id : Int) : Usage := ⟨Server.construct numServers id, [], []⟩

def afterAllocate (u : Usage) (size : Nat) : Server × Except Fault (Option Nat) → Usage
  | (s, .ok (some addr)) =>
      { u with server := s, outstanding := u.outstanding ++ [(addr, size)] }
  | (s, .ok none) => { u with server := s }
  | (s, .error e) => { u with server := s, thrown := u.thrown ++ [e] }

def afterDeallocate (u : Usage) (addr : Nat) : Except Fault Server → Usage
  | .ok s =>
      { u with server := s, outstanding := u.outstanding.eraseP fun b => b.1 = addr }
  | .error e => { u with thrown := u.thrown ++ [e] }

/-- Only a block that is outstanding is deallocated. -/
def step (u : Usage) : Call → Option Usage
  | .allocate size reuse fresh =>
      some (u.afterAllocate size
        (u.server.allocate size (mmapHint (u.server.reuseHint size) size reuse)
          (mmapHint u.server.allocAddress size fresh)))
  | .deallocate addr =>
      if addr ∈ u.outstanding.map Prod.fst then
        some (u.afterDeallocate addr (u.server.deallocate addr))
      else none

/-- The number of pages of the requested block, as an `int`, is not negative. -/
def PagesCounted (_ : Usage) : Call → Prop
  | .allocate size _ _ => 0 ≤ toInt32 (pageCount size defaultPageSize)
  | .deallocate _ => True

instance (u : Usage) (c : Call) : Decidable (u.PagesCounted c) := by
  unfold PagesCounted
  split <;> infer_instance

/-- No address of the server's range below `alloc_address` is lost or doubled. -/
structure Accounted (numServers : Nat) (id : Int) (u : Usage) : Prop where
  covered : ∀ a, Covered (u.outstanding ++ u.server.freeBlocks) a ↔
    startAddress numServers id ≤ a ∧ a < u.server.allocAddress
  apart : (u.outstanding ++ u.server.freeBlocks).Pairwise fun q r => ¬ Overlap q r
  starts : ((u.outstanding ++ u.server.freeBlocks).map Prod.fst).Nodup
  once : (pooled u.server.freeMap).Nodup
  bucket : ∀ size list, u.server.freeMap.lookup size = some list →
    list ≠ [] ∧ ∀ p ∈ list, ∃ r, u.server.heap[p]? = some r ∧ r.size = size
  bounded : u.server.allocAddress ≤ u.server.endAddress
  range : u.server.endAddress = startAddress numServers id + perServer numServers
  nothrow : u.thrown = []

/-! ## The invariant -/

structure Inv (lo hi : Nat) (u : Usage) : Prop where
  tiles : Tiles lo (u.server.heap.map RDMAMemory.range) u.server.allocAddress
  pos : ∀ r ∈ u.server.heap, 0 < r.size
  table : ∀ p r, u.server.heap[p]? = some r → u.server.memoryMap.lookup r.vaddr = some p
  bucket : ∀ size list, u.server.freeMap.lookup size = some list →
    list ≠ [] ∧ ∀ p ∈ list, ∃ r, u.server.heap[p]? = some r ∧ r.size = size
  -- Every record is either handed out or on a free list, and only once.
  split : (u.outstanding ++ u.server.freeBlocks).Perm (u.server.heap.map RDMAMemory.range)
  bounded : u.server.allocAddress ≤ u.server.endAddress
  endAddress : u.server.endAddress = hi
  nothrow : u.thrown = []

variable {u v : Usage} {lo hi : Nat}

theorem Inv.free_record (hinv : Inv lo hi u) {p : Nat} (hp : p ∈ pooled u.server.freeMap) :
    ∃ r, u.server.heap[p]? = some r := by
  obtain ⟨size, list, hlist, hmem⟩ := mem_pooled.mp hp
  obtain ⟨r, hr, -⟩ := (hinv.bucket size list hlist).2 p hmem
  exact ⟨r, hr⟩

theorem Inv.freeBlocks_eq (hinv : Inv lo hi u) : u.server.freeBlocks =
    (pooled u.server.freeMap).map fun p => ((u.server.heap[p]?).map RDMAMemory.range).getD
    (0, 0) := by
  rw [Server.freeBlocks, ← List.filterMap_eq_map]
  refine List.filterMap_congr fun p hp => ?_
  obtain ⟨r, hr⟩ := hinv.free_record hp
  simp [hr]

theorem Inv.starts (hinv : Inv lo hi u) :
    ((u.outstanding ++ u.server.freeBlocks).map Prod.fst).Nodup := by
  have hpos : ∀ r ∈ u.server.heap.map RDMAMemory.range, 0 < r.2 := by
    intro r hr
    obtain ⟨q, hq, rfl⟩ := List.mem_map.mp hr
    exact hinv.pos q hq
  exact (hinv.split.map Prod.fst).nodup_iff.mpr (hinv.tiles.starts_nodup hpos)

theorem Inv.accounted {numServers : Nat} {id : Int}
    (hinv : Inv (startAddress numServers id) (startAddress numServers id + perServer numServers)
      u) : Accounted numServers id u := by
  refine
    { covered := fun a => ?_
      apart := ?_
      starts := hinv.starts
      once := ?_
      bucket := hinv.bucket
      bounded := hinv.bounded
      range := hinv.endAddress
      nothrow := hinv.nothrow }
  · rw [← hinv.tiles.covered]
    exact ⟨fun ⟨r, hr, ha⟩ => ⟨r, hinv.split.mem_iff.mp hr, ha⟩,
      fun ⟨r, hr, ha⟩ => ⟨r, hinv.split.mem_iff.mpr hr, ha⟩⟩
  · refine (hinv.split.pairwise_iff fun {q r} h hover => h ?_).mpr hinv.tiles.apart
    unfold Overlap at hover ⊢
    omega
  · have hstarts := hinv.starts
    rw [List.map_append, List.nodup_append, hinv.freeBlocks_eq] at hstarts
    exact (hstarts.2.1.of_map Prod.fst).of_map _

theorem inv_start (numServers : Nat) (id : Int) :
    Inv (startAddress numServers id) (startAddress numServers id + perServer numServers)
      (start numServers id) :=
  { tiles := rfl
    pos := fun _ hr => nomatch hr
    table := fun _ _ hr => nomatch hr
    bucket := fun _ _ h => nomatch h
    split := .nil
    bounded := Nat.le_add_right _ _
    endAddress := rfl
    nothrow := rfl }

/-! ## One lemma for each way a call can end -/

theorem Inv.fresh (hinv : Inv lo hi u) {size : Nat} {r : RDMAMemory} (hsize : 0 < size)
    (hwrap : u.server.allocAddress + size < 2 ^ 64)
    (hend : wrap64 (u.server.allocAddress + size) ≤ u.server.endAddress)
    (hvaddr : r.vaddr = u.server.allocAddress) (hrsize : r.size = size) :
    Inv lo hi
      { u with
        server := (u.server.takeShared size u.server.allocAddress).insertRecord ⟨false, false⟩
          u.server.allocAddress r
        outstanding := u.outstanding ++ [(r.vaddr, size)] } := by
  have hnowrap : wrap64 (u.server.allocAddress + size) = u.server.allocAddress + size :=
    Nat.mod_eq_of_lt hwrap
  have hrange : r.range = (u.server.allocAddress, size) := by
    rw [RDMAMemory.range, hvaddr, hrsize]
  have hkept : ∀ p ∈ pooled u.server.freeMap,
      (u.server.heap ++ [r])[p]? = u.server.heap[p]? := by
    intro p hp
    obtain ⟨q, hq⟩ := hinv.free_record hp
    exact List.getElem?_append_left (List.getElem?_eq_some_iff.mp hq).1
  rw [Server.insertRecord_of_memoryMap rfl]
  refine
    { tiles := ?_
      pos := ?_
      table := ?_
      bucket := ?_
      split := ?_
      bounded := hend
      endAddress := hinv.endAddress
      nothrow := hinv.nothrow }
  · show Tiles lo ((u.server.heap ++ [r]).map _) (wrap64 (u.server.allocAddress + size))
    rw [List.map_append, List.map_singleton, hrange, hnowrap]
    exact hinv.tiles.snoc
  · intro q hq
    rcases List.mem_append.mp hq with hold | hnew
    · exact hinv.pos q hold
    · rw [List.mem_singleton.mp hnew, hrsize]
      exact hsize
  · intro p q hq
    show (u.server.memoryMap.insert u.server.allocAddress u.server.heap.length).lookup q.vaddr = _
    rcases getElem?_snoc_cases hq with hold | ⟨rfl, rfl⟩
    · have hbelow := (hinv.tiles.bounds (List.mem_map_of_mem (List.mem_of_getElem? hold))).2
      have hqpos := hinv.pos q (List.mem_of_getElem? hold)
      have hne : q.vaddr ≠ u.server.allocAddress := by
        rw [RDMAMemory.range] at hbelow
        omega
      rw [AList.lookup_insert_ne hne]
      exact hinv.table p q hold
    · rw [hvaddr]
      exact AList.lookup_insert _
  · intro sz list hlist
    obtain ⟨hne, hrecords⟩ := hinv.bucket sz list hlist
    refine ⟨hne, fun p hp => ?_⟩
    have hpool := mem_pooled.mpr ⟨sz, list, hlist, hp⟩
    obtain ⟨q, hq, hqsize⟩ := hrecords p hp
    exact ⟨q, (hkept p hpool).trans hq, hqsize⟩
  · show ((u.outstanding ++ [(r.vaddr, size)]) ++
      (pooled u.server.freeMap).filterMap fun p => ((u.server.heap ++ [r])[p]?).map _).Perm
        ((u.server.heap ++ [r]).map _)
    have hfree : ((pooled u.server.freeMap).filterMap fun p =>
        ((u.server.heap ++ [r])[p]?).map RDMAMemory.range) = u.server.freeBlocks :=
      List.filterMap_congr fun p hp => by rw [hkept p hp]
    rw [hfree, List.map_append, List.map_singleton, hrange, hvaddr, List.append_assoc]
    exact (List.perm_append_comm_assoc _ _ _).trans
      ((List.perm_append_comm).trans (hinv.split.append_right _))

theorem popFree_perm {s : Server} {size p : Nat} {rest : List Nat}
    (h : s.freeMap.lookup size = some (p :: rest)) :
    (pooled s.freeMap).Perm (p :: pooled (s.popFree size rest)) := by
  have hperm := pooled_erase_of_lookup h
  unfold Server.popFree
  split
  · rename_i hrest
    simpa [hrest] using hperm
  · rw [pooled_insert]
    exact hperm

theorem Inv.reuse (hinv : Inv lo hi u) {size p res : Nat} {rest : List Nat} {memory : RDMAMemory}
    (hfree : u.server.freeMap.lookup size = some (p :: rest))
    (hmemory : u.server.heap[p]? = some memory) :
    Inv lo hi
      { u with
        server := { u.server.mmap size res with
          freeMap := u.server.popFree size rest
          memoryMap := u.server.memoryMap.insert memory.vaddr p }
        outstanding := u.outstanding ++ [(memory.vaddr, size)] } := by
  obtain ⟨-, hrecords⟩ := hinv.bucket size _ hfree
  obtain ⟨r, hr, hsize⟩ := hrecords p List.mem_cons_self
  obtain rfl : memory = r := Option.some.inj (hmemory.symm.trans hr)
  refine { hinv with table := ?_, bucket := ?_, split := ?_ }
  · intro q r' hr'
    show (u.server.memoryMap.insert memory.vaddr p).lookup r'.vaddr = some q
    by_cases haddr : r'.vaddr = memory.vaddr
    · have hq := hinv.table q r' hr'
      rw [haddr, hinv.table p memory hmemory] at hq
      rw [haddr, AList.lookup_insert, hq]
    · rw [AList.lookup_insert_ne haddr]
      exact hinv.table q r' hr'
  · intro sz list hlist
    rcases Server.lookup_popFree hfree hlist with ⟨rfl, rfl⟩ | ⟨-, hold⟩
    · refine ⟨?_, fun q hq => hrecords q (List.mem_cons_of_mem p hq)⟩
      rintro rfl
      simp [Server.popFree] at hlist
    · exact hinv.bucket sz list hold
  · have hblocks : u.server.freeBlocks.Perm
        ((memory.vaddr, size) :: (pooled (u.server.popFree size rest)).filterMap
          fun q => (u.server.heap[q]?).map RDMAMemory.range) := by
      have hperm := (popFree_perm hfree).filterMap
        fun q => (u.server.heap[q]?).map RDMAMemory.range
      rw [List.filterMap_cons_some (by rw [hmemory]; rfl), RDMAMemory.range, hsize] at hperm
      exact hperm
    show ((u.outstanding ++ [(memory.vaddr, size)]) ++ _).Perm _
    rw [List.append_assoc]
    exact (hblocks.symm.append_left u.outstanding).trans hinv.split

theorem perm_cons_eraseP {l : List (Nat × Nat)} (hnodup : (l.map Prod.fst).Nodup) {b : Nat × Nat}
    (hb : b ∈ l) : l.Perm (b :: l.eraseP fun c => c.1 = b.1) := by
  obtain ⟨c, pre, post, -, hc, hl, herase⟩ :=
    List.exists_of_eraseP (p := fun c : Nat × Nat => c.1 = b.1) hb (by simp)
  have hcl : c ∈ l := by simp [hl]
  obtain rfl : c = b := List.inj_on_of_nodup_map hnodup hcl hb (by simpa using hc)
  rw [herase]
  nth_rewrite 1 [hl]
  exact List.perm_middle

theorem Inv.record_of_outstanding (hinv : Inv lo hi u) {addr : Nat}
    (hout : addr ∈ u.outstanding.map Prod.fst) :
    ∃ (p : Nat) (r : RDMAMemory), u.server.heap[p]? = some r ∧ r.vaddr = addr ∧
      (addr, r.size) ∈ u.outstanding := by
  obtain ⟨b, hb, rfl⟩ := List.mem_map.mp hout
  have hheap := hinv.split.mem_iff.mp (List.mem_append_left _ hb)
  obtain ⟨r, hr, rfl⟩ := List.mem_map.mp hheap
  obtain ⟨p, hp⟩ := List.mem_iff_getElem?.mp hr
  exact ⟨p, r, hp, rfl, hb⟩

theorem Inv.release (hinv : Inv lo hi u) {p : Nat} {r : RDMAMemory}
    (hr : u.server.heap[p]? = some r) (hout : (r.vaddr, r.size) ∈ u.outstanding) :
    Inv lo hi
      { u with
        server := { u.server.munmap r.vaddr r.size with
          freeMap := u.server.freeMap.insert r.size
            ((u.server.freeMap.lookup r.size).getD [] ++ [p]) }
        outstanding := u.outstanding.eraseP fun b => b.1 = r.vaddr } := by
  refine { hinv with bucket := ?_, split := ?_ }
  · intro sz list hlist
    by_cases hsz : sz = r.size
    · subst hsz
      rw [AList.lookup_insert, Option.some.injEq] at hlist
      subst hlist
      refine ⟨by simp, fun q hq => ?_⟩
      rcases List.mem_append.mp hq with hold | hnew
      · cases hfree : u.server.freeMap.lookup r.size with
        | none => simp [hfree] at hold
        | some old =>
            rw [hfree] at hold
            exact (hinv.bucket _ old hfree).2 q hold
      · rw [List.mem_singleton.mp hnew]
        exact ⟨r, hr, rfl⟩
    · rw [AList.lookup_insert_ne hsz] at hlist
      exact hinv.bucket sz list hlist
  · have hblocks : ((pooled (u.server.freeMap.insert r.size
        ((u.server.freeMap.lookup r.size).getD [] ++ [p]))).filterMap
          fun q => (u.server.heap[q]?).map RDMAMemory.range).Perm
        (r.range :: u.server.freeBlocks) := by
      have hperm := (pooled_insert_append u.server.freeMap r.size p).filterMap
        fun q => (u.server.heap[q]?).map RDMAMemory.range
      rw [List.filterMap_cons_some (by rw [hr]; rfl)] at hperm
      exact hperm
    have hstarts := hinv.starts
    rw [List.map_append, List.nodup_append] at hstarts
    have herase := perm_cons_eraseP hstarts.1 hout
    calc ((u.outstanding.eraseP fun b => b.1 = r.vaddr) ++ _).Perm
          ((u.outstanding.eraseP fun b => b.1 = r.vaddr) ++ (r.range :: u.server.freeBlocks)) :=
          hblocks.append_left _
      List.Perm _ (r.range :: (u.outstanding.eraseP fun b => b.1 = r.vaddr) ++
          u.server.freeBlocks) := List.perm_middle
      List.Perm _ (u.outstanding ++ u.server.freeBlocks) := herase.symm.append_right _
      List.Perm _ (u.server.heap.map RDMAMemory.range) := hinv.split

/-! ## Every run -/

theorem construct_counted {owner appId : Int} {addr size : Nat}
    (h : 0 ≤ toInt32 (pageCount size defaultPageSize)) :
    ∃ r, RDMAMemory.construct owner addr size appId = some r := by
  have hnot : ¬ (defaultPageSize = 0 ∨ toInt32 (pageCount size defaultPageSize) < 0) := by
    rintro (hzero | hneg)
    · exact absurd hzero (by decide)
    · omega
  rw [RDMAMemory.construct, Pages.construct, if_neg hnot]
  exact ⟨_, rfl⟩

theorem Inv.allocateShared (hinv : Inv lo hi u) {size : Nat} (works : Bool)
    (hcount : 0 ≤ toInt32 (pageCount size defaultPageSize)) :
    Inv lo hi (u.afterAllocate size
      (u.server.allocateShared size (mmapHint u.server.allocAddress size works))) := by
  unfold Server.allocateShared
  split
  · exact hinv
  · rename_i hend
    cases hres : mmapHint u.server.allocAddress size works with
    | none => exact hinv
    | some res =>
        obtain ⟨rfl, hsize, hwrap⟩ := mmapHint_eq_some hres
        obtain ⟨r, hr⟩ := construct_counted hcount
        obtain ⟨hvaddr, hrsize, -⟩ := RDMAMemory.construct_eq hr
        dsimp only
        rw [hr]
        exact hinv.fresh hsize hwrap (Nat.le_of_not_lt hend) hvaddr hrsize

theorem Inv.allocate (hinv : Inv lo hi u) {size : Nat} (reuse : Option Nat) (works : Bool)
    (hcount : 0 ≤ toInt32 (pageCount size defaultPageSize)) :
    Inv lo hi (u.afterAllocate size
      (u.server.allocate size reuse (mmapHint u.server.allocAddress size works))) := by
  unfold Server.allocate
  split
  · exact hinv.allocateShared works hcount
  · rename_i hempty
    exact absurd rfl (hinv.bucket size [] hempty).1
  · rename_i p rest hfree
    obtain ⟨memory, hmemory, -⟩ := (hinv.bucket size _ hfree).2 p List.mem_cons_self
    rw [hmemory]
    cases reuse with
    | none => exact hinv.allocateShared works hcount
    | some res => exact hinv.reuse hfree hmemory

theorem step_inv (hinv : Inv lo hi u) {c : Call} (hok : u.PagesCounted c)
    (h : u.step c = some v) : Inv lo hi v := by
  cases c with
  | allocate size reuse fresh =>
      obtain rfl := Option.some.inj h
      exact hinv.allocate _ fresh hok
  | deallocate addr =>
      rw [step, Option.ite_none_right_eq_some, Option.some.injEq] at h
      obtain ⟨hout, rfl⟩ := h
      obtain ⟨p, r, hr, rfl, hmem⟩ := hinv.record_of_outstanding hout
      rw [Server.deallocate, hinv.table p r hr]
      dsimp only
      rw [hr]
      exact hinv.release hr hmem

theorem ranges_apart {n : Nat} {i j : Fin n} (hij : i ≠ j) :
    ¬ Overlap (startAddress n i, perServer n) (startAddress n j, perServer n) := by
  have hstep : ∀ {a b : Nat}, a < b → a * perServer n + perServer n ≤ b * perServer n := by
    intro a b hab
    rw [← Nat.succ_mul]
    exact Nat.mul_le_mul_right _ hab
  have hne : (i : Nat) ≠ j := fun h => hij (Fin.ext h)
  unfold Overlap startAddress
  simp only [Int.toNat_natCast]
  rcases Nat.lt_or_gt_of_ne hne with hlt | hgt
  · have := hstep hlt
    omega
  · have := hstep hgt
    omega

theorem range_inside {n : Nat} (i : Fin n) :
    allocatableRangeStart ≤ startAddress n i ∧
      startAddress n i + perServer n ≤ allocatableRangeEnd := by
  have hlast : (i : Nat) * perServer n + perServer n ≤ n * perServer n := by
    rw [← Nat.succ_mul]
    exact Nat.mul_le_mul_right _ i.isLt
  have hall : n * perServer n ≤ allocatableRangeEnd - allocatableRangeStart :=
    Nat.mul_div_le _ _
  have hwide : allocatableRangeStart ≤ allocatableRangeEnd := by decide
  unfold startAddress
  rw [Int.toNat_natCast]
  omega

/-- In every run, and for every server of every cluster. -/
theorem address_space_accounted {n : Nat} (id : Fin n) {u : Usage}
    (h : Reaches step PagesCounted (start n id) u) :
    Accounted n id u ∧
      (∀ i j : Fin n, i ≠ j →
        ¬ Overlap (startAddress n i, perServer n) (startAddress n j, perServer n)) ∧
      ∀ i : Fin n, allocatableRangeStart ≤ startAddress n i ∧
        startAddress n i + perServer n ≤ allocatableRangeEnd :=
  ⟨(Reaches.invariant (fun _ _ _ hinv hok hstep => step_inv hinv hok hstep)
    (inv_start n id) h).accounted,
    fun _ _ hij => ranges_apart hij, range_inside⟩

/-- Two blocks of one size are taken, both go back, a failed `mmap` takes new
space although the list has blocks, and then the first one is used again. -/
theorem address_space_accounted_reused :
    ∃ u, Reaches step PagesCounted (start 3 1) u ∧ u.outstanding.length = 2 ∧
      u.server.freeBlocks.length = 1 ∧ Accounted 3 1 u := by
  have hrun : (checkedRun step PagesCounted (start 3 1)
      [.allocate 4096 true true, .allocate 4096 true true, .deallocate (startAddress 3 1),
        .deallocate (startAddress 3 1 + 4096), .allocate 4096 false true,
        .allocate 4096 true true, .allocate 4096 false false]).map
      (fun u => (u.outstanding.length, u.server.freeBlocks.length)) = some (2, 1) := by
    decide +kernel
  obtain ⟨u, hreach, hshape⟩ := reaches_of_map_checkedRun hrun
  rw [Prod.mk.injEq] at hshape
  exact ⟨u, hreach, hshape.1, hshape.2, (address_space_accounted (n := 3) 1 hreach).1⟩

/-- The constructor of the record throws after `alloc_address` has moved: for a
block of 8 TiB the number of pages is negative as an `int`. The block is neither
handed out nor on a free list. -/
theorem address_space_lost :
    ∃ u, Reaches step anyAction (start 1 0) u ∧ u.outstanding = [] ∧ u.server.freeBlocks = [] ∧
      startAddress 1 0 < u.server.allocAddress ∧ u.thrown = [.lengthError] ∧
      ¬ Accounted 1 0 u := by
  have hrun : (run step (start 1 0) [.allocate (2 ^ 43) true true]).map
      (fun u => (u.outstanding, u.server.freeBlocks, u.thrown, u.server.allocAddress)) =
        some ([], [], [.lengthError], startAddress 1 0 + 2 ^ 43) := by
    decide +kernel
  obtain ⟨u, hreach, hshape⟩ := reaches_of_map_run hrun
  simp only [Prod.mk.injEq] at hshape
  obtain ⟨hout, hfree, hthrown, halloc⟩ := hshape
  have hlt : startAddress 1 0 < u.server.allocAddress := by
    rw [halloc]
    exact Nat.lt_add_of_pos_right (by decide)
  refine ⟨u, hreach, hout, hfree, hlt, hthrown, fun hacc => ?_⟩
  have hcovered := (hacc.covered (startAddress 1 0)).mpr ⟨Nat.le_refl _, hlt⟩
  rw [hout, hfree] at hcovered
  obtain ⟨b, hb, -⟩ := hcovered
  cases hb

end Usage

end RdmaMigration.Manager
