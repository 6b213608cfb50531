import RdmaMigration.Lib.Buckets
import RdmaMigration.Lib.Run
import RdmaMigration.Manager.Face
import RdmaMigration.Manager.Lookup

/-! # The blocks of a manager and its table

A manager that allocates, accepts and deallocates, without fault tolerance, with any
answers of `mmap`. `deallocate` puts a record on a free list and leaves its entry in
`memory_map`, so that the table lists every block ever given out.
-/

namespace RdmaMigration.Manager

open Lib Function

/-- A block that a call has returned: its size and its record. -/
structure Lot where
  size : Nat
  record : Nat
  deriving DecidableEq, Repr

/-- A manager, the block it gave out last at each address, and whether that block has
not been deallocated since. -/
structure Holdings where
  server : Server
  given : Nat → Option Lot
  held : Nat → Bool

/-- A call, with the answer of every `mmap` it may make. -/
inductive BlockCall where
  | allocate (size : Nat) (reuse fresh : Option Nat)
  | accept (addr size : Nat) (source : Int) (mapped : Option Nat)
  | deallocate (addr : Nat)
  deriving DecidableEq, Repr

namespace Holdings

def start (numServers : Nat) (id : Int) : Holdings :=
  ⟨Server.construct numServers id, fun _ => none, fun _ => false⟩

def note (h : Holdings) (s : Server) (size : Nat) : Option Nat → Holdings
  | none => { h with server := s }
  | some addr =>
      ⟨s, update h.given addr ((s.memoryMap.lookup addr).map fun p => ⟨size, p⟩),
        update h.held addr true⟩

/-- An exception in `accept` ends the poller and with it the process. -/
def step (h : Holdings) : BlockCall → Option Holdings
  | .allocate size reuse fresh =>
      if (∀ res ∈ reuse, h.server.MapsAt size res) ∧ ∀ res ∈ fresh, h.server.MapsAt size res then
        match h.server.allocate size reuse fresh with
        | (s, .ok mem) => some (h.note s size mem)
        | (s, .error _) => some { h with server := s }
      else none
  | .accept addr size source mapped =>
      if ∀ res ∈ mapped, h.server.MapsAt size res then
        match h.server.accept ⟨false, false⟩ addr size source mapped with
        | .ok (s, _) => some (h.note s size mapped)
        | .error _ => none
      else none
  | .deallocate addr =>
      match h.server.deallocate addr with
      | .ok s => some ⟨s, h.given, update h.held addr false⟩
      | .error _ => none

end Holdings

/-! ## What a step does -/

/-- Address and size of every record, the table and the free lists, next to what the
callers know. -/
structure Book where
  extents : List (Nat × Nat)
  memoryMap : AList fun _ : Nat => Nat
  freeMap : AList fun _ : Nat => List Nat
  given : Nat → Option Lot
  held : Nat → Bool

namespace Book

def give (k : Book) (addr size p : Nat) : Book :=
  { k with
    memoryMap := k.memoryMap.insert addr p
    given := update k.given addr (some ⟨size, p⟩)
    held := update k.held addr true }

inductive Moves (k : Book) : Book → Prop where
  | nothing : Moves k k
  | fresh (addr size : Nat) (hpos : 0 < size) (hend : addr + size ≤ 2 ^ 47) :
      Moves k ({ k with extents := k.extents ++ [(addr, size)] }.give addr size k.extents.length)
  | reused (p addr size recorded : Nat) (list : List Nat) (freeMap : AList fun _ : Nat => List Nat)
      (hlist : k.freeMap.lookup size = some list) (hp : p ∈ list)
      (hrecord : k.extents[p]? = some (addr, recorded))
      (hpop : ∀ sz l, freeMap.lookup sz = some l → k.freeMap.lookup sz = some l ∨
        l ≠ [] ∧ sz = size ∧ l ⊆ list) :
      Moves k ({ k with freeMap := freeMap }.give addr size p)
  | released (p addr vaddr size : Nat) (hp : k.memoryMap.lookup addr = some p)
      (hrecord : k.extents[p]? = some (vaddr, size)) :
      Moves k { k with
        freeMap := k.freeMap.insert size ((k.freeMap.lookup size).getD [] ++ [p])
        held := update k.held addr false }

/-- The table has an entry for every block that was ever given out, and it leads to the
record of the last one at its address. -/
structure Booked (k : Book) : Prop where
  entry : ∀ a p, k.memoryMap.lookup a = some p →
    ∃ size, k.extents[p]? = some (a, size) ∧ k.given a = some ⟨size, p⟩
  given : ∀ a, (k.given a).isSome → (k.memoryMap.lookup a).isSome
  held : ∀ a, k.held a = true → (k.given a).isSome
  free : ∀ size list, k.freeMap.lookup size = some list → ∀ p ∈ list,
    ∃ addr, k.extents[p]? = some (addr, size)
  nonempty : ∀ size list, k.freeMap.lookup size = some list → list ≠ []
  room : ∀ (p : Nat) addr size, k.extents[p]? = some (addr, size) → 0 < size ∧ addr + size ≤ 2 ^ 47

theorem Booked.give {k : Book} (hk : k.Booked) {addr size p : Nat}
    (hp : k.extents[p]? = some (addr, size)) : (k.give addr size p).Booked := by
  refine { hk with entry := ?_, given := ?_, held := ?_ }
  · intro a q hq
    by_cases ha : a = addr
    · subst ha
      have hq' : (k.memoryMap.insert a p).lookup a = some q := hq
      rw [AList.lookup_insert, Option.some.injEq] at hq'
      subst hq'
      exact ⟨size, hp, update_self ..⟩
    · obtain ⟨size', hrecord, hgiven⟩ := hk.entry a q ((AList.lookup_insert_ne ha).symm.trans hq)
      exact ⟨size', hrecord, (update_of_ne ha ..).trans hgiven⟩
  · intro a hgiven
    by_cases ha : a = addr
    · subst ha
      show ((k.memoryMap.insert a p).lookup a).isSome
      rw [AList.lookup_insert]
      rfl
    · have hgiven' : (update k.given addr (some ⟨size, p⟩) a).isSome := hgiven
      rw [update_of_ne ha] at hgiven'
      show ((k.memoryMap.insert addr p).lookup a).isSome
      rw [AList.lookup_insert_ne ha]
      exact hk.given a hgiven'
  · intro a hheld
    show (update k.given addr (some ⟨size, p⟩) a).isSome
    by_cases ha : a = addr
    · rw [ha, update_self]
      rfl
    · have hheld' : update k.held addr true a = true := hheld
      rw [update_of_ne ha] at hheld' ⊢
      exact hk.held a hheld'

theorem Booked.snoc {k : Book} (hk : k.Booked) {addr size : Nat} (hpos : 0 < size)
    (hend : addr + size ≤ 2 ^ 47) :
    ({ k with extents := k.extents ++ [(addr, size)] } : Book).Booked := by
  refine { hk with entry := ?_, free := ?_, room := ?_ }
  · intro a p hp
    obtain ⟨size', hrecord, hgiven⟩ := hk.entry a p hp
    exact ⟨size', getElem?_append_of_some hrecord, hgiven⟩
  · intro sz list hlist p hp
    obtain ⟨addr', hrecord⟩ := hk.free sz list hlist p hp
    exact ⟨addr', getElem?_append_of_some hrecord⟩
  · intro p addr' size' hrecord
    rcases getElem?_snoc_cases hrecord with hold | ⟨-, heq⟩
    · exact hk.room p addr' size' hold
    · cases heq
      exact ⟨hpos, hend⟩

theorem Moves.booked {k k' : Book} (h : k.Moves k') (hk : k.Booked) : k'.Booked := by
  cases h with
  | nothing => exact hk
  | fresh addr size hpos hend => exact (hk.snoc hpos hend).give (by simp)
  | reused p addr size recorded list freeMap hlist hp hrecord hpop =>
      obtain ⟨addr', hrecord'⟩ := hk.free size list hlist p hp
      have heq := Option.some.inj (hrecord.symm.trans hrecord')
      have hfree : ({ k with freeMap := freeMap } : Book).Booked := by
        refine { hk with free := fun sz l hl q hq => ?_, nonempty := fun sz l hl => ?_ }
        · rcases hpop sz l hl with hold | ⟨-, rfl, hsub⟩
          · exact hk.free sz l hold q hq
          · exact hk.free sz list hlist q (hsub hq)
        · rcases hpop sz l hl with hold | ⟨hne, -⟩
          · exact hk.nonempty sz l hold
          · exact hne
      refine hfree.give ?_
      rw [hrecord, (Prod.mk.inj heq).2]
  | released p addr vaddr size hp hrecord =>
      refine { hk with held := ?_, free := ?_, nonempty := ?_ }
      · intro a hheld
        have hheld' : update k.held addr false a = true := hheld
        by_cases ha : a = addr
        · rw [ha, update_self] at hheld'
          cases hheld'
        · rw [update_of_ne ha] at hheld'
          exact hk.held a hheld'
      · intro sz list hlist q hq
        rcases mem_of_lookup_append hlist hq with ⟨rfl, rfl⟩ | ⟨old, hold, hmem⟩
        · exact ⟨vaddr, hrecord⟩
        · exact hk.free sz old hold q hmem
      · intro sz list hlist
        rcases lookup_insert_cases hlist with ⟨-, rfl⟩ | hold
        · exact List.append_ne_nil_of_right_ne_nil _ (List.cons_ne_nil _ _)
        · exact hk.nonempty sz list hold

end Book

namespace Holdings

def bookOf (l : Layout) (given : Nat → Option Lot) (held : Nat → Bool) : Book :=
  ⟨l.extents, l.memoryMap, l.freeMap, given, held⟩

def book (h : Holdings) : Book := bookOf h.server.face.toLayout h.given h.held

theorem start_booked (numServers : Nat) (id : Int) : (start numServers id).book.Booked where
  entry a p hp := by cases hp
  given a hgiven := by cases hgiven
  held a hheld := by cases hheld
  free size list hlist := by cases hlist
  nonempty size list hlist := by cases hlist
  room p addr size hrecord := by cases hrecord

section Steps

variable {h h' : Holdings}

theorem book_note {s : Server} {addr size p : Nat}
    (hmap : s.memoryMap = h.server.memoryMap.insert addr p) :
    (h.note s size (some addr)).book =
      { h.book with extents := s.face.extents, freeMap := s.freeMap }.give addr size p := by
  have hgiven : (h.note s size (some addr)).given =
      update h.given addr (some ⟨size, p⟩) := by
    rw [note, hmap, AList.lookup_insert]
    rfl
  have hbook : (h.note s size (some addr)).book =
      ⟨s.face.extents, s.memoryMap, s.freeMap, (h.note s size (some addr)).given,
        update h.held addr true⟩ := rfl
  rw [hbook, hgiven, hmap]
  rfl

theorem note_fresh {s : Server} {res size : Nat} (hroom : h.server.MapsAt size res)
    (hextents : s.face.extents = h.server.face.extents ++ [(res, size)])
    (hmap : s.memoryMap = h.server.memoryMap.insert res h.server.face.extents.length)
    (hfree : s.freeMap = h.server.freeMap) : h.book.Moves (h.note s size (some res)).book := by
  obtain ⟨hpos, -, hend, -⟩ := hroom
  have hle := Server.le_pageUp size
  rw [book_note hmap, hextents, hfree]
  exact .fresh res size hpos (by omega)

theorem allocate_moves {size : Nat} {reuse fresh : Option Nat}
    (hstep : h.step (.allocate size reuse fresh) = some h') : h.book.Moves h'.book := by
  rw [step, Option.ite_none_right_eq_some] at hstep
  obtain ⟨⟨-, hfresh⟩, hstep⟩ := hstep
  cases hres : h.server.allocate size reuse fresh with
  | mk s result =>
      rw [hres] at hstep
      rcases Server.allocate_face hres with ⟨hnone, hface⟩ | ⟨res, rfl, rfl, hface⟩ |
        ⟨p, rest, res, memory, hfree, rfl, hmemory, rfl, hface⟩
      · have hbook : h'.book = h.book := by
          have hlayout : ∀ given held,
              bookOf s.face.toLayout given held = bookOf h.server.face.toLayout given held := by
            intro given held
            rcases hface with hface | ⟨res, -, hface⟩
            · rw [hface]
            · rw [hface]
              rfl
          cases result with
          | error e =>
              cases hstep
              exact hlayout _ _
          | ok mem =>
              cases mem with
              | none =>
                  cases hstep
                  exact hlayout _ _
              | some addr => exact absurd rfl (hnone addr)
        rw [hbook]
        exact .nothing
      · cases hstep
        exact note_fresh (hfresh res rfl) (congrArg (fun f : Face => f.extents) hface)
          (congrArg (fun f : Face => f.memoryMap) hface)
          (congrArg (fun f : Face => f.freeMap) hface)
      · cases hstep
        have hmap : s.memoryMap = _ := congrArg (fun f : Face => f.memoryMap) hface
        have hpop : s.freeMap = _ := congrArg (fun f : Face => f.freeMap) hface
        rw [book_note hmap, hpop, hface]
        · refine .reused p memory.vaddr size memory.size (p :: rest) _ hfree List.mem_cons_self
            (by simp [book, bookOf, Server.face, hmemory, RDMAMemory.extent]) ?_
          intro sz l hl
          rcases Server.lookup_popFree hfree hl with ⟨rfl, rfl⟩ | ⟨-, hold⟩
          · refine .inr ⟨?_, rfl, List.subset_cons_self _ _⟩
            rintro rfl
            simp [Server.popFree] at hl
          · exact .inl hold

theorem accept_moves {addr size : Nat} {source : Int} {mapped : Option Nat}
    (hstep : h.step (.accept addr size source mapped) = some h') : h.book.Moves h'.book := by
  rw [step, Option.ite_none_right_eq_some] at hstep
  obtain ⟨hroom, hstep⟩ := hstep
  split at hstep
  · rename_i s m haccept
    cases hstep
    cases mapped with
    | none =>
        obtain ⟨rfl, -⟩ := Server.accept_declined haccept
        exact .nothing
    | some res =>
        obtain ⟨hface, -⟩ := Server.accept_face rfl haccept
        exact note_fresh (hroom res rfl) (congrArg (fun f : Face => f.extents) hface)
          (congrArg (fun f : Face => f.memoryMap) hface)
          (congrArg (fun f : Face => f.freeMap) hface)
  · cases hstep

theorem deallocate_moves {addr : Nat} (hstep : h.step (.deallocate addr) = some h') :
    h.book.Moves h'.book := by
  rw [step] at hstep
  split at hstep
  · rename_i s hs
    cases hstep
    obtain ⟨p, memory, hp, hmemory, hface⟩ := Server.deallocate_face hs
    have hbook : book ⟨s, h.given, update h.held addr false⟩ = _ :=
      congrArg (fun f : Face => bookOf f.toLayout h.given (update h.held addr false)) hface
    rw [hbook]
    exact .released p addr memory.vaddr memory.size hp
      (by simp [book, bookOf, Server.face, hmemory, RDMAMemory.extent])
  · cases hstep

theorem step_moves {call : BlockCall} (hstep : h.step call = some h') : h.book.Moves h'.book := by
  cases call with
  | allocate size reuse fresh => exact allocate_moves hstep
  | accept addr size source mapped => exact accept_moves hstep
  | deallocate addr => exact deallocate_moves hstep

theorem reaches_booked {n : Nat} {id : Int} (h : Reaches step anyAction (start n id) h') :
    h'.book.Booked :=
  h.invariant (fun _ _ _ hbooked _ hstep => (step_moves hstep).booked hbooked) (start_booked n id)

end Steps

/-! ## The table against the held blocks -/

def HeldAround (h : Holdings) (a : Nat) : Prop :=
  ∃ addr lot, h.given addr = some lot ∧ h.held addr = true ∧ addr ≤ a ∧ a < addr + lot.size

/-- The keys of the table are the held blocks, so that a block that is not held cannot be
deallocated, and the search finds a record exactly around the held blocks, in whatever
order it meets the entries. -/
structure ListsHeld (h : Holdings) : Prop where
  keys : ∀ a, (h.server.memoryMap.lookup a).isSome ↔ h.held a = true
  refused : ∀ a, h.held a = false → h.server.deallocate a = .error .endIterator
  found : ∀ order : List (Sigma fun _ : Nat => Nat), order.Perm h.server.memoryMap.entries →
    ∀ a, (h.server.getRDMAMemory order a).isSome ↔ h.HeldAround a

variable {h : Holdings}

theorem surrounds_iff (hk : h.book.Booked) {addr p : Nat} {lot : Lot}
    (hp : h.server.memoryMap.lookup addr = some p) (hlot : h.given addr = some lot) (a : Nat) :
    h.server.surrounds a ⟨addr, p⟩ = true ↔ addr ≤ a ∧ a < addr + lot.size := by
  obtain ⟨size, hrecord, hgiven⟩ := hk.entry addr p hp
  have hend := (hk.room p addr size hrecord).2
  have hsize : lot.size = size := by
    rw [Option.some.inj (hlot.symm.trans hgiven)]
  obtain ⟨memory, hmemory, hvaddr, hmsize⟩ := Server.heap_of_extent hrecord
  rw [Server.surrounds, hmemory, Option.any_some, hvaddr, hmsize, wrap64_of_lt (by omega), hsize]
  simp

theorem getRDMAMemory_isSome_iff (hk : h.book.Booked) {order : List (Sigma fun _ : Nat => Nat)}
    (horder : order.Perm h.server.memoryMap.entries) (a : Nat) :
    (h.server.getRDMAMemory order a).isSome ↔
      ∃ addr lot, h.given addr = some lot ∧ addr ≤ a ∧ a < addr + lot.size := by
  rw [Server.getRDMAMemory, Option.isSome_map, List.find?_isSome]
  constructor
  · rintro ⟨⟨addr, p⟩, hentry, htest⟩
    have hp : h.server.memoryMap.lookup addr = some p :=
      AList.mem_lookup_iff.mpr (horder.mem_iff.mp hentry)
    obtain ⟨size, -, hgiven⟩ := hk.entry addr p hp
    exact ⟨addr, _, hgiven, (surrounds_iff hk hp hgiven a).mp htest⟩
  · rintro ⟨addr, lot, hgiven, hin⟩
    obtain ⟨p, hp⟩ := Option.isSome_iff_exists.mp (hk.given addr (Option.isSome_of_eq_some hgiven))
    exact ⟨⟨addr, p⟩, horder.mem_iff.mpr (AList.mem_lookup_iff.mp hp),
      (surrounds_iff hk hp hgiven a).mpr hin⟩

/-- In every state that the calls can lead to. -/
theorem table_lists_held {n : Nat} {id : Int} (hreach : Reaches step anyAction (start n id) h) :
    h.ListsHeld ↔ ∀ a, (h.given a).isSome → h.held a = true := by
  have hk := reaches_booked hreach
  constructor
  · intro hlists a hgiven
    exact (hlists.keys a).mp (hk.given a hgiven)
  · intro hall
    have hkeys : ∀ a, (h.server.memoryMap.lookup a).isSome ↔ h.held a = true := by
      intro a
      constructor
      · intro hkey
        obtain ⟨p, hp⟩ := Option.isSome_iff_exists.mp hkey
        obtain ⟨size, -, hgiven⟩ := hk.entry a p hp
        exact hall a (Option.isSome_of_eq_some hgiven)
      · intro hheld
        exact hk.given a (hk.held a hheld)
    refine ⟨hkeys, ?_, ?_⟩
    · intro a hfree
      have hnone : h.server.memoryMap.lookup a = none := by
        rw [← Option.not_isSome_iff_eq_none, hkeys, hfree]
        decide
      rw [Server.deallocate, hnone]
    · intro order horder a
      rw [getRDMAMemory_isSome_iff hk horder]
      constructor
      · rintro ⟨addr, lot, hgiven, hin⟩
        exact ⟨addr, lot, hgiven, hall addr (Option.isSome_of_eq_some hgiven), hin⟩
      · rintro ⟨addr, lot, hgiven, -, hin⟩
        exact ⟨addr, lot, hgiven, hin⟩

/-- A block goes back and is given out again, and one more is accepted. -/
theorem table_lists_held_again : ∃ h, Reaches step anyAction (start 2 0) h ∧ h.ListsHeld := by
  have hrun : (run step (start 2 0)
      [.allocate 4096 none (some (2 ^ 44)), .deallocate (2 ^ 44),
        .allocate 4096 (some (2 ^ 44)) none, .accept (2 ^ 46) 8192 1 (some (2 ^ 46))]).map
      (fun h => (h.server.memoryMap.keys, h.held (2 ^ 44), h.held (2 ^ 46))) =
        some ([2 ^ 46, 2 ^ 44], true, true) := by
    decide +kernel
  obtain ⟨h, hreach, hshape⟩ := reaches_of_map_run hrun
  simp only [Prod.mk.injEq] at hshape
  obtain ⟨hkeys, hfirst, hsecond⟩ := hshape
  refine ⟨h, hreach, (table_lists_held hreach).mpr fun a hgiven => ?_⟩
  have hkey : a ∈ h.server.memoryMap.keys :=
    AList.lookup_isSome.mp ((reaches_booked hreach).given a hgiven)
  rw [hkeys] at hkey
  simp only [List.mem_cons, List.not_mem_nil, or_false] at hkey
  rcases hkey with rfl | rfl
  · exact hsecond
  · exact hfirst

/-- A block is deallocated twice, since the table still has it, and two allocations get
the same address: `mmap` has no room there for the second one and answers another. -/
theorem deallocated_block_listed :
    (∃ h, Reaches step anyAction (start 2 0) h ∧ h.held (2 ^ 44) = false ∧
      (h.server.memoryMap.lookup (2 ^ 44)).isSome = true ∧
      (h.server.getRDMAMemory h.server.memoryMap.entries (2 ^ 44 + 5)).isSome = true) ∧
    ∃ h, Reaches step anyAction (start 2 0) h ∧
      let first := h.server.allocate 4096 (some (2 ^ 44)) none
      let second := first.1.allocate 4096 (some (2 ^ 45)) none
      h.server.MapsAt 4096 (2 ^ 44) ∧ first.2 = .ok (some (2 ^ 44)) ∧
      first.1.MapsAt 4096 (2 ^ 45) ∧ second.2 = .ok (some (2 ^ 44)) := by
  have honce : (run step (start 2 0)
      [.allocate 4096 none (some (2 ^ 44)), .deallocate (2 ^ 44)]).map
      (fun h => (h.held (2 ^ 44), (h.server.memoryMap.lookup (2 ^ 44)).isSome,
        (h.server.getRDMAMemory h.server.memoryMap.entries (2 ^ 44 + 5)).isSome)) =
        some (false, true, true) := by
    decide +kernel
  have htwice : (run step (start 2 0)
      [.allocate 4096 none (some (2 ^ 44)), .deallocate (2 ^ 44), .deallocate (2 ^ 44)]).map
      (fun h =>
        let first := h.server.allocate 4096 (some (2 ^ 44)) none
        let second := first.1.allocate 4096 (some (2 ^ 45)) none
        (decide (h.server.MapsAt 4096 (2 ^ 44)), first.2.toOption,
          decide (first.1.MapsAt 4096 (2 ^ 45)), second.2.toOption)) =
        some (true, some (some (2 ^ 44)), true, some (some (2 ^ 44))) := by
    decide +kernel
  obtain ⟨h, hreach, hshape⟩ := reaches_of_map_run honce
  obtain ⟨h', hreach', hshape'⟩ := reaches_of_map_run htwice
  simp only [Prod.mk.injEq] at hshape hshape'
  exact ⟨⟨h, hreach, hshape⟩, h', hreach', of_decide_eq_true hshape'.1,
    toOption_eq_some hshape'.2.1, of_decide_eq_true hshape'.2.2.1, toOption_eq_some hshape'.2.2.2⟩

end Holdings

end RdmaMigration.Manager
