import RdmaMigration.Lib.Buckets
import RdmaMigration.Manager.Protocol

/-! # The records on the free lists

`deallocate` puts a record on a free list as it is, and `allocate` hands it out again as
it finds it there. Each call moves the stock of records and free lists in one of a few
ways; what all records on the lists have in common is then kept by every call that
releases only such records and does not assign to one on a list.
-/

namespace RdmaMigration.Manager

open Lib Network Paging

/-- The record is as its constructor made it on server `id`. -/
structure RDMAMemory.AsMade (id : Int) (r : RDMAMemory) : Prop where
  state : r.state = .clean
  owner : r.owner = id
  pair : r.pair = -1
  pages : Pages.construct r.vaddr r.size defaultPageSize = some r.pages

theorem RDMAMemory.asMade_iff {id : Int} {r : RDMAMemory} :
    r.AsMade id ↔ r.state = .clean ∧ r.owner = id ∧ r.pair = -1 ∧
      Pages.construct r.vaddr r.size defaultPageSize = some r.pages :=
  ⟨fun h => ⟨h.state, h.owner, h.pair, h.pages⟩, fun h => ⟨h.1, h.2.1, h.2.2.1, h.2.2.2⟩⟩

instance (id : Int) (r : RDMAMemory) : Decidable (r.AsMade id) :=
  decidable_of_iff _ RDMAMemory.asMade_iff.symm

theorem RDMAMemory.construct_asMade {id appId : Int} {addr size : Nat} {r : RDMAMemory}
    (h : RDMAMemory.construct id addr size appId = some r) : r.AsMade id := by
  obtain ⟨pages, hpages, rfl⟩ := Option.map_eq_some_iff.mp h
  exact ⟨rfl, rfl, rfl, hpages⟩

structure Stock where
  serverId : Int
  heap : List RDMAMemory
  freeMap : AList fun _ : Nat => List Nat

namespace Stock

/-- The call assigns to the record `touched` at the most, and puts at the most the record
`freed` on a free list. No assignment changes the size of a record. -/
inductive Moves (k : Stock) (touched freed : Option Nat) : Stock → Prop where
  | nothing : Moves k touched freed k
  | assigned (p : Nat) (f : RDMAMemory → RDMAMemory) (hp : touched = some p)
      (hf : ∀ r, (f r).size = r.size) :
      Moves k touched freed { k with heap := k.heap.modify p f }
  | made (r : RDMAMemory) : Moves k touched freed { k with heap := k.heap ++ [r] }
  | reused (size : Nat) (list : List Nat) (freeMap : AList fun _ : Nat => List Nat)
      (hlist : k.freeMap.lookup size = some list)
      (hpop : ∀ sz l, freeMap.lookup sz = some l →
        sz = size ∧ l ⊆ list ∨ k.freeMap.lookup sz = some l) :
      Moves k touched freed { k with freeMap := freeMap }
  | released (p : Nat) (r : RDMAMemory) (hp : freed = some p) (hr : k.heap[p]? = some r) :
      Moves k touched freed { k with
        freeMap := k.freeMap.insert r.size ((k.freeMap.lookup r.size).getD [] ++ [p]) }

/-- Every record on a free list has the property `Q`, which may depend on the size that
the list is for. -/
structure Lists (Q : Nat → RDMAMemory → Prop) (id : Int) (k : Stock) : Prop where
  serverId : k.serverId = id
  record : ∀ size list, k.freeMap.lookup size = some list →
    ∀ p ∈ list, ∃ r, k.heap[p]? = some r ∧ Q size r

variable {k k' : Stock} {touched freed : Option Nat} {Q : Nat → RDMAMemory → Prop} {id : Int}

theorem Lists.assign (hk : k.Lists Q id) {p : Nat} {f : RDMAMemory → RDMAMemory}
    (hf : p ∈ pooled k.freeMap → ∀ size r, Q size r → Q size (f r)) :
    ({ k with heap := k.heap.modify p f } : Stock).Lists Q id where
  serverId := hk.serverId
  record size list hlist q hq := by
    obtain ⟨r, hr, hQ⟩ := hk.record size list hlist q hq
    show ∃ r', (k.heap.modify p f)[q]? = some r' ∧ Q size r'
    rw [List.getElem?_modify, hr]
    by_cases hpq : p = q
    · subst hpq
      exact ⟨f r, by simp, hf (mem_pooled.mpr ⟨size, list, hlist, hq⟩) size r hQ⟩
    · exact ⟨r, by simp [hpq], hQ⟩

theorem Lists.release (hk : k.Lists Q id) {p : Nat} {r : RDMAMemory} (hr : k.heap[p]? = some r)
    (hQ : Q r.size r) :
    ({ k with
        freeMap := k.freeMap.insert r.size
          ((k.freeMap.lookup r.size).getD [] ++ [p]) } : Stock).Lists Q id where
  serverId := hk.serverId
  record size list hlist q hq := by
    rcases mem_of_lookup_append hlist hq with ⟨rfl, rfl⟩ | ⟨old, hold, hmem⟩
    · exact ⟨r, hr, hQ⟩
    · exact hk.record size old hold q hmem

theorem Moves.lists (h : k.Moves touched freed k') (hk : k.Lists Q id)
    (htouched : ∀ p (f : RDMAMemory → RDMAMemory), touched = some p →
      (∀ r, (f r).size = r.size) → p ∈ pooled k.freeMap → ∀ size r, Q size r → Q size (f r))
    (hfreed : ∀ p r, freed = some p → k.heap[p]? = some r → Q r.size r) : k'.Lists Q id := by
  cases h with
  | nothing => exact hk
  | assigned p f hp hf => exact hk.assign (htouched p f hp hf)
  | made r =>
      refine ⟨hk.serverId, fun size list hlist q hq => ?_⟩
      obtain ⟨r', hr', hQ⟩ := hk.record size list hlist q hq
      exact ⟨r', getElem?_append_of_some hr', hQ⟩
  | reused size list freeMap hlist hpop =>
      refine ⟨hk.serverId, fun sz l hl q hq => ?_⟩
      rcases hpop sz l hl with ⟨rfl, hsub⟩ | hold
      · exact hk.record sz list hlist q (hsub hq)
      · exact hk.record sz l hold q hq
  | released p r hp hr => exact hk.release hr (hfreed p r hp hr)

end Stock

namespace Server

def stock (s : Server) : Stock := ⟨s.serverId, s.heap, s.freeMap⟩

/-! ## The calls -/

section Calls

variable {b : Build} {s s' : Server} {m : RdmaMessage} {addr size : Nat} {peer : Int}

theorem updateRecord_moves (hb : b.faultTolerant = false) (s : Server) (addr : Nat)
    {f : RDMAMemory → RDMAMemory} (hf : ∀ r, (f r).size = r.size) :
    s.stock.Moves (s.memoryMap.lookup addr) none (s.updateRecord b addr f).stock := by
  have htable : s.table b = s.memoryMap := by simp [table, hb]
  rw [updateRecord, htable]
  cases hp : s.memoryMap.lookup addr with
  | none => exact .nothing
  | some p => exact .assigned p f rfl hf

theorem prepare_moves (hb : b.faultTolerant = false) {clientId : RDMAMemory → List Char}
    (h : s.prepare b addr size peer clientId = .ok (s', m)) :
    s.stock.Moves (s.memoryMap.lookup addr) none s'.stock := by
  obtain ⟨p, memory, key, -, -, rfl, -⟩ := prepare_cases h
  exact updateRecord_moves hb s addr fun _ => rfl

theorem transfer_moves (hb : b.faultTolerant = false)
    (h : s.transfer b addr size peer = .ok (s', m)) :
    s.stock.Moves (s.memoryMap.lookup addr) none s'.stock := by
  obtain ⟨p, mr, hp, -, rfl, -⟩ := transfer_cases h
  have hlookup : s.memoryMap.lookup addr = some p := by simpa [table, hb] using hp
  exact .assigned p _ hlookup fun _ => rfl

theorem close_moves (hb : b.faultTolerant = false) (h : s.close b addr size peer = .ok (s', m)) :
    s.stock.Moves (s.memoryMap.lookup addr) none s'.stock := by
  obtain ⟨rfl, -⟩ := close_cases h
  exact updateRecord_moves hb s addr fun _ => rfl

theorem receiveTransfer_moves (hb : b.faultTolerant = false) {remote : Server}
    (h : s.receiveTransfer b remote addr size peer = .ok s') :
    s.stock.Moves (s.memoryMap.lookup addr) none s'.stock := by
  obtain ⟨p, bytes, -, rfl, -⟩ := receiveTransfer_cases h
  exact updateRecord_moves hb { s with bytes := bytes } addr fun _ => rfl

theorem accept_moves (hb : b.faultTolerant = false) {mapped : Option Nat}
    (h : s.accept b addr size peer mapped = .ok (s', m)) : s.stock.Moves none none s'.stock := by
  rcases accept_cases h with ⟨-, rfl, -⟩ | ⟨res, r, -, -, rfl, -⟩
  · exact .nothing
  · show s.stock.Moves none none (((s.mmap size res).insertRecord b res r).updatePair b res
      peer).stock
    have hlookup : (((s.mmap size res).insertRecord b res r).table b).lookup res =
        some s.heap.length := by
      simp [insertRecord_of_memoryMap hb, table, hb]
    rw [updatePair, updateRecord, hlookup, insertRecord_of_memoryMap hb]
    have hheap : (s.heap ++ [r]).modify s.heap.length (fun r => { r with pair := peer }) =
        s.heap ++ [{ r with pair := peer }] := modify_snoc ..
    have hmade := @Stock.Moves.made s.stock none none { r with pair := peer }
    rw [stock, ← hheap] at hmade
    exact hmade

def assignedBy (s : Server) (m : RdmaMessage) : Option Nat :=
  if getMessageType m.messageType = .transfer then s.memoryMap.lookup m.regionInfo.addr else none

theorem handle_moves (hb : b.faultTolerant = false) {remote : Server} {mapped : Option Nat}
    {reply : Option RdmaMessage} (h : s.handle b remote m peer mapped = .ok (s', reply)) :
    s.stock.Moves (s.assignedBy m) none s'.stock := by
  unfold handle at h
  unfold assignedBy
  cases htype : getMessageType m.messageType with
  | prepare =>
      rw [htype] at h
      obtain ⟨⟨t, answer⟩, haccept, hret⟩ := bind_eq_ok.mp h
      cases hret
      exact accept_moves hb haccept
  | accept =>
      rw [htype] at h
      obtain ⟨t, ht, hret⟩ := bind_eq_ok.mp h
      cases hret
      obtain ⟨p, -, rfl⟩ := onAccept_cases ht
      exact .nothing
  | decline =>
      rw [htype] at h
      obtain ⟨t, ht, hret⟩ := bind_eq_ok.mp h
      cases hret
      obtain rfl := deregisterMemory_cases ht
      exact .nothing
  | transfer =>
      rw [htype] at h
      obtain ⟨t, ht, hret⟩ := bind_eq_ok.mp h
      cases hret
      exact receiveTransfer_moves hb ht
  | done =>
      rw [htype] at h
      obtain ⟨t, ht, hret⟩ := bind_eq_ok.mp h
      cases hret
      obtain ⟨p, -, rfl⟩ := onClose_cases ht
      exact .nothing
  | getPartitions | sentPartitions | user =>
      rw [htype] at h
      cases h
      exact .nothing

end Calls

/-! ## Allocation -/

section Allocation

variable {s s' : Server} {size addr : Nat} {reuse fresh : Option Nat}
  {result : Except Fault (Option Nat)} {id : Int}

theorem allocateShared_moves (h : s.allocateShared size fresh = (s', result)) :
    s.stock.Moves none none s'.stock := by
  rcases allocateShared_cases h with ⟨rfl, -⟩ | ⟨res, -, -, ⟨rfl, -⟩ | ⟨r, -, rfl, -⟩⟩
  · exact .nothing
  · exact .nothing
  · exact .made r

theorem allocate_moves (h : s.allocate size reuse fresh = (s', result)) :
    s.stock.Moves none none s'.stock := by
  rcases allocate_cases h with hshared | ⟨rfl, -⟩ | ⟨p, rest, res, memory, hfree, -, -, -, rfl⟩
  · exact allocateShared_moves hshared
  · exact .nothing
  · refine .reused size (p :: rest) _ hfree fun sz l hl => ?_
    rcases lookup_popFree hfree hl with ⟨hsz, rfl⟩ | ⟨-, hold⟩
    · exact .inl ⟨hsz, List.subset_cons_self _ _⟩
    · exact .inr hold

theorem deallocate_moves (h : s.deallocate addr = .ok s') :
    s.stock.Moves none (s.memoryMap.lookup addr) s'.stock := by
  obtain ⟨p, memory, hp, hmemory, rfl⟩ := deallocate_cases h
  exact .released p memory hp hmemory

def Fresh (s : Server) (id : Int) (addr size : Nat) : Prop :=
  ∃ p r, s.memoryMap.lookup addr = some p ∧ s.heap[p]? = some r ∧ r.vaddr = addr ∧
    r.size = size ∧ r.AsMade id

/-- The record that the next `allocate` of this size takes from its free list, if the list
has one and `mmap` answers `reuse`, is as its constructor made it. -/
def ReusesMade (s : Server) (id : Int) (size : Nat) (reuse : Option Nat) : Prop :=
  reuse.isSome → ∀ p ∈ (s.freeMap.lookup size).bind List.head?, ∀ r ∈ s.heap[p]?, r.AsMade id

theorem allocateShared_fresh (hid : s.serverId = id)
    (h : s.allocateShared size fresh = (s', .ok (some addr))) : s'.Fresh id addr size := by
  rcases allocateShared_cases h with ⟨-, hnull⟩ | ⟨res, -, -, ⟨-, hthrew⟩ | ⟨r, hr, rfl, hret⟩⟩
  · cases hnull
  · cases hthrew
  · rw [hid] at hr
    obtain ⟨hvaddr, hsize, -⟩ := RDMAMemory.construct_eq hr
    rw [hvaddr] at hret
    cases hret
    exact ⟨s.heap.length, r, AList.lookup_insert _, List.getElem?_concat_length, hvaddr, hsize,
      RDMAMemory.construct_asMade hr⟩

/-- A block of the server's range is always new; a record from a free list is returned as
it is, and has the right size in any case. -/
theorem allocate_fresh_iff (hk : s.stock.Lists (fun sz r => r.size = sz) id)
    (h : s.allocate size reuse fresh = (s', .ok (some addr))) :
    s'.Fresh id addr size ↔ s.ReusesMade id size reuse := by
  cases hfree : s.freeMap.lookup size with
  | none =>
      rw [allocate_of_none hfree] at h
      exact iff_of_true (allocateShared_fresh hk.serverId h) (by simp [ReusesMade, hfree])
  | some list =>
      cases list with
      | nil =>
          rw [allocate, hfree] at h
          cases h
      | cons p rest =>
          cases reuse with
          | none =>
              rw [allocate_of_failed hfree] at h
              exact iff_of_true (allocateShared_fresh hk.serverId h) (by simp [ReusesMade])
          | some res =>
              obtain ⟨r, hr, hsize⟩ := hk.record size (p :: rest) hfree p List.mem_cons_self
              have hmemory : s.heap[p]? = some r := hr
              rw [allocate_of_reuse hfree hmemory] at h
              cases h
              have hreuses : s.ReusesMade id size (some res) ↔ r.AsMade id := by
                simp [ReusesMade, hfree, hmemory]
              rw [hreuses]
              constructor
              · rintro ⟨q, r', hq, hr', -, -, hmade⟩
                have hq' : (s.memoryMap.insert r.vaddr p).lookup r.vaddr = some q := hq
                rw [AList.lookup_insert, Option.some.injEq] at hq'
                subst hq'
                rw [Option.some.inj (hmemory.symm.trans hr')]
                exact hmade
              · intro hmade
                exact ⟨p, r, AList.lookup_insert _, hmemory, rfl, hsize, hmade⟩

end Allocation

end Server

end RdmaMigration.Manager
