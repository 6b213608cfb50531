import RdmaMigration.FaultTolerant.Manager
import RdmaMigration.Manager.Mapping

/-! # What `mmap` answers, with fault tolerance

`allocate(size, application_id)` asks for the address of the counter and takes the
mapping back if the segment cannot be recorded. `accept` answers a `PREPARE` with
whatever its `allocate` returned, in either build.
-/

namespace RdmaMigration.FaultTolerant

open Lib Network Manager Coordinator

/-! ## The fault-tolerant `allocate` -/

theorem zk_bind_of_ok {α β : Type} {x : Zk α} {f : α → Zk β} {z z' : Session} {a : α}
    (h : x z = .ok (a, z')) : (x >>= f) z = f a z' := by
  have hbind : (x >>= f) z = (x z >>= fun p => f p.1 p.2) := rfl
  rw [hbind, h]
  rfl

def recordSegment (serverId : Int) (address size : Nat) (id : Int) : Zk Bool := do
  if ← createMemorySegmentNode address size serverId (-1) id then addToProcessList serverId id
  else return false

theorem write_returns (request : Store → Option Store) (z : Session) :
    ∃ done z', Zk.write request z = .ok (done, z') := by
  unfold Zk.write
  dsimp only
  split
  · exact ⟨_, _, rfl⟩
  · exact ⟨_, _, rfl⟩

theorem addToProcessList_returns (serverId id : Int) (z : Session) :
    ∃ done z', addToProcessList serverId id z = .ok (done, z') := by
  obtain ⟨n, z₁, hget⟩ : ∃ n z₁, Zk.get (.process serverId) z = .ok (n, z₁) := ⟨_, _, rfl⟩
  rw [addToProcessList, zk_bind_of_ok hget]
  cases n with
  | none => exact ⟨_, _, rfl⟩
  | some n => exact write_returns _ z₁

theorem recordSegment_returns (serverId : Int) (address size : Nat) (id : Int) (z : Session) :
    ∃ done z', recordSegment serverId address size id z = .ok (done, z') := by
  obtain ⟨created, z₁, hcreate⟩ : ∃ created z₁,
      createMemorySegmentNode address size serverId (-1) id z = .ok (created, z₁) :=
    write_returns (fun store => store.create _ _) z
  rw [recordSegment, zk_bind_of_ok hcreate]
  cases created with
  | false => exact ⟨_, _, rfl⟩
  | true => exact addToProcessList_returns serverId id z₁

theorem allocate_some (paging : Bool) (s : Server) (size : Nat) (id : Int) (res : Nat)
    {z z' : Session} {address : Nat} (haddress : getAllocationAddress size z = .ok (address, z')) :
    allocate paging s size id (some res) z =
      (recordSegment s.serverId address size id >>= fun done =>
        if done then enter paging (s.mmap size res) res size id
        else return ((s.mmap size res).munmap res size, none)) z' := by
  rw [allocate, zk_bind_of_ok haddress]
  dsimp only
  refine congrArg (fun call : Zk (Server × Option Nat) => call z') ?_
  rw [recordSegment, bind_assoc]
  refine congrArg _ (funext fun created => ?_)
  cases created with
  | false => rfl
  | true => rfl

theorem covered_munmap {s : Server} {size res : Nat} (h : s.MapsAt size res) (a : Nat) :
    Covered ((s.mmap size res).munmap res size).mapped a ↔ Covered s.mapped a := by
  show Covered (cut (res, Server.pageUp size) ((res, Server.pageUp size) :: s.mapped)) a ↔ _
  rw [covered_cut]
  constructor
  · rintro ⟨⟨r, hr, ha⟩, hnot⟩
    rcases List.mem_cons.mp hr with rfl | hold
    · exact absurd ha hnot
    · exact ⟨r, hold, ha⟩
  · rintro ⟨r, hr, ha⟩
    refine ⟨⟨r, List.mem_cons_of_mem _ hr, ha⟩, fun hnew => ?_⟩
    exact h.2.2.2 r hr ((overlap_iff _ _).mpr ⟨a, hnew, ha⟩)

/-- `allocate(size, application_id)` from this session comes to an end as it should. -/
def Honours (paging : Bool) (s : Server) (z : Session) (requested size : Nat) (id : Int)
    (mapped : Option Nat) : Prop :=
  match allocate paging s size id mapped z with
  | .ok ((s', mem), _) => s.Honours s' requested size (.ok mem)
  | .error _ => False

theorem honours_iff (paging : Bool) {s : Server} {z z' : Session} {address size : Nat} (id : Int)
    {mapped : Option Nat} (haddress : getAllocationAddress size z = .ok (address, z'))
    (hmapped : ∀ res ∈ mapped, s.MapsAt size res) :
    Honours paging s z address size id mapped ↔
      mapped = none ∨ mapped = some address ∧ Counted size ∨
        ∃ z'', recordSegment s.serverId address size id z' = .ok (false, z'') := by
  unfold Honours
  cases mapped with
  | none =>
      rw [allocate, zk_bind_of_ok haddress]
      exact iff_of_true (s.honours_null _ _) (.inl rfl)
  | some res =>
      obtain ⟨done, z'', hdone⟩ := recordSegment_returns s.serverId address size id z'
      rw [allocate_some paging s size id res haddress, zk_bind_of_ok hdone]
      cases done with
      | false =>
          refine iff_of_true ⟨covered_munmap (hmapped res rfl), rfl, rfl⟩ ?_
          exact .inr (.inr ⟨z'', hdone⟩)
      | true =>
          have hentered := @Server.honours_enter_iff (build paging) s (s.mmap size res) s.serverId
            id address size res rfl
          have hrecorded : ¬ ∃ t, recordSegment s.serverId address size id z' = .ok (false, t) := by
            rintro ⟨t, ht⟩
            rw [hdone] at ht
            cases ht
          have hcond : (some res = none ∨ some res = some address ∧ Counted size ∨
              ∃ t, recordSegment s.serverId address size id z' = .ok (false, t)) ↔
              res = address ∧ Counted size := by
            simp [hrecorded]
          rw [hcond, ← hentered]
          cases hmade : RDMAMemory.construct s.serverId res size id with
          | none =>
              have hthrow : enter paging (s.mmap size res) res size id z'' =
                  .error .lengthError := by
                show (Zk.orThrow .lengthError (RDMAMemory.construct s.serverId res size id) >>= _)
                  z'' = _
                rw [hmade]
                rfl
              rw [if_pos rfl, hthrow]
              exact Iff.rfl
          | some r =>
              have hok : enter paging (s.mmap size res) res size id z'' =
                  .ok (((s.mmap size res).insertRecord (build paging) res r, some r.vaddr), z'') := by
                show (Zk.orThrow .lengthError (RDMAMemory.construct s.serverId res size id) >>= _)
                  z'' = _
                rw [hmade]
                rfl
              rw [if_pos rfl, hok]
              exact Iff.rfl

/-! ## `accept` -/

/-- The answer to a `PREPARE` for `addr` when `allocate` has got this from `mmap`. -/
def RepliesRightly (addr : Nat) (mapped : Option Nat) (m : RdmaMessage) : Prop :=
  if mapped = some addr then m.messageType = .accept ∧ m.regionInfo.addr = addr
  else m.messageType = .decline

theorem repliesRightly_iff {b : Build} {s t : Server} {addr size : Nat} {source appId : Int}
    {mapped mem : Option Nat} (h : s.allocateAt b size appId mapped = (t, .ok mem)) :
    RepliesRightly addr mapped (t.answer b addr size source mem).2 ↔
      mapped = none ∨ mapped = some addr := by
  rcases Server.allocateAt_ok h with ⟨rfl, -, rfl⟩ | ⟨res, r, rfl, -, -, rfl⟩
  · exact iff_of_true rfl (.inl rfl)
  · unfold RepliesRightly
    by_cases hres : res = addr
    · subst hres
      rw [if_pos rfl]
      exact iff_of_true ⟨rfl, rfl⟩ (.inr rfl)
    · rw [if_neg (by simpa using hres)]
      refine iff_of_false (fun hdecline => by cases hdecline) ?_
      rintro (hnone | hsome)
      · cases hnone
      · exact hres (Option.some.inj hsome)

/-- The constructor of the record throws, or `allocate` returns. -/
theorem allocateAt_returns (b : Build) (s : Server) (size : Nat) (appId : Int)
    (mapped : Option Nat) :
    (∃ t e, s.allocateAt b size appId mapped = (t, .error e) ∧ mapped ≠ none ∧ ¬ Counted size) ∨
    ∃ t mem, s.allocateAt b size appId mapped = (t, .ok mem) ∧ (mapped = none ∨ Counted size) := by
  cases mapped with
  | none => exact .inr ⟨s, none, rfl, .inl rfl⟩
  | some res =>
      have hcounted := @RDMAMemory.construct_isSome_iff s.serverId appId res size
      rw [Server.allocateAt]
      cases hmade : RDMAMemory.construct s.serverId res size appId with
      | none =>
          rw [hmade] at hcounted
          exact .inl ⟨_, _, rfl, by simp, fun h => by cases hcounted.mpr h⟩
      | some r =>
          rw [hmade] at hcounted
          exact .inr ⟨_, _, rfl, .inr (hcounted.mp rfl)⟩

def AcceptInPlace (addr size : Nat) (mapped : Option Nat) : Prop :=
  mapped = none ∨ mapped = some addr ∧ Counted size

theorem not_acceptInPlace {addr size : Nat} {mapped : Option Nat} (hsome : mapped ≠ none)
    (hcounted : ¬ Counted size) : ¬ AcceptInPlace addr size mapped := by
  rintro (hnone | ⟨-, hcount⟩)
  · exact hsome hnone
  · exact hcounted hcount

theorem acceptInPlace_iff {addr size : Nat} {mapped : Option Nat}
    (h : mapped = none ∨ Counted size) :
    AcceptInPlace addr size mapped ↔ mapped = none ∨ mapped = some addr := by
  unfold AcceptInPlace
  constructor
  · rintro (hnone | ⟨hsome, -⟩)
    · exact .inl hnone
    · exact .inr hsome
  · rintro (hnone | hsome)
    · exact .inl hnone
    · exact .inr ⟨hsome, h.resolve_left (by rw [hsome]; simp)⟩

def Replies (paging : Bool) (s : Server) (addr size : Nat) (source : Int) (mapped : Option Nat) :
    Prop :=
  match s.accept ⟨false, paging⟩ addr size source mapped with
  | .ok r => RepliesRightly addr mapped r.2
  | .error _ => False

theorem replies_iff (paging : Bool) (s : Server) (addr size : Nat) (source : Int)
    (mapped : Option Nat) :
    Replies paging s addr size source mapped ↔ AcceptInPlace addr size mapped := by
  unfold Replies Server.accept
  rcases allocateAt_returns ⟨false, paging⟩ s size 0 mapped with
    ⟨t, e, hthrew, hsome, hcounted⟩ | ⟨t, mem, hret, hcounted⟩
  · rw [hthrew]
    exact iff_of_false (fun h => h) (not_acceptInPlace hsome hcounted)
  · rw [acceptInPlace_iff hcounted, ← repliesRightly_iff hret, hret]
    rfl

def RepliesZk (paging : Bool) (s : Server) (z : Session) (addr size : Nat) (source id : Int)
    (mapped : Option Nat) : Prop :=
  match accept paging s addr size source id mapped z with
  | .ok r => RepliesRightly addr mapped r.1.2
  | .error _ => False

theorem repliesZk_iff (paging : Bool) (s : Server) (z : Session) (addr size : Nat)
    (source id : Int) (mapped : Option Nat) :
    RepliesZk paging s z addr size source id mapped ↔ AcceptInPlace addr size mapped := by
  unfold RepliesZk accept
  rcases allocateAt_returns (build paging) s size id mapped with
    ⟨t, e, hthrew, hsome, hcounted⟩ | ⟨t, mem, hret, hcounted⟩
  · rw [hthrew]
    exact iff_of_false (fun h => h) (not_acceptInPlace hsome hcounted)
  · obtain ⟨done, z', hadd⟩ := addToProcessList_returns t.serverId id z
    have hrun : (do
        let mem ← plain (.ok mem)
        let _ ← addToProcessList t.serverId id
        return t.answer (build paging) addr size source mem : Zk (Server × RdmaMessage)) z =
        .ok (t.answer (build paging) addr size source mem, z') := by
      rw [zk_bind_of_ok (show plain (.ok mem) z = .ok (mem, z) from rfl), zk_bind_of_ok hadd]
      rfl
    rw [acceptInPlace_iff hcounted, ← repliesRightly_iff hret, hret]
    dsimp only
    rw [hrun]

/-! ## Every path -/

/-- A call with the answers of the `mmap` calls it may make: the four forms of
`allocate`, and `accept` of either build. -/
inductive MapRequest where
  | allocate (h : Holdings) (size : Nat) (reuse fresh : Option Nat)
  | allocateAt (b : Build) (s : Server) (vaddr size : Nat) (appId : Int) (mapped : Option Nat)
  | allocateZk (paging : Bool) (s : Server) (z : Session) (size : Nat) (id : Int)
      (mapped : Option Nat)
  | accept (paging : Bool) (s : Server) (addr size : Nat) (source : Int) (mapped : Option Nat)
  | acceptZk (paging : Bool) (s : Server) (z : Session) (addr size : Nat) (source id : Int)
      (mapped : Option Nat)

namespace MapRequest

/-- `mmap` maps where there is room. A manager without fault tolerance is in a state that
its calls can lead to, and the counter of one with it can be read. -/
def Possible : MapRequest → Prop
  | allocate h size reuse fresh =>
      (∃ n id, Reaches Holdings.step anyAction (Holdings.start n id) h) ∧
        (∀ res ∈ reuse, h.server.MapsAt size res) ∧ ∀ res ∈ fresh, h.server.MapsAt size res
  | allocateAt _ s _ size _ mapped | accept _ s _ size _ mapped | acceptZk _ s _ _ size _ _ mapped =>
      ∀ res ∈ mapped, s.MapsAt size res
  | allocateZk _ s z size _ mapped =>
      (∃ r, getAllocationAddress size z = .ok r) ∧ ∀ res ∈ mapped, s.MapsAt size res

def Honoured : MapRequest → Prop
  | allocate h size reuse fresh =>
      h.server.Honours (h.server.allocate size reuse fresh).1 (h.server.lastHint size reuse) size
        (h.server.allocate size reuse fresh).2
  | allocateAt b s vaddr size appId mapped =>
      s.Honours (s.allocateAt b size appId mapped).1 vaddr size
        (s.allocateAt b size appId mapped).2
  | allocateZk paging s z size id mapped =>
      ∀ address z', getAllocationAddress size z = .ok (address, z') →
        Honours paging s z address size id mapped
  | accept paging s addr size source mapped => Replies paging s addr size source mapped
  | acceptZk paging s z addr size source id mapped =>
      RepliesZk paging s z addr size source id mapped

def InPlace : MapRequest → Prop
  | allocate h size reuse fresh => h.server.InPlace size reuse fresh
  | allocateAt _ _ vaddr size _ mapped => mapped = none ∨ mapped = some vaddr ∧ Counted size
  | allocateZk _ s z size id mapped =>
      ∀ address z', getAllocationAddress size z = .ok (address, z') →
        mapped = none ∨ mapped = some address ∧ Counted size ∨
          ∃ z'', recordSegment s.serverId address size id z' = .ok (false, z'')
  | accept _ _ addr size _ mapped | acceptZk _ _ _ addr size _ _ mapped =>
      AcceptInPlace addr size mapped

end MapRequest

theorem free_of_reaches {n : Nat} {id : Int} {h : Holdings}
    (hreach : Reaches Holdings.step anyAction (Holdings.start n id) h) (size : Nat) :
    ∀ list, h.server.freeMap.lookup size = some list →
      list ≠ [] ∧ ∀ p ∈ list, ∃ memory, h.server.heap[p]? = some memory := by
  have hk := Holdings.reaches_booked hreach
  intro list hlist
  refine ⟨hk.nonempty size list hlist, fun p hp => ?_⟩
  obtain ⟨addr, hrecord⟩ := hk.free size list hlist p hp
  obtain ⟨memory, hmemory, -⟩ := Server.heap_of_extent hrecord
  exact ⟨memory, hmemory⟩

/-- Every outcome of `mmap` on every path. -/
theorem mapping_honoured (r : MapRequest) (hr : r.Possible) : r.Honoured ↔ r.InPlace := by
  cases r with
  | allocate h size reuse fresh =>
      obtain ⟨⟨n, id, hreach⟩, hreuse, -⟩ := hr
      exact Server.honours_allocate_iff (free_of_reaches hreach size) hreuse
  | allocateAt b s vaddr size appId mapped => exact Server.honours_allocateAt_iff ..
  | allocateZk paging s z size id mapped =>
      constructor
      · intro h address z' haddress
        exact (honours_iff paging id haddress hr.2).mp (h address z' haddress)
      · intro h address z' haddress
        exact (honours_iff paging id haddress hr.2).mpr (h address z' haddress)
  | accept paging s addr size source mapped => exact replies_iff ..
  | acceptZk paging s z addr size source id mapped => exact repliesZk_iff ..

/-- The destination has the range free. -/
theorem mapping_honoured_accept :
    Replies false (Server.construct 2 1) (2 ^ 44) 4096 0 (some (2 ^ 44)) :=
  (mapping_honoured (.accept false (Server.construct 2 1) (2 ^ 44) 4096 0 (some (2 ^ 44)))
    (by rintro res ⟨⟩; decide)).mpr (.inr ⟨rfl, by decide⟩)

/-- A block from the free list is handed out although `mmap` has mapped another place, so
that nothing is mapped at its address. And a `PREPARE` for one address is accepted with
another. -/
theorem wrong_mapping_taken :
    (∃ h, Reaches Holdings.step anyAction (Holdings.start 2 0) h ∧
      h.server.MapsAt 4096 (2 ^ 45) ∧
      (h.server.allocate 4096 (some (2 ^ 45)) none).2 = .ok (some (2 ^ 44)) ∧
      ∀ r ∈ (h.server.allocate 4096 (some (2 ^ 45)) none).1.mapped, ¬ Covers r (2 ^ 44)) ∧
    (Server.construct 2 1).MapsAt 4096 (2 ^ 45) ∧
    ∃ s' m, (Server.construct 2 1).accept ⟨false, false⟩ (2 ^ 44) 4096 0 (some (2 ^ 45)) =
      .ok (s', m) ∧ m.messageType = .accept ∧ m.regionInfo.addr = 2 ^ 45 := by
  have hrun : (run Holdings.step (Holdings.start 2 0)
      [.allocate 4096 none (some (2 ^ 44)), .deallocate (2 ^ 44)]).map
      (fun h => (decide (h.server.MapsAt 4096 (2 ^ 45)),
        (h.server.allocate 4096 (some (2 ^ 45)) none).2.toOption,
        decide (∀ r ∈ (h.server.allocate 4096 (some (2 ^ 45)) none).1.mapped,
          ¬ Covers r (2 ^ 44)))) = some (true, some (some (2 ^ 44)), true) := by
    decide +kernel
  obtain ⟨h, hreach, hshape⟩ := reaches_of_map_run hrun
  simp only [Prod.mk.injEq] at hshape
  refine ⟨⟨h, hreach, of_decide_eq_true hshape.1, toOption_eq_some hshape.2.1,
    of_decide_eq_true hshape.2.2⟩, by decide, _, _, rfl, rfl, rfl⟩

end RdmaMigration.FaultTolerant
