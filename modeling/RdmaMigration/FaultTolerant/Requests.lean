import RdmaMigration.FaultTolerant.AllOrNothing
import RdmaMigration.Lib.Run
import RdmaMigration.Manager.Requests

/-! # What the fault-tolerant `allocate` asks `mmap` for

The counter in ZooKeeper is moved before the address is used, and it is compared with
nothing. Any server may make the next call, in any state of its own.
-/

namespace RdmaMigration.FaultTolerant

open Lib Function Manager Coordinator

def CounterAt (z : Store) (k : Nat) : Prop :=
  k < 2 ^ 64 ∧ ∃ version, z .allocator = some ⟨decimal k, version⟩

def counterOf (z : Store) : Option Nat := (z .allocator).bind fun n => stoul n.data

theorem stoul_decimal_of_lt {k : Nat} (hk : k < 2 ^ 64) : stoul (decimal k) = some k := by
  rcases Nat.eq_zero_or_pos k with rfl | hpos
  · decide
  · exact stoul_decimal hpos hk

theorem CounterAt.counterOf {z : Store} {k : Nat} (h : CounterAt z k) : counterOf z = some k := by
  obtain ⟨hk, version, hnode⟩ := h
  rw [FaultTolerant.counterOf, hnode]
  exact stoul_decimal_of_lt hk

theorem get_of_decimal {z : Store} {k version : Nat} (hk : k < 2 ^ 64)
    (hnode : z .allocator = some ⟨decimal k, version⟩) :
    z.get .allocator = some ⟨decimal k, version⟩ := by
  refine Store.get_of_short hnode ?_ ?_
  · exact (length_decimal_le hk).trans (by decide)
  · rintro c hc rfl
    exact absurd (isDigit_of_mem_decimal hc) (by decide)

section Address

variable (paging : Bool) {w : World} {k version : Nat}

theorem run_getAllocationAddress (hk : k < 2 ^ 64)
    (hnode : w.zk .allocator = some ⟨decimal k, version⟩) (size : Nat) :
    (Steps.getAllocationAddress size 1).run (serve paging .answered) w =
      (.ok k, ⟨w.server, update w.zk .allocator
        (some ⟨decimal (wrap64 (k + size)), version + 1⟩)⟩) := by
  have hget := get_of_decimal hk hnode
  have hset : w.zk.set .allocator (decimal (wrap64 (k + size))) version =
      some (update w.zk .allocator
        (some ⟨decimal (wrap64 (k + size)), version + 1⟩)) := by
    rw [Store.set, hnode]
    exact if_pos rfl
  have hread : (serve paging .answered w (.get .allocator)) = (some ⟨decimal k, version⟩, w) := by
    rw [serve, if_neg (by decide), hget]
  have hwrite : serve paging .answered w (.set .allocator (decimal (wrap64 (k + size)))
      (some version)) = (true, ⟨w.server, update w.zk .allocator
        (some ⟨decimal (wrap64 (k + size)), version + 1⟩)⟩) := by
    rw [serve, Option.bind_some, hset]
    rfl
  have hrun : (Steps.getAllocationAddress size 1).run (serve paging .answered) w =
      (Script.orThrow .invalidArgument (stoul (textOf (some ⟨decimal k, version⟩))) >>= fun res =>
        (Steps.ask (.set .allocator (decimal (wrap64 (res + size))) (some version)) >>= fun
          (written : Bool) => if written then return res else Steps.getAllocationAddress size 0 :
            Steps Nat) : Steps Nat).run (serve paging .answered) w := by
    show (Script.ask (.get .allocator) _ : Steps Nat).run (serve paging .answered) w = _
    rw [Script.run_ask, hread]
    rfl
  have htext : stoul (textOf (some ⟨decimal k, version⟩)) = some k := stoul_decimal_of_lt hk
  rw [hrun, htext]
  show (Script.ask (.set .allocator (decimal (wrap64 (k + size))) (some version)) _ :
    Steps Nat).run (serve paging .answered) w = _
  rw [Script.run_ask, hwrite]
  rfl

def SparesCounter : Request → Prop
  | .get p | .create p _ | .set p _ _ | .remove p _ => p ≠ .allocator
  | .mmap _ _ | .munmap _ _ | .enter _ _ _ | .find _ | .erase _ | .reply _ _ _ _ => True

theorem serve_sparesCounter {r : Request} {n : Option ZNode} (hr : SparesCounter r)
    (hn : w.zk .allocator = n) : (serve paging .answered w r).2.zk .allocator = n := by
  cases r with
  | create q data =>
      refine Eq.trans (b := w.zk .allocator) ?_ hn
      refine @AllOrNothing.attempt_of_ne _ (w.zk.create q data) _ (fun z hz => ?_) .answered
      rw [(Store.create_eq_some hz).2, update_of_ne (Ne.symm hr)]
  | set q data version =>
      refine Eq.trans (b := w.zk .allocator) ?_ hn
      refine @AllOrNothing.attempt_of_ne _ (version.bind fun v => w.zk.set q data v) _
        (fun z hz => ?_) .answered
      obtain ⟨v, -, hset⟩ := Option.bind_eq_some_iff.mp hz
      obtain ⟨n, -, -, rfl⟩ := Store.set_eq_some hset
      rw [update_of_ne (Ne.symm hr)]
  | remove q version =>
      refine Eq.trans (b := w.zk .allocator) ?_ hn
      refine @AllOrNothing.attempt_of_ne _ (version.bind fun v => w.zk.remove q v) _
        (fun z hz => ?_) .answered
      obtain ⟨v, -, hremove⟩ := Option.bind_eq_some_iff.mp hz
      obtain ⟨n, -, -, rfl⟩ := Store.remove_eq_some hremove
      rw [update_of_ne (Ne.symm hr)]
  | get | mmap | munmap | enter | find | erase | reply => exact hn

theorem ask_spares {r : Request} (h : SparesCounter r) : (Steps.ask r).Only SparesCounter :=
  ⟨h, fun _ => trivial⟩

theorem addToProcessList_spares (serverId id : Int) :
    (Steps.addToProcessList serverId id).Only SparesCounter := by
  refine (ask_spares (by simp [SparesCounter])).bind fun n => ?_
  cases n with
  | none => trivial
  | some n => exact ask_spares (by simp [SparesCounter])

theorem entered_spares (result : Except Fault (Option Nat)) :
    (Steps.entered result).Only SparesCounter := by
  cases result with
  | error e => trivial
  | ok mem => trivial

theorem listed_spares (res size : Nat) (id : Int) (listed : Bool) :
    (if listed then Steps.enter res size id
      else Steps.ask (.munmap res size) >>= fun _ => pure none : Steps (Option Nat)).Only
      SparesCounter := by
  cases listed with
  | false => exact (ask_spares (r := .munmap res size) trivial).bind fun _ => trivial
  | true => exact (ask_spares (r := .enter res size id) trivial).bind entered_spares

theorem recordSegment_spares (serverId : Int) (address size : Nat) (id : Int) (res : Nat) :
    (Steps.recordSegment serverId address size id res).Only SparesCounter := by
  refine (ask_spares (by simp [SparesCounter])).bind fun created => ?_
  cases created with
  | false => exact listed_spares res size id false
  | true => exact (addToProcessList_spares serverId id).bind (listed_spares res size id)

end Address

/-! ## Sequences of allocations -/

structure AllocateZk where
  server : Server
  size : Nat
  id : Int
  mapped : Option Nat

namespace AllocateZk

/-- `allocate(size, application_id)`, with what it returns or throws and what it leaves. -/
def outcome (paging : Bool) (z : Store) (c : AllocateZk) : Except Fault (Option Nat) × World :=
  (Steps.allocate c.server.serverId c.size c.id c.mapped 1).run (serve paging .answered)
    ⟨c.server, z⟩

def step (paging : Bool) (z : Store) (c : AllocateZk) : Option Store :=
  some (c.outcome paging z).2.zk

/-- The range that the call asks `mmap` for. -/
def asked (paging : Bool) (z : Store) (c : AllocateZk) : List (Nat × Nat) :=
  match ((Steps.getAllocationAddress c.size 1).run (serve paging .answered) ⟨c.server, z⟩).1 with
  | .ok address => [(address, c.size)]
  | .error _ => []

/-- Nothing is asked for beyond the end of the allocatable range, and a request that does
not fit is refused with the counter where it was. -/
def StaysInside (paging : Bool) (z : Store) (c : AllocateZk) : Prop :=
  (∀ r ∈ c.asked paging z, r.1 + r.2 ≤ allocatableRangeEnd) ∧
    ∀ k, counterOf z = some k → allocatableRangeEnd < k + c.size →
      (c.outcome paging z).1 = .ok none ∧ counterOf (c.outcome paging z).2.zk = some k

variable {paging : Bool} {z : Store} {k : Nat}

theorem asked_eq (h : CounterAt z k) (c : AllocateZk) : c.asked paging z = [(k, c.size)] := by
  obtain ⟨hk, version, hnode⟩ := h
  rw [asked, run_getAllocationAddress paging hk hnode]

theorem counter_outcome (h : CounterAt z k) (c : AllocateZk) :
    CounterAt (c.outcome paging z).2.zk (wrap64 (k + c.size)) := by
  obtain ⟨hk, version, hnode⟩ := h
  refine ⟨wrap64_lt _, version + 1, ?_⟩
  have hmoved : update z .allocator (some ⟨decimal (wrap64 (k + c.size)), version + 1⟩)
      .allocator = some ⟨decimal (wrap64 (k + c.size)), version + 1⟩ := update_self ..
  rw [outcome, Steps.allocate, Script.run_bind, run_getAllocationAddress paging hk hnode]
  dsimp only
  cases c.mapped with
  | none => exact hmoved
  | some res =>
      have hspares : (Steps.ask (.mmap c.size res) >>= fun _ =>
          Steps.recordSegment c.server.serverId k c.size c.id res : Steps (Option Nat)).Only
          SparesCounter :=
        (ask_spares (r := .mmap c.size res) trivial).bind fun _ => recordSegment_spares ..
      exact @Script.Only.run_invariant _ _ _ _ World SparesCounter (serve paging .answered)
        (fun w => w.zk .allocator = some ⟨decimal (wrap64 (k + c.size)), version + 1⟩)
        (fun w r hr hw => serve_sparesCounter paging hr hw) _ hspares _ hmoved

theorem staysInside_iff (h : CounterAt z k) (c : AllocateZk) :
    c.StaysInside paging z ↔ k + c.size ≤ allocatableRangeEnd := by
  rw [StaysInside, asked_eq h]
  constructor
  · intro hinside
    exact hinside.1 _ List.mem_cons_self
  · intro hfits
    refine ⟨fun r hr => ?_, fun k' hk' hover => ?_⟩
    · rw [List.mem_singleton.mp hr]
      exact hfits
    · rw [h.counterOf, Option.some.injEq] at hk'
      omega

theorem reaches_counter {z₀ : Store} (h : ∃ k, CounterAt z₀ k)
    (hreach : Reaches (step paging) anyAction z₀ z) : ∃ k, CounterAt z k := by
  refine @Reaches.invariant _ _ _ _ (fun z => ∃ k, CounterAt z k) (fun z c z' hz _ hstep => ?_) _ _
    h hreach
  obtain ⟨k, hk⟩ := hz
  cases hstep
  exact ⟨_, counter_outcome hk c⟩

end AllocateZk

/-- In both builds, after any sequence of allocations of any 64-bit sizes. -/
theorem requests_stay_inside {n : Nat} {id : Fin n} {s : Server} {paging : Bool} {z₀ z : Store}
    (hs : Reaches AllocateCall.step anyAction (Server.construct n id) s)
    (hz₀ : CounterAt z₀ allocatableRangeStart)
    (hz : Reaches (AllocateZk.step paging) anyAction z₀ z) :
    (∀ size reuse fresh, size < 2 ^ 64 →
      (s.StaysInside size reuse fresh ↔ s.allocAddress + size < 2 ^ 64)) ∧
    ∃ k, counterOf z = some k ∧ ∀ c : AllocateZk,
      c.StaysInside paging z ↔ k + c.size ≤ allocatableRangeEnd := by
  have hbumped := AllocateCall.reaches_bumped hs
  obtain ⟨k, hk⟩ := AllocateZk.reaches_counter ⟨_, hz₀⟩ hz
  exact ⟨fun size reuse fresh hsize => hbumped.staysInside_iff hsize reuse fresh,
    k, hk.counterOf, AllocateZk.staysInside_iff hk⟩

def firstStore : Store :=
  update (fun _ => none) .allocator (some ⟨decimal allocatableRangeStart, 0⟩)

theorem firstStore_counter : CounterAt firstStore allocatableRangeStart :=
  ⟨by decide, 0, update_self ..⟩

theorem requests_stay_inside_first :
    (Server.construct 2 (1 : Fin 2)).StaysInside 4096 none none ∧
      AllocateZk.StaysInside false firstStore ⟨Server.construct 2 0, 4096, 7, none⟩ := by
  obtain ⟨hserver, k, hk, hcounter⟩ := @requests_stay_inside 2 1 _ false _ _
    (Reaches.refl _ _ _) firstStore_counter (Reaches.refl _ _ _)
  refine ⟨(hserver 4096 none none (by decide)).mpr (by decide), (hcounter _).mpr ?_⟩
  rw [firstStore_counter.counterOf, Option.some.injEq] at hk
  rw [← hk]
  decide

/-- A size of `2 ^ 64 - 2 ^ 44` bytes wraps the end of the block to 0, and `mmap` is asked
for it. The counter hands out an address for 128 TiB and stays behind the end of the
range. -/
theorem requests_beyond_range :
    (Server.construct 2 0).asked (2 ^ 64 - 2 ^ 44) none = [(2 ^ 44, 2 ^ 64 - 2 ^ 44)] ∧
    AllocateZk.asked false firstStore ⟨Server.construct 2 0, 2 ^ 47, 7, none⟩ =
      [(2 ^ 44, 2 ^ 47)] ∧
    counterOf (AllocateZk.outcome false firstStore
      ⟨Server.construct 2 0, 2 ^ 47, 7, none⟩).2.zk = some (2 ^ 44 + 2 ^ 47) ∧
    allocatableRangeEnd < 2 ^ 44 + 2 ^ 47 :=
  ⟨by decide, AllocateZk.asked_eq firstStore_counter _,
    (AllocateZk.counter_outcome firstStore_counter _).counterOf, by decide⟩

end RdmaMigration.FaultTolerant
