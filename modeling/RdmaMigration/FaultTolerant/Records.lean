import RdmaMigration.FaultTolerant.System

/-! # The record of a migrated segment

At the end of a migration the source's `PollForClose` calls the same `deallocate`
as an application that gives a segment up. `deallocate` goes on to
`deleteMemorySegment` also when the record names another server as the source, so
the record of the segment is gone as soon as its migration is complete.
-/

namespace RdmaMigration.FaultTolerant.System

open Lib Network Manager Coordinator

/-- What recovery finds about a segment that has moved from `source` to
`destination`: its record with the original address and size and the new source,
and the process lists of both servers up to date. -/
def Kept (z : Store) (memory : RDMAMemory) (source destination : Int) : Prop :=
  ∃ n map, z.get (.segment memory.applicationId) = some n ∧ zsToMap n.data = some map ∧
    map.field Key.address = decimal memory.vaddr ∧ map.field Key.size = decimal memory.size ∧
    map.field Key.source = decimalInt destination ∧
    memory.applicationId ∈ processList z destination ∧
    memory.applicationId ∉ processList z source

/-! ## The end of a migration -/

variable {s t : Session} {ok : Bool} {id i : Int} {st : State}

theorem remove_answered {p : Path} {version : Option Nat}
    (h : Zk.remove p version s = .ok (ok, t)) (hanswered : t.failed = false) :
    t.store p = none := by
  simp only [Zk.remove, Zk.write] at h
  split at h
  · rename_i z hz
    cases h
    obtain ⟨v, -, hremove⟩ := Option.bind_eq_some_iff.mp hz
    unfold Store.remove at hremove
    split at hremove
    · cases hremove
    · obtain ⟨-, heq⟩ := Option.ite_none_right_eq_some.mp hremove
      cases heq
      exact Function.update_self ..
  · cases h
    cases hanswered

theorem deleteMemorySegment_answered
    (h : deleteMemorySegment id s = .ok (ok, t)) (hanswered : t.failed = false) :
    t.store (.segment id) = none := by
  obtain ⟨n, s₁, -, h⟩ := Zk.bind_eq_ok.mp h
  obtain ⟨map, s₂, -, h⟩ := Zk.bind_eq_ok.mp h
  exact remove_answered h hanswered

theorem deallocate_answered {server server' : Server}
    (h : deallocate server id s = .ok ((server', ok), t)) (hanswered : t.failed = false) :
    t.store (.segment id) = none := by
  obtain ⟨⟨s₁, hdelete⟩, -⟩ := deallocate_cases h
  exact deleteMemorySegment_answered hdelete hanswered

theorem pollForClose_answered {server server' : Server} {addr : Nat} {memory : RDMAMemory}
    {removed : Bool} (h : pollForClose server addr s = .ok ((server', some (memory, removed)), t))
    (hanswered : t.failed = false) : t.store (.segment memory.applicationId) = none := by
  rcases pollForClose_cases h with
    ⟨-, htaken, -⟩ | ⟨p, rest, head, ok, -, -, -, htaken, hdeallocate⟩
  · cases htaken
  · cases htaken
    exact deallocate_answered hdeallocate hanswered

/-! ## Every migration -/

/-- Every completed migration of the log found its record deleted. -/
def Lost (log : List Event) : Prop :=
  ∀ i memory store, .migrated i memory store true ∈ log →
    store (.segment memory.applicationId) = none

theorem Lost.note {e : Option Event} (h : Lost st.log)
    (he : ∀ i memory store, .migrated i memory store true ∈ e →
      store (.segment memory.applicationId) = none) : Lost (st.note e).log := by
  intro i memory store hmem
  rcases List.mem_append.mp hmem with hnew | hold
  · exact he i memory store (Option.mem_toList.mp hnew)
  · exact h i memory store hold

theorem handledEvent_ne {d : Int} {m : RdmaMessage} {reply : Option RdmaMessage}
    {memory : RDMAMemory} {store : Store} {answered : Bool} :
    .migrated i memory store answered ∉ handledEvent st d m reply := by
  intro h
  unfold handledEvent at h
  split at h
  · obtain ⟨-, heq⟩ := Option.ite_none_right_eq_some.mp h
    cases heq
  · obtain ⟨r, -, heq⟩ := Option.map_eq_some_iff.mp h
    cases heq
  · cases h

theorem pollForCloseStep_lost {st' : State} {addr : Nat} {others : List (Store → Store)}
    (h : Lost st.log) (hstep : pollForCloseStep st i addr others = some st') : Lost st'.log := by
  obtain ⟨⟨⟨server, taken⟩, t⟩, hcall, hret⟩ := Option.bind_eq_some_iff.mp hstep
  cases hret
  refine Lost.note h ?_
  intro i' memory store hmigrated
  obtain ⟨⟨taken', removed⟩, rfl, heq⟩ := Option.map_eq_some_iff.mp hmigrated
  simp only [Event.migrated.injEq] at heq
  obtain ⟨-, rfl, rfl, hfailed⟩ := heq
  exact pollForClose_answered (call_eq_some hcall) (by simpa using hfailed)

theorem step_lost {paging : Bool} {n : Nat} {st' : State} {act : Action} (h : Lost st.log)
    (hstep : step paging n st act = some st') : Lost st'.log := by
  cases act with
  | allocate i size id mapped others =>
      obtain ⟨-, hstep⟩ := Option.ite_none_right_eq_some.mp hstep
      obtain ⟨⟨⟨server, result⟩, t⟩, -, hret⟩ := Option.bind_eq_some_iff.mp hstep
      cases hret
      exact Lost.note h (by simp)
  | deallocate i id others =>
      obtain ⟨-, hstep⟩ := Option.ite_none_right_eq_some.mp hstep
      obtain ⟨⟨⟨server, removed⟩, t⟩, -, hret⟩ := Option.bind_eq_some_iff.mp hstep
      cases hret
      exact h
  | prepare s addr size d =>
      obtain ⟨-, hstep⟩ := Option.ite_none_right_eq_some.mp hstep
      obtain ⟨⟨server, m⟩, -, hret⟩ := Option.bind_eq_some_iff.mp hstep
      cases hret
      exact h
  | transfer s addr size d =>
      obtain ⟨-, hstep⟩ := Option.ite_none_right_eq_some.mp hstep
      obtain ⟨⟨server, m⟩, -, hstep⟩ := Option.bind_eq_some_iff.mp hstep
      obtain ⟨⟨p, memory⟩, -, hret⟩ := Option.bind_eq_some_iff.mp hstep
      cases hret
      exact Lost.note h (by simp)
  | close d addr size s others =>
      obtain ⟨-, hstep⟩ := Option.ite_none_right_eq_some.mp hstep
      obtain ⟨⟨⟨server, m⟩, t⟩, -, hret⟩ := Option.bind_eq_some_iff.mp hstep
      cases hret
      exact h
  | poll d s mapped others =>
      obtain ⟨m, rest, server, reply, t, -, -, -, rfl⟩ :=
        pollStep_cases (Option.ite_none_right_eq_some.mp hstep).2
      exact Lost.note h fun i memory store hmigrated => absurd hmigrated handledEvent_ne
  | pollForAccept i =>
      obtain ⟨⟨server, p⟩, -, hret⟩ := Option.bind_eq_some_iff.mp hstep
      cases hret
      exact h
  | pollForTransfer i =>
      obtain ⟨⟨server, p⟩, -, hret⟩ := Option.bind_eq_some_iff.mp hstep
      cases hret
      exact h
  | pollForClose i addr others =>
      exact pollForCloseStep_lost h (Option.ite_none_right_eq_some.mp hstep).2

/-- In no run does a migration whose requests were all answered leave the record of its
segment behind. A removal that is refused because another client has written the node in
between counts as a request that failed. -/
theorem migrated_record_lost {paging : Bool} {n : Nat} {st : State} {i destination : Int}
    {memory : RDMAMemory} {store : Store}
    (hreach : Reaches (step paging n) anyAction (initial n) st)
    (hmigrated : .migrated i memory store true ∈ st.log) :
    ¬ Kept store memory i destination := by
  have hlost : (fun st : State => Lost st.log) st :=
    hreach.invariant (fun _ _ _ h _ => step_lost h) (by simp [Lost, initial])
  rintro ⟨node, map, hget, -⟩
  have hnone := hlost i memory store hmigrated
  simp [Store.get, hnone] at hget

/-- The migrations that have come to their end: the server, the id, whether the
requests were answered, and whether the record is still there. -/
def endings (log : List Event) : List (Int × Int × Bool × Bool) :=
  log.filterMap fun
    | .migrated i memory store answered =>
        some (i, memory.applicationId, answered, (store (.segment memory.applicationId)).isSome)
    | _ => none

theorem exists_of_mem_endings {log : List Event} {answered kept : Bool}
    (h : (i, id, answered, kept) ∈ endings log) :
    ∃ memory store, .migrated i memory store answered ∈ log ∧ memory.applicationId = id ∧
      (store (.segment id)).isSome = kept := by
  obtain ⟨e, hmem, he⟩ := List.mem_filterMap.mp h
  cases e with
  | migrated i' memory store answered' =>
      simp only [Option.some.injEq, Prod.mk.injEq] at he
      obtain ⟨rfl, rfl, rfl, rfl⟩ := he
      exact ⟨memory, store, hmem, rfl, rfl⟩
  | _ => cases he

/-- A segment with id 7 moves from server 0 to server 1. -/
def oneMigration : List Action :=
  [.allocate 0 4096 7 (some allocatableRangeStart) [],
    .prepare 0 allocatableRangeStart 4096 1, .poll 1 0 (some allocatableRangeStart) [],
    .poll 0 1 none [], .pollForAccept 0, .transfer 0 allocatableRangeStart 4096 1,
    .poll 1 0 none [], .pollForTransfer 1, .close 1 allocatableRangeStart 4096 0 [],
    .poll 0 1 none [], .pollForClose 0 allocatableRangeStart []]

theorem oneMigration_endings :
    (run (step false 2) (initial 2) oneMigration).map (fun st => endings st.log) =
      some [(0, 7, true, false)] := by
  decide +kernel

theorem migrated_record_lost_once :
    ∃ st memory store, Reaches (step false 2) anyAction (initial 2) st ∧
      .migrated 0 memory store true ∈ st.log ∧ memory.applicationId = 7 ∧
      ¬ Kept store memory 0 1 := by
  obtain ⟨st, hreach, hendings⟩ := reaches_of_map_run oneMigration_endings
  have hmem : (0, 7, true, false) ∈ endings st.log := by
    rw [hendings]
    exact List.mem_singleton_self _
  obtain ⟨memory, store, hmigrated, hid, -⟩ := exists_of_mem_endings hmem
  exact ⟨st, memory, store, hreach, hmigrated, hid, migrated_record_lost hreach hmigrated⟩

/-- Before the source's `PollForClose` everything is as recovery needs it; the
call itself deletes the record. -/
theorem record_deleted_by_poll_for_close :
    (∃ st, run (step false 2) (initial 2) oneMigration.dropLast = some st ∧
      ((st.zk.get (.segment 7)).bind fun n => zsToMap n.data).map
        (fun map => (map.field Key.address, map.field Key.size, map.field Key.source)) =
        some (decimal allocatableRangeStart, decimal 4096, decimalInt 1) ∧
      processList st.zk 1 = [7]) ∧
    ∃ st, run (step false 2) (initial 2) oneMigration = some st ∧ st.zk (.segment 7) = none ∧
      endings st.log = [(0, 7, true, false)] := by
  refine ⟨?_, ?_⟩
  · have hrun : (run (step false 2) (initial 2) oneMigration.dropLast).map (fun st =>
        (((st.zk.get (.segment 7)).bind fun n => zsToMap n.data).map
          (fun map => (map.field Key.address, map.field Key.size, map.field Key.source)),
          processList st.zk 1)) =
        some (some (decimal allocatableRangeStart, decimal 4096, decimalInt 1), [7]) := by
      decide +kernel
    obtain ⟨st, hst, hpair⟩ := Option.map_eq_some_iff.mp hrun
    exact ⟨st, hst, congrArg Prod.fst hpair, congrArg Prod.snd hpair⟩
  · have hrun : (run (step false 2) (initial 2) oneMigration).map (fun st =>
        (st.zk (.segment 7), endings st.log)) = some (none, [(0, 7, true, false)]) := by
      decide +kernel
    obtain ⟨st, hst, hpair⟩ := Option.map_eq_some_iff.mp hrun
    exact ⟨st, hst, congrArg Prod.fst hpair, congrArg Prod.snd hpair⟩

end RdmaMigration.FaultTolerant.System
