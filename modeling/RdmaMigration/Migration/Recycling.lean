import RdmaMigration.Manager.Stock
import RdmaMigration.Migration.Poller
import RdmaMigration.Paging.Table

/-! # Blocks that are used again

Migrations mixed with allocations and deallocations, and with operations on the page
tables. What a migration writes into a record stays there: nothing takes the record's
pair, owner, state and pages back to what its constructor gave it, so that `allocate`
returns a used block as its last user left it.
-/

namespace RdmaMigration.Migration.Recycling

open Lib Function Network Manager RdmaMigration.Migration.System

inductive Event where
  | call (act : Action)
  | table (i : Int) (p : Nat) (op : Paging.TableOp)
  deriving DecidableEq, Repr

def step (b : Build) (st : State Server) : Event → Option (State Server)
  | .call act => System.step b st act
  | .table i p op => some (st.setServer i ((st.server i).modify p fun r =>
      { r with pages := r.pages.perform op }))

/-! ## What a step does to the stocks -/

def actor : Action → Int
  | .allocate i _ _ _ | .deallocate i _ | .write i _ _ _ | .prepare i _ _ _ | .transfer i _ _ _
  | .close i _ _ _ | .deliver _ i | .poll i _ _ | .pollForAccept i | .pollForTransfer i
  | .pollForClose i => i

def Event.actor : Event → Int
  | .call act => Recycling.actor act
  | .table i _ _ => i

def touched (st : State Server) : Action → Option Nat
  | .prepare i addr _ _ | .transfer i addr _ _ | .close i addr _ _ =>
      (st.server i).memoryMap.lookup addr
  | .poll d s _ => (st.head d s).bind (st.server d).assignedBy
  | .allocate _ _ _ _ | .deallocate _ _ | .write _ _ _ _ | .deliver _ _ | .pollForAccept _
  | .pollForTransfer _ | .pollForClose _ => none

def Event.touched (st : State Server) : Event → Option Nat
  | .call act => Recycling.touched st act
  | .table _ p _ => some p

def Event.freed (st : State Server) : Event → Option Nat
  | .call (.deallocate i addr) => (st.server i).memoryMap.lookup addr
  | _ => none

structure Restocks (st : State Server) (i : Int) (touched freed : Option Nat)
    (st' : State Server) : Prop where
  others : ∀ j, j ≠ i → st'.server j = st.server j
  moves : (st.server i).stock.Moves touched freed (st'.server i).stock

theorem Restocks.of_update {st st' : State Server} {i : Int} {touched freed : Option Nat}
    {s : Server} (hserver : st'.server = update st.server i s)
    (hmoves : (st.server i).stock.Moves touched freed s.stock) :
    Restocks st i touched freed st' where
  others j hj := by rw [hserver, update_of_ne hj]
  moves := by rwa [hserver, update_self]

section Calls

variable {b : Build} {st st' : State Server}

theorem allocateStep_restocks (i : Int) (size : Nat) (reuse fresh : Option Nat) :
    Restocks st i none none (allocateStep st i size reuse fresh) := by
  cases hres : (st.server i).allocate size reuse fresh with
  | mk s result =>
      have hserver : (allocateStep st i size reuse fresh).server =
          update st.server i s := by
        unfold allocateStep
        rw [hres]
        split
        · rename_i heq
          cases heq
          rfl
        · rename_i heq
          cases heq
          rfl
      exact .of_update hserver (Server.allocate_moves hres)

theorem prepareStep_restocks (hb : b.faultTolerant = false) {s d : Int} {addr size : Nat}
    (h : prepareStep b st s addr size d = some st') :
    Restocks st s ((st.server s).memoryMap.lookup addr) none st' := by
  obtain ⟨⟨server, m⟩, hcall, hret⟩ := Option.bind_eq_some_iff.mp h
  cases hret
  exact .of_update rfl (Server.prepare_moves hb (toOption_eq_some hcall))

theorem transferStep_restocks (hb : b.faultTolerant = false) {s d : Int} {addr size : Nat}
    (h : transferStep b st s addr size d = some st') :
    Restocks st s ((st.server s).memoryMap.lookup addr) none st' := by
  obtain ⟨⟨server, m⟩, hcall, hret⟩ := Option.bind_eq_some_iff.mp h
  cases hret
  exact .of_update rfl (Server.transfer_moves hb (toOption_eq_some hcall))

theorem closeStep_restocks (hb : b.faultTolerant = false) {s d : Int} {addr size : Nat}
    (h : closeStep b st d addr size s = some st') :
    Restocks st d ((st.server d).memoryMap.lookup addr) none st' := by
  obtain ⟨⟨server, m⟩, hcall, hret⟩ := Option.bind_eq_some_iff.mp h
  cases hret
  exact .of_update rfl (Server.close_moves hb (toOption_eq_some hcall))

theorem pollStep_restocks (hb : b.faultTolerant = false) {d s : Int} {mapped : Option Nat}
    (h : pollStep b st d s mapped = some st') :
    Restocks st d ((st.head d s).bind (st.server d).assignedBy) none st' := by
  obtain ⟨m, rest, server, reply, hqueue, -, hcall, hserver, -⟩ := pollStep_cases h
  have hhead : st.head d s = some m := by
    have hqueue' : ((st.server d).connections s).recvQueue = m :: rest := hqueue
    rw [State.head, hqueue', List.head?_cons]
  rw [hhead, Option.bind_some]
  have hmoves : (st.server d).stock.Moves ((st.server d).assignedBy m) none server.stock :=
    @Server.handle_moves b (popped (st.server d) s rest) server m s hb _ _ _ hcall
  exact .of_update hserver hmoves

theorem step_restocks (hb : b.faultTolerant = false) {e : Event} (h : step b st e = some st') :
    Restocks st e.actor (e.touched st) (e.freed st) st' := by
  cases e with
  | table i p op =>
      cases h
      exact .of_update rfl (.assigned p _ rfl fun _ => rfl)
  | call act =>
      have hstep : System.step b st act = some st' := h
      cases System.step_cases hstep with
      | allocate i size reuse fresh => exact allocateStep_restocks i size reuse fresh
      | deallocate i addr s hcall => exact .of_update rfl (Server.deallocate_moves hcall)
      | prepare _ _ _ _ _ _ hstep => exact prepareStep_restocks hb hstep
      | transfer _ _ _ _ _ _ hstep => exact transferStep_restocks hb hstep
      | close _ _ _ _ _ _ hstep => exact closeStep_restocks hb hstep
      | deliver s d _ _ hstep =>
          unfold deliverStep at hstep
          split at hstep
          · cases hstep
          · cases hstep
            exact .of_update rfl .nothing
      | poll _ _ _ _ _ hstep => exact pollStep_restocks hb hstep
      | write | pollForAccept | pollForTransfer | pollForClose => exact .of_update rfl .nothing

end Calls

/-! ## What the free lists hold -/

/-- The step does not assign to a record on a free list, and releases only a record that
is as its constructor made it. -/
def Spares (st : State Server) (e : Event) : Prop :=
  (∀ p ∈ e.touched st, p ∉ pooled (st.server e.actor).freeMap) ∧
    ∀ p ∈ e.freed st, ∀ r ∈ (st.server e.actor).heap[p]?, r.AsMade e.actor

instance (st : State Server) (e : Event) : Decidable (Spares st e) :=
  inferInstanceAs (Decidable (_ ∧ _))

section Runs

variable {b : Build} {n : Nat} {st st' : State Server}

def Stocked (Q : Int → Nat → RDMAMemory → Prop) (st : State Server) : Prop :=
  ∀ i, (st.server i).stock.Lists (Q i) i

theorem initial_stocked (Q : Int → Nat → RDMAMemory → Prop) (n : Nat) :
    Stocked Q (initial n) := by
  intro i
  refine ⟨rfl, fun size list hlist => ?_⟩
  cases hlist

theorem Restocks.stocked {Q : Int → Nat → RDMAMemory → Prop} {i : Int}
    {touched freed : Option Nat} (h : Restocks st i touched freed st') (hst : Stocked Q st)
    (htouched : ∀ p (f : RDMAMemory → RDMAMemory), touched = some p →
      (∀ r, (f r).size = r.size) → p ∈ pooled (st.server i).freeMap →
      ∀ size r, Q i size r → Q i size (f r))
    (hfreed : ∀ p r, freed = some p → (st.server i).heap[p]? = some r → Q i r.size r) :
    Stocked Q st' := by
  intro j
  by_cases hj : j = i
  · subst hj
    exact h.moves.lists (hst j) htouched hfreed
  · rw [h.others j hj]
    exact hst j

/-- The records of a free list have its size, whatever the callers do. -/
theorem reaches_sized (hb : b.faultTolerant = false)
    (h : Reaches (step b) anyAction (initial n) st) :
    Stocked (fun _ size r => r.size = size) st := by
  refine h.invariant (fun st e st' hst _ hstep => ?_) (initial_stocked _ n)
  refine (step_restocks hb hstep).stocked hst ?_ ?_
  · intro p f _ hf _ size r hsize
    exact (hf r).trans hsize
  · intro p r _ _
    rfl

/-- Along runs that spare them, they are also as their constructors made them. -/
theorem reaches_made (hb : b.faultTolerant = false)
    (h : Reaches (step b) Spares (initial n) st) : Stocked (fun i _ r => r.AsMade i) st := by
  refine h.invariant (fun st e st' hst hok hstep => ?_) (initial_stocked _ n)
  refine (step_restocks hb hstep).stocked hst ?_ ?_
  · intro p f hp _ hlisted
    exact absurd hlisted (hok.1 p hp)
  · intro p r hp hr
    exact hok.2 p hp r hr

/-- A successful `allocate` returns the record of a new block exactly if it does not take a
record from a free list that differs from what its constructor made. Along runs that
release no such record, and assign to none on a list, it always does. -/
theorem allocate_returns_fresh (hb : b.faultTolerant = false) {i : Int} {size addr : Nat}
    {reuse fresh : Option Nat} {s : Server}
    (hres : (st.server i).allocate size reuse fresh = (s, .ok (some addr))) :
    (Reaches (step b) anyAction (initial n) st →
      (s.Fresh i addr size ↔ (st.server i).ReusesMade i size reuse)) ∧
    (Reaches (step b) Spares (initial n) st → s.Fresh i addr size) := by
  have hiff : Reaches (step b) anyAction (initial n) st →
      (s.Fresh i addr size ↔ (st.server i).ReusesMade i size reuse) := fun h =>
    Server.allocate_fresh_iff (reaches_sized hb h i) hres
  refine ⟨hiff, fun h => ?_⟩
  have hany : Reaches (step b) anyAction (initial n) st := h.mono fun _ _ _ => trivial
  refine (hiff hany).mpr fun _ p hp r hr => ?_
  obtain ⟨list, hlist, hhead⟩ := Option.bind_eq_some_iff.mp hp
  obtain ⟨r', hr', hmade⟩ := (reaches_made hb h i).record size list hlist p
    (List.mem_of_head? hhead)
  have heq : r = r' := Option.some.inj ((Option.mem_def.mp hr).symm.trans hr')
  rw [heq]
  exact hmade

/-- A block that was never migrated goes back and is given out again, while another one
is prepared for server 1. -/
theorem allocate_returns_fresh_unmoved :
    ∃ st, Reaches (step ⟨false, true⟩) Spares (initial 2) st ∧
      pooled (st.server 0).freeMap = [0] ∧
      ((st.server 0).allocate 4096 (some (2 ^ 44)) none).2 = .ok (some (2 ^ 44)) ∧
      ((st.server 0).allocate 4096 (some (2 ^ 44)) none).1.Fresh 0 (2 ^ 44) 4096 := by
  have hrun : (checkedRun (step ⟨false, true⟩) Spares (initial 2)
      [.call (.allocate 0 4096 none (some (2 ^ 44))),
        .call (.allocate 0 8192 none (some (2 ^ 44 + 4096))),
        .call (.prepare 0 (2 ^ 44 + 4096) 8192 1), .call (.deallocate 0 (2 ^ 44))]).map
      (fun st => (pooled (st.server 0).freeMap,
        ((st.server 0).allocate 4096 (some (2 ^ 44)) none).2.toOption)) =
        some ([0], some (some (2 ^ 44))) := by
    decide +kernel
  obtain ⟨st, hreach, hshape⟩ := reaches_of_map_checkedRun hrun
  simp only [Prod.mk.injEq] at hshape
  obtain ⟨hpool, hret⟩ := hshape
  have hok := toOption_eq_some hret
  exact ⟨st, hreach, hpool, hok,
    (@allocate_returns_fresh ⟨false, true⟩ 2 st rfl 0 4096 _ _ _ _ (Prod.ext rfl hok)).2 hreach⟩

/-- Server 0 migrates a block to server 1, waits for the `CLOSE`, gives the block back and
allocates again: the record is still that of a segment given to server 1. -/
theorem allocate_returns_migrated :
    ∃ st, Reaches (System.step ⟨false, false⟩) Keeps (initial 2) st ∧
      let res := (st.server 0).allocate 4096 (some (2 ^ 44)) none
      (st.server 0).MapsAt 4096 (2 ^ 44) ∧ res.2 = .ok (some (2 ^ 44)) ∧
      ∃ r, ((res.1.memoryMap.lookup (2 ^ 44)).bind fun p => res.1.heap[p]?) = some r ∧
        r.state = .shared ∧ r.owner = 1 ∧ r.pair = 1 := by
  have hrun : (checkedRun (System.step ⟨false, false⟩) Keeps (initial 2)
      [.allocate 0 4096 none (some (2 ^ 44)), .prepare 0 (2 ^ 44) 4096 1, .deliver 0 1,
        .poll 1 0 (some (2 ^ 44)), .deliver 1 0, .poll 0 1 none, .pollForAccept 0,
        .transfer 0 (2 ^ 44) 4096 1, .deliver 0 1, .poll 1 0 none, .pollForTransfer 1,
        .close 1 (2 ^ 44) 4096 0, .deliver 1 0, .poll 0 1 none, .pollForClose 0,
        .deallocate 0 (2 ^ 44)]).map
      (fun st =>
        let res := (st.server 0).allocate 4096 (some (2 ^ 44)) none
        (decide ((st.server 0).MapsAt 4096 (2 ^ 44)), res.2.toOption,
          ((res.1.memoryMap.lookup (2 ^ 44)).bind fun p => res.1.heap[p]?).map fun r =>
            (r.state, r.owner, r.pair))) =
        some (true, some (some (2 ^ 44)), some (.shared, 1, 1)) := by
    decide +kernel
  obtain ⟨st, hreach, hshape⟩ := reaches_of_map_checkedRun hrun
  simp only [Prod.mk.injEq] at hshape
  obtain ⟨hmaps, hret, hrecord⟩ := hshape
  obtain ⟨r, hr, hfields⟩ := Option.map_eq_some_iff.mp hrecord
  simp only [Prod.mk.injEq] at hfields
  exact ⟨st, hreach, of_decide_eq_true hmaps, toOption_eq_some hret, r, hr, hfields⟩

end Runs

end RdmaMigration.Migration.Recycling
