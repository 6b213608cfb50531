import RdmaMigration.Manager.Protocol

/-! # Acceptances at a manager

What the sending side of a migration looks at between `Prepare` and `Transfer`:
the table, where each record lies and which server it is paired with, and the
queue of acceptances, in either build.
-/

namespace RdmaMigration.Manager

open Lib Network

structure Slip where
  vaddr : Nat
  size : Nat
  pair : Int
  deriving DecidableEq, Repr

def RDMAMemory.slip (r : RDMAMemory) : Slip := ⟨r.vaddr, r.size, r.pair⟩

structure Desk where
  table : AList fun _ : Nat => Nat
  slips : List Slip
  accepts : List Nat

def Desk.place (d : Desk) (p : Nat) : Option Nat := (d.slips[p]?).map Slip.vaddr

def Desk.setPair (d : Desk) (p : Nat) (id : Int) : Desk :=
  { d with slips := d.slips.modify p fun slip => { slip with pair := id } }

@[simp] theorem Desk.place_setPair (d : Desk) (p : Nat) (id : Int) :
    (d.setPair p id).place = d.place := by
  have hkeep : ∀ slip : Slip, Slip.vaddr { slip with pair := id } = slip.vaddr := fun _ => rfl
  have hvaddrs : (d.setPair p id).slips.map Slip.vaddr = d.slips.map Slip.vaddr :=
    map_modify_eq hkeep d.slips p
  funext q
  simp only [Desk.place, ← List.getElem?_map, hvaddrs]

namespace Server

variable {b : Build} {s s' : Server} {addr size : Nat} {peer : Int} {m : RdmaMessage}

def desk (b : Build) (s : Server) : Desk :=
  ⟨s.table b, s.heap.map RDMAMemory.slip, s.incomingAccepts⟩

theorem desk_modify {f : RDMAMemory → RDMAMemory} {g : Slip → Slip}
    (hfg : ∀ r, (f r).slip = g r.slip) (p : Nat) :
    (s.modify p f).desk b = { s.desk b with slips := (s.desk b).slips.modify p g } := by
  simp [desk, modify, table, map_modify hfg]

theorem desk_updatePair {p : Nat} (hp : (s.table b).lookup addr = some p) (id : Int) :
    (s.updatePair b addr id).desk b = (s.desk b).setPair p id := by
  simp only [updatePair, updateRecord, hp]
  exact desk_modify (f := fun r => { r with pair := id })
    (g := fun slip => { slip with pair := id }) (fun _ => rfl) p

theorem desk_place {p : Nat} {memory : RDMAMemory} (h : s.heap[p]? = some memory) :
    (s.desk b).place p = some memory.vaddr := by
  simp [Desk.place, desk, h, RDMAMemory.slip]

theorem desk_slip {p : Nat} {memory : RDMAMemory} (h : s.heap[p]? = some memory) :
    (s.desk b).slips[p]? = some memory.slip := by
  simp [desk, h]

theorem prepare_desk {clientId : RDMAMemory → List Char}
    (h : s.prepare b addr size peer clientId = .ok (s', m)) :
    ∃ p, (s.desk b).table.lookup addr = some p ∧ s'.desk b = (s.desk b).setPair p peer ∧
      m.messageType = .prepare ∧ m.regionInfo.addr = addr ∧ m.regionInfo.length = size := by
  obtain ⟨p, memory, key, hp, -, rfl, rfl⟩ := prepare_cases h
  exact ⟨p, hp, desk_updatePair hp peer, rfl, rfl, rfl⟩

theorem transfer_desk (h : s.transfer b addr size peer = .ok (s', m)) :
    s'.desk b = s.desk b ∧ m.messageType = .transfer ∧ m.regionInfo.addr = addr := by
  obtain ⟨p, mr, -, -, rfl, rfl⟩ := transfer_cases h
  refine ⟨?_, rfl, rfl⟩
  rw [desk_modify (f := fun r => { r with owner := peer, state := .shared }) (g := id)
    fun _ => rfl, List.modify_id]

theorem onAccept_desk (h : s.onAccept b addr = .ok s') :
    ∃ p, (s.desk b).table.lookup addr = some p ∧
      s'.desk b = { s.desk b with accepts := (s.desk b).accepts ++ [p] } := by
  obtain ⟨p, hp, rfl⟩ := onAccept_cases h
  exact ⟨p, hp, rfl⟩

end Server

end RdmaMigration.Manager
