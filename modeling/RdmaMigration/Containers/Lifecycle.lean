import Mathlib.Data.Fintype.Basic
import RdmaMigration.Containers.Base
import RdmaMigration.FaultTolerant.Manager
import RdmaMigration.Lib.Run

/-! # The lives of containers

Any number of containers on any number of servers, in either build, from their
constructors to their destructors. A container has a segment from `instantiate` or
`PollForTransfer`; `PollForClose` and the destructor give it back. The memory pool
lies inside the segment, so that its fields cannot be read any more once the segment
has been given back.

What the managers do is up to them: which address `allocate` returns, whether
`deallocate` returns, which segments the poller maps for the migrations that arrive,
and which records it puts into the three queues.
-/

namespace RdmaMigration.Containers.Lifecycle

open Lib Function Manager Coordinator

/-! ## Managers as their containers see them -/

/-- What containers use of a record. It does not change during the life of a record;
without fault tolerance there is no application id. -/
structure Segment where
  vaddr : Nat
  applicationId : Int
  deriving DecidableEq, Repr

inductive Key where
  | address (addr : Nat)
  | applicationId (id : Int)
  deriving DecidableEq, Repr

def Segment.key (faultTolerant : Bool) (m : Segment) : Key :=
  if faultTolerant then .applicationId m.applicationId else .address m.vaddr

/-- `mapped` are the segments that have been allocated and not deallocated. -/
structure Shelf where
  mapped : List Segment
  accepts : List Segment
  transfers : List Segment
  dones : List Segment
  deriving DecidableEq, Repr

inductive Queue where
  | accepts
  | transfers
  | dones
  deriving DecidableEq, Repr

def Shelf.enqueue (s : Shelf) (m : Segment) : Queue → Shelf
  | .accepts => { s with accepts := s.accepts ++ [m] }
  | .transfers => { s with transfers := s.transfers ++ [m] }
  | .dones => { s with dones := s.dones ++ [m] }

/-! ## The machine -/

/-- The fields of `RDMAContainerBase`. `mempool` is the address of the segment that
the pool is in, which is also what its field `addr` holds. -/
structure Container where
  manager : Int
  id : Int
  rdmaMemory : Option Segment
  mempool : Option Nat
  destroyed : Bool
  deriving DecidableEq, Repr

def Container.construct (manager id : Int) : Container := ⟨manager, id, none, none, false⟩

/-- `read` is the access to a field of the memory pool; `live` says whether its segment
is still mapped. -/
inductive Event (κ : Type) where
  | obtained (k : κ) (m : Segment)
  | deallocated (k : κ) (key : Key)
  | read (k : κ) (live : Bool)
  deriving DecidableEq, Repr

/-- `crashed` are the servers whose process a null pointer or an exception out of a
destructor has ended. The log has the latest event first. -/
structure State (κ : Type) where
  shelf : Int → Shelf
  container : κ → Container
  crashed : Int → Bool
  log : List (Event κ)

/-- `returns` says of the manager's `deallocate` whether it returns. With fault tolerance
it throws when the record of the segment cannot be read; without, it has no record for the
address. `remoteInstantiate` with the record it is given, or without one. -/
inductive Op where
  | instantiate (memory : Nat)
  | prepare (destination : Int)
  | pollForAccept
  | transfer
  | pollForClose (returns : Bool)
  | pollForTransfer
  | remoteInstantiate (rdmaMemory : Option Segment)
  | close
  | destroy (returns : Bool)
  deriving DecidableEq, Repr

inductive Action (κ : Type) where
  | call (k : κ) (op : Op)
  | accept (i : Int) (m : Segment)
  | enqueue (i : Int) (queue : Queue) (m : Segment)
  deriving DecidableEq, Repr

variable {κ : Type} [DecidableEq κ]

namespace State

def setContainer (st : State κ) (k : κ) (c : Container) : State κ :=
  { st with container := update st.container k c }

def setShelf (st : State κ) (i : Int) (s : Shelf) : State κ :=
  { st with shelf := update st.shelf i s }

def note (st : State κ) (e : Event κ) : State κ := { st with log := e :: st.log }

def crash (st : State κ) (k : κ) : State κ :=
  { st with crashed := update st.crashed (st.container k).manager true }

@[simp] theorem setContainer_self (st : State κ) (k : κ) (c : Container) :
    (st.setContainer k c).container k = c := update_self ..

theorem setContainer_of_ne (st : State κ) {j k : κ} (h : j ≠ k) (c : Container) :
    (st.setContainer k c).container j = st.container j := update_of_ne h ..

theorem setContainer_same {α : Type} (st : State κ) (k : κ) (f : Container → α) {c : Container}
    (h : f c = f (st.container k)) (j : κ) :
    f ((st.setContainer k c).container j) = f (st.container j) := by
  by_cases hj : j = k
  · rw [hj, setContainer_self, h]
  · rw [setContainer_of_ne _ hj]

omit [DecidableEq κ] in
@[simp] theorem setShelf_self (st : State κ) (i : Int) (s : Shelf) :
    (st.setShelf i s).shelf i = s := update_self ..

omit [DecidableEq κ] in
theorem setShelf_of_ne (st : State κ) {i j : Int} (h : j ≠ i) (s : Shelf) :
    (st.setShelf i s).shelf j = st.shelf j := update_of_ne h ..

def home (st : State κ) (k : κ) : Shelf := st.shelf (st.container k).manager

/-- `mempool->addr`; `none` is the null pointer. Memory that has been given back is
taken to hold what it held. -/
def readAddr (st : State κ) (k : κ) : Option (Nat × State κ) :=
  (st.container k).mempool.map fun addr =>
    (addr, st.note (.read k (decide (addr ∈ (st.home k).mapped.map Segment.vaddr))))

/-- A `deallocate` that does not return leaves the segment where it is. -/
def deallocate (faultTolerant : Bool) (st : State κ) (k : κ) (key : Key) (returns : Bool) :
    State κ :=
  (st.setShelf (st.container k).manager { st.home k with
    mapped := (st.home k).mapped.filter fun m =>
      m.key faultTolerant ≠ key ∨ returns = false }).note (.deallocated k key)

end State

/-- One operation of a container. The exception of `deallocate` leaves `PollForClose`, and
ends the process when it leaves the destructor. -/
def call (faultTolerant : Bool) (st : State κ) (k : κ) : Op → State κ
  | .instantiate memory =>
      let c := st.container k
      let m : Segment := ⟨memory, if faultTolerant then c.id else 0⟩
      if memory = 0 then st.crash k
      else ((st.setShelf c.manager { st.home k with
        mapped := m :: (st.home k).mapped }).setContainer k
          { c with mempool := some memory }).note (.obtained k m)
  | .prepare _ =>
      match st.readAddr k with
      | none => st.crash k
      | some (_, st') => st'
  | .pollForAccept =>
      let c := st.container k
      match (st.home k).accepts with
      | [] => st.setContainer k { c with rdmaMemory := none }
      | m :: rest =>
          match st.readAddr k with
          | none => st.crash k
          | some (addr, st') =>
              let st' := st'.setContainer k { c with rdmaMemory := some m }
              if m.vaddr = addr then st'.setShelf c.manager { st.home k with accepts := rest }
              else st'
  | .transfer | .close => if (st.container k).rdmaMemory = none then st.crash k else st
  | .pollForTransfer =>
      let c := st.container k
      match (st.home k).transfers with
      | [] => st
      | m :: rest =>
          ((st.setShelf c.manager { st.home k with transfers := rest }).setContainer k
            { c with rdmaMemory := some m }).note (.obtained k m)
  | .pollForClose returns =>
      let c := st.container k
      match (st.home k).dones with
      | [] => st
      | m :: rest =>
          match st.readAddr k with
          | none => st.crash k
          | some (addr, st') =>
              if m.vaddr = addr then
                let st' := (st'.setShelf c.manager { st.home k with dones := rest }).setContainer k
                  { c with rdmaMemory := some m }
                let st' := st'.deallocate faultTolerant k (m.key faultTolerant) returns
                if faultTolerant || returns then st' else st'.crash k
              else st'
  | .remoteInstantiate rdmaMemory =>
      let c := st.container k
      match rdmaMemory <|> c.rdmaMemory with
      | none => st.crash k
      | some m =>
          let st' := st.setContainer k { c with rdmaMemory := some m, mempool := some m.vaddr }
          match st'.readAddr k with
          | none => st'.crash k
          | some (_, st') => st'
  | .destroy returns =>
      let c := st.container k
      match st.readAddr k with
      | none => st.crash k
      | some (addr, st') =>
          let st' := st'.setContainer k { c with destroyed := true }
          if addr = 0 then st'
          else
            let st' := st'.deallocate faultTolerant k
              (if faultTolerant then .applicationId c.id else .address addr) returns
            if returns then st' else st'.crash k

/-- A container that has been destroyed is not there any more, a process that has crashed
does nothing, and nothing is mapped at the null pointer. -/
def step (faultTolerant : Bool) (st : State κ) : Action κ → Option (State κ)
  | .call k op =>
      if (st.container k).destroyed || st.crashed (st.container k).manager then none
      else some (call faultTolerant st k op)
  | .accept i m =>
      if m.vaddr = 0 ∨ st.crashed i = true then none
      else some (st.setShelf i { st.shelf i with mapped := m :: (st.shelf i).mapped })
  | .enqueue i queue m =>
      if st.crashed i then none else some (st.setShelf i ((st.shelf i).enqueue m queue))

def initial (manager id : κ → Int) : State κ :=
  ⟨fun _ => ⟨[], [], [], []⟩, fun k => .construct (manager k) (id k), fun _ => false, []⟩

/-! ## What the law is about -/

def obtained (k : κ) (log : List (Event κ)) : List Segment :=
  log.filterMap fun
    | .obtained j m => if j = k then some m else none
    | _ => none

def deallocated (k : κ) (log : List (Event κ)) : List Key :=
  log.filterMap fun
    | .deallocated j key => if j = k then some key else none
    | _ => none

def Unheld (faultTolerant : Bool) (st : State κ) (k : κ) (m : Segment) : Prop :=
  ∀ j, j ≠ k → (st.container j).manager = (st.container k).manager →
    deallocated j st.log = [] → ∀ m' ∈ obtained j st.log, m'.key faultTolerant ≠ m.key faultTolerant

/-- A container obtains one segment in its life, one that is mapped and that no other
container has. It attaches its pool to that segment before it reads from the pool, and
uses the pool until it has given the segment back: to `PollForClose`, for its own record,
or to the destructor. It transfers and closes a record it has. With fault tolerance the
container to be destroyed has the id of its segment, and `deallocate` returns to its
destructor. -/
def Tended (faultTolerant : Bool) (st : State κ) : Action κ → Prop
  | .call k (.instantiate memory) => memory ≠ 0 ∧ obtained k st.log = [] ∧
      Unheld faultTolerant st k ⟨memory, if faultTolerant then (st.container k).id else 0⟩
  | .call k .pollForTransfer => ∀ m ∈ (st.home k).transfers.head?,
      obtained k st.log = [] ∧ m ∈ (st.home k).mapped ∧ Unheld faultTolerant st k m
  | .call k (.remoteInstantiate rdmaMemory) => deallocated k st.log = [] ∧
      (rdmaMemory <|> (st.container k).rdmaMemory) ≠ none ∧
      ∀ m ∈ rdmaMemory <|> (st.container k).rdmaMemory, obtained k st.log = [m]
  | .call k (.prepare _) => deallocated k st.log = [] ∧ (st.container k).mempool ≠ none
  | .call k .pollForAccept => deallocated k st.log = [] ∧
      ((st.home k).accepts ≠ [] → (st.container k).mempool ≠ none)
  | .call k (.pollForClose returns) => deallocated k st.log = [] ∧
      ((st.home k).dones ≠ [] → (st.container k).mempool ≠ none) ∧
      (∀ m ∈ (st.home k).dones.head?, (st.container k).mempool = some m.vaddr →
        obtained k st.log = [m]) ∧ (faultTolerant || returns) = true
  | .call k (.destroy returns) => deallocated k st.log = [] ∧ (st.container k).mempool ≠ none ∧
      (faultTolerant = true → ∀ m ∈ obtained k st.log,
        (st.container k).id = m.applicationId) ∧ returns = true
  | .call k .transfer | .call k .close => (st.container k).rdmaMemory ≠ none
  | .accept _ _ | .enqueue _ _ _ => True

instance [Fintype κ] (faultTolerant : Bool) (st : State κ) (k : κ) (m : Segment) :
    Decidable (Unheld faultTolerant st k m) := by
  unfold Unheld
  infer_instance

instance [Fintype κ] (faultTolerant : Bool) (st : State κ) :
    DecidablePred (Tended faultTolerant st) := by
  intro act
  unfold Tended
  split <;> infer_instance

/-! ## Reading the log -/

section Log

variable {k j : κ} {m : Segment} {key : Key} {live : Bool} {log : List (Event κ)}

@[simp] theorem obtained_obtained :
    obtained k (.obtained j m :: log) = if j = k then m :: obtained k log else obtained k log := by
  unfold obtained
  rw [List.filterMap_cons]
  split <;> simp_all

@[simp] theorem obtained_deallocated :
    obtained k (.deallocated j key :: log) = obtained k log := rfl

@[simp] theorem obtained_read : obtained k (.read j live :: log) = obtained k log := rfl

@[simp] theorem deallocated_obtained :
    deallocated k (.obtained j m :: log) = deallocated k log := rfl

@[simp] theorem deallocated_deallocated :
    deallocated k (.deallocated j key :: log) =
      if j = k then key :: deallocated k log else deallocated k log := by
  unfold deallocated
  rw [List.filterMap_cons]
  split <;> simp_all

@[simp] theorem deallocated_read : deallocated k (.read j live :: log) = deallocated k log := rfl

end Log

/-! ## The managers behind the containers

The operations of a container on a whole server are the machine's, and what they pass to
the manager's `deallocate` is what the machine notes. -/

def Segment.ofRecord (r : RDMAMemory) : Segment := ⟨r.vaddr, r.applicationId⟩

def recordAt (s : Server) (p : Nat) : Option Segment := (s.heap[p]?).map .ofRecord

structure Shelf.Shows (shelf : Shelf) (s : Server) : Prop where
  accepts : shelf.accepts.map some = s.incomingAccepts.map (recordAt s)
  transfers : shelf.transfers.map some = s.incomingTransfers.map (recordAt s)
  dones : shelf.dones.map some = s.incomingDones.map (recordAt s)

structure Shows (st : State κ) (k : κ) (s : Server) (rdmaMemory : Option Nat) : Prop where
  shelf : (st.home k).Shows s
  rdmaMemory : (st.container k).rdmaMemory.map some = rdmaMemory.map (recordAt s)

section Managers

variable {st : State κ} {k : κ} {s s' : Server} {c c' : ContainerBase} {result : Bool}

variable {ms : List Segment} {size addr : Nat} {z z' : Session} {ft : Bool}
  {rdmaMemory : Option Nat}

theorem head_shown {p : Nat} {rest : List Nat} (h : ms.map some = (p :: rest).map (recordAt s)) :
    ∃ record ms', s.heap[p]? = some record ∧ ms = .ofRecord record :: ms' ∧
      ms'.map some = rest.map (recordAt s) := by
  cases ms with
  | nil => cases h
  | cons m ms' =>
      obtain ⟨hm, hrest⟩ := List.cons.inj h
      obtain ⟨record, hrecord, rfl⟩ := Option.map_eq_some_iff.mp hm.symm
      exact ⟨record, ms', hrecord, rfl, hrest⟩

theorem empty_shown (h : ms.map some = [].map (recordAt s)) : ms = [] :=
  List.map_eq_nil_iff.mp h

/-! ### Records and queues that a call of the manager leaves alone -/

structure Undisturbed (s s' : Server) : Prop where
  heap : ∀ (p : Nat) r, s.heap[p]? = some r → s'.heap[p]? = some r
  accepts : s'.incomingAccepts = s.incomingAccepts
  transfers : s'.incomingTransfers = s.incomingTransfers
  dones : s'.incomingDones = s.incomingDones

theorem Undisturbed.recordAt (h : Undisturbed s s') {p : Nat} {m : Segment}
    (hm : recordAt s p = some m) : recordAt s' p = some m := by
  obtain ⟨r, hr, rfl⟩ := Option.map_eq_some_iff.mp hm
  exact Option.map_eq_some_iff.mpr ⟨r, h.heap p r hr, rfl⟩

theorem Undisturbed.queue (h : Undisturbed s s') {ms : List Segment} {ps : List Nat}
    (hms : ms.map some = ps.map (Lifecycle.recordAt s)) :
    ms.map some = ps.map (Lifecycle.recordAt s') := by
  rw [hms]
  refine List.map_congr_left fun p hp => ?_
  obtain ⟨m, -, hm⟩ := List.mem_map.mp (hms ▸ List.mem_map_of_mem hp :
    Lifecycle.recordAt s p ∈ ms.map some)
  rw [← hm, h.recordAt hm.symm]

theorem Undisturbed.shelf (h : Undisturbed s s') {shelf : Shelf} (hs : shelf.Shows s) :
    shelf.Shows s' :=
  ⟨by rw [h.accepts]; exact h.queue hs.accepts, by rw [h.transfers]; exact h.queue hs.transfers,
    by rw [h.dones]; exact h.queue hs.dones⟩

theorem Undisturbed.pointer (h : Undisturbed s s') {x : Option Segment} {y : Option Nat}
    (hx : x.map some = y.map (Lifecycle.recordAt s)) :
    x.map some = y.map (Lifecycle.recordAt s') := by
  cases y with
  | none => exact hx
  | some p =>
      obtain ⟨m, rfl, hm⟩ := Option.map_eq_some_iff.mp hx
      exact congrArg some (h.recordAt hm.symm).symm

theorem allocate_undisturbed {reuse fresh : Option Nat} {answer : Except Fault (Option Nat)}
    (h : s.allocate size reuse fresh = (s', answer)) :
    Undisturbed s s' := by
  have hsame : Undisturbed s s := ⟨fun _ _ h => h, rfl, rfl, rfl⟩
  rcases Server.allocate_cases h with hshared | ⟨rfl, -⟩ | ⟨p, rest, res, memory, -, -, -, -, rfl⟩
  · rcases Server.allocateShared_cases hshared with ⟨rfl, -⟩ | ⟨res, -, -, ⟨rfl, -⟩ |
      ⟨r, -, rfl, -⟩⟩
    · exact hsame
    · exact ⟨fun _ _ h => h, rfl, rfl, rfl⟩
    · exact ⟨fun _ _ h => getElem?_append_of_some h, rfl, rfl, rfl⟩
  · exact hsame
  · exact ⟨fun _ _ h => h, rfl, rfl, rfl⟩

theorem deallocate_undisturbed (h : s.deallocate addr = .ok s') :
    Undisturbed s s' := by
  obtain ⟨p, memory, -, -, rfl⟩ := Server.deallocate_cases h
  exact ⟨fun _ _ h => h, rfl, rfl, rfl⟩

theorem deallocate_undisturbed_faultTolerant {id : Int} {removed : Bool}
    (h : FaultTolerant.deallocate s id z = .ok ((s', removed), z')) : Undisturbed s s' := by
  obtain ⟨-, rfl | ⟨addr, size, -, -, rfl⟩⟩ := FaultTolerant.deallocate_cases h
  · exact ⟨fun _ _ h => h, rfl, rfl, rfl⟩
  · exact ⟨fun _ _ h => h, rfl, rfl, rfl⟩

theorem allocate_undisturbed_faultTolerant {paging : Bool} {id : Int} {mapped answer : Option Nat}
    (h : FaultTolerant.allocate paging s size id mapped z = .ok ((s', answer), z')) :
    Undisturbed s s' := by
  rcases FaultTolerant.allocate_cases h with
    ⟨-, rfl, -⟩ | ⟨res, -, ⟨rfl, -⟩ | ⟨r, -, rfl, -⟩⟩
  · exact ⟨fun _ _ h => h, rfl, rfl, rfl⟩
  · exact ⟨fun _ _ h => h, rfl, rfl, rfl⟩
  · exact ⟨fun _ _ h => getElem?_append_of_some h, rfl, rfl, rfl⟩

/-! ### The machine's state after a call -/

omit [DecidableEq κ] in
theorem readAddr_eq (hpool : (st.container k).mempool = some addr) :
    ∃ live, st.readAddr k = some (addr, st.note (.read k live)) := by
  rw [State.readAddr, hpool]
  exact ⟨_, rfl⟩

theorem home_setContainer (st : State κ) {k : κ} {d : Container}
    (h : d.manager = (st.container k).manager) : (st.setContainer k d).home k = st.home k := by
  rw [State.home, State.setContainer_self, h]
  rfl

omit [DecidableEq κ] in
theorem home_setShelf (st : State κ) {i : Int} {k : κ} (shelf : Shelf)
    (h : (st.container k).manager = i) : (st.setShelf i shelf).home k = shelf := by
  subst h
  exact st.setShelf_self ..

omit [DecidableEq κ] in
@[simp] theorem home_note (st : State κ) (k : κ) (e : Event κ) : (st.note e).home k = st.home k :=
  rfl

omit [DecidableEq κ] in
theorem home_deallocate (st : State κ) (ft : Bool) (k : κ) (key : Key) (returns : Bool) :
    (st.deallocate ft k key returns).home k = { st.home k with
      mapped := (st.home k).mapped.filter fun m => m.key ft ≠ key ∨ returns = false } := by
  rw [State.deallocate, home_note, home_setShelf]
  rfl

/-! ### The calls -/

theorem instantiate_shown (hs : Shows st k s rdmaMemory)
    (hkept : Undisturbed s s') {memory : Nat} (hmemory : memory ≠ 0) :
    Shows (call ft st k (.instantiate memory)) k s' rdmaMemory ∧
      ((call ft st k (.instantiate memory)).container k).mempool = some memory := by
  simp only [call, if_neg hmemory]
  refine ⟨⟨?_, ?_⟩, ?_⟩
  · rw [home_note, home_setContainer, home_setShelf]
    · exact hkept.shelf ⟨hs.shelf.accepts, hs.shelf.transfers, hs.shelf.dones⟩
    · rfl
    · rfl
  · rw [State.note, State.setContainer_self]
    exact hkept.pointer hs.rdmaMemory
  · rw [State.note, State.setContainer_self]

theorem instantiate_shown_plain {reuse fresh : Option Nat} (hs : Shows st k s rdmaMemory)
    (h : ContainerBase.instantiate rdmaMemory s size reuse fresh = .ok (c', s'))
    (hnull : c'.addr ≠ 0) :
    Shows (call false st k (.instantiate c'.addr)) k s' c'.rdmaMemory ∧
      ((call false st k (.instantiate c'.addr)).container k).mempool = some c'.addr := by
  unfold ContainerBase.instantiate at h
  cases hallocate : s.allocate size reuse fresh with
  | mk t answer =>
      simp only [hallocate] at h
      obtain ⟨mem, -, h⟩ := bind_eq_ok.mp h
      obtain ⟨memory, -, hret⟩ := bind_eq_ok.mp h
      cases hret
      exact instantiate_shown hs (allocate_undisturbed hallocate) hnull

theorem pollForTransfer_shown (hs : Shows st k s c.rdmaMemory)
    (h : c.pollForTransfer s = (c', s', result)) :
    Shows (call false st k .pollForTransfer) k s' c'.rdmaMemory := by
  obtain ⟨⟨haccepts, htransfers, hdones⟩, hrecord⟩ := hs
  unfold ContainerBase.pollForTransfer Server.pollForTransfer at h
  cases hqueue : s.incomingTransfers with
  | nil =>
      rw [hqueue] at h htransfers
      cases h
      simp only [call, empty_shown htransfers]
      refine ⟨⟨haccepts, ?_, hdones⟩, hrecord⟩
      rw [hqueue, htransfers]
  | cons p rest =>
      rw [hqueue] at h htransfers
      cases h
      obtain ⟨record, ms, hp, hms, hrest⟩ := head_shown htransfers
      simp only [call, hms]
      refine ⟨?_, ?_⟩
      · rw [home_note, home_setContainer, home_setShelf]
        · exact ⟨haccepts, hrest, hdones⟩
        · rfl
        · rfl
      · rw [State.note, State.setContainer_self]
        simp [recordAt, hp]

theorem pollForAccept_shown (hs : Shows st k s c.rdmaMemory)
    (hpool : (st.container k).mempool = some c.addr)
    (h : c.pollForAccept s = .ok (c', s', result)) :
    Shows (call false st k .pollForAccept) k s' c'.rdmaMemory := by
  obtain ⟨⟨haccepts, htransfers, hdones⟩, hrecord⟩ := hs
  obtain ⟨live, hread⟩ := readAddr_eq hpool
  unfold ContainerBase.pollForAccept Server.peekAccept Server.pollForAccept at h
  cases hqueue : s.incomingAccepts with
  | nil =>
      rw [hqueue] at h haccepts
      cases h
      simp only [call, empty_shown haccepts]
      refine ⟨?_, ?_⟩
      · rw [home_setContainer]
        · exact ⟨by rw [hqueue, haccepts], htransfers, hdones⟩
        · rfl
      · rw [State.setContainer_self]
        rfl
  | cons p rest =>
      rw [hqueue] at h haccepts
      obtain ⟨record, ms, hp, hms, hrest⟩ := head_shown haccepts
      simp only [List.head?_cons, hp, deref, bind, Except.bind] at h
      simp only [call, hms, hread, Segment.ofRecord]
      by_cases hown : record.vaddr = c.addr
      · rw [if_pos hown] at h ⊢
        cases h
        refine ⟨?_, ?_⟩
        · rw [home_setShelf]
          · exact ⟨hrest, htransfers, hdones⟩
          · rw [State.setContainer_self]
        · show (State.container (State.setContainer _ _ _) k).rdmaMemory.map some = _
          rw [State.setContainer_self]
          simp [recordAt, hp, Segment.ofRecord]
      · rw [if_neg hown] at h ⊢
        cases h
        refine ⟨?_, ?_⟩
        · rw [home_setContainer]
          · exact ⟨by rw [hqueue, home_note, haccepts], htransfers, hdones⟩
          · rfl
        · rw [State.setContainer_self]
          simp [recordAt, hp, Segment.ofRecord]

theorem close_shown {record : RDMAMemory} {p : Nat} {rest : List Nat} {live : Bool}
    (hs : (st.home k).Shows s) (hp : s.heap[p]? = some record)
    (hrest : ms.map some = rest.map (recordAt s))
    (hkept : Undisturbed { s with incomingDones := rest } s') :
    let st' := (((st.note (.read k live)).setShelf (st.container k).manager
      { st.home k with dones := ms }).setContainer k { st.container k with
        rdmaMemory := some (.ofRecord record) }).deallocate ft k
          ((Segment.ofRecord record).key ft) true
    Shows st' k s' (some p) ∧
      deallocated k st'.log = (Segment.ofRecord record).key ft :: deallocated k st.log := by
  refine ⟨⟨?_, ?_⟩, ?_⟩
  · rw [home_deallocate, home_setContainer, home_setShelf]
    · exact hkept.shelf ⟨hs.accepts, hs.transfers, hrest⟩
    · rfl
    · rfl
  · show (State.container (State.setContainer _ _ _) k).rdmaMemory.map some = _
    rw [State.setContainer_self]
    exact congrArg some (hkept.recordAt (by simp [recordAt, hp])).symm
  · simp [State.deallocate, State.note, State.setShelf, State.setContainer]

theorem pollForClose_shown (hs : Shows st k s c.rdmaMemory)
    (hpool : (st.container k).mempool = some c.addr) (h : c.pollForClose s = .ok (c', s', result)) :
    Shows (call false st k (.pollForClose true)) k s' c'.rdmaMemory ∧
      deallocated k (call false st k (.pollForClose true)).log =
        (if result then [.address c.addr] else []) ++ deallocated k st.log := by
  obtain ⟨⟨haccepts, htransfers, hdones⟩, hrecord⟩ := hs
  obtain ⟨live, hread⟩ := readAddr_eq hpool
  unfold ContainerBase.pollForClose Server.peekClose Server.pollForClose at h
  cases hqueue : s.incomingDones with
  | nil =>
      rw [hqueue] at h hdones
      cases h
      simp only [call, empty_shown hdones]
      exact ⟨⟨⟨haccepts, htransfers, by rw [hqueue, hdones]⟩, hrecord⟩, rfl⟩
  | cons p rest =>
      have hdones' := hdones
      rw [hqueue] at h hdones'
      obtain ⟨record, ms, hp, hms, hrest⟩ := head_shown hdones'
      simp only [List.head?_cons, hp, deref, bind, Except.bind] at h
      simp only [call, hms, hread, Segment.ofRecord]
      by_cases hown : record.vaddr = c.addr
      · rw [if_pos hown] at h ⊢
        obtain ⟨t, hdeallocate, heq⟩ := bind_eq_ok.mp h
        cases heq
        have hclosed := @close_shown _ _ st k s _ ms false record p rest live
          ⟨haccepts, htransfers, hdones⟩ hp hrest (deallocate_undisturbed hdeallocate)
        simpa [Segment.ofRecord, Segment.key, hown] using hclosed
      · rw [if_neg hown] at h ⊢
        cases h
        exact ⟨⟨⟨haccepts, htransfers, by rw [hqueue, home_note, ← hqueue, hdones]⟩, hrecord⟩, rfl⟩

theorem pollForClose_shown_faultTolerant {taken : Option (RDMAMemory × Bool)}
    (hs : Shows st k s rdmaMemory) (hpool : (st.container k).mempool = some addr)
    (h : FaultTolerant.pollForClose s addr z = .ok ((s', taken), z')) :
    ((call true st k (.pollForClose true)).home k).Shows s' ∧
      deallocated k (call true st k (.pollForClose true)).log =
        (taken.map fun r => .applicationId r.1.applicationId).toList ++ deallocated k st.log := by
  obtain ⟨⟨haccepts, htransfers, hdones⟩, -⟩ := hs
  obtain ⟨live, hread⟩ := readAddr_eq hpool
  cases hqueue : s.incomingDones with
  | nil =>
      simp only [FaultTolerant.pollForClose, hqueue] at h
      rw [hqueue] at hdones
      cases Zk.pure_eq_ok.mp h
      simp only [call, empty_shown hdones]
      exact ⟨⟨haccepts, htransfers, hqueue ▸ hdones⟩, rfl⟩
  | cons p rest =>
      have hdones' := hdones
      simp only [FaultTolerant.pollForClose, hqueue] at h
      rw [hqueue] at hdones'
      obtain ⟨record, ms, hp, hms, hrest⟩ := head_shown hdones'
      obtain ⟨memory, z₁, hmemory, h⟩ := Zk.bind_eq_ok.mp h
      obtain ⟨memory, hheap, heq⟩ := Zk.orThrow_eq_ok.mp hmemory
      cases heq
      cases hp.symm.trans hheap
      simp only [call, hms, hread, Segment.ofRecord]
      by_cases hown : record.vaddr = addr
      · rw [if_pos hown] at h ⊢
        obtain ⟨⟨t, removed⟩, z₂, hdeallocate, h⟩ := Zk.bind_eq_ok.mp h
        cases Zk.pure_eq_ok.mp h
        have hclosed := @close_shown _ _ st k s _ ms true record p rest live
          ⟨haccepts, htransfers, hdones⟩ hp hrest (deallocate_undisturbed_faultTolerant hdeallocate)
        exact ⟨hclosed.1.shelf, hclosed.2⟩
      · rw [if_neg hown] at h ⊢
        cases Zk.pure_eq_ok.mp h
        exact ⟨⟨haccepts, htransfers, by rw [home_note, hdones]⟩, rfl⟩

theorem destroy_shown (hs : Shows st k s rdmaMemory) (hpool : (st.container k).mempool = some addr)
    (hnull : addr ≠ 0) (hkept : Undisturbed s s') :
    ((call ft st k (.destroy true)).home k).Shows s' ∧
      deallocated k (call ft st k (.destroy true)).log =
        (if ft then .applicationId (st.container k).id else .address addr) ::
          deallocated k st.log := by
  obtain ⟨live, hread⟩ := readAddr_eq hpool
  simp only [call, hread, if_neg hnull, if_true]
  refine ⟨?_, ?_⟩
  · rw [home_deallocate, home_setContainer, home_note]
    · exact hkept.shelf ⟨hs.shelf.accepts, hs.shelf.transfers, hs.shelf.dones⟩
    · rfl
  · simp [State.deallocate, State.note, State.setShelf, State.setContainer]

theorem instantiate_shown_faultTolerant {paging : Bool} {mapped : Option Nat} {memory : Nat}
    (hs : Shows st k s rdmaMemory)
    (h : FaultTolerant.allocate paging s size (st.container k).id mapped z =
      .ok ((s', some memory), z')) (hnull : memory ≠ 0) :
    Shows (call true st k (.instantiate memory)) k s' rdmaMemory ∧
      ((call true st k (.instantiate memory)).container k).mempool = some memory :=
  instantiate_shown hs (allocate_undisturbed_faultTolerant h) hnull

theorem destroy_shown_plain (hs : Shows st k s c.rdmaMemory)
    (hpool : (st.container k).mempool = some c.addr) (hnull : c.addr ≠ 0)
    (h : c.destroy s = .ok s') :
    ((call false st k (.destroy true)).home k).Shows s' ∧
      deallocated k (call false st k (.destroy true)).log =
        .address c.addr :: deallocated k st.log := by
  rw [ContainerBase.destroy, if_neg hnull] at h
  exact destroy_shown hs hpool hnull (deallocate_undisturbed h)

theorem destroy_shown_faultTolerant {removed : Bool} (hs : Shows st k s rdmaMemory)
    (hpool : (st.container k).mempool = some addr) (hnull : addr ≠ 0)
    (h : FaultTolerant.deallocate s (st.container k).id z = .ok ((s', removed), z')) :
    ((call true st k (.destroy true)).home k).Shows s' ∧
      deallocated k (call true st k (.destroy true)).log =
        .applicationId (st.container k).id :: deallocated k st.log :=
  destroy_shown hs hpool hnull (deallocate_undisturbed_faultTolerant h)

end Managers

/-! ## The invariant -/

inductive Phase (faultTolerant : Bool) (st : State κ) (k : κ) : Prop where
  | empty (hobtained : obtained k st.log = []) (hdeallocated : deallocated k st.log = [])
      (hpool : (st.container k).mempool = none) (halive : (st.container k).destroyed = false)
  | holding (m : Segment) (hobtained : obtained k st.log = [m])
      (hdeallocated : deallocated k st.log = []) (hmapped : m ∈ (st.home k).mapped)
      (hpool : (st.container k).mempool = none ∨ (st.container k).mempool = some m.vaddr)
      (halive : (st.container k).destroyed = false)
  | released (m : Segment) (hobtained : obtained k st.log = [m])
      (hdeallocated : deallocated k st.log = [m.key faultTolerant])

structure Inv (faultTolerant : Bool) (st : State κ) : Prop where
  phase : ∀ k, Phase faultTolerant st k
  apart : ∀ j k, j ≠ k → (st.container j).manager = (st.container k).manager →
    deallocated j st.log = [] → deallocated k st.log = [] → ∀ m ∈ obtained j st.log,
      ∀ m' ∈ obtained k st.log, m.key faultTolerant ≠ m'.key faultTolerant
  nonzero : ∀ i, ∀ m ∈ (st.shelf i).mapped, m.vaddr ≠ 0
  live : ∀ k, .read k false ∉ st.log
  running : ∀ i, st.crashed i = false

section Step

variable {ft : Bool} {st st' : State κ} {k : κ} {m : Segment} {act : Action κ}

theorem Phase.holding_of (h : Phase ft st k) (hobtained : obtained k st.log = [m])
    (hdeallocated : deallocated k st.log = []) :
    m ∈ (st.home k).mapped ∧ (st.container k).destroyed = false := by
  cases h with
  | empty ho => rw [ho] at hobtained; cases hobtained
  | holding m' ho hd hmapped hpool halive =>
      rw [ho] at hobtained
      cases hobtained
      exact ⟨hmapped, halive⟩
  | released m' ho hd => rw [hd] at hdeallocated; cases hdeallocated

theorem Phase.attached (h : Phase ft st k) (hdeallocated : deallocated k st.log = []) {a : Nat}
    (hpool : (st.container k).mempool = some a) :
    ∃ m, obtained k st.log = [m] ∧ m.vaddr = a ∧ m ∈ (st.home k).mapped := by
  cases h with
  | empty ho hd hnone => rw [hnone] at hpool; cases hpool
  | holding m ho hd hmapped hpool' =>
      rcases hpool' with hnone | hsome
      · rw [hnone] at hpool
        cases hpool
      · rw [hsome] at hpool
        exact ⟨m, ho, Option.some.inj hpool, hmapped⟩
  | released m ho hd => rw [hd] at hdeallocated; cases hdeallocated

theorem Phase.carry (h : Phase ft st k) (hobtained : obtained k st'.log = obtained k st.log)
    (hdeallocated : deallocated k st'.log = deallocated k st.log)
    (hpool : (st'.container k).mempool = (st.container k).mempool)
    (halive : (st'.container k).destroyed = (st.container k).destroyed)
    (hmapped : ∀ m ∈ obtained k st.log, deallocated k st.log = [] →
      m ∈ (st.home k).mapped → m ∈ (st'.home k).mapped) : Phase ft st' k := by
  cases h with
  | empty ho hd hnone hthere =>
      exact .empty (hobtained.trans ho) (hdeallocated.trans hd) (hpool.trans hnone)
        (halive.trans hthere)
  | holding m ho hd hm hattached hthere =>
      refine .holding m (hobtained.trans ho) (hdeallocated.trans hd) ?_ ?_ (halive.trans hthere)
      · exact hmapped m (by simp [ho]) hd hm
      · rw [hpool]
        exact hattached
  | released m ho hd => exact .released m (hobtained.trans ho) (hdeallocated.trans hd)

theorem Inv.readAddr (hi : Inv ft st) (hdeallocated : deallocated k st.log = [])
    (hattached : (st.container k).mempool ≠ none) :
    ∃ m, st.readAddr k = some (m.vaddr, st.note (.read k true)) ∧
      (st.container k).mempool = some m.vaddr ∧ obtained k st.log = [m] := by
  obtain ⟨a, hpool⟩ := Option.ne_none_iff_exists'.mp hattached
  obtain ⟨m, hobtained, rfl, hmapped⟩ := (hi.phase k).attached hdeallocated hpool
  have hlive : m.vaddr ∈ (st.home k).mapped.map Segment.vaddr := List.mem_map_of_mem hmapped
  refine ⟨m, ?_, hpool, hobtained⟩
  rw [State.readAddr, hpool, Option.map_some, decide_eq_true hlive]

/-- A step that obtains, attaches and gives back nothing. -/
structure Quiet (st st' : State κ) : Prop where
  obtained : ∀ k, obtained k st'.log = obtained k st.log
  deallocated : ∀ k, deallocated k st'.log = deallocated k st.log
  live : ∀ k, Event.read k false ∈ st'.log → .read k false ∈ st.log
  manager : ∀ k, (st'.container k).manager = (st.container k).manager
  mempool : ∀ k, (st'.container k).mempool = (st.container k).mempool
  destroyed : ∀ k, (st'.container k).destroyed = (st.container k).destroyed
  mapped : ∀ i, ∀ m ∈ (st.shelf i).mapped, m ∈ (st'.shelf i).mapped
  nonzero : ∀ i, ∀ m ∈ (st'.shelf i).mapped, m ∈ (st.shelf i).mapped ∨ m.vaddr ≠ 0
  crashed : st'.crashed = st.crashed

theorem Quiet.inv (hq : Quiet st st') (hi : Inv ft st) : Inv ft st' := by
  refine ⟨?_, ?_, ?_, fun k hread => hi.live k (hq.live k hread), hq.crashed ▸ hi.running⟩
  · intro k
    refine (hi.phase k).carry (hq.obtained k) (hq.deallocated k) (hq.mempool k) (hq.destroyed k) ?_
    intro m _ _ hm
    rw [State.home, hq.manager k]
    exact hq.mapped _ m hm
  · intro j k hjk
    rw [hq.manager j, hq.manager k, hq.deallocated j, hq.deallocated k, hq.obtained j,
      hq.obtained k]
    exact hi.apart j k hjk
  · intro i m hm
    rcases hq.nonzero i m hm with hold | hnew
    · exact hi.nonzero i m hold
    · exact hnew

theorem quiet_read (st : State κ) (k : κ) : Quiet st (st.note (.read k true)) where
  obtained j := obtained_read
  deallocated j := deallocated_read
  live j hread := by
    rcases List.mem_cons.mp hread with heq | hold
    · cases heq
    · exact hold
  manager _ := rfl
  mempool _ := rfl
  destroyed _ := rfl
  mapped _ _ h := h
  nonzero _ _ h := .inl h
  crashed := rfl

theorem quiet_setContainer (st : State κ) (k : κ) {c : Container}
    (hmanager : c.manager = (st.container k).manager) (hpool : c.mempool = (st.container k).mempool)
    (hdestroyed : c.destroyed = (st.container k).destroyed) : Quiet st (st.setContainer k c) where
  obtained _ := rfl
  deallocated _ := rfl
  live _ h := h
  manager j := st.setContainer_same k Container.manager hmanager j
  mempool j := st.setContainer_same k Container.mempool hpool j
  destroyed j := st.setContainer_same k Container.destroyed hdestroyed j
  mapped _ _ h := h
  nonzero _ _ h := .inl h
  crashed := rfl

theorem quiet_setShelf (st : State κ) (i : Int) {s : Shelf}
    (hmapped : ∀ m ∈ (st.shelf i).mapped, m ∈ s.mapped)
    (hnonzero : ∀ m ∈ s.mapped, m ∈ (st.shelf i).mapped ∨ m.vaddr ≠ 0) :
    Quiet st (st.setShelf i s) where
  obtained _ := rfl
  deallocated _ := rfl
  live _ h := h
  manager _ := rfl
  mempool _ := rfl
  destroyed _ := rfl
  mapped i' m hm := by
    by_cases hi : i' = i
    · subst hi
      rw [State.setShelf_self]
      exact hmapped m hm
    · rw [State.setShelf_of_ne _ hi]
      exact hm
  nonzero i' m hm := by
    by_cases hi : i' = i
    · subst hi
      rw [State.setShelf_self] at hm
      exact hnonzero m hm
    · rw [State.setShelf_of_ne _ hi] at hm
      exact .inl hm
  crashed := rfl

theorem quiet_queues (st : State κ) (i : Int) {s : Shelf}
    (hmapped : s.mapped = (st.shelf i).mapped) : Quiet st (st.setShelf i s) := by
  refine quiet_setShelf st i ?_ ?_
  · intro m hm
    rwa [hmapped]
  · intro m hm
    rw [hmapped] at hm
    exact .inl hm

structure Elsewhere (st st' : State κ) (k : κ) : Prop where
  container : ∀ j, j ≠ k → st'.container j = st.container j
  manager : (st'.container k).manager = (st.container k).manager
  kept : ∀ j, j ≠ k → obtained j st'.log = obtained j st.log
  still : ∀ j, j ≠ k → deallocated j st'.log = deallocated j st.log
  live : ∀ j, Event.read j false ∈ st'.log → .read j false ∈ st.log
  mapped : ∀ j, j ≠ k → ∀ m ∈ obtained j st.log, deallocated j st.log = [] →
    m ∈ (st.home j).mapped → m ∈ (st'.home j).mapped
  crashed : st'.crashed = st.crashed

theorem Elsewhere.phase (he : Elsewhere st st' k) (hi : Inv ft st) {j : κ} (hj : j ≠ k) :
    Phase ft st' j := by
  have hsame := he.container j hj
  exact (hi.phase j).carry (he.kept j hj) (he.still j hj) (by rw [hsame]) (by rw [hsame])
    (he.mapped j hj)

theorem Elsewhere.inv (he : Elsewhere st st' k) (hi : Inv ft st) (hphase : Phase ft st' k)
    (hunheld : deallocated k st'.log = [] → ∀ m ∈ obtained k st'.log, Unheld ft st k m)
    (hnonzero : ∀ i, ∀ m ∈ (st'.shelf i).mapped, m.vaddr ≠ 0) : Inv ft st' := by
  have hmanager : ∀ j, (st'.container j).manager = (st.container j).manager := by
    intro j
    by_cases hj : j = k
    · rw [hj, he.manager]
    · rw [he.container j hj]
  refine ⟨?_, ?_, hnonzero, fun j hread => hi.live j (he.live j hread), he.crashed ▸ hi.running⟩
  · intro j
    by_cases hj : j = k
    · rw [hj]
      exact hphase
    · exact he.phase hi hj
  · intro i j hij hsame hdi hdj mi hmi mj hmj
    rw [hmanager i, hmanager j] at hsame
    by_cases hik : i = k
    · subst hik
      have hji : j ≠ i := Ne.symm hij
      rw [he.still j hji] at hdj
      rw [he.kept j hji] at hmj
      exact Ne.symm (hunheld hdi mi hmi j hji hsame.symm hdj mj hmj)
    · rw [he.still i hik] at hdi
      rw [he.kept i hik] at hmi
      by_cases hjk : j = k
      · subst hjk
        exact hunheld hdj mj hmj i hik hsame hdi mi hmi
      · rw [he.still j hjk] at hdj
        rw [he.kept j hjk] at hmj
        exact hi.apart i j hij hsame hdi hdj mi hmi mj hmj

theorem Inv.obtain (hi : Inv ft st) (hnone : obtained k st.log = [])
    (hunheld : Unheld ft st k m) {c : Container} (hmanager : c.manager = (st.container k).manager)
    (halive : c.destroyed = (st.container k).destroyed)
    (hpool : c.mempool = (st.container k).mempool ∨ c.mempool = some m.vaddr)
    (hmapped : m ∈ (st.home k).mapped) :
    Inv ft ((st.setContainer k c).note (.obtained k m)) := by
  have hself : ((st.setContainer k c).note (.obtained k m)).container k = c :=
    st.setContainer_self k c
  have hobtained : obtained k ((st.setContainer k c).note (.obtained k m)).log = [m] := by
    simp [State.note, State.setContainer, hnone]
  have he : Elsewhere st ((st.setContainer k c).note (.obtained k m)) k := by
    refine ⟨fun j hj => st.setContainer_of_ne hj c, ?_, ?_, fun j hj => rfl, ?_, ?_, rfl⟩
    · rw [hself, hmanager]
    · intro j hj
      simp [State.note, State.setContainer, Ne.symm hj]
    · intro j hread
      rcases List.mem_cons.mp hread with heq | hold
      · cases heq
      · exact hold
    · intro j hj m' _ _ hm'
      show m' ∈ (st.shelf ((st.setContainer k c).container j).manager).mapped
      rw [st.setContainer_of_ne hj]
      exact hm'
  refine he.inv hi ?_ ?_ hi.nonzero
  · cases hi.phase k with
    | empty ho hd hpool' halive' =>
        refine .holding m hobtained hd ?_ ?_ ?_
        · rw [State.home, hself, hmanager]
          exact hmapped
        · rw [hself]
          rwa [hpool'] at hpool
        · rw [hself, halive, halive']
    | holding m' ho => rw [ho] at hnone; cases hnone
    | released m' ho => rw [ho] at hnone; cases hnone
  · intro _ m' hm'
    rw [hobtained] at hm'
    rw [List.mem_singleton.mp hm']
    exact hunheld

theorem Inv.attach (hi : Inv ft st) (hobtained : obtained k st.log = [m])
    (hdeallocated : deallocated k st.log = []) {c : Container}
    (hmanager : c.manager = (st.container k).manager)
    (halive : c.destroyed = (st.container k).destroyed) (hpool : c.mempool = some m.vaddr) :
    Inv ft (st.setContainer k c) := by
  have hself : (st.setContainer k c).container k = c := st.setContainer_self k c
  have he : Elsewhere st (st.setContainer k c) k := by
    refine ⟨fun j hj => st.setContainer_of_ne hj c, by rw [hself, hmanager], fun j hj => rfl,
      fun j hj => rfl, fun j hread => hread, ?_, rfl⟩
    intro j hj m' _ _ hm'
    rw [State.home, st.setContainer_of_ne hj]
    exact hm'
  obtain ⟨hmapped, halive'⟩ := (hi.phase k).holding_of hobtained hdeallocated
  refine he.inv hi (.holding m hobtained hdeallocated ?_ ?_ ?_) ?_ hi.nonzero
  · rw [State.home, hself, hmanager]
    exact hmapped
  · rw [hself]
    exact .inr hpool
  · rw [hself, halive, halive']
  · intro _ m' hm' j hj hsame hd m'' hm''
    exact hi.apart j k hj hsame hd hdeallocated m'' hm'' m' hm'

theorem Inv.release (hi : Inv ft st) (hobtained : obtained k st.log = [m])
    (hdeallocated : deallocated k st.log = []) {c : Container}
    (hmanager : c.manager = (st.container k).manager) (returns : Bool) :
    Inv ft ((st.setContainer k c).deallocate ft k (m.key ft) returns) := by
  have hself : ((st.setContainer k c).deallocate ft k (m.key ft) returns).container k = c :=
    st.setContainer_self k c
  have hshelf : ∀ i, ∀ m' ∈ (((st.setContainer k c).deallocate ft k (m.key ft)
      returns).shelf i).mapped, m' ∈ (st.shelf i).mapped := by
    intro i m' hm'
    by_cases hi' : i = (st.container k).manager
    · subst hi'
      simp only [State.deallocate, State.note, State.home, State.setContainer_self, hmanager,
        State.setShelf_self] at hm'
      exact (List.mem_filter.mp hm').1
    · simp only [State.deallocate, State.note, State.setContainer_self, hmanager] at hm'
      rwa [State.setShelf_of_ne _ hi'] at hm'
  have he : Elsewhere st ((st.setContainer k c).deallocate ft k (m.key ft) returns) k := by
    refine ⟨fun j hj => st.setContainer_of_ne hj c, by rw [hself, hmanager], fun j hj => rfl,
      ?_, ?_, ?_, rfl⟩
    · intro j hj
      simp [State.deallocate, State.note, State.setShelf, State.setContainer, Ne.symm hj]
    · intro j hread
      rcases List.mem_cons.mp hread with heq | hold
      · cases heq
      · exact hold
    · intro j hj m' hm' hd hmapped
      have hcontainer : ((st.setContainer k c).deallocate ft k (m.key ft) returns).container j =
          st.container j := st.setContainer_of_ne hj c
      rw [State.home, hcontainer]
      by_cases hsame : (st.container j).manager = (st.container k).manager
      · have hkey := hi.apart j k hj hsame hd hdeallocated m' hm' m (by simp [hobtained])
        rw [hsame]
        simp only [State.deallocate, State.note, State.home, State.setContainer_self, hmanager,
          State.setShelf_self, List.mem_filter]
        rw [State.home, hsame] at hmapped
        exact ⟨hmapped, by simp [hkey]⟩
      · simp only [State.deallocate, State.note, State.setContainer_self, hmanager]
        rw [State.setShelf_of_ne _ hsame]
        exact hmapped
  have hgone : deallocated k ((st.setContainer k c).deallocate ft k (m.key ft) returns).log =
      [m.key ft] := by
    simp [State.deallocate, State.note, State.setShelf, State.setContainer, hdeallocated]
  refine he.inv hi (.released m hobtained hgone) ?_ ?_
  · intro hnone
    rw [hgone] at hnone
    cases hnone
  · intro i m' hm'
    exact hi.nonzero i m' (hshelf i m' hm')

/-! ## One step -/

theorem instantiate_inv (hi : Inv ft st) {memory : Nat}
    (hok : Tended ft st (.call k (.instantiate memory))) :
    Inv ft (call ft st k (.instantiate memory)) := by
  obtain ⟨hmemory, hnone, hunheld⟩ := hok
  simp only [call, if_neg hmemory]
  refine Inv.obtain (Quiet.inv (quiet_setShelf st _ ?_ ?_) hi) hnone hunheld rfl rfl (.inr rfl) ?_
  · intro m hm
    exact List.mem_cons_of_mem _ hm
  · intro m hm
    rcases List.mem_cons.mp hm with heq | hold
    · rw [heq]
      exact .inr hmemory
    · exact .inl hold
  · rw [home_setShelf]
    · exact List.mem_cons_self
    · rfl

theorem pollForTransfer_inv (hi : Inv ft st) (hok : Tended ft st (.call k .pollForTransfer)) :
    Inv ft (call ft st k .pollForTransfer) := by
  simp only [call]
  split
  · exact hi
  · next m rest htransfers =>
    obtain ⟨hnone, hmapped, hunheld⟩ := hok m (by rw [htransfers]; rfl)
    refine Inv.obtain (Quiet.inv (quiet_queues st _ ?_) hi) hnone hunheld ?_ ?_ (.inl ?_) ?_
    · rfl
    · rfl
    · rfl
    · rfl
    · rw [home_setShelf]
      · exact hmapped
      · rfl

theorem prepare_inv (hi : Inv ft st) {destination : Int}
    (hok : Tended ft st (.call k (.prepare destination))) :
    Inv ft (call ft st k (.prepare destination)) := by
  obtain ⟨m, hread, -⟩ := hi.readAddr hok.1 hok.2
  simp only [call, hread]
  exact (quiet_read st k).inv hi

theorem pollForAccept_inv (hi : Inv ft st) (hok : Tended ft st (.call k .pollForAccept)) :
    Inv ft (call ft st k .pollForAccept) := by
  simp only [call]
  split
  · exact Quiet.inv (quiet_setContainer st k rfl rfl rfl) hi
  · next haccepts =>
    obtain ⟨m', hread, -⟩ := hi.readAddr hok.1 (hok.2 (by rw [haccepts]; simp))
    have hi₁ := (quiet_read st k).inv hi
    simp only [hread]
    split
    · exact Quiet.inv (quiet_queues _ _ rfl) (Quiet.inv (quiet_setContainer _ k rfl rfl rfl) hi₁)
    · exact Quiet.inv (quiet_setContainer _ k rfl rfl rfl) hi₁

theorem pollForClose_inv (hi : Inv ft st) {returns : Bool}
    (hok : Tended ft st (.call k (.pollForClose returns))) :
    Inv ft (call ft st k (.pollForClose returns)) := by
  obtain ⟨hdeallocated, hattached, hown, hreturns⟩ := hok
  simp only [call]
  split
  · exact hi
  · next m rest hdones =>
    obtain ⟨m', hread, hpool, -⟩ := hi.readAddr hdeallocated (hattached (by rw [hdones]; simp))
    have hi₁ := (quiet_read st k).inv hi
    simp only [hread, hreturns, if_true]
    split
    · next hvaddr =>
      have hobtained := hown m (by rw [hdones]; rfl) (by rw [hpool, hvaddr])
      refine Inv.release (Quiet.inv (quiet_queues _ _ ?_) hi₁) hobtained hdeallocated ?_ returns
      · rfl
      · rfl
    · exact hi₁

theorem remoteInstantiate_inv (hi : Inv ft st) {rdmaMemory : Option Segment}
    (hok : Tended ft st (.call k (.remoteInstantiate rdmaMemory))) :
    Inv ft (call ft st k (.remoteInstantiate rdmaMemory)) := by
  obtain ⟨hdeallocated, hsome, hown⟩ := hok
  obtain ⟨m, hrecord⟩ := Option.ne_none_iff_exists'.mp hsome
  have hattached := hi.attach (c := { st.container k with
    rdmaMemory := some m, mempool := some m.vaddr }) (hown m hrecord) hdeallocated rfl rfl rfl
  obtain ⟨m', hread, -⟩ := hattached.readAddr hdeallocated
    (by rw [State.setContainer_self]; simp)
  simp only [call, hrecord, hread]
  exact (quiet_read _ k).inv hattached

theorem destroy_inv (hi : Inv ft st) {returns : Bool}
    (hok : Tended ft st (.call k (.destroy returns))) :
    Inv ft (call ft st k (.destroy returns)) := by
  obtain ⟨hdeallocated, hattached, hid, rfl⟩ := hok
  obtain ⟨m, hread, -, hobtained⟩ := hi.readAddr hdeallocated hattached
  have hmapped := ((hi.phase k).holding_of hobtained hdeallocated).1
  have hkey : (if ft then Key.applicationId (st.container k).id else .address m.vaddr) =
      m.key ft := by
    cases ft with
    | false => rfl
    | true => exact congrArg Key.applicationId (hid rfl m (by simp [hobtained]))
  simp only [call, hread, if_neg (hi.nonzero _ m hmapped), hkey, if_true]
  refine Inv.release ((quiet_read st k).inv hi) hobtained hdeallocated ?_ true
  rfl

theorem call_inv (hi : Inv ft st) {op : Op} (hok : Tended ft st (.call k op)) :
    Inv ft (call ft st k op) := by
  cases op with
  | instantiate => exact instantiate_inv hi hok
  | prepare => exact prepare_inv hi hok
  | pollForAccept => exact pollForAccept_inv hi hok
  | pollForClose => exact pollForClose_inv hi hok
  | pollForTransfer => exact pollForTransfer_inv hi hok
  | remoteInstantiate => exact remoteInstantiate_inv hi hok
  | destroy => exact destroy_inv hi hok
  | transfer | close =>
      simp only [call, if_neg hok]
      exact hi

theorem step_inv (hi : Inv ft st) (hok : Tended ft st act) (h : step ft st act = some st') :
    Inv ft st' := by
  cases act with
  | call k op =>
      simp only [step] at h
      split at h
      · cases h
      · cases h
        exact call_inv hi hok
  | accept i m =>
      simp only [step] at h
      split at h
      · cases h
      · next hvaddr =>
        cases h
        refine Quiet.inv (quiet_setShelf st i (fun m hm => List.mem_cons_of_mem _ hm) ?_) hi
        intro m' hm'
        rcases List.mem_cons.mp hm' with heq | hold
        · rw [heq]
          exact .inr fun hzero => hvaddr (.inl hzero)
        · exact .inl hold
  | enqueue i queue m =>
      simp only [step, hi.running i] at h
      cases h
      have hsame : ((st.shelf i).enqueue m queue).mapped = (st.shelf i).mapped := by
        cases queue <;> rfl
      exact (quiet_queues st i hsame).inv hi

end Step

theorem inv_initial (ft : Bool) (manager id : κ → Int) : Inv ft (initial manager id) where
  phase _ := .empty rfl rfl rfl rfl
  apart _ _ _ _ _ _ _ hm := nomatch hm
  nonzero _ _ hm := nomatch hm
  live _ hread := nomatch hread
  running _ := rfl

/-! ## Every segment goes back once -/

/-- Every container passes what it obtained to `deallocate` once, under its own key, when
it is closed or destroyed. Nobody reads from a pool whose segment is gone, and no process
crashes. -/
theorem segments_released_once {ft : Bool} {manager id : κ → Int} {st : State κ}
    (h : Reaches (step ft) (Tended ft) (initial manager id) st) :
    (∀ k, deallocated k st.log = [] ∨
      deallocated k st.log = (obtained k st.log).map (Segment.key ft)) ∧
    (∀ k, (st.container k).destroyed = true →
      deallocated k st.log = (obtained k st.log).map (Segment.key ft)) ∧
    (∀ k, .read k false ∉ st.log) ∧ ∀ i, st.crashed i = false := by
  have hi : Inv ft st :=
    h.invariant (fun _ _ _ hi hok hstep => step_inv hi hok hstep) (inv_initial ft manager id)
  refine ⟨?_, ?_, hi.live, hi.running⟩
  · intro k
    cases hi.phase k with
    | empty _ hd => exact .inl hd
    | holding _ _ hd => exact .inl hd
    | released m ho hd => exact .inr (by rw [hd, ho]; rfl)
  · intro k hdestroyed
    cases hi.phase k with
    | empty _ _ _ halive => rw [halive] at hdestroyed; cases hdestroyed
    | holding _ _ _ _ _ halive => rw [halive] at hdestroyed; cases hdestroyed
    | released m ho hd => rw [hd, ho]; rfl

/-- A migration as in the tests: container `false` of server 0 sends its segment to
container `true` of server 1, up to what the destination does with it. -/
def delivered (ft : Bool) : List (Action Bool) :=
  let m : Segment := ⟨4096, if ft then 1 else 0⟩
  [.call false (.instantiate 4096), .call false (.prepare 1), .accept 1 m, .enqueue 0 .accepts m,
    .call false .pollForAccept, .call false .transfer, .enqueue 1 .transfers m,
    .call true .pollForTransfer]

def migrated (ft : Bool) : List (Action Bool) :=
  delivered ft ++ [.call true (.remoteInstantiate none), .call true .close,
    .enqueue 0 .dones ⟨4096, if ft then 1 else 0⟩, .call false (.pollForClose true)]

def tested (id : Int) : State Bool :=
  initial (fun k => if k then 1 else 0) (fun k => if k then id else 1)

/-- Without fault tolerance the destination's container is destroyed after the migration.
With it a container that has not moved is. -/
theorem segments_released_once_migrated :
    (∃ st : State Bool, Reaches (step false) (Tended false) (tested 1) st ∧
      (st.container true).destroyed = true ∧ obtained true st.log = [⟨4096, 0⟩] ∧
      deallocated true st.log = (obtained true st.log).map (Segment.key false) ∧
      deallocated false st.log = [.address 4096] ∧ (∀ k, .read k false ∉ st.log) ∧
      ∀ i, st.crashed i = false) ∧
    ∃ st : State Bool, Reaches (step true) (Tended true) (tested 1) st ∧
      (st.container false).destroyed = true ∧ obtained false st.log = [⟨4096, 1⟩] ∧
      deallocated false st.log = (obtained false st.log).map (Segment.key true) ∧
      ∀ i, st.crashed i = false := by
  constructor
  · have hrun : (checkedRun (step false) (Tended false) (tested 1)
        (migrated false ++ [.call true (.destroy true)])).map (fun st =>
          ((st.container true).destroyed, obtained true st.log, deallocated false st.log)) =
        some (true, [⟨4096, 0⟩], [.address 4096]) := by
      decide +kernel
    obtain ⟨st, hreach, hfacts⟩ := reaches_of_map_checkedRun hrun
    simp only [Prod.mk.injEq] at hfacts
    obtain ⟨hdestroyed, hobtained, hdeallocated⟩ := hfacts
    obtain ⟨-, hreleased, hlive⟩ := segments_released_once hreach
    exact ⟨st, hreach, hdestroyed, hobtained, hreleased true hdestroyed, hdeallocated, hlive⟩
  · have hrun : (checkedRun (step true) (Tended true) (tested 1)
        [.call false (.instantiate 4096), .call false (.destroy true)]).map (fun st =>
          ((st.container false).destroyed, obtained false st.log)) =
        some (true, [⟨4096, 1⟩]) := by
      decide +kernel
    obtain ⟨st, hreach, hfacts⟩ := reaches_of_map_checkedRun hrun
    simp only [Prod.mk.injEq] at hfacts
    obtain ⟨-, hreleased, -, hrunning⟩ := segments_released_once hreach
    exact ⟨st, hreach, hfacts.1, hfacts.2, hreleased false hfacts.1, hrunning⟩

/-- After the migration both containers are destroyed. The source's destructor reads from
the segment that `PollForClose` gave back and gives it back again. With fault tolerance
the destination's destructor passes the id it was constructed with, which is not the
segment's. There `deallocate` throws, since no record has that id. A destination that
never attached its pool crashes in the destructor instead, and gives nothing back. -/
theorem segments_released_wrongly :
    (∀ ft ∈ [false, true], ∃ st : State Bool,
      Reaches (step ft) anyAction (tested 2) st ∧ (st.container false).destroyed = true ∧
      (obtained false st.log).map (Segment.key ft) = [Segment.key ft ⟨4096, 1⟩] ∧
      deallocated false st.log = [Segment.key ft ⟨4096, 1⟩, Segment.key ft ⟨4096, 1⟩] ∧
      .read false false ∈ st.log) ∧
    (∃ st : State Bool, Reaches (step true) anyAction (tested 2) st ∧
      (st.container true).destroyed = true ∧ obtained true st.log = [⟨4096, 1⟩] ∧
      deallocated true st.log = [.applicationId 2]) ∧
    ∀ ft ∈ [false, true], ∃ st : State Bool, Reaches (step ft) anyAction (tested 2) st ∧
      (obtained true st.log).map (Segment.key ft) = [Segment.key ft ⟨4096, 1⟩] ∧
      deallocated true st.log = [] ∧ st.crashed 1 = true := by
  refine ⟨?_, ?_, ?_⟩
  · intro ft hft
    have hrun : (run (step ft) (tested 2) (migrated ft ++ [.call false (.destroy !ft)])).map
        (fun st => (((st.container false).destroyed, (obtained false st.log).map (Segment.key ft)),
          deallocated false st.log, decide (.read false false ∈ st.log))) =
        some ((true, [Segment.key ft ⟨4096, 1⟩]),
          [Segment.key ft ⟨4096, 1⟩, Segment.key ft ⟨4096, 1⟩], true) := by
      revert ft
      decide +kernel
    obtain ⟨st, hreach, hfacts⟩ := reaches_of_map_run hrun
    simp only [Prod.mk.injEq] at hfacts
    obtain ⟨⟨hdestroyed, hobtained⟩, hdeallocated, hread⟩ := hfacts
    exact ⟨st, hreach, hdestroyed, hobtained, hdeallocated, of_decide_eq_true hread⟩
  · have hrun : (run (step true) (tested 2) (migrated true ++ [.call true (.destroy false)])).map
        (fun st => ((st.container true).destroyed, obtained true st.log,
          deallocated true st.log)) = some (true, [⟨4096, 1⟩], [.applicationId 2]) := by
      decide +kernel
    obtain ⟨st, hreach, hfacts⟩ := reaches_of_map_run hrun
    simp only [Prod.mk.injEq] at hfacts
    exact ⟨st, hreach, hfacts⟩
  · intro ft hft
    have hrun : (run (step ft) (tested 2) (delivered ft ++ [.call true (.destroy true)])).map
        (fun st => ((obtained true st.log).map (Segment.key ft), deallocated true st.log,
          st.crashed 1)) = some ([Segment.key ft ⟨4096, 1⟩], [], true) := by
      revert ft
      decide +kernel
    obtain ⟨st, hreach, hfacts⟩ := reaches_of_map_run hrun
    simp only [Prod.mk.injEq] at hfacts
    exact ⟨st, hreach, hfacts⟩

end RdmaMigration.Containers.Lifecycle
