import RdmaMigration.Cluster.Migrate
import RdmaMigration.Lib.Run
import RdmaMigration.Lib.Update
import RdmaMigration.Migration.Segment

/-! # Concurrent migrations

The servers of a cluster, the messages between them, and every call of the
manager that a migration is made of as a step of its own. Messages on a
connection stay in order: they travel on a wire, wait in the receive queue of the
connection, and are handled by the poller one at a time.

What the callers have to keep to is stated in terms of each server's standing to
each address, which the state carries along with a record of what was sent,
handled and polled.
-/

namespace RdmaMigration.Migration.System

open Lib Function Network Manager Cluster

/-- The cluster, over what is known of each server: all of it, or only its face. -/
structure State (S : Type) where
  server : Int → S
  wire : Int → Int → List RdmaMessage
  stage : Int → Nat → Stage Int
  pending : Nat → Int → Int → Bool
  snapshot : Int → Nat → Nat → UInt8
  posted : Int → Int → List RdmaMessage
  handled : Int → List (Int × RdmaMessage)
  polledAccepts : Int → List Nat
  polledTransfers : Int → List Nat
  polledDones : Int → List Nat

def initial (n : Nat) : State Server :=
  { server := fun i => .construct n i
    wire := fun _ _ => []
    stage := fun _ _ => .absent
    pending := fun _ _ _ => false
    snapshot := fun _ _ _ => 0
    posted := fun _ _ => []
    handled := fun _ => []
    polledAccepts := fun _ => []
    polledTransfers := fun _ => []
    polledDones := fun _ => [] }

namespace State

variable {S : Type}

def setServer (st : State S) (i : Int) (s : S) : State S :=
  { st with server := update st.server i s }

def setStage (st : State S) (i : Int) (addr : Nat) (stage : Stage Int) : State S :=
  { st with stage := update₂ st.stage i addr stage }

theorem setStage_self (st : State S) (i : Int) (addr : Nat) :
    st.setStage i addr (st.stage i addr) = st := by
  simp [setStage]

def setPending (st : State S) (d s : Int) (addr : Nat) (value : Bool) : State S :=
  { st with pending := update st.pending addr (update₂ (st.pending addr) d s value) }

def post (st : State S) (s d : Int) (m : RdmaMessage) : State S :=
  { st with
    wire := update₂ st.wire s d (st.wire s d ++ [m])
    posted := update₂ st.posted s d (st.posted s d ++ [m]) }

def log (st : State S) (d s : Int) (m : RdmaMessage) : State S :=
  { st with handled := update st.handled d (st.handled d ++ [(s, m)]) }

end State

inductive Action where
  | allocate (i : Int) (size : Nat) (reuse fresh : Option Nat)
  | deallocate (i : Int) (addr : Nat)
  | write (i : Int) (addr offset : Nat) (value : UInt8)
  | prepare (s : Int) (addr size : Nat) (d : Int)
  | transfer (s : Int) (addr size : Nat) (d : Int)
  | close (d : Int) (addr size : Nat) (s : Int)
  | deliver (s d : Int)
  | poll (d s : Int) (mapped : Option Nat)
  | pollForAccept (i : Int)
  | pollForTransfer (i : Int)
  | pollForClose (i : Int)
  deriving DecidableEq, Repr

/-! ## How the calls change a server's standing -/

def preparedFor (d : Int) : Stage Int → Stage Int
  | .held size prepared => .held size (d :: prepared)
  | stage => stage

def givenTo (d : Int) : Stage Int → Stage Int
  | .held size prepared => .given size d (prepared.filter (· ≠ d))
  | stage => stage

def closedBy (d : Int) : Stage Int → Stage Int
  | .given size destination prepared =>
      if destination = d then .held size prepared else .given size destination prepared
  | stage => stage

def afterHandling (source : Int) (m : RdmaMessage) (reply : Option RdmaMessage)
    (stage : Stage Int) : Stage Int :=
  match getMessageType m.messageType with
  | .prepare =>
      if reply.map (·.messageType) = some .accept then .accepted m.regionInfo.length source
      else stage
  | .transfer => .held m.regionInfo.length []
  | .done => closedBy source stage
  | .accept | .decline | .getPartitions | .sentPartitions | .user => stage

/-! ## The steps -/

def allocateStep (st : State Server) (i : Int) (size : Nat) (reuse fresh : Option Nat) :
    State Server :=
  match (st.server i).allocate size reuse fresh with
  | (s, .ok (some addr)) => (st.setServer i s).setStage i addr (.held size [])
  | (s, _) => st.setServer i s

def prepareStep (b : Build) (st : State Server) (s : Int) (addr size : Nat) (d : Int) :
    Option (State Server) := do
  let (server, m) ← ((st.server s).prepare b addr size d fun _ => []).toOption
  return ((st.setServer s server).setStage s addr (preparedFor d (st.stage s addr))).post s d m

/-- The bytes that the source has at this moment are the ones to be delivered. -/
def transferStep (b : Build) (st : State Server) (s : Int) (addr size : Nat) (d : Int) :
    Option (State Server) := do
  let (server, m) ← ((st.server s).transfer b addr size d).toOption
  let st := { st with snapshot := update₂ st.snapshot s addr (st.server s).bytes }
  return ((st.setServer s server).setStage s addr (givenTo d (st.stage s addr))).post s d m

def closeStep (b : Build) (st : State Server) (d : Int) (addr size : Nat) (s : Int) :
    Option (State Server) := do
  let (server, m) ← ((st.server d).close b addr size s).toOption
  return ((st.setServer d server).setPending d s addr false).post d s m

def deliverStep (st : State Server) (s d : Int) : Option (State Server) :=
  match st.wire s d with
  | [] => none
  | m :: rest =>
      some { st.setServer d ((st.server d).setConnection s
          (((st.server d).connections s).receive m)) with
        wire := update₂ st.wire s d rest }

def popped (s : Server) (source : Int) (rest : List RdmaMessage) : Server :=
  s.setConnection source { s.connections source with recvQueue := rest }

def pollStep (b : Build) (st : State Server) (d s : Int) (mapped : Option Nat) :
    Option (State Server) :=
  match ((st.server d).connections s).recvQueue with
  | [] => none
  | m :: rest => do
      if ¬ ∀ res ∈ mapped, (st.server d).MapsAt m.regionInfo.length res then none else
      let (server, reply) ←
        ((popped (st.server d) s rest).handle b (st.server s) m s mapped).toOption
      let addr := m.regionInfo.addr
      let st := (st.setServer d server).setStage d addr
        (afterHandling s m reply (st.stage d addr))
      let st := if m.messageType = .transfer then st.setPending d s addr true else st
      return match reply with
        | none => st.log d s m
        | some reply => (st.log d s m).post d s reply

/-- A server has no connection to itself, and `mmap` answers with a place it may use. -/
def step (b : Build) (st : State Server) : Action → Option (State Server)
  | .allocate i size reuse fresh =>
      if (∀ res ∈ reuse, (st.server i).MapsAt size res) ∧
          ∀ res ∈ fresh, (st.server i).MapsAt size res then
        some (allocateStep st i size reuse fresh)
      else none
  | .deallocate i addr => do
      let s ← ((st.server i).deallocate addr).toOption
      return (st.setServer i s).setStage i addr .absent
  | .write i addr offset value =>
      some (st.setServer i { st.server i with
        bytes := update (st.server i).bytes (addr + offset) value })
  | .prepare s addr size d => if s = d then none else prepareStep b st s addr size d
  | .transfer s addr size d => if s = d then none else transferStep b st s addr size d
  | .close d addr size s => if d = s then none else closeStep b st d addr size s
  | .deliver s d => if s = d then none else deliverStep st s d
  | .poll d s mapped => if d = s then none else pollStep b st d s mapped
  | .pollForAccept i => do
      let (s, p) ← (st.server i).pollForAccept
      return { st.setServer i s with
        polledAccepts := update st.polledAccepts i (st.polledAccepts i ++ [p]) }
  | .pollForTransfer i => do
      let (s, p) ← (st.server i).pollForTransfer
      return { st.setServer i s with
        polledTransfers := update st.polledTransfers i (st.polledTransfers i ++ [p]) }
  | .pollForClose i => do
      let (s, p) ← (st.server i).pollForClose
      return { st.setServer i s with
        polledDones := update st.polledDones i (st.polledDones i ++ [p]) }

inductive Stepped (b : Build) (st : State Server) : Action → State Server → Prop
  | allocate (i : Int) (size : Nat) (reuse fresh : Option Nat)
      (hreuse : ∀ res ∈ reuse, (st.server i).MapsAt size res)
      (hfresh : ∀ res ∈ fresh, (st.server i).MapsAt size res) :
      Stepped b st (.allocate i size reuse fresh) (allocateStep st i size reuse fresh)
  | deallocate (i : Int) (addr : Nat) (s : Server)
      (hcall : (st.server i).deallocate addr = .ok s) :
      Stepped b st (.deallocate i addr) ((st.setServer i s).setStage i addr .absent)
  | write (i : Int) (addr offset : Nat) (value : UInt8) : Stepped b st (.write i addr offset value)
      (st.setServer i { st.server i with
        bytes := update (st.server i).bytes (addr + offset) value })
  | prepare (s : Int) (addr size : Nat) (d : Int) (st' : State Server) (hne : s ≠ d)
      (hstep : prepareStep b st s addr size d = some st') :
      Stepped b st (.prepare s addr size d) st'
  | transfer (s : Int) (addr size : Nat) (d : Int) (st' : State Server) (hne : s ≠ d)
      (hstep : transferStep b st s addr size d = some st') :
      Stepped b st (.transfer s addr size d) st'
  | close (d : Int) (addr size : Nat) (s : Int) (st' : State Server) (hne : d ≠ s)
      (hstep : closeStep b st d addr size s = some st') : Stepped b st (.close d addr size s) st'
  | deliver (s d : Int) (st' : State Server) (hne : s ≠ d)
      (hstep : deliverStep st s d = some st') : Stepped b st (.deliver s d) st'
  | poll (d s : Int) (mapped : Option Nat) (st' : State Server) (hne : d ≠ s)
      (hstep : pollStep b st d s mapped = some st') : Stepped b st (.poll d s mapped) st'
  | pollForAccept (i : Int) (p : Nat) (rest : List Nat)
      (hqueue : (st.server i).incomingAccepts = p :: rest) : Stepped b st (.pollForAccept i)
      { st.setServer i { st.server i with incomingAccepts := rest } with
        polledAccepts := update st.polledAccepts i (st.polledAccepts i ++ [p]) }
  | pollForTransfer (i : Int) (p : Nat) (rest : List Nat)
      (hqueue : (st.server i).incomingTransfers = p :: rest) : Stepped b st (.pollForTransfer i)
      { st.setServer i { st.server i with incomingTransfers := rest } with
        polledTransfers := update st.polledTransfers i (st.polledTransfers i ++ [p]) }
  | pollForClose (i : Int) (p : Nat) (rest : List Nat)
      (hqueue : (st.server i).incomingDones = p :: rest) : Stepped b st (.pollForClose i)
      { st.setServer i { st.server i with incomingDones := rest } with
        polledDones := update st.polledDones i (st.polledDones i ++ [p]) }

theorem step_cases {b : Build} {st st' : State Server} {act : Action}
    (h : step b st act = some st') : Stepped b st act st' := by
  cases act with
  | allocate i size reuse fresh =>
      obtain ⟨⟨hreuse, hfresh⟩, heq⟩ := Option.ite_none_right_eq_some.mp h
      cases heq
      exact .allocate i size reuse fresh hreuse hfresh
  | deallocate i addr =>
      obtain ⟨s, hs, hret⟩ := Option.bind_eq_some_iff.mp h
      cases hret
      exact .deallocate i addr s (toOption_eq_some hs)
  | write i addr offset value =>
      cases h
      exact .write i addr offset value
  | prepare s addr size d =>
      obtain ⟨hne, hstep⟩ := Option.ite_none_left_eq_some.mp h
      exact .prepare s addr size d st' hne hstep
  | transfer s addr size d =>
      obtain ⟨hne, hstep⟩ := Option.ite_none_left_eq_some.mp h
      exact .transfer s addr size d st' hne hstep
  | close d addr size s =>
      obtain ⟨hne, hstep⟩ := Option.ite_none_left_eq_some.mp h
      exact .close d addr size s st' hne hstep
  | deliver s d =>
      obtain ⟨hne, hstep⟩ := Option.ite_none_left_eq_some.mp h
      exact .deliver s d st' hne hstep
  | poll d s mapped =>
      obtain ⟨hne, hstep⟩ := Option.ite_none_left_eq_some.mp h
      exact .poll d s mapped st' hne hstep
  | pollForAccept i =>
      obtain ⟨⟨s, p⟩, hs, hret⟩ := Option.bind_eq_some_iff.mp h
      cases hret
      obtain ⟨rest, hqueue, rfl⟩ := Server.pollForAccept_cases hs
      exact .pollForAccept i p rest hqueue
  | pollForTransfer i =>
      obtain ⟨⟨s, p⟩, hs, hret⟩ := Option.bind_eq_some_iff.mp h
      cases hret
      obtain ⟨rest, hqueue, rfl⟩ := Server.pollForTransfer_cases hs
      exact .pollForTransfer i p rest hqueue
  | pollForClose i =>
      obtain ⟨⟨s, p⟩, hs, hret⟩ := Option.bind_eq_some_iff.mp h
      cases hret
      obtain ⟨rest, hqueue, rfl⟩ := Server.pollForClose_cases hs
      exact .pollForClose i p rest hqueue

/-! ## What the callers keep to -/

def isHeld : Stage Int → Bool
  | .held _ _ => true
  | .absent | .given _ _ _ | .accepted _ _ => false

def State.head (st : State Server) (d s : Int) : Option RdmaMessage :=
  ((st.server d).connections s).recvQueue.head?

/-- Segments are smaller than `2 ^ 31` bytes, and a `PREPARE` is accepted at the
address it asks for. Callers pass the address and size of a segment they hold;
`Transfer` comes after a `Prepare` for the same destination, and the write, the
next `Prepare` and the deallocation of a given segment after its `CLOSE`; a
received segment is closed once. -/
def Follows (st : State Server) : Action → Prop
  | .allocate _ size _ _ => size < 2 ^ 31
  | .deallocate i addr => isHeld (st.stage i addr) = true
  | .write i addr offset _ => isHeld (st.stage i addr) = true ∧ offset < (st.stage i addr).size
  | .prepare s addr size _ => isHeld (st.stage s addr) = true ∧ (st.stage s addr).size = size
  | .transfer s addr size d => isHeld (st.stage s addr) = true ∧ (st.stage s addr).size = size ∧
      d ∈ (st.stage s addr).prepared
  | .close d addr _ s => st.pending addr d s = true
  | .poll d s mapped => ∀ m ∈ st.head d s, m.messageType = .prepare →
      mapped = some m.regionInfo.addr
  | .deliver _ _ | .pollForAccept _ | .pollForTransfer _ | .pollForClose _ => True

/-- `Follows` with the bound on the sizes where it is needed, at `Prepare`. -/
def Permits (st : State Server) : Action → Prop
  | .allocate _ _ _ _ => True
  | .prepare s addr size d => Follows st (.prepare s addr size d) ∧ size < 2 ^ 31
  | act => Follows st act

/-- When `allocate` takes a record from a free list, `mmap` gives it the memory at
the record's address. `allocate` hands out that address in any case. -/
def ReusesInPlace (st : State Server) : Action → Prop
  | .allocate i size reuse _ => ∀ p ∈ ((st.server i).freeMap.lookup size).bind List.head?,
      ∀ memory ∈ (st.server i).heap[p]?, ∀ res ∈ reuse, res = memory.vaddr
  | _ => True

def Keeps (st : State Server) (act : Action) : Prop := Follows st act ∧ ReusesInPlace st act

instance (st : State Server) (act : Action) : Decidable (Follows st act) :=
  match act with
  | .allocate _ _ _ _ => inferInstanceAs (Decidable (_ < _))
  | .write _ _ _ _ | .prepare _ _ _ _ | .transfer _ _ _ _ => inferInstanceAs (Decidable (_ ∧ _))
  | .deallocate _ _ | .close _ _ _ _ => inferInstanceAs (Decidable (_ = true))
  | .poll _ _ _ => inferInstanceAs (Decidable (∀ _ ∈ _, _))
  | .deliver _ _ | .pollForAccept _ | .pollForTransfer _ | .pollForClose _ => .isTrue trivial

instance (st : State Server) (act : Action) : Decidable (Permits st act) :=
  match act with
  | .allocate _ _ _ _ => .isTrue trivial
  | .prepare _ _ _ _ => inferInstanceAs (Decidable (_ ∧ _))
  | .deallocate i addr => inferInstanceAs (Decidable (Follows st (.deallocate i addr)))
  | .write i addr offset value =>
      inferInstanceAs (Decidable (Follows st (.write i addr offset value)))
  | .transfer s addr size d => inferInstanceAs (Decidable (Follows st (.transfer s addr size d)))
  | .close d addr size s => inferInstanceAs (Decidable (Follows st (.close d addr size s)))
  | .poll d s mapped => inferInstanceAs (Decidable (Follows st (.poll d s mapped)))
  | .deliver _ _ | .pollForAccept _ | .pollForTransfer _ | .pollForClose _ => .isTrue trivial

instance (st : State Server) (act : Action) : Decidable (ReusesInPlace st act) :=
  match act with
  | .allocate _ _ _ _ => inferInstanceAs (Decidable (∀ _ ∈ _, _))
  | .deallocate _ _ | .write _ _ _ _ | .prepare _ _ _ _ | .transfer _ _ _ _ | .close _ _ _ _
  | .poll _ _ _ | .deliver _ _ | .pollForAccept _ | .pollForTransfer _ | .pollForClose _ =>
      .isTrue trivial

instance (st : State Server) (act : Action) : Decidable (Keeps st act) :=
  inferInstanceAs (Decidable (_ ∧ _))

/-! ## Runs -/

/-- The calls of one migration from `s` to `d` until the segment has been received. -/
def migration (s d : Int) (addr size : Nat) : List Action :=
  [.prepare s addr size d, .deliver s d, .poll d s (some addr), .deliver d s, .poll s d none,
    .pollForAccept s, .transfer s addr size d, .deliver s d, .poll d s none]

def conclusion (s d : Int) (addr size : Nat) : List Action :=
  [.close d addr size s, .deliver d s, .poll s d none, .deallocate s addr]

end RdmaMigration.Migration.System
