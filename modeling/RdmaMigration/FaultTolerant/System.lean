import RdmaMigration.FaultTolerant.Manager
import RdmaMigration.Lib.Run
import RdmaMigration.Lib.Update

/-! # A fault-tolerant cluster

The servers, the messages between them and the one ZooKeeper store. Every call of
a manager is a step; the requests it sends to ZooKeeper may have those of other
clients in between. The state carries a log, latest event first, of what the laws
about ids and records are stated in.
-/

namespace RdmaMigration.FaultTolerant.System

open Lib Network Manager Coordinator

/-- `accepted` and `received` name the record of server `i`. A `migrated` event is
a `PollForClose` that returned true: the record it took, the store it left, and
whether each of its requests was answered with `ZOK`. -/
inductive Event where
  | allocated (i id : Int)
  | accepted (i : Int) (p : Nat)
  | transferred (i id d : Int) (q : Nat)
  | received (i id : Int) (p : Nat)
  | migrated (i : Int) (memory : RDMAMemory) (store : Store) (answered : Bool)

structure State where
  server : Int → Server
  zk : Store
  wire : Int → Int → List RdmaMessage
  log : List Event

def servers (n : Nat) : List Int := (List.range n).map Int.ofNat

def initialStore (n : Nat) : Store
  | .allocator => some ⟨decimal allocatableRangeStart, 0⟩
  | .process i => if i ∈ servers n then some ⟨[], 0⟩ else none
  | .segment _ => none

def initial (n : Nat) : State :=
  ⟨fun i => .construct n i, initialStore n, fun _ _ => [], []⟩

inductive Action where
  | allocate (i : Int) (size : Nat) (id : Int) (mapped : Option Nat) (others : List (Store → Store))
  | deallocate (i id : Int) (others : List (Store → Store))
  | prepare (s : Int) (addr size : Nat) (d : Int)
  | transfer (s : Int) (addr size : Nat) (d : Int)
  | close (d : Int) (addr size : Nat) (s : Int) (others : List (Store → Store))
  | poll (d s : Int) (mapped : Option Nat) (others : List (Store → Store))
  | pollForAccept (i : Int)
  | pollForTransfer (i : Int)
  | pollForClose (i : Int) (addr : Nat) (others : List (Store → Store))

namespace State

def setServer (st : State) (i : Int) (s : Server) : State :=
  { st with server := Function.update st.server i s }

def post (st : State) (s d : Int) (m : Option RdmaMessage) : State :=
  { st with wire := update₂ st.wire s d (st.wire s d ++ m.toList) }

def note (st : State) (e : Option Event) : State := { st with log := e.toList ++ st.log }

def call {α : Type} (st : State) (others : List (Store → Store)) (x : Zk α) :
    Option (α × Session) :=
  (x ⟨st.zk, others, false⟩).toOption

def record (st : State) (i : Int) (addr : Nat) : Option (Nat × RDMAMemory) :=
  ((st.server i).localSegments.lookup addr).bind fun p =>
    ((st.server i).heap[p]?).map fun memory => (p, memory)

end State

/-- `mmap` never answers with null, nor with an address where the server has a
segment, whose pages are mapped. -/
def MapsFresh (s : Server) (size : Nat) (mapped : Option Nat) : Prop :=
  ∀ res ∈ mapped, 0 < res ∧ s.MapsAt size res ∧ s.localSegments.lookup res = none

instance (s : Server) (size : Nat) (mapped : Option Nat) : Decidable (MapsFresh s size mapped) :=
  inferInstanceAs (Decidable (∀ res ∈ mapped, _))

variable (paging : Bool)

def allocateStep (st : State) (i : Int) (size : Nat) (id : Int) (mapped : Option Nat)
    (others : List (Store → Store)) : Option State := do
  let ((s, result), t) ← st.call others (allocate paging (st.server i) size id mapped)
  let event := result.map fun _ => Event.allocated i id
  return { st.setServer i s with zk := t.store }.note event

def deallocateStep (st : State) (i id : Int) (others : List (Store → Store)) : Option State := do
  let ((s, _), t) ← st.call others (deallocate (st.server i) id)
  return { st.setServer i s with zk := t.store }

/-- The client id goes along in decimal. -/
def prepareStep (st : State) (s : Int) (addr size : Nat) (d : Int) : Option State := do
  let (source, m) ← ((st.server s).prepare (build paging) addr size d
    fun memory => decimalInt memory.applicationId).toOption
  return (st.setServer s source).post s d (some m)

/-- The event names the record that waits at the destination, if there is one. -/
def transferStep (st : State) (s : Int) (addr size : Nat) (d : Int) : Option State := do
  let (source, m) ← ((st.server s).transfer (build paging) addr size d).toOption
  let (_, memory) ← st.record s addr
  let waiting := ((st.server d).localSegments.lookup addr).getD (st.server d).heap.length
  return ((st.setServer s source).post s d (some m)).note
    (some (.transferred s memory.applicationId d waiting))

def closeStep (st : State) (d : Int) (addr size : Nat) (s : Int) (others : List (Store → Store)) :
    Option State := do
  let ((server, m), t) ← st.call others (close paging (st.server d) addr size s)
  return { (st.setServer d server).post d s (some m) with zk := t.store }

def handledEvent (st : State) (d : Int) (m : RdmaMessage) (reply : Option RdmaMessage) :
    Option Event :=
  match getMessageType m.messageType with
  | .prepare =>
      if reply.map RdmaMessage.messageType = some .accept then
        some (.accepted d (st.server d).heap.length)
      else none
  | .transfer =>
      (st.record d m.regionInfo.addr).map fun (p, memory) => .received d memory.applicationId p
  | _ => none

/-- The poller of `d` takes the next message from `s`, whose arrival the completion
thread has announced to the connection. -/
def pollStep (st : State) (d s : Int) (mapped : Option Nat) (others : List (Store → Store)) :
    Option State :=
  match st.wire s d with
  | [] => none
  | m :: rest => do
      if getMessageType m.messageType = .prepare ∧
          ¬ MapsFresh (st.server d) m.regionInfo.length mapped then none else
      let server := (st.server d).setConnection s (((st.server d).connections s).announce m)
      let ((server, reply), t) ← st.call others
        (handle paging server (st.server s) m s mapped)
      let st' := { st.setServer d server with zk := t.store, wire := update₂ st.wire s d rest }
      return (st'.post d s reply).note (handledEvent st d m reply)

def pollForCloseStep (st : State) (i : Int) (addr : Nat) (others : List (Store → Store)) :
    Option State := do
  let ((s, taken), t) ← st.call others (pollForClose (st.server i) addr)
  let ending := taken.map fun (memory, _) => Event.migrated i memory t.store (!t.failed)
  return { st.setServer i s with zk := t.store }.note ending

def step (n : Nat) (st : State) : Action → Option State
  | .allocate i size id mapped others =>
      if i ∈ servers n ∧ MapsFresh (st.server i) size mapped then
        allocateStep paging st i size id mapped others
      else none
  | .deallocate i id others => if i ∈ servers n then deallocateStep st i id others else none
  | .prepare s addr size d =>
      if s ∈ servers n ∧ d ∈ servers n ∧ s ≠ d then prepareStep paging st s addr size d else none
  | .transfer s addr size d =>
      if s ∈ servers n ∧ d ∈ servers n ∧ s ≠ d then transferStep paging st s addr size d else none
  | .close d addr size s others =>
      if d ∈ servers n ∧ s ∈ servers n ∧ d ≠ s then closeStep paging st d addr size s others
      else none
  | .poll d s mapped others =>
      if d ∈ servers n ∧ s ∈ servers n then pollStep paging st d s mapped others else none
  | .pollForAccept i => do
      let (s, _) ← (st.server i).pollForAccept
      return st.setServer i s
  | .pollForTransfer i => do
      let (s, _) ← (st.server i).pollForTransfer
      return st.setServer i s
  | .pollForClose i addr others =>
      if i ∈ servers n then pollForCloseStep st i addr others else none

/-! ## What a call does -/

theorem call_eq_some {α : Type} {st : State} {others : List (Store → Store)} {x : Zk α}
    {r : α × Session} (h : st.call others x = some r) : x ⟨st.zk, others, false⟩ = .ok r :=
  toOption_eq_some h

theorem pollStep_cases {paging : Bool} {st st' : State} {d s : Int} {mapped : Option Nat}
    {others : List (Store → Store)} (h : pollStep paging st d s mapped others = some st') :
    ∃ m rest server reply t, st.wire s d = m :: rest ∧
      (getMessageType m.messageType = .prepare →
        MapsFresh (st.server d) m.regionInfo.length mapped) ∧
      handle paging ((st.server d).setConnection s (((st.server d).connections s).announce m))
        (st.server s) m s mapped ⟨st.zk, others, false⟩ = .ok ((server, reply), t) ∧
      st' = ({ st.setServer d server with
        zk := t.store, wire := update₂ st.wire s d rest }.post d s reply).note
          (handledEvent st d m reply) := by
  unfold pollStep at h
  split at h
  · cases h
  · rename_i m rest hwire
    split at h
    · cases h
    · rename_i hfresh
      obtain ⟨⟨⟨server, reply⟩, t⟩, hcall, hret⟩ := Option.bind_eq_some_iff.mp h
      refine ⟨m, rest, server, reply, t, hwire, ?_, call_eq_some hcall, (Option.some.inj hret).symm⟩
      intro hprepare
      by_contra hno
      exact hfresh ⟨hprepare, hno⟩

end RdmaMigration.FaultTolerant.System
