import RdmaMigration.FaultTolerant.Manager
import RdmaMigration.Lib.Script

/-! # The calls, request by request

Between two requests of a call to ZooKeeper other threads of the server and other
servers go on, and each request may fail. Here the calls of the fault-tolerant
manager are scripts of their requests and of their accesses to the manager's own
state, in the order of the source; run without interference they are the calls of
`FaultTolerant.Manager`.
-/

namespace RdmaMigration.FaultTolerant

open Lib Function Network Manager Coordinator

/-- A request to ZooKeeper, a system call, or an access to `local_segments`. -/
inductive Request where
  | get (p : Path)
  | create (p : Path) (data : List Char)
  | set (p : Path) (data : List Char) (version : Option Nat)
  | remove (p : Path) (version : Option Nat)
  | mmap (size res : Nat)
  | munmap (addr size : Nat)
  | enter (addr size : Nat) (id : Int)
  | find (addr : Nat)
  | erase (addr : Nat)
  | reply (addr size : Nat) (source : Int) (mem : Option Nat)
  deriving DecidableEq, Repr

/-- `find` answers with the application id of the record it finds, `enter` with what
`allocate` returns or throws. -/
@[reducible] def Answer : Request → Type
  | .get _ => Option ZNode
  | .create _ _ | .set _ _ _ | .remove _ _ => Bool
  | .mmap _ _ | .munmap _ _ | .erase _ => Unit
  | .enter _ _ _ => Except Fault (Option Nat)
  | .find _ => Option (Option Int)
  | .reply _ _ _ _ => RdmaMessage

abbrev Steps (α : Type) := Script Request Answer Fault α

structure World where
  server : Server
  zk : Store

/-! ## What the requests do -/

def findRecord (s : Server) (addr : Nat) : Option (Option Int) :=
  (s.localSegments.lookup addr).map fun p => (s.heap[p]?).map RDMAMemory.applicationId

def enterRecord (paging : Bool) (s : Server) (addr size : Nat) (id : Int) :
    Server × Except Fault (Option Nat) :=
  s.enter (build paging) addr (RDMAMemory.construct s.serverId addr size id)

def World.attempt (w : World) (write : Option Store) (fate : Fate) : Bool × World :=
  ((w.zk.attempt write fate).2, { w with zk := (w.zk.attempt write fate).1 })

/-- A request served; its fate concerns ZooKeeper only. A `get` that fails leaves
its result empty. -/
def serve (paging : Bool) (fate : Fate) (w : World) : (r : Request) → Answer r × World
  | .get p => (if fate = .failed then none else w.zk.get p, w)
  | .create p data => w.attempt (w.zk.create p data) fate
  | .set p data version => w.attempt (version.bind fun v => w.zk.set p data v) fate
  | .remove p version => w.attempt (version.bind fun v => w.zk.remove p v) fate
  | .mmap size res => ((), { w with server := w.server.mmap size res })
  | .munmap addr size => ((), { w with server := w.server.munmap addr size })
  | .enter addr size id =>
      ((enterRecord paging w.server addr size id).2,
        { w with server := (enterRecord paging w.server addr size id).1 })
  | .find addr => (findRecord w.server addr, w)
  | .erase addr =>
      ((), { w with
        server := { w.server with localSegments := w.server.localSegments.erase addr } })
  | .reply addr size source mem =>
      ((w.server.answer (build paging) addr size source mem).2,
        { w with server := (w.server.answer (build paging) addr size source mem).1 })

theorem serve_enter {paging : Bool} {fate : Fate} {w : World} {addr size : Nat} {id : Int}
    {s : Server} {made : Except Fault (Option Nat)}
    (h : enterRecord paging w.server addr size id = (s, made)) :
    serve paging fate w (.enter addr size id) = (made, ⟨s, w.zk⟩) := by
  simp only [serve, h]

/-! ## Requests under any version

A `get` that fails leaves `stat.version` as the stack had it. -/

/-- ZooKeeper carries a request out that names the node's version, or -1. -/
def Matches (version : Int) (n : ZNode) : Prop := version = -1 ∨ version = n.version

instance (version : Int) (n : ZNode) : Decidable (Matches version n) :=
  inferInstanceAs (Decidable (_ ∨ _))

/-- The node is replaced by `new` if the version matches; `none` takes it away. -/
def replaceAt (z : Store) (p : Path) (new : ZNode → Option ZNode) (version : Int) : Option Store :=
  match z p with
  | none => none
  | some n => if Matches version n then some (update z p (new n)) else none

theorem replaceAt_some {z : Store} {p : Path} {n : ZNode} {version : Int} (hn : z p = some n)
    (h : Matches version n) (new : ZNode → Option ZNode) :
    replaceAt z p new version = some (update z p (new n)) := by
  simp [replaceAt, hn, h]

theorem replaceAt_none {z : Store} {p : Path} {version : Int}
    (h : ∀ n, z p = some n → ¬ Matches version n) (new : ZNode → Option ZNode) :
    replaceAt z p new version = none := by
  unfold replaceAt
  split
  · rfl
  · rename_i n hn
    exact if_neg (h n hn)

theorem replaceAt_eq_some {z z' : Store} {p : Path} {new : ZNode → Option ZNode} {version : Int}
    (h : replaceAt z p new version = some z') :
    ∃ n, z p = some n ∧ z' = update z p (new n) := by
  unfold replaceAt at h
  split at h
  · cases h
  · next n hn => exact ⟨n, hn, (Option.some.inj (Option.ite_none_right_eq_some.mp h).2).symm⟩

theorem matches_ofNat {version : Nat} {n : ZNode} :
    Matches (Int.ofNat version) n ↔ n.version = version := by
  unfold Matches
  simp only [Int.ofNat_eq_natCast]
  omega

/-! ## The calls of the coordinator -/

namespace Steps

def ask (r : Request) : Steps (Answer r) := Script.request r

def createMemorySegmentNode (address size : Nat) (source destination id : Int) : Steps Bool :=
  ask (.create (.segment id) (mapToZs (segmentMap address size source destination id)))

def rewriteSegment (id : Int) (change : TextMap → TextMap) : Steps Bool := do
  let n : Option ZNode ← ask (.get (.segment id))
  let map ← Script.orThrow .outOfRange (zsToMap (textOf n))
  ask (.set (.segment id) (mapToZs (change map)) (n.map ZNode.version))

def updateSegmentDestination (id destination : Int) : Steps Bool :=
  rewriteSegment id fun map => map.insert Key.destination (decimalInt destination)

def cleanMemorySegment (serverId id : Int) : Steps Bool :=
  rewriteSegment id fun map =>
    (map.insert Key.source (decimalInt serverId)).insert Key.destination []

def deleteMemorySegment (id : Int) : Steps Bool := do
  let n : Option ZNode ← ask (.get (.segment id))
  let _ ← Script.orThrow .outOfRange (zsToMap (textOf n))
  ask (.remove (.segment id) (n.map ZNode.version))

def getMemorySegment (id : Int) : Steps TextMap := do
  let n : Option ZNode ← ask (.get (.segment id))
  Script.orThrow .outOfRange (zsToMap (textOf n))

def addToProcessList (serverId id : Int) : Steps Bool := do
  let n : Option ZNode ← ask (.get (.process serverId))
  match n with
  | none => return false
  | some n => ask (.set (.process serverId) (n.data ++ decimalInt id ++ [',']) (some n.version))

def removeFromProcessList (serverId id : Int) : Steps Bool := do
  let n : Option ZNode ← ask (.get (.process serverId))
  let ids ← Script.orThrow .outOfRange (zsToProcessList (textOf n))
  let _ ← ask (.set (.process serverId) (processListToZs (ids.filter (· ≠ id)))
    (n.map ZNode.version))
  return n.isSome

/-- The loop of `getAllocationAddress`, for as many rounds as it is let run. -/
def getAllocationAddress (size : Nat) : Nat → Steps Nat
  | 0 => .throw .endIterator
  | rounds + 1 => do
      let n : Option ZNode ← ask (.get .allocator)
      let res ← Script.orThrow .invalidArgument (stoul (textOf n))
      let written : Bool ← ask (.set .allocator (decimal (wrap64 (res + size)))
        (n.map ZNode.version))
      if written then return res else getAllocationAddress size rounds

/-! ## The calls of the manager -/

def entered : Except Fault (Option Nat) → Steps (Option Nat)
  | .error e => .throw e
  | .ok result => return result

def enter (res size : Nat) (id : Int) : Steps (Option Nat) :=
  ask (.enter res size id) >>= entered

def recordSegment (serverId : Int) (address size : Nat) (id : Int) (res : Nat) :
    Steps (Option Nat) := do
  let created ← createMemorySegmentNode address size serverId (-1) id
  let listed ← if created then addToProcessList serverId id else pure false
  if listed then enter res size id
  else
    let _ : Unit ← ask (.munmap res size)
    return none

def allocate (serverId : Int) (size : Nat) (id : Int) (mapped : Option Nat) (rounds : Nat) :
    Steps (Option Nat) := do
  let address ← getAllocationAddress size rounds
  match mapped with
  | none => return none
  | some res =>
      let _ : Unit ← ask (.mmap size res)
      recordSegment serverId address size id res

/-- The local part of `deallocate`. The table is searched twice, before and after
`munmap`. -/
def forget (serverId : Int) (addr size : Nat) : Steps Unit := do
  let found : Option (Option Int) ← ask (.find addr)
  match found with
  | none => return ()
  | some _ =>
      let _ : Unit ← ask (.munmap addr size)
      let found : Option (Option Int) ← ask (.find addr)
      let record ← Script.orThrow .endIterator found
      let id ← Script.orThrow .nullPointer record
      let _ ← removeFromProcessList serverId id
      ask (.erase addr)

def deallocate (serverId id : Int) : Steps Bool := do
  let map ← getMemorySegment id
  let addr ← Script.orThrow .invalidArgument (stoul (map.field Key.address))
  let size ← Script.orThrow .invalidArgument (stoull (map.field Key.size))
  let _ ← forget serverId addr size
  deleteMemorySegment id

def allocateAt (size : Nat) (id : Int) : Option Nat → Steps (Option Nat)
  | none => return none
  | some res => do
      let _ : Unit ← ask (.mmap size res)
      enter res size id

def accept (serverId : Int) (addr size : Nat) (source id : Int) (mapped : Option Nat) :
    Steps RdmaMessage := do
  let mem ← allocateAt size id mapped
  let _ ← addToProcessList serverId id
  ask (.reply addr size source mem)

end Steps

end RdmaMigration.FaultTolerant
