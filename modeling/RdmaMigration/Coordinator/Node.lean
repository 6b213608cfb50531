import RdmaMigration.Coordinator.ZooKeeper
import RdmaMigration.Manager.Protocol

/-! # The records of `RDMAMemNode` in ZooKeeper

What `RDMAMemNode` keeps about each segment and each server. Every operation
reads a node and writes it back under the version it read, and other clients may
change the store in front of each of its requests.
-/

namespace RdmaMigration.Coordinator

open Lib Manager

/-- The store as one call finds it. `others` is what the other clients do in front
of each request of the call, and `failed` says that a request was not answered
with `ZOK`. -/
structure Session where
  store : Store
  others : List (Store → Store)
  failed : Bool

def Session.arrive (s : Session) : Session :=
  match s.others with
  | [] => s
  | meanwhile :: rest => { s with store := meanwhile s.store, others := rest }

/-- A call of the coordinator: it returns or throws. -/
abbrev Zk := StateT Session (Except Fault)

namespace Zk

theorem bind_eq_ok {α β : Type} {x : Zk α} {f : α → Zk β} {s : Session} {r : β × Session} :
    (x >>= f) s = .ok r ↔ ∃ a t, x s = .ok (a, t) ∧ f a t = .ok r := by
  have hbind : (x >>= f) s = (x s >>= fun p => f p.1 p.2) := rfl
  rw [hbind, Manager.bind_eq_ok]
  constructor
  · rintro ⟨⟨a, t⟩, hx, hf⟩
    exact ⟨a, t, hx, hf⟩
  · rintro ⟨a, t, hx, hf⟩
    exact ⟨(a, t), hx, hf⟩

theorem pure_eq_ok {α : Type} {a : α} {s : Session} {r : α × Session} :
    (pure a : Zk α) s = .ok r ↔ r = (a, s) := by
  constructor
  · intro h
    exact (Except.ok.inj h).symm
  · rintro rfl
    rfl

def orThrow {α : Type} (fault : Fault) (x : Option α) : Zk α := fun s =>
  (deref fault x).map fun a => (a, s)

theorem orThrow_eq_ok {α : Type} {fault : Fault} {x : Option α} {s : Session} {r : α × Session} :
    orThrow fault x s = .ok r ↔ ∃ a, x = some a ∧ r = (a, s) := by
  cases x with
  | none => simp [orThrow, deref, Except.map]
  | some a => simp [orThrow, deref, Except.map, eq_comm]

/-! ## Requests -/

def get (p : Path) : Zk (Option ZNode) := fun s =>
  let s := s.arrive
  let found := s.store.get p
  .ok (found, { s with failed := s.failed || found.isNone })

def write (request : Store → Option Store) : Zk Bool := fun s =>
  let s := s.arrive
  match request s.store with
  | some z => .ok (true, { s with store := z })
  | none => .ok (false, { s with failed := true })

def create (p : Path) (data : List Char) : Zk Bool := write fun z => z.create p data

/-- `set` under a version read before. Without one `stat` is not filled in and the
request names no version of the node. -/
def set (p : Path) (data : List Char) (version : Option Nat) : Zk Bool :=
  write fun z => version.bind fun v => z.set p data v

def remove (p : Path) (version : Option Nat) : Zk Bool :=
  write fun z => version.bind fun v => z.remove p v

end Zk

/-! ## Segment records -/

namespace Key

def address : List Char := ['a', 'd', 'd', 'r', 'e', 's', 's']

def size : List Char := ['s', 'i', 'z', 'e']

def source : List Char := ['s', 'o', 'u', 'r', 'c', 'e']

def destination : List Char := ['d', 'e', 's', 't', 'i', 'n', 'a', 't', 'i', 'o', 'n']

def clientID : List Char := ['c', 'l', 'i', 'e', 'n', 't', 'I', 'D']

end Key

/-- `map[key]`; a key that is not there is entered with an empty text. -/
def TextMap.field (m : TextMap) (key : List Char) : List Char := (m.lookup key).getD []

/-- The text of a node, which is empty when it could not be read. -/
def textOf (n : Option ZNode) : List Char := n.elim [] ZNode.data

def segmentMap (address size : Nat) (source destination id : Int) : TextMap :=
  ((((((∅ : TextMap).insert Key.address (decimal address)).insert Key.size
    (decimal size)).insert Key.source (decimalInt source)).insert Key.destination
      (decimalInt destination)).insert Key.clientID (decimalInt id))

/-- Each of the calls below returns whether the source's call returns 0. -/
def createMemorySegmentNode (address size : Nat) (source destination id : Int) : Zk Bool :=
  Zk.create (.segment id) (mapToZs (segmentMap address size source destination id))

def rewriteSegment (id : Int) (change : TextMap → TextMap) : Zk Bool := do
  let n ← Zk.get (.segment id)
  let map ← Zk.orThrow .outOfRange (zsToMap (textOf n))
  Zk.set (.segment id) (mapToZs (change map)) (n.map ZNode.version)

def updateSegmentDestination (id destination : Int) : Zk Bool :=
  rewriteSegment id fun map => map.insert Key.destination (decimalInt destination)

def cleanMemorySegment (serverId id : Int) : Zk Bool :=
  rewriteSegment id fun map =>
    (map.insert Key.source (decimalInt serverId)).insert Key.destination []

/-- `deleteMemorySegment`. That the caller is not the source of the record is only
logged: the `return -1` is commented out. -/
def deleteMemorySegment (id : Int) : Zk Bool := do
  let n ← Zk.get (.segment id)
  let _ ← Zk.orThrow .outOfRange (zsToMap (textOf n))
  Zk.remove (.segment id) (n.map ZNode.version)

def getMemorySegment (id : Int) : Zk TextMap := do
  let n ← Zk.get (.segment id)
  Zk.orThrow .outOfRange (zsToMap (textOf n))

/-! ## Process lists -/

def addToProcessList (serverId id : Int) : Zk Bool := do
  match ← Zk.get (.process serverId) with
  | none => return false
  | some n => Zk.set (.process serverId) (n.data ++ decimalInt id ++ [',']) (some n.version)

/-- `removeFromProcessList`. The result is that of the read; the write's is not
looked at. -/
def removeFromProcessList (serverId id : Int) : Zk Bool := do
  let n ← Zk.get (.process serverId)
  let ids ← Zk.orThrow .outOfRange (zsToProcessList (textOf n))
  let _ ← Zk.set (.process serverId) (processListToZs (ids.filter (· ≠ id)))
    (n.map ZNode.version)
  return n.isSome

def processList (z : Store) (serverId : Int) : List Int :=
  ((z.get (.process serverId)).bind fun n => zsToProcessList n.data).getD []

/-! ## The address counter -/

/-- The loop of `getAllocationAddress`. A round fails only if another client came
between its two requests, so there are no more rounds than the others take turns. -/
def getAllocationAddressLoop (size : Nat) : Nat → Zk Nat
  | 0 => Zk.orThrow .endIterator none
  | rounds + 1 => do
      let n ← Zk.get .allocator
      let res ← Zk.orThrow .invalidArgument (stoul (textOf n))
      if ← Zk.set .allocator (decimal (wrap64 (res + size))) (n.map ZNode.version) then return res
      else getAllocationAddressLoop size rounds

def getAllocationAddress (size : Nat) : Zk Nat := fun s =>
  getAllocationAddressLoop size (s.others.length + 1) s

end RdmaMigration.Coordinator
