import Mathlib.Logic.Function.Basic
import RdmaMigration.Manager.Allocate

/-! # The migration calls of one manager

The API calls and the poller's handlers. A call returns the message it posts, a
handler the message it answers with. A dereferenced end iterator or null pointer
is a `Fault`: the asserts of the source only log.
-/

namespace RdmaMigration.Manager

open Lib Network Paging

theorem bind_eq_ok {ε α β : Type} {x : Except ε α} {f : α → Except ε β} {y : β} :
    (x >>= f) = .ok y ↔ ∃ a, x = .ok a ∧ f a = .ok y := by
  cases x with
  | error e => simp [bind, Except.bind]
  | ok a => simp [bind, Except.bind]

theorem toOption_eq_some {ε α : Type} {x : Except ε α} {a : α} (h : x.toOption = some a) :
    x = .ok a := by
  cases x with
  | error e => simp [Except.toOption] at h
  | ok b => simpa [Except.toOption] using h

def deref {α : Type} (fault : Fault) : Option α → Except Fault α
  | none => .error fault
  | some a => .ok a

@[simp] theorem deref_eq_ok {α : Type} {fault : Fault} {x : Option α} {a : α} :
    deref fault x = .ok a ↔ x = some a := by
  cases x <;> simp [deref]

namespace Server

/-! ## Registrations and remote reads -/

def setConnection (s : Server) (peer : Int) (c : Connection) : Server :=
  { s with connections := Function.update s.connections peer c }

def registerMemory (s : Server) (peer : Int) (addr size : Nat) : Server :=
  { s.setConnection peer ((s.connections peer).registerMemory addr size s.nextKey) with
    nextKey := s.nextKey + 1 }

def deregisterMemory (s : Server) (peer : Int) (addr : Nat) : Except Fault Server := do
  let c ← deref .nullPointer ((s.connections peer).deregisterMemory addr)
  return s.setConnection peer c

variable {s s' remote : Server} {addr size p : Nat} {source : Int} {b : Build} {m : RdmaMessage}

theorem deregisterMemory_cases {peer : Int} (h : s.deregisterMemory peer addr = .ok s') :
    s' = s.setConnection peer ((s.connections peer).unregister addr) := by
  obtain ⟨c, hc, hret⟩ := bind_eq_ok.mp h
  cases hret
  rw [deref_eq_ok] at hc
  obtain ⟨mr, -, rfl⟩ := Option.map_eq_some_iff.mp hc
  rfl

/-- `Pull`, which is `rdma_read` of a range at its own address. The result is -1
when the range is not registered here or not known to be registered at the peer.
A read that is posted carries the key of the first region known to contain the
range. It returns the peer's current bytes if the peer still has a region under that
key that contains the range; otherwise it never completes. -/
def pull (s remote : Server) (source : Int) (addr size : Nat) : Except Fault (Server × Int) :=
  match (s.connections source).rdmaRead addr addr size with
  | none => .ok (s, -1)
  | some (_, region) =>
      if (remote.connections s.serverId).Serves region.rkey addr size then
        .ok ({ s with
          bytes := fun a => if Covers (addr, size) a then remote.bytes a else s.bytes a }, 0)
      else .error .remoteAccess

/-- The read of `pull` finds its range registered here and announced by the peer, and the
peer serves the key that was announced. -/
def Readable (s remote : Server) (source : Int) (addr size : Nat) : Prop :=
  ∃ mr region, (s.connections source).rdmaRead addr addr size = some (mr, region) ∧
    (remote.connections s.serverId).Serves region.rkey addr size

theorem pull_of_readable (h : s.Readable remote source addr size) :
    s.pull remote source addr size = .ok ({ s with
      bytes := fun a => if Covers (addr, size) a then remote.bytes a else s.bytes a }, 0) := by
  obtain ⟨mr, region, hfound, hserves⟩ := h
  simp [pull, hfound, hserves]

theorem pull_cases {result : Int} (h : s.pull remote source addr size = .ok (s', result)) :
    ((s.connections source).rdmaRead addr addr size = none ∧ s' = s ∧ result = -1) ∨
    (s.Readable remote source addr size ∧ result = 0 ∧
      s' = { s with
        bytes := fun a => if Covers (addr, size) a then remote.bytes a else s.bytes a }) := by
  unfold pull at h
  split at h
  · rename_i hnone
    cases h
    exact .inl ⟨hnone, rfl, rfl⟩
  · rename_i mr region hfound
    split at h
    · rename_i hserves
      cases h
      exact .inr ⟨⟨mr, region, hfound, hserves⟩, rfl, rfl⟩
    · cases h

/-! ## The sending side -/

def prepare (b : Build) (s : Server) (addr size : Nat) (destination : Int)
    (clientId : RDMAMemory → List Char) : Except Fault (Server × RdmaMessage) := do
  let p ← deref (if b.faultTolerant then .nullPointer else .endIterator)
    ((s.table b).lookup addr)
  let memory ← deref .nullPointer s.heap[p]?
  let s := (s.updatePair b addr destination).registerMemory destination addr size
  let m ← deref .nullPointer
    ((s.connections destination).sendPrepare addr size (clientId memory))
  return (s, m)

theorem prepare_cases {destination : Int} {clientId : RDMAMemory → List Char}
    (h : s.prepare b addr size destination clientId = .ok (s', m)) :
    ∃ p memory key, (s.table b).lookup addr = some p ∧ s.heap[p]? = some memory ∧
      s' = (s.updatePair b addr destination).registerMemory destination addr size ∧
      m = ⟨.prepare, ⟨addr, size, key⟩, clientId memory, (clientId memory).length⟩ := by
  obtain ⟨p, hp, h⟩ := bind_eq_ok.mp h
  obtain ⟨memory, hmemory, h⟩ := bind_eq_ok.mp h
  obtain ⟨m', hm, hret⟩ := bind_eq_ok.mp h
  cases hret
  rw [deref_eq_ok] at hp hmemory hm
  obtain ⟨mr, -, rfl⟩ := Option.map_eq_some_iff.mp hm
  exact ⟨p, memory, mr.rkey, hp, hmemory, rfl, rfl⟩

def transfer (b : Build) (s : Server) (addr size : Nat) (destination : Int) :
    Except Fault (Server × RdmaMessage) := do
  let p ← deref .endIterator ((s.table b).lookup addr)
  let s := s.modify p fun r => { r with owner := destination, state := .shared }
  let m ← deref .nullPointer ((s.connections destination).sendTransfer addr size)
  return (s, m)

theorem transfer_cases {destination : Int} (h : s.transfer b addr size destination = .ok (s', m)) :
    ∃ p mr, (s.table b).lookup addr = some p ∧
      (s.connections destination).registrations.lookup addr = some mr ∧
      s' = (s.modify p fun r => { r with owner := destination, state := .shared }) ∧
      m = { RdmaMessage.cleared .transfer with regionInfo := ⟨addr, size, mr.rkey⟩ } := by
  obtain ⟨p, hp, h⟩ := bind_eq_ok.mp h
  obtain ⟨m', hm, hret⟩ := bind_eq_ok.mp h
  cases hret
  rw [deref_eq_ok] at hp hm
  obtain ⟨mr, hmr, rfl⟩ := Option.map_eq_some_iff.mp hm
  exact ⟨p, mr, hp, hmr, rfl, rfl⟩

def pollForAccept (s : Server) : Option (Server × Nat) :=
  match s.incomingAccepts with
  | [] => none
  | p :: rest => some ({ s with incomingAccepts := rest }, p)

theorem pollForAccept_cases (h : s.pollForAccept = some (s', p)) :
    ∃ rest, s.incomingAccepts = p :: rest ∧ s' = { s with incomingAccepts := rest } := by
  unfold pollForAccept at h
  split at h
  · cases h
  · rename_i p' rest hqueue
    cases h
    exact ⟨rest, hqueue, rfl⟩

def peekAccept (s : Server) : Option Nat := s.incomingAccepts.head?

def pollForClose (s : Server) : Option (Server × Nat) :=
  match s.incomingDones with
  | [] => none
  | p :: rest => some ({ s with incomingDones := rest }, p)

theorem pollForClose_cases (h : s.pollForClose = some (s', p)) :
    ∃ rest, s.incomingDones = p :: rest ∧ s' = { s with incomingDones := rest } := by
  unfold pollForClose at h
  split at h
  · cases h
  · rename_i p' rest hqueue
    cases h
    exact ⟨rest, hqueue, rfl⟩

def peekClose (s : Server) : Option Nat := s.incomingDones.head?

def onAccept (b : Build) (s : Server) (addr : Nat) : Except Fault Server := do
  let p ← deref .endIterator ((s.table b).lookup addr)
  return { s with incomingAccepts := s.incomingAccepts ++ [p] }

theorem onAccept_cases (h : s.onAccept b addr = .ok s') :
    ∃ p, (s.table b).lookup addr = some p ∧
      s' = { s with incomingAccepts := s.incomingAccepts ++ [p] } := by
  obtain ⟨p, hp, hret⟩ := bind_eq_ok.mp h
  cases hret
  exact ⟨p, deref_eq_ok.mp hp, rfl⟩

def onClose (b : Build) (s : Server) (addr : Nat) (pair : Int) : Except Fault Server := do
  let s ← s.deregisterMemory pair addr
  let p ← deref .endIterator ((s.table b).lookup addr)
  return { s with incomingDones := s.incomingDones ++ [p] }

theorem onClose_cases {pair : Int} (h : s.onClose b addr pair = .ok s') :
    ∃ p, (s.table b).lookup addr = some p ∧
      s' = { s.setConnection pair ((s.connections pair).unregister addr) with
        incomingDones := s.incomingDones ++ [p] } := by
  obtain ⟨t, ht, h⟩ := bind_eq_ok.mp h
  obtain ⟨p, hp, hret⟩ := bind_eq_ok.mp h
  cases hret
  obtain rfl := deregisterMemory_cases ht
  exact ⟨p, deref_eq_ok.mp hp, rfl⟩

/-! ## The receiving side -/

/-- `accept` once `allocate` has returned: `mem` is null when nothing was mapped.
The range registered is the one asked for, the range answered the one mapped. -/
def answer (b : Build) (s : Server) (addr size : Nat) (source : Int) (mem : Option Nat) :
    Server × RdmaMessage :=
  match mem with
  | none => (s, sendDecline 0 size)
  | some mem =>
      ((s.updatePair b mem source).registerMemory source addr size, sendAccept mem size)

def accept (b : Build) (s : Server) (addr size : Nat) (source : Int) (mapped : Option Nat) :
    Except Fault (Server × RdmaMessage) :=
  let (s, result) := s.allocateAt b size 0 mapped
  result.map fun mem => s.answer b addr size source mem

theorem accept_cases {mapped : Option Nat} (h : s.accept b addr size source mapped = .ok (s', m)) :
    (mapped = none ∧ s' = s ∧ m = sendDecline 0 size) ∨
    ∃ res r, mapped = some res ∧ RDMAMemory.construct s.serverId res size 0 = some r ∧
      s' = (((s.mmap size res).insertRecord b res r).updatePair b res source).registerMemory
        source addr size ∧
      m = sendAccept res size := by
  unfold accept at h
  cases hres : s.allocateAt b size 0 mapped with
  | mk t result =>
      rw [hres] at h
      cases result with
      | error e => simp [Except.map] at h
      | ok mem =>
          rcases allocateAt_ok hres with ⟨rfl, rfl, rfl⟩ | ⟨res, r, rfl, hr, rfl, rfl⟩
          · cases h
            exact .inl ⟨rfl, rfl, rfl⟩
          · cases h
            exact .inr ⟨res, r, rfl, hr, rfl, rfl⟩

/-- `on_transfer`. With paging the bytes stay at the source for now. -/
def onTransfer (b : Build) (s remote : Server) (addr size : Nat) (source : Int) :
    Except Fault Server := do
  if b.paging then return s.updateState b addr .shared
  else
    let (s, _) ← s.pull remote source addr size
    return s.updateState b addr .clean

def receiveTransfer (b : Build) (s remote : Server) (addr size : Nat) (source : Int) :
    Except Fault Server := do
  let s ← s.onTransfer b remote addr size source
  let p ← deref .endIterator ((s.table b).lookup addr)
  return { s with incomingTransfers := s.incomingTransfers ++ [p] }

theorem receiveTransfer_cases (h : s.receiveTransfer b remote addr size source = .ok s') :
    ∃ p bytes, (s.table b).lookup addr = some p ∧
      s' = { ({ s with bytes := bytes } : Server).updateState b addr
          (if b.paging then .shared else .clean) with
        incomingTransfers := s.incomingTransfers ++ [p] } ∧
      (b.paging = false →
        ∃ result, s.pull remote source addr size = .ok ({ s with bytes := bytes }, result)) := by
  obtain ⟨t, ht, h⟩ := bind_eq_ok.mp h
  obtain ⟨p, hp, hret⟩ := bind_eq_ok.mp h
  cases hret
  rw [deref_eq_ok] at hp
  cases hpaging : b.paging with
  | true =>
      simp only [onTransfer, hpaging, if_true] at ht
      cases ht
      rw [table_updateState] at hp
      exact ⟨p, s.bytes, hp, by simp, by simp⟩
  | false =>
      simp only [onTransfer, hpaging, Bool.false_eq_true, if_false] at ht
      obtain ⟨⟨u, result⟩, hpull, hret⟩ := bind_eq_ok.mp ht
      cases hret
      obtain ⟨bytes, rfl⟩ : ∃ bytes, u = { s with bytes := bytes } := by
        rcases pull_cases hpull with ⟨-, rfl, -⟩ | ⟨-, -, rfl⟩
        · exact ⟨u.bytes, rfl⟩
        · exact ⟨_, rfl⟩
      rw [table_updateState] at hp
      exact ⟨p, bytes, hp, by simp, fun _ => ⟨result, hpull⟩⟩

def pollForTransfer (s : Server) : Option (Server × Nat) :=
  match s.incomingTransfers with
  | [] => none
  | p :: rest => some ({ s with incomingTransfers := rest }, p)

theorem pollForTransfer_cases (h : s.pollForTransfer = some (s', p)) :
    ∃ rest, s.incomingTransfers = p :: rest ∧ s' = { s with incomingTransfers := rest } := by
  unfold pollForTransfer at h
  split at h
  · cases h
  · rename_i p' rest hqueue
    cases h
    exact ⟨rest, hqueue, rfl⟩

/-- `close`. The registration goes after the message has been posted. -/
def close (b : Build) (s : Server) (addr size : Nat) (source : Int) :
    Except Fault (Server × RdmaMessage) := do
  let s ← (s.updateState b addr .clean).deregisterMemory source addr
  return (s, sendClose addr size)

theorem close_cases (h : s.close b addr size source = .ok (s', m)) :
    s' = (s.updateState b addr .clean).setConnection source
        (((s.updateState b addr .clean).connections source).unregister addr) ∧
      m = sendClose addr size := by
  obtain ⟨t, ht, hret⟩ := bind_eq_ok.mp h
  cases hret
  exact ⟨deregisterMemory_cases ht, rfl⟩

end Server

/-! ## The poller -/

inductive PollType where
  | prepare
  | accept
  | decline
  | transfer
  | done
  | getPartitions
  | sentPartitions
  | user
  deriving DecidableEq, Repr

def getMessageType : MessageType → PollType
  | .prepare => .prepare
  | .accept => .accept
  | .decline => .decline
  | .transfer => .transfer
  | .user => .user
  | .getPartitions => .getPartitions
  | .sentPartitions => .sentPartitions
  | .meminfo | .ackMeminfo | .done | .doneTransfer => .done

/-- One round of `poller_thread_method` without fault tolerance, after
`GetMessage` has taken `m` from the connection to `source`. `remote` is the
server there, and `mapped` the answer of `mmap` in `accept`. -/
def Server.handle (b : Build) (s remote : Server) (m : RdmaMessage) (source : Int)
    (mapped : Option Nat) : Except Fault (Server × Option RdmaMessage) :=
  let addr := m.regionInfo.addr
  let size := m.regionInfo.length
  match getMessageType m.messageType with
  | .prepare => do
      let (s, reply) ← s.accept b addr size source mapped
      return (s, some reply)
  | .accept => do return (← s.onAccept b addr, none)
  | .decline => do return (← s.deregisterMemory source addr, none)
  | .transfer => do return (← s.receiveTransfer b remote addr size source, none)
  | .done => do return (← s.onClose b addr source, none)
  | .getPartitions | .sentPartitions | .user => .ok (s, none)

end RdmaMigration.Manager
