import RdmaMigration.Manager.Protocol

/-! # Containers over a manager

The calls of `RDMAContainerBase`. A container knows its own segment by the
address and size in its memory pool; `rdmaMemory` is the record the last poll
returned, which is another segment's record if the poll looked at the wrong
entry of a queue that all containers of the server share.
-/

namespace RdmaMigration.Containers

open Network Manager

structure ContainerBase where
  addr : Nat
  size : Nat
  rdmaMemory : Option Nat
  deriving DecidableEq, Repr

namespace ContainerBase

/-- `instantiate` without fault tolerance, on a segment of the pool size. When `allocate`
returns null the header of the pool is written through the null pointer. -/
def instantiate (rdmaMemory : Option Nat) (s : Server) (size : Nat) (reuse fresh : Option Nat) :
    Except Fault (ContainerBase × Server) := do
  let (s, result) := s.allocate size reuse fresh
  let memory ← deref .nullPointer (← result)
  return (⟨memory, size, rdmaMemory⟩, s)

def destroy (c : ContainerBase) (s : Server) : Except Fault Server :=
  if c.addr = 0 then .ok s else s.deallocate c.addr

def prepare (c : ContainerBase) (b : Build) (s : Server) (destination : Int)
    (clientId : RDMAMemory → List Char) : Except Fault (Server × RdmaMessage) :=
  s.prepare b c.addr c.size destination clientId

/-- `PollForAccept`. The head of the queue stays there when it is not the own
segment, and the call still returns true. -/
def pollForAccept (c : ContainerBase) (s : Server) : Except Fault (ContainerBase × Server × Bool) :=
  match s.peekAccept with
  | none => .ok ({ c with rdmaMemory := none }, s, false)
  | some p => do
      let memory ← deref .nullPointer s.heap[p]?
      if memory.vaddr = c.addr then
        match s.pollForAccept with
        | none => return ({ c with rdmaMemory := none }, s, true)
        | some (s, q) => return ({ c with rdmaMemory := some q }, s, true)
      else return ({ c with rdmaMemory := some p }, s, true)

def transfer (c : ContainerBase) (b : Build) (s : Server) :
    Except Fault (Server × Int × RdmaMessage) := do
  let p ← deref .nullPointer c.rdmaMemory
  let memory ← deref .nullPointer s.heap[p]?
  let (s, m) ← s.transfer b memory.vaddr memory.size memory.pair
  return (s, memory.pair, m)

def pollForTransfer (c : ContainerBase) (s : Server) : ContainerBase × Server × Bool :=
  match s.pollForTransfer with
  | none => (c, s, false)
  | some (s, p) => ({ c with rdmaMemory := some p }, s, true)

def close (c : ContainerBase) (b : Build) (s : Server) :
    Except Fault (Server × Int × RdmaMessage) := do
  let p ← deref .nullPointer c.rdmaMemory
  let memory ← deref .nullPointer s.heap[p]?
  let (s, m) ← s.close b memory.vaddr memory.size memory.pair
  return (s, memory.pair, m)

/-- `PollForClose` without fault tolerance. Here the call returns false when the
head of the queue is another segment. -/
def pollForClose (c : ContainerBase) (s : Server) : Except Fault (ContainerBase × Server × Bool) :=
  match s.peekClose with
  | none => .ok (c, s, false)
  | some p => do
      let memory ← deref .nullPointer s.heap[p]?
      if memory.vaddr = c.addr then
        match s.pollForClose with
        | none => throw .nullPointer
        | some (s, q) =>
            let memory ← deref .nullPointer s.heap[q]?
            let s ← s.deallocate memory.vaddr
            return ({ c with rdmaMemory := some q }, s, true)
      else return (c, s, false)

end ContainerBase

end RdmaMigration.Containers
