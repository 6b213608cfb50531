import RdmaMigration.Lib.Bytes
import RdmaMigration.Network.Message

/-! # Reading from and writing to the peer

`rdma_read` and `rdma_write` look up the keys of the two regions, post a work request and
wait on a semaphore that the completion thread posts. They differ in every one of these
steps: the read scans the maps for regions that contain the ranges, the write indexes the
maps with the addresses; the write's request names the remote address on both ends; and the
completion handler of the write throws in the completion thread.
-/

namespace RdmaMigration.Network

open Lib

inductive Opcode where
  | rdmaRead
  | rdmaWrite
  deriving DecidableEq, Repr

structure WorkRequest where
  opcode : Opcode
  sgeAddr : Nat
  sgeLength : Nat
  lkey : Nat
  remoteAddr : Nat
  rkey : Nat
  deriving DecidableEq, Repr

/-- One end of a connection and the memories of both. The NICs know the regions that have
been registered by their keys, with address and length; the two keys of a region are the
same number. `run` is cleared when the completion thread ends. -/
structure Ends where
  conn : Connection
  run : Bool
  memory : Memory
  peerMemory : Memory
  regions : AList fun _ : Nat => Nat × Nat
  peerRegions : AList fun _ : Nat => Nat × Nat

inductive Outcome where
  /-- `rdma_write` has no result; 0 is its return. -/
  | returned (code : Int)
  | nullPointer
  /-- An exception leaves the completion thread, which ends the process. -/
  | terminated
  /-- Nobody will post the semaphore. -/
  | blocked
  deriving DecidableEq, Repr

/-! ## The NICs -/

def Grants (regions : AList fun _ : Nat => Nat × Nat) (key addr len : Nat) : Prop :=
  ∃ r ∈ regions.lookup key, r.1 ≤ addr ∧ addr + len ≤ r.1 + r.2

instance (regions : AList fun _ : Nat => Nat × Nat) (key addr len : Nat) :
    Decidable (Grants regions key addr len) :=
  inferInstanceAs (Decidable (∃ r ∈ regions.lookup key, r.1 ≤ addr ∧ addr + len ≤ r.1 + r.2))

def copyBytes (source target : Memory) (src dst n : Nat) : Memory := fun x =>
  if Covers (dst, n) x then source (src + (x - dst)) else target x

/-- What the NICs do with a request; `none` is a completion with an error. -/
def execute (e : Ends) (w : WorkRequest) : Option Ends :=
  if Grants e.regions w.lkey w.sgeAddr w.sgeLength ∧
      Grants e.peerRegions w.rkey w.remoteAddr w.sgeLength then
    match w.opcode with
    | .rdmaRead => some { e with
        memory := copyBytes e.peerMemory e.memory w.remoteAddr w.sgeAddr w.sgeLength }
    | .rdmaWrite => some { e with
        peerMemory := copyBytes e.memory e.peerMemory w.sgeAddr w.remoteAddr w.sgeLength }
  else none

/-! ## The calls -/

section Calls

variable (nic : Ends → WorkRequest → Option Ends)

/-- `ibv_post_send`, `sem_wait`, and what the completion thread does in between: it ends on
an error, `on_rdma_read_finish` returns and `on_rdma_write_finish` throws. -/
def postAndWait (e : Ends) (w : WorkRequest) : Ends × Outcome :=
  match nic e w with
  | none => ({ e with run := false }, .blocked)
  | some e' =>
      if e.run then
        match w.opcode with
        | .rdmaRead => (e', .returned 0)
        | .rdmaWrite => (e', .terminated)
      else (e', .blocked)

/-- `post_rdma_read`; the length of the element is a `uint32_t`. -/
def postRdmaRead (localAddr lkey remoteAddr rkey length : Nat) : WorkRequest :=
  ⟨.rdmaRead, localAddr, length % 2 ^ 32, lkey, remoteAddr, rkey⟩

/-- `post_rdma_write`. The element gets the remote address, and the local one is used for
nothing but the work context. -/
def postRdmaWrite (lkey remoteAddr rkey length : Nat) : WorkRequest :=
  ⟨.rdmaWrite, remoteAddr, length % 2 ^ 32, lkey, remoteAddr, rkey⟩

def rdmaRead (e : Ends) (localAddr remoteAddr len : Nat) : Ends × Outcome :=
  match e.conn.rdmaRead localAddr remoteAddr len with
  | none => (e, .returned (-1))
  | some (mr, region) =>
      postAndWait nic e (postRdmaRead localAddr mr.rkey remoteAddr region.rkey len)

/-- The index operator of `remote_registrations`: an unknown address gets a cleared entry. -/
def indexRemote (regions : AList fun _ : Nat => RemoteRegion) (addr : Nat) :
    (AList fun _ : Nat => RemoteRegion) × RemoteRegion :=
  match regions.lookup addr with
  | none => (regions.insert addr ⟨0, 0, 0⟩, ⟨0, 0, 0⟩)
  | some region => (regions, region)

/-- The index operator of `registrations` makes a null entry for an unknown address, and the
`lkey` is read through it. -/
def rdmaWrite (e : Ends) (localAddr remoteAddr len : Nat) : Ends × Outcome :=
  match e.conn.registrations.lookup localAddr with
  | none => (e, .nullPointer)
  | some mr =>
      let (remoteRegistrations, region) := indexRemote e.conn.remoteRegistrations remoteAddr
      postAndWait nic { e with conn := { e.conn with remoteRegistrations := remoteRegistrations } }
        (postRdmaWrite mr.rkey remoteAddr region.rkey len)

end Calls

def Inside {ν : Type} (regions : AList fun _ : Nat => ν) (length : ν → Nat) (addr len : Nat) :
    Prop :=
  ∃ base region, regions.lookup base = some region ∧ base ≤ addr ∧ addr + len ≤ base + length region

/-! ## The write -/

/-- Whatever the NICs do with the request, the call does not come back. -/
theorem rdmaWrite_outcome (nic : Ends → WorkRequest → Option Ends) (e : Ends) (l r len : Nat) :
    (rdmaWrite nic e l r len).2 = .nullPointer ∨ (rdmaWrite nic e l r len).2 = .terminated ∨
      (rdmaWrite nic e l r len).2 = .blocked := by
  unfold rdmaWrite
  cases e.conn.registrations.lookup l with
  | none => exact .inl rfl
  | some mr =>
      right
      dsimp only [postAndWait, postRdmaWrite]
      split
      · exact .inr rfl
      · split
        · exact .inl rfl
        · exact .inr rfl

/-- What is asked of `rdma_write`: for ranges in the registrations it returns, the peer has
the bytes, the maps are as before and reading them back changes nothing; for other ranges it
returns the error of `rdma_read`. -/
structure Counterpart (nic : Ends → WorkRequest → Option Ends) (e : Ends) (l r len : Nat) :
    Prop where
  inside : Inside e.conn.registrations Registration.length l len →
    Inside e.conn.remoteRegistrations RemoteRegion.length r len →
    ∃ e', rdmaWrite nic e l r len = (e', .returned 0) ∧
      (∀ i < len, e'.peerMemory (r + i) = e.memory (l + i)) ∧
      e'.conn.registrations = e.conn.registrations ∧
      e'.conn.remoteRegistrations = e.conn.remoteRegistrations ∧
      ∃ e'', rdmaRead nic e' l r len = (e'', .returned 0) ∧
        ∀ i < len, e''.memory (l + i) = e'.memory (l + i)
  outside : ¬ (Inside e.conn.registrations Registration.length l len ∧
    Inside e.conn.remoteRegistrations RemoteRegion.length r len) →
    ∃ e', rdmaWrite nic e l r len = (e', .returned (-1))

theorem rdma_write_never_counterpart (nic : Ends → WorkRequest → Option Ends) (e : Ends)
    (l r len : Nat) : ¬ Counterpart nic e l r len := by
  intro h
  have hreturns : ∃ e' code, rdmaWrite nic e l r len = (e', .returned code) := by
    by_cases hin : Inside e.conn.registrations Registration.length l len ∧
        Inside e.conn.remoteRegistrations RemoteRegion.length r len
    · obtain ⟨e', hwrite, -⟩ := h.inside hin.1 hin.2
      exact ⟨e', 0, hwrite⟩
    · obtain ⟨e', hwrite⟩ := h.outside hin
      exact ⟨e', -1, hwrite⟩
  obtain ⟨e', code, hwrite⟩ := hreturns
  have houtcome := rdmaWrite_outcome nic e l r len
  rw [hwrite] at houtcome
  simp at houtcome

def twoRegions (base peerBase : Nat) : Ends :=
  { conn := ⟨AList.singleton base ⟨8192, 1⟩, AList.singleton peerBase ⟨peerBase, 8192, 2⟩, []⟩
    run := true
    memory := fun a => UInt8.ofNat a
    peerMemory := fun _ => 0
    regions := AList.singleton 1 (base, 8192)
    peerRegions := AList.singleton 2 (peerBase, 8192) }

/-- Inside the regions the read returns, and the write crashes on the null entry; at their
starts it waits for ever, because the element lies outside the local region; and if both
start at one address, the handler of its completion ends the process. -/
theorem rdma_write_fails :
    (rdmaRead execute (twoRegions 4096 65536) 4196 65586 100).2 = .returned 0 ∧
      (rdmaWrite execute (twoRegions 4096 65536) 4196 65586 100).2 = .nullPointer ∧
      (rdmaWrite execute (twoRegions 4096 65536) 4096 65536 100).2 = .blocked ∧
      (rdmaWrite execute (twoRegions 4096 4096) 4096 4096 100).2 = .terminated ∧
      ¬ Counterpart execute (twoRegions 4096 65536) 4196 65586 100 := by
  refine ⟨by decide, by decide, by decide, by decide, ?_⟩
  intro h
  obtain ⟨e', hwrite, -⟩ := h.inside ⟨4096, ⟨8192, 1⟩, by decide, by decide, by decide⟩
    ⟨65536, ⟨65536, 8192, 2⟩, by decide, by decide, by decide⟩
  have hcrash : (rdmaWrite execute (twoRegions 4096 65536) 4196 65586 100).2 = .nullPointer := by
    decide
  rw [hwrite] at hcrash
  cases hcrash

end RdmaMigration.Network
