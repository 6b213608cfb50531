import RdmaMigration.Containers.Base
import RdmaMigration.Manager.Ledger

/-! # One complete migration

The calls of a migration in their order, from `Prepare` to the deallocation that
the source's `PollForClose` ends with, and what they leave in the books of the
two servers: the destination has a new record of the block, the source's record
is on its free list with the destination as its owner.
-/

namespace RdmaMigration.Cluster

open Lib Network Manager Containers

/-- `Prepare` to `PollForAccept`. -/
def handshake (b : Build) (source destination : Server) (c : ContainerBase) :
    Option (Server × Server × ContainerBase) := do
  let (source', m) ← (c.prepare b source destination.serverId fun _ => []).toOption
  let (destination', m) ← (destination.accept b m.regionInfo.addr m.regionInfo.length
    source.serverId (some m.regionInfo.addr)).toOption
  let source' ← (source'.onAccept b m.regionInfo.addr).toOption
  let (c, source', _) ← (c.pollForAccept source').toOption
  return (source', destination', c)

/-- `Transfer` to `PollForTransfer`; the message goes to the pair of the record. -/
def handOver (b : Build) (source destination : Server) (c receiver : ContainerBase) :
    Option (Server × Server × ContainerBase) := do
  let (source', peer, m) ← (c.transfer b source).toOption
  if peer ≠ destination.serverId then none else
  let destination' := destination.setConnection source.serverId
    ((destination.connections source.serverId).announce m)
  let destination' ← (destination'.receiveTransfer b source' m.regionInfo.addr
    m.regionInfo.length source.serverId).toOption
  let (receiver, destination', _) := receiver.pollForTransfer destination'
  return (source', destination', receiver)

/-- `Close` to the source's `PollForClose`, which deallocates. -/
def finish (b : Build) (source destination : Server) (c receiver : ContainerBase) :
    Option (Server × Server) := do
  let (destination', peer, m) ← (receiver.close b destination).toOption
  if peer ≠ source.serverId then none else
  let source' ← (source.onClose b m.regionInfo.addr destination.serverId).toOption
  let (_, source', _) ← (c.pollForClose source').toOption
  return (source', destination')

/-- A migration from `Prepare` to the deallocation at the source, and the record
the destination then holds. -/
def migrate (b : Build) (source destination : Server) (c : ContainerBase) :
    Option (Server × Server × Nat) := do
  let (source, destination, c) ← handshake b source destination c
  let (source, destination, receiver) ← handOver b source destination c ⟨0, 0, none⟩
  let (source, destination) ← finish b source destination c receiver
  let q ← receiver.rdmaMemory
  return (source, destination, q)

section Stages

variable {b : Build} {source destination source' destination' : Server}
  {c c' receiver receiver' : ContainerBase} {p q : Nat} {block : Block}

theorem pollForAccept_ledger {s s' : Server} {flag : Bool}
    (h : c.pollForAccept s = .ok (c', s', flag)) (hq : s.ledger.accepts = [p])
    (hb : s.ledger.blocks[p]? = some block) (hv : block.vaddr = c.addr) :
    s'.ledger = { s.ledger with accepts := [] } ∧ c'.rdmaMemory = some p ∧
      c'.addr = c.addr ∧ c'.size = c.size := by
  have hqueue : s.incomingAccepts = [p] := hq
  have hpeek : s.peekAccept = some p := by simp [Server.peekAccept, hqueue]
  have hpoll : s.pollForAccept = some ({ s with incomingAccepts := [] }, p) := by
    simp [Server.pollForAccept, hqueue]
  rw [ContainerBase.pollForAccept, hpeek] at h
  obtain ⟨memory, hmemory, h⟩ := bind_eq_ok.mp h
  rw [deref_eq_ok] at hmemory
  have hvaddr : memory.vaddr = c.addr := by
    have hmap : s.ledger.blocks[p]? = some memory.block := by simp [Server.ledger, hmemory]
    rw [hb, Option.some.injEq] at hmap
    rw [← hv, hmap]
    rfl
  rw [if_pos hvaddr, hpoll] at h
  cases h
  exact ⟨rfl, rfl, rfl, rfl⟩

theorem handshake_ledger (hb : b.faultTolerant = false)
    (h : handshake b source destination c = some (source', destination', c'))
    (hempty : source.ledger.accepts = []) (hp : source.memoryMap.lookup c.addr = some p)
    (hblock : source.ledger.blocks[p]? = some block) (hv : block.vaddr = c.addr) :
    source'.ledger = source.ledger ∧
      destination'.ledger = { destination.ledger with
        blocks := destination.ledger.blocks ++ [⟨c.addr, c.size, destination.serverId⟩]
        memoryMap := destination.memoryMap.insert c.addr destination.heap.length } ∧
      c'.rdmaMemory = some p ∧ c'.addr = c.addr ∧ c'.size = c.size := by
  simp only [handshake, Option.bind_eq_bind, Option.bind_eq_some_iff, Prod.exists] at h
  obtain ⟨s₁, m₁, h₁, d₁, m₂, h₂, s₂, h₃, c₁, s₃, flag, h₄, hret⟩ := h
  cases hret
  obtain ⟨hs₁, haddr₁, hlen₁⟩ := Server.prepare_ledger (toOption_eq_some h₁)
  rw [haddr₁, hlen₁] at h₂
  obtain ⟨hd, haddr₂⟩ := Server.accept_ledger hb (toOption_eq_some h₂)
  rw [haddr₂] at h₃
  obtain ⟨p', hp', hs₂⟩ := Server.onAccept_ledger hb (toOption_eq_some h₃)
  have hmap : s₁.memoryMap = source.memoryMap := congrArg Ledger.memoryMap hs₁
  rw [hmap, hp, Option.some.injEq] at hp'
  subst hp'
  rw [hs₁, hempty, List.nil_append] at hs₂
  obtain ⟨hs₃, hrest⟩ := pollForAccept_ledger (toOption_eq_some h₄) (congrArg Ledger.accepts hs₂)
    (by rw [congrArg Ledger.blocks hs₂]; exact hblock) hv
  refine ⟨?_, hd, hrest⟩
  rw [hs₃, hs₂, ← hempty]

theorem handOver_ledger (hb : b.faultTolerant = false)
    (h : handOver b source destination c receiver = some (source', destination', receiver'))
    (hempty : destination.ledger.transfers = []) (hc : c.rdmaMemory = some p)
    (hblock : source.ledger.blocks[p]? = some block)
    (hp : source.memoryMap.lookup block.vaddr = some p)
    (hq : destination.memoryMap.lookup block.vaddr = some q) :
    source'.ledger = { source.ledger with
        blocks := source.ledger.blocks.modify p fun k =>
          { k with owner := destination.serverId } } ∧
      destination'.ledger = destination.ledger ∧ receiver'.rdmaMemory = some q := by
  simp only [handOver, Option.bind_eq_bind, Option.bind_eq_some_iff, Prod.exists] at h
  obtain ⟨s₁, peer, m, h₁, h⟩ := h
  split at h
  · simp at h
  rename_i hpeer
  obtain ⟨d₁, h₂, hret⟩ := Option.bind_eq_some_iff.mp h
  obtain ⟨p', hp', h₁⟩ := bind_eq_ok.mp (toOption_eq_some h₁)
  obtain ⟨memory, hmemory, h₁⟩ := bind_eq_ok.mp h₁
  obtain ⟨⟨s₂, m'⟩, htransfer, hret₁⟩ := bind_eq_ok.mp h₁
  cases hret₁
  rw [deref_eq_ok, hc, Option.some.injEq] at hp'
  subst hp'
  rw [deref_eq_ok] at hmemory
  have hmap : source.ledger.blocks[p]? = some memory.block := by simp [Server.ledger, hmemory]
  rw [hblock, Option.some.injEq] at hmap
  subst hmap
  have hpeer' : memory.pair = destination.serverId := by simpa using hpeer
  obtain ⟨p', hp', hs, haddr, -⟩ := Server.transfer_ledger hb htransfer
  have hpp : p' = p := Option.some.inj (hp'.symm.trans hp)
  subst hpp
  rw [haddr] at h₂
  obtain ⟨q', hq', hd⟩ := Server.receiveTransfer_ledger hb (toOption_eq_some h₂)
  have hqq : q' = q := Option.some.inj (hq'.symm.trans hq)
  subst hqq
  rw [Server.ledger_setConnection, hempty, List.nil_append] at hd
  have hqueue : d₁.incomingTransfers = [q'] := congrArg Ledger.transfers hd
  simp only [ContainerBase.pollForTransfer, Server.pollForTransfer, hqueue, Option.pure_def,
    Option.some.injEq, Prod.mk.injEq] at hret
  obtain ⟨rfl, rfl, rfl⟩ := hret
  refine ⟨by rw [hs, hpeer'], ?_, rfl⟩
  have hdrop : ({ d₁ with incomingTransfers := [] } : Server).ledger =
      { d₁.ledger with transfers := [] } := rfl
  rw [hdrop, hd, ← hempty]

theorem finish_ledger (hb : b.faultTolerant = false)
    (h : finish b source destination c receiver = some (source', destination'))
    (hempty : source.ledger.dones = []) (hreceiver : receiver.rdmaMemory = some q)
    {received : Block} (hreceived : destination.ledger.blocks[q]? = some received)
    (hv : received.vaddr = c.addr) (hp : source.memoryMap.lookup c.addr = some p)
    (hblock : source.ledger.blocks[p]? = some block) (hb' : block.vaddr = c.addr) :
    destination'.ledger = destination.ledger ∧
      source'.ledger = { source.ledger with
        freeMap := source.freeMap.insert block.size
          ((source.freeMap.lookup block.size).getD [] ++ [p]) } := by
  simp only [finish, Option.bind_eq_bind, Option.bind_eq_some_iff, Prod.exists] at h
  obtain ⟨d₁, peer, m, h₁, h⟩ := h
  split at h
  · simp at h
  obtain ⟨s₁, h₂, h⟩ := Option.bind_eq_some_iff.mp h
  simp only [Option.bind_eq_some_iff, Prod.exists] at h
  obtain ⟨c₁, s₂, flag, h₃, hret⟩ := h
  cases hret
  obtain ⟨q', hq', h₁⟩ := bind_eq_ok.mp (toOption_eq_some h₁)
  obtain ⟨memory, hmemory, h₁⟩ := bind_eq_ok.mp h₁
  obtain ⟨⟨d₂, m'⟩, hclose, hret₁⟩ := bind_eq_ok.mp h₁
  cases hret₁
  rw [deref_eq_ok, hreceiver, Option.some.injEq] at hq'
  subst hq'
  rw [deref_eq_ok] at hmemory
  have hmap : destination.ledger.blocks[q]? = some memory.block := by
    simp [Server.ledger, hmemory]
  rw [hreceived, Option.some.injEq] at hmap
  subst hmap
  obtain ⟨hd, haddr⟩ := Server.close_ledger hclose
  refine ⟨hd, ?_⟩
  have haddr' : m.regionInfo.addr = c.addr := haddr.trans hv
  rw [haddr'] at h₂
  obtain ⟨p', hp', hs₁⟩ := Server.onClose_ledger hb (toOption_eq_some h₂)
  have hpp : p' = p := Option.some.inj (hp'.symm.trans hp)
  subst hpp
  rw [hempty, List.nil_append] at hs₁
  have hs₂ := toOption_eq_some h₃
  have hqueue : s₁.incomingDones = [p'] := congrArg Ledger.dones hs₁
  rw [ContainerBase.pollForClose] at hs₂
  simp only [Server.peekClose, hqueue, List.head?_cons, Server.pollForClose] at hs₂
  obtain ⟨done, hdone, hs₂⟩ := bind_eq_ok.mp hs₂
  rw [deref_eq_ok] at hdone
  have hdoneBlock : source.ledger.blocks[p']? = some done.block := by
    rw [← congrArg Ledger.blocks hs₁]
    simp [Server.ledger, hdone]
  rw [hblock, Option.some.injEq] at hdoneBlock
  subst hdoneBlock
  have hdoneAddr : done.vaddr = c.addr := hb'
  rw [if_pos hdoneAddr] at hs₂
  obtain ⟨done', hdone', hs₂⟩ := bind_eq_ok.mp hs₂
  have hsame : done' = done := by
    rw [deref_eq_ok] at hdone'
    exact Option.some.inj (hdone'.symm.trans hdone)
  subst hsame
  obtain ⟨s₃, hdealloc, hret₂⟩ := bind_eq_ok.mp hs₂
  cases hret₂
  obtain ⟨p'', k, hp'', hk, hs₃⟩ := Server.deallocate_ledger hdealloc
  have hlookup : s₁.memoryMap = source.memoryMap := congrArg Ledger.memoryMap hs₁
  have hpp : p'' = p' := by
    have : source.memoryMap.lookup done'.vaddr = some p'' := by
      rw [← hlookup]
      exact hp''
    rw [hdoneAddr, hp] at this
    exact (Option.some.inj this).symm
  subst hpp
  have hledger : ({ s₁ with incomingDones := [] } : Server).ledger = source.ledger := by
    have hdrop : ({ s₁ with incomingDones := [] } : Server).ledger =
        { s₁.ledger with dones := [] } := rfl
    rw [hdrop, hs₁, ← hempty]
  have hkb : k = done'.block := by
    rw [hledger, hblock] at hk
    exact (Option.some.inj hk).symm
  have hfree : s₁.freeMap = source.freeMap := congrArg Ledger.freeMap hs₁
  rw [hs₃, hledger, hkb, ← hfree]

theorem migrate_ledger (hb : b.faultTolerant = false)
    (h : migrate b source destination c = some (source', destination', q))
    (haccepts : source.ledger.accepts = []) (hdones : source.ledger.dones = [])
    (htransfers : destination.ledger.transfers = []) (hp : source.memoryMap.lookup c.addr = some p)
    (hblock : source.ledger.blocks[p]? = some block) (hv : block.vaddr = c.addr) :
    q = destination.heap.length ∧
      source'.ledger = { source.ledger with
        blocks := source.ledger.blocks.modify p fun k => { k with owner := destination.serverId }
        freeMap := source.freeMap.insert block.size
          ((source.freeMap.lookup block.size).getD [] ++ [p]) } ∧
      destination'.ledger = { destination.ledger with
        blocks := destination.ledger.blocks ++ [⟨c.addr, c.size, destination.serverId⟩]
        memoryMap := destination.memoryMap.insert c.addr destination.heap.length } := by
  simp only [migrate, Option.bind_eq_bind, Option.bind_eq_some_iff, Prod.exists] at h
  obtain ⟨s₁, d₁, c₁, h₁, s₂, d₂, r, h₂, s₃, d₃, h₃, q', hq', hret⟩ := h
  cases hret
  obtain ⟨hs₁, hd₁, hc₁, haddr, -⟩ := handshake_ledger hb h₁ haccepts hp hblock hv
  have hmap₁ : s₁.memoryMap = source.memoryMap := congrArg Ledger.memoryMap hs₁
  have hdmap : d₁.memoryMap = destination.memoryMap.insert c.addr destination.heap.length :=
    congrArg Ledger.memoryMap hd₁
  have hid : d₁.serverId = destination.serverId := congrArg Ledger.serverId hd₁
  obtain ⟨hs₂, hd₂, hr⟩ := handOver_ledger hb h₂
    (by rw [congrArg Ledger.transfers hd₁]; exact htransfers) hc₁ (by rw [hs₁]; exact hblock)
    (by rw [hmap₁, hv]; exact hp) (by rw [hdmap, hv]; exact AList.lookup_insert _)
  have hmap₂ : s₂.memoryMap = source.memoryMap :=
    (congrArg Ledger.memoryMap hs₂).trans hmap₁
  have hqq : q = destination.heap.length := by
    rw [hq', Option.some.injEq] at hr
    exact hr
  have hlength : destination.ledger.blocks.length = destination.heap.length := by
    simp [Server.ledger]
  have hreceived : d₂.ledger.blocks[destination.heap.length]? =
      some ⟨c.addr, c.size, destination.serverId⟩ := by
    rw [hd₂, hd₁, ← hlength]
    simp
  have hgiven : s₂.ledger.blocks[p]? = some { block with owner := destination.serverId } := by
    rw [hs₂, hs₁]
    simp [hblock, hid]
  obtain ⟨hd₃, hs₃⟩ := finish_ledger hb h₃
    (by rw [congrArg Ledger.dones hs₂, congrArg Ledger.dones hs₁]; exact hdones) hr
    hreceived haddr.symm (by rw [hmap₂, haddr]; exact hp) hgiven (hv.trans haddr.symm)
  have hfree : s₂.freeMap = source.freeMap :=
    (congrArg Ledger.freeMap hs₂).trans (congrArg Ledger.freeMap hs₁)
  refine ⟨hqq, ?_, by rw [hd₃, hd₂, hd₁]⟩
  rw [hs₃, hfree, hs₂, hs₁, hid]

end Stages

end RdmaMigration.Cluster
