import RdmaMigration.Migration.Territory

/-! # Migrations deliver the data

In every state that the cluster reaches while the callers keep to the protocol and
segments lie where `allocate` asks for them, the poller finds the records of the
messages it handles, every message is entered once, and a segment arrives with the
bytes it had at `Transfer`.
-/

namespace RdmaMigration.Migration.System

open Lib Network Manager

/-- The handler of an `ACCEPT`, a `TRANSFER` or a `CLOSE` finds the record of its
address and returns. -/
def HandlersReturn (b : Build) (st : State Server) : Prop :=
  ∀ d s m rest mapped, ((st.server d).connections s).recvQueue = m :: rest →
    m.messageType = .accept ∨ m.messageType = .transfer ∨ m.messageType = .doneTransfer →
    ∃ p memory server, (st.server d).memoryMap.lookup m.regionInfo.addr = some p ∧
      (st.server d).heap[p]? = some memory ∧ memory.vaddr = m.regionInfo.addr ∧
      (popped (st.server d) s rest).handle b (st.server s) m s mapped = .ok (server, none)

/-- Messages are handled once and in order, a handled `PREPARE` has been answered
with one `ACCEPT`, and the entries ever made in the three queues are the records
of the handled messages, one each. -/
structure EnteredOnce (st : State Server) : Prop where
  inOrder : ∀ s d, st.posted s d = st.handledFrom s d ++
    (((st.server d).connections s).recvQueue ++ st.wire s d)
  accepted : ∀ s d, addresses .accept (st.posted d s) = addresses .prepare (st.handledFrom s d)
  accepts : ∀ i, Refers ((st.server i).heap.map RDMAMemory.extent)
    (st.polledAccepts i ++ (st.server i).incomingAccepts)
    (addresses .accept ((st.handled i).map Prod.snd))
  transfers : ∀ i, Refers ((st.server i).heap.map RDMAMemory.extent)
    (st.polledTransfers i ++ (st.server i).incomingTransfers)
    (addresses .transfer ((st.handled i).map Prod.snd))
  dones : ∀ i, Refers ((st.server i).heap.map RDMAMemory.extent)
    (st.polledDones i ++ (st.server i).incomingDones)
    (addresses .doneTransfer ((st.handled i).map Prod.snd))

/-- When the poller enters a received segment, its bytes are the ones the source
had when it called `Transfer`. -/
def BytesArrive (b : Build) (st : State Server) : Prop :=
  ∀ d s m rest mapped server reply, ((st.server d).connections s).recvQueue = m :: rest →
    m.messageType = .transfer →
    (popped (st.server d) s rest).handle b (st.server s) m s mapped = .ok (server, reply) →
    (∃ p, server.incomingTransfers = (st.server d).incomingTransfers ++ [p] ∧
      (st.server d).memoryMap.lookup m.regionInfo.addr = some p) ∧
    ∀ a, Covers (m.regionInfo.addr, m.regionInfo.length) a →
      server.bytes a = st.snapshot s m.regionInfo.addr a

section Parts

variable {b : Build} {st : State Server}

theorem Core.head_apart (h : Core st.net) {d s : Int} {m : RdmaMessage} {rest : List RdmaMessage}
    (hqueue : ((st.server d).connections s).recvQueue = m :: rest) : d ≠ s := by
  rintro rfl
  have hmem : m ∈ st.net.queue d d := head_mem hqueue
  simp [h.apart] at hmem

theorem handlers_return {n : Nat} {blocks : List (Nat × Nat)} (hb : b.faultTolerant = false)
    (h : Core st.net) (hterritory : Territory n blocks st) : HandlersReturn b st := by
  intro d s m rest mapped hqueue htype
  have hne := h.head_apart hqueue
  have hfinds : ∃ p n server, (st.net.server d).memoryMap.lookup m.regionInfo.addr = some p ∧
      (st.net.server d).extents[p]? = some (m.regionInfo.addr, n) ∧
      (popped (st.server d) s rest).handle b (st.server s) m s mapped = .ok (server, none) := by
    rcases htype with htype | htype | htype
    · obtain ⟨p, n, server, hp, hextent, hcall, -⟩ := handle_accept hb h hqueue htype
      exact ⟨p, n, server, hp, hextent, hcall⟩
    · obtain ⟨p, server, hp, hextent, hcall, -⟩ := handle_transfer mapped hb h hne hqueue htype
        fun _ => hterritory.readable h hne hqueue htype
      exact ⟨p, _, server, hp, hextent, hcall⟩
    · obtain ⟨p, n, server, hp, hextent, hcall, -⟩ := handle_close hb h hne hqueue htype
      exact ⟨p, n, server, hp, hextent, hcall⟩
  obtain ⟨p, n, server, hp, hextent, hcall⟩ := hfinds
  have hmap : ((st.server d).heap.map RDMAMemory.extent)[p]? = some (m.regionInfo.addr, n) :=
    hextent
  rw [List.getElem?_map] at hmap
  obtain ⟨memory, hmemory, heq⟩ := Option.map_eq_some_iff.mp hmap
  exact ⟨p, memory, server, hp, hmemory, congrArg Prod.fst heq, hcall⟩

theorem bytes_arrive (hb : b.faultTolerant = false) (hpaging : b.paging = false)
    (h : Core st.net) : BytesArrive b st := by
  intro d s m rest mapped server reply hqueue htype hcall
  have hne := h.head_apart hqueue
  obtain ⟨-, p, hp, -, hface⟩ := handled_transfer hb h hne hqueue htype hcall
  refine ⟨⟨p, congrArg Face.transfers hface, hp⟩, ?_⟩
  intro a ha
  have hbytes := congrFun (congrArg Face.bytes hface) a
  dsimp only at hbytes
  rw [if_pos ⟨hpaging, ha⟩] at hbytes
  exact hbytes.trans ((h.sound s d m (head_mem hqueue)).bytes htype a ha)

/-! ## Sizes -/

/-- Every segment is smaller than `2 ^ 31` bytes. -/
def Small (stage : Int → Nat → Stage Int) : Prop := ∀ i addr, (stage i addr).size < 2 ^ 31

theorem Small.update {stage : Int → Nat → Stage Int} (h : Small stage) {i : Int} {addr : Nat}
    {v : Stage Int} (hv : v.size < 2 ^ 31) : Small (update₂ stage i addr v) := by
  intro x y
  by_cases hxy : (x, y) = (i, addr)
  · simp only [Prod.mk.injEq] at hxy
    rw [hxy.1, hxy.2, update₂_self]
    exact hv
  · rw [update₂_ne _ _ hxy]
    exact h x y

theorem size_preparedFor (d : Int) (stage : Stage Int) :
    (preparedFor d stage).size = stage.size := by
  cases stage <;> rfl

theorem size_givenTo (d : Int) (stage : Stage Int) : (givenTo d stage).size = stage.size := by
  cases stage <;> rfl

theorem size_closedBy (d : Int) (stage : Stage Int) : (closedBy d stage).size = stage.size := by
  cases stage with
  | given size destination prepared =>
      by_cases hd : destination = d
      · simp [closedBy, hd, Stage.size]
      · simp [closedBy, hd]
  | absent | held | accepted => rfl

theorem size_afterHandling (source : Int) (m : RdmaMessage) (reply : Option RdmaMessage)
    (stage : Stage Int) :
    (afterHandling source m reply stage).size = stage.size ∨
      ((m.messageType = .prepare ∨ m.messageType = .transfer) ∧
        (afterHandling source m reply stage).size = m.regionInfo.length) := by
  unfold afterHandling
  cases htype : m.messageType with
  | prepare =>
      simp only [getMessageType]
      split
      · exact .inr ⟨by simp, rfl⟩
      · exact .inl rfl
  | transfer => exact .inr ⟨by simp, rfl⟩
  | doneTransfer | done | meminfo | ackMeminfo => exact .inl (size_closedBy _ _)
  | accept | decline | getPartitions | sentPartitions | user => exact .inl rfl

theorem step_small {act : Action} {st' : State Server} (h : Core st.net) (hsmall : Small st.stage)
    (hfollows : Follows st act) (hstep : step b st act = some st') : Small st'.stage := by
  cases step_cases hstep with
  | allocate i size reuse fresh =>
      unfold allocateStep
      split
      · exact hsmall.update hfollows
      · exact hsmall
  | deallocate => exact hsmall.update (by simp [Stage.size])
  | prepare s addr size d _ _ hstep =>
      obtain ⟨⟨server, m⟩, -, hret⟩ := Option.bind_eq_some_iff.mp hstep
      cases hret
      exact hsmall.update (by rw [size_preparedFor]; exact hsmall s addr)
  | transfer s addr size d _ _ hstep =>
      obtain ⟨⟨server, m⟩, -, hret⟩ := Option.bind_eq_some_iff.mp hstep
      cases hret
      exact hsmall.update (by rw [size_givenTo]; exact hsmall s addr)
  | poll d s mapped _ _ hstep =>
      obtain ⟨m, rest, server, reply, hqueue, -, -, -, hst'⟩ := pollStep_cases hstep
      have hstage : st'.stage = update₂ st.stage d m.regionInfo.addr
          (afterHandling s m reply (st.stage d m.regionInfo.addr)) := congrArg State.stage hst'
      rw [hstage]
      refine hsmall.update ?_
      rcases size_afterHandling s m reply (st.stage d m.regionInfo.addr) with
        hsame | ⟨htype | htype, hsize⟩
      · rw [hsame]
        exact hsmall d _
      · rw [hsize]
        exact ((h.sound s d m (head_mem hqueue)).prepared htype).2
      · obtain ⟨prepared, hgiven⟩ := h.transfer_given (head_mem hqueue) htype
        have hsource := hsmall s m.regionInfo.addr
        rw [show st.stage s m.regionInfo.addr = _ from hgiven] at hsource
        rw [hsize]
        exact hsource
  | close d addr size s _ _ hstep =>
      obtain ⟨⟨server, m⟩, -, hret⟩ := Option.bind_eq_some_iff.mp hstep
      cases hret
      exact hsmall
  | deliver s d _ _ hstep =>
      unfold deliverStep at hstep
      split at hstep
      · cases hstep
      · cases hstep
        exact hsmall
  | write | pollForAccept | pollForTransfer | pollForClose => exact hsmall

theorem permits_of_follows {act : Action} (hsmall : Small st.stage) (hfollows : Follows st act) :
    Permits st act := by
  cases act with
  | allocate => trivial
  | prepare s addr size d =>
      refine ⟨hfollows, ?_⟩
      rw [← hfollows.2]
      exact hsmall s addr
  | deallocate | write | transfer | close | deliver | poll | pollForAccept | pollForTransfer
  | pollForClose => exact hfollows

end Parts

/-- The callers keep to the protocol, and every mapping is made where `allocate` asks
for it. -/
def KeepsInPlace (n : Nat) (st : State Server) (act : Action) : Prop :=
  Follows st act ∧ ByMember n act ∧ MapsInPlace st act

instance (n : Nat) (st : State Server) (act : Action) : Decidable (KeepsInPlace n st act) :=
  inferInstanceAs (Decidable (_ ∧ _))

structure DeliveryInv (n : Nat) (st : State Server) : Prop where
  base : Inv st.net
  small : Small st.stage
  territory : ∃ blocks, Territory n blocks st

theorem step_deliveryInv {b : Build} {n : Nat} {st st' : State Server} {act : Action}
    (hb : b.faultTolerant = false) (h : DeliveryInv n st) (hok : KeepsInPlace n st act)
    (hstep : step b st act = some st') : DeliveryInv n st' := by
  obtain ⟨hfollows, hmember, hplace⟩ := hok
  obtain ⟨blocks, hblocks⟩ := h.territory
  have hpermits := permits_of_follows h.small hfollows
  exact ⟨step_inv hb h.base hpermits hplace.reuses hstep,
    step_small h.base.core h.small hfollows hstep,
    step_territory hb hblocks h.base hpermits hmember hplace hstep⟩

/-- For any number of migrations between any servers, in any interleaving. -/
theorem migrations_deliver {b : Build} (hb : b.faultTolerant = false) (hpaging : b.paging = false)
    {n : Nat} {st : State Server} (h : Reaches (step b) (KeepsInPlace n) (initial n) st) :
    HandlersReturn b st ∧ EnteredOnce st ∧ BytesArrive b st := by
  have hinitial : DeliveryInv n (initial n) :=
    ⟨initial_inv n, by simp [Small, initial, Stage.size], [], initial_territory n⟩
  have hinv := h.invariant (fun _ _ _ hi hok hstep => step_deliveryInv hb hi hok hstep) hinitial
  obtain ⟨blocks, hblocks⟩ := hinv.territory
  have hlogs := hinv.base.logs
  exact ⟨handlers_return hb hinv.base.core hblocks,
    ⟨hlogs.posted, hlogs.replies, hlogs.accepts, hlogs.transfers, hlogs.dones⟩,
    bytes_arrive hb hpaging hinv.base.core⟩

/-- Two segments cross between two servers; both `TRANSFER`s wait to be handled. -/
theorem migrations_deliver_crossing :
    ∃ st, Reaches (step ⟨false, false⟩) (KeepsInPlace 2) (initial 2) st ∧
    (st.head 1 0).map (·.messageType) = some .transfer ∧
    (st.head 0 1).map (·.messageType) = some .transfer ∧
    HandlersReturn ⟨false, false⟩ st ∧ EnteredOnce st ∧ BytesArrive ⟨false, false⟩ st := by
  have hrun : (checkedRun (step ⟨false, false⟩) (KeepsInPlace 2) (initial 2)
      [.allocate 0 4096 none (some (2 ^ 44)), .allocate 1 8192 none (some (2 ^ 46)),
        .write 0 (2 ^ 44) 5 7, .prepare 0 (2 ^ 44) 4096 1, .prepare 1 (2 ^ 46) 8192 0,
        .deliver 0 1, .deliver 1 0, .poll 1 0 (some (2 ^ 44)), .poll 0 1 (some (2 ^ 46)),
        .deliver 0 1, .deliver 1 0, .poll 0 1 none, .poll 1 0 none, .pollForAccept 0,
        .pollForAccept 1, .transfer 0 (2 ^ 44) 4096 1, .transfer 1 (2 ^ 46) 8192 0,
        .deliver 0 1, .deliver 1 0]).map
      (fun st => ((st.head 1 0).map (·.messageType), (st.head 0 1).map (·.messageType))) =
      some (some .transfer, some .transfer) := by
    decide +kernel
  obtain ⟨st, hreach, hheads⟩ := reaches_of_map_checkedRun hrun
  obtain ⟨h10, h01⟩ := Prod.mk.inj hheads
  exact ⟨st, hreach, h10, h01, migrations_deliver rfl rfl hreach⟩

def nextByte (b : Build) (st : State Server) (d s : Int) (a : Nat) :
    Option (RdmaMessage × UInt8 × UInt8) :=
  match ((st.server d).connections s).recvQueue with
  | [] => none
  | m :: rest =>
      match (popped (st.server d) s rest).handle b (st.server s) m s none with
      | .error _ => none
      | .ok (server, _) => some (m, server.bytes a, st.snapshot s m.regionInfo.addr a)

theorem not_bytesArrive {b : Build} {st : State Server} {d s : Int} {a : Nat} {m : RdmaMessage}
    {found sent : UInt8} (h : nextByte b st d s a = some (m, found, sent))
    (htype : m.messageType = .transfer) (ha : Covers (m.regionInfo.addr, m.regionInfo.length) a)
    (hne : found ≠ sent) : ¬ BytesArrive b st := by
  intro harrive
  unfold nextByte at h
  split at h
  · simp at h
  · rename_i m' rest hqueue
    split at h
    · simp at h
    · rename_i server reply hcall
      simp only [Option.some.injEq, Prod.mk.injEq] at h
      obtain ⟨rfl, rfl, rfl⟩ := h
      exact hne ((harrive d s m' rest none server reply hqueue htype hcall).2 a ha)

def nextReturns (b : Build) (st : State Server) (d s : Int) : Option (MessageType × Bool) :=
  match ((st.server d).connections s).recvQueue with
  | [] => none
  | m :: rest => some (m.messageType,
      ((popped (st.server d) s rest).handle b (st.server s) m s none).isOk)

theorem not_handlersReturn {b : Build} {st : State Server} {d s : Int}
    (h : nextReturns b st d s = some (.transfer, false)) : ¬ HandlersReturn b st := by
  intro hreturn
  unfold nextReturns at h
  split at h
  · simp at h
  · rename_i m rest hqueue
    simp only [Option.some.injEq, Prod.mk.injEq] at h
    obtain ⟨-, -, server, -, -, -, hcall⟩ := hreturn d s m rest none hqueue (.inr (.inl h.1))
    rw [hcall] at h
    simp [Except.isOk, Except.toBool] at h

/-- In the first run the segment at `2 ^ 44` goes from server 0 to server 1 and comes
back, so that server 0 has it once in use and once on a free list. When it is on its
way again, `allocate` finds the free record; `mmap` has to place the new memory
elsewhere, but the caller is given the address in use, and writes there. In the second
run a block is mapped one page behind the address asked for, inside a block that was
migrated, closed and freed before; its `TRANSFER` reads with the old block's key, which
the source has given up. -/
theorem misplaced_segments_not_delivered :
    (∃ st, Reaches (step ⟨false, false⟩) Follows (initial 2) st ∧
      ¬ BytesArrive ⟨false, false⟩ st) ∧
    ∃ st, Reaches (step ⟨false, false⟩) Keeps (initial 2) st ∧
      ¬ HandlersReturn ⟨false, false⟩ st := by
  constructor
  · have hrun : (checkedRun (step ⟨false, false⟩) Follows (initial 2)
        ([.allocate 0 4096 none (some (2 ^ 44))] ++ migration 0 1 (2 ^ 44) 4096 ++
          conclusion 0 1 (2 ^ 44) 4096 ++ migration 1 0 (2 ^ 44) 4096 ++
          conclusion 1 0 (2 ^ 44) 4096 ++ (migration 0 1 (2 ^ 44) 4096).take 7 ++
          [.allocate 0 4096 (some (2 ^ 44 + 8192)) none, .write 0 (2 ^ 44) 0 7,
            .deliver 0 1])).map
        (fun st => (nextByte ⟨false, false⟩ st 1 0 (2 ^ 44)).map fun (m, found, sent) =>
          (m.messageType, m.regionInfo.addr, m.regionInfo.length, found, sent)) =
        some (some (.transfer, 2 ^ 44, 4096, 7, 0)) := by
      decide +kernel
    obtain ⟨st, hreach, hbyte⟩ := reaches_of_map_checkedRun hrun
    obtain ⟨⟨m, found, sent⟩, hnext, heq⟩ := Option.map_eq_some_iff.mp hbyte
    simp only [Prod.mk.injEq] at heq
    obtain ⟨htype, haddr, hlen, hfound, hsent⟩ := heq
    refine ⟨st, hreach, not_bytesArrive hnext htype ?_ ?_⟩
    · rw [haddr, hlen]
      decide
    · rw [hfound, hsent]
      decide
  · have hrun : (checkedRun (step ⟨false, false⟩) Keeps (initial 2)
        ([.allocate 0 100 none (some (2 ^ 44)),
            .allocate 0 8292 none (some (2 ^ 44 + 4096))] ++
          migration 0 1 (2 ^ 44 + 4096) 8292 ++ conclusion 0 1 (2 ^ 44 + 4096) 8292 ++
          [.deallocate 1 (2 ^ 44 + 4096), .allocate 0 100 none (some (2 ^ 44 + 12288))] ++
          (migration 0 1 (2 ^ 44 + 12288) 100).take 8)).map
        (fun st => nextReturns ⟨false, false⟩ st 1 0) = some (some (.transfer, false)) := by
      decide +kernel
    obtain ⟨st, hreach, hnext⟩ := reaches_of_map_checkedRun hrun
    exact ⟨st, hreach, not_handlersReturn hnext⟩

end RdmaMigration.Migration.System
