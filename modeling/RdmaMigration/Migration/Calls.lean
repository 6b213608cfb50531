import RdmaMigration.Migration.Invariant
import RdmaMigration.Migration.Logs

/-! # The API calls keep the invariant

Allocation and deallocation, the application's writes, and the three calls that
post a message.
-/

namespace RdmaMigration.Migration.System

open Lib Function Network Manager Cluster

structure Inv (st : State Face) : Prop where
  core : Core st
  logs : Logs st

theorem initial_inv (n : Nat) : Inv (initial n).net := by
  have hqueue : ∀ s d, (initial n).net.queue s d = [] := fun _ _ => rfl
  refine ⟨⟨fun _ => rfl, fun i => ?_, fun addr s d _ => LinkInv.idle s d, fun s => hqueue s s, ?_,
    ?_⟩, ⟨fun _ _ => rfl, fun _ _ => rfl, fun _ => .nil, fun _ => .nil, fun _ => .nil⟩⟩
  · constructor
    all_goals simp [State.net, initial, Server.face, Server.construct]
  · intro s d m hm
    simp [hqueue] at hm
  · intro s d m hm
    simp [State.net, initial, Server.face, Server.construct, Connection.empty] at hm

section Calls

variable {b : Build} {st st' : State Server}

/-! ## Memory -/

theorem Core.undisturbed_map {st : State Face} (h : Core st) {i : Int} {r : Nat × Nat}
    (hroom : ∀ q ∈ (st.server i).mapped, ¬ Overlap r q) :
    Undisturbed (st.stage i) (st.server i).bytes
      fun a => if Covers r a then 0 else (st.server i).bytes a := by
  intro addr size d prepared hgiven a ha
  have hlive : st.stage i addr ≠ .absent := by simp [hgiven]
  have hspan : Covers (span addr (st.stage i addr)) a :=
    Placed.covers_span (by simpa [hgiven, Stage.size] using ha)
  have hnot : ¬ Covers r a := fun hr =>
    (h.placed i).not_overlap hroom hlive ((overlap_iff _ _).mpr ⟨a, hr, hspan⟩)
  exact if_neg hnot

theorem Core.undisturbed_write {st : State Face} (h : Core st) {i : Int} {addr : Nat}
    {bytes : Nat → UInt8} (hlive : st.stage i addr ≠ .absent)
    (hgiven : ∀ size d prepared, st.stage i addr ≠ .given size d prepared)
    (hbytes : ∀ a, ¬ Covers (span addr (st.stage i addr)) a → bytes a = (st.server i).bytes a) :
    Undisturbed (st.stage i) (st.server i).bytes bytes := by
  intro addr' size d prepared hgiven' a ha
  have hlive' : st.stage i addr' ≠ .absent := by simp [hgiven']
  have hne : addr' ≠ addr := fun heq => hgiven size d prepared (by rw [← heq, hgiven'])
  have hspan : Covers (span addr' (st.stage i addr')) a :=
    Placed.covers_span (by simpa [hgiven', Stage.size] using ha)
  exact hbytes a ((h.placed i).not_covers hlive' hlive hne hspan)

variable {addr size : Nat} {s d : Int}

theorem mem_insert_of_mem {t : AList fun _ : Nat => Nat} {addr' p : Nat} (h : addr ∈ t) :
    addr ∈ t.insert addr' p := by
  rw [AList.mem_insert]
  exact .inr h

theorem Core.absent_of_room {st : State Face} (h : Core st) {i : Int} {addr size : Nat}
    (hpos : 0 < size) (hroom : ∀ q ∈ (st.server i).mapped, ¬ Overlap (addr, Server.pageUp size) q) :
    st.stage i addr = .absent := by
  by_contra hlive
  refine (h.placed i).not_overlap hroom hlive ?_
  have hpos' := ((h.placed i).room addr hlive).1
  have hle := Server.le_pageUp size
  have hle' := Server.le_pageUp (st.stage i addr).size
  unfold Overlap span
  omega

theorem Inv.acquire {st : State Face} (h : Inv st) {i : Int} {f : Face} {addr size p : Nat}
    (hroom : ∀ q ∈ (st.server i).mapped, ¬ Overlap (addr, Server.pageUp size) q)
    (hpos : 0 < size) (hend : addr + Server.pageUp size ≤ 2 ^ 47)
    (hid : f.serverId = (st.server i).serverId)
    (hmapped : f.mapped = (addr, Server.pageUp size) :: (st.server i).mapped)
    (hmap : f.memoryMap = (st.server i).memoryMap.insert addr p)
    (hp : f.extents[p]? = some (addr, size))
    (hextents : ∀ (q : Nat) x, (st.server i).extents[q]? = some x → f.extents[q]? = some x)
    (hfree : ∀ size list p, f.freeMap.lookup size = some list → p ∈ list →
      ∃ addr, f.extents[p]? = some (addr, size)) (hbytes : f.bytes = fun a =>
      if Covers (addr, Server.pageUp size) a then 0 else (st.server i).bytes a)
    (hconnections : f.connections = (st.server i).connections)
    (hqueues : f.accepts = (st.server i).accepts ∧ f.transfers = (st.server i).transfers ∧
      f.dones = (st.server i).dones) :
    Inv ((st.setServer i f).setStage i addr (.held size [])) := by
  have habsent : st.stage i addr = .absent := h.core.absent_of_room hpos hroom
  constructor
  · refine h.core.alone hconnections (hid.trans (h.core.serverId i)) ?_
      (.inr (.inl ⟨size, habsent, rfl⟩)) ?_ ?_
    · exact (h.core.placed i).place hmapped hmap hp hextents hfree hpos hend hroom rfl
    · intro addr' haddr'
      rw [hmap]
      exact mem_insert_of_mem haddr'
    · rw [hbytes]
      exact h.core.undisturbed_map hroom
  · have hlogs := h.logs.setServer (fun s => by rw [hconnections]) hextents hqueues.1 hqueues.2.1
      hqueues.2.2
    exact ⟨hlogs.posted, hlogs.replies, hlogs.accepts, hlogs.transfers, hlogs.dones⟩

theorem Inv.setServer {st : State Face} (h : Inv st) {i : Int} {f : Face}
    (hplaced : Placed (st.stage i) f.toLayout) (hid : f.serverId = (st.server i).serverId)
    (htable : f.memoryMap = (st.server i).memoryMap) (hextents : f.extents = (st.server i).extents)
    (hbytes : Undisturbed (st.stage i) (st.server i).bytes f.bytes)
    (hconnections : f.connections = (st.server i).connections)
    (hqueues : f.accepts = (st.server i).accepts ∧ f.transfers = (st.server i).transfers ∧
      f.dones = (st.server i).dones) : Inv (st.setServer i f) := by
  constructor
  · have hcore := h.core.alone hconnections (hid.trans (h.core.serverId i))
      (by rwa [update_eq_self 0 (st.stage i)]) (.inl rfl)
      (fun addr haddr => by rwa [htable]) hbytes
    simpa [State.setStage, State.setServer] using hcore
  · exact h.logs.setServer (fun s => by rw [hconnections]) (fun q x hq => by rwa [hextents])
      hqueues.1 hqueues.2.1 hqueues.2.2

theorem allocateStep_inv (h : Inv st.net) {i : Int} {size : Nat} {reuse fresh : Option Nat}
    (hreuse : ∀ res ∈ reuse, (st.server i).MapsAt size res)
    (hfresh : ∀ res ∈ fresh, (st.server i).MapsAt size res)
    (hplace : ReusesInPlace st (.allocate i size reuse fresh)) :
    Inv (allocateStep st i size reuse fresh).net := by
  generalize hres : (st.server i).allocate size reuse fresh = outcome
  obtain ⟨s, result⟩ := outcome
  rcases Server.allocate_face hres with ⟨hnone, hface⟩ | ⟨res, rfl, rfl, hface⟩ |
    ⟨p, rest, res, memory, hfree, rfl, hmemory, rfl, hface⟩
  · have hstep : allocateStep st i size reuse fresh = st.setServer i s := by
      unfold allocateStep
      rw [hres]
      split
      · rename_i heq
        cases heq
        exact absurd rfl (hnone _)
      · rename_i heq
        cases heq
        rfl
    rw [hstep, State.net_setServer]
    rcases hface with hface | ⟨res, rfl, hface⟩
    · rw [hface]
      exact h.setServer (h.core.placed i) rfl rfl rfl (.refl _ _) rfl ⟨rfl, rfl, rfl⟩
    · rw [hface]
      exact h.setServer ((h.core.placed i).map _) rfl rfl rfl
        (h.core.undisturbed_map (hfresh res rfl).2.2.2) rfl ⟨rfl, rfl, rfl⟩
  · have hstep : allocateStep st i size reuse (some res) =
        (st.setServer i s).setStage i res (.held size []) := by
      unfold allocateStep
      rw [hres]
    obtain ⟨hpos, -, hend, hroom⟩ := hfresh res rfl
    rw [hstep, State.net_setStage, State.net_setServer, hface]
    refine h.acquire hroom hpos hend rfl rfl rfl (by simp) ?_ ?_ rfl rfl ⟨rfl, rfl, rfl⟩
    · intro q x hq
      exact getElem?_append_of_some hq
    · intro size list p hlist hp
      obtain ⟨addr, haddr⟩ := (h.core.placed i).free size list p hlist hp
      exact ⟨addr, getElem?_append_of_some haddr⟩
  · have hstep : allocateStep st i size (some res) fresh =
        (st.setServer i s).setStage i memory.vaddr (.held size []) := by
      unfold allocateStep
      rw [hres]
    have hhead : ((st.server i).freeMap.lookup size).bind List.head? = some p := by simp [hfree]
    have hvaddr : res = memory.vaddr := hplace p hhead memory hmemory res rfl
    obtain ⟨hpos, -, hend, hroom⟩ := hreuse res rfl
    obtain ⟨addr, haddr⟩ := (h.core.placed i).free size (p :: rest) p hfree List.mem_cons_self
    have hextent : (st.server i).face.extents[p]? = some (memory.vaddr, memory.size) := by
      simp [Server.face, hmemory, RDMAMemory.extent]
    have hp : (st.server i).face.extents[p]? = some (memory.vaddr, size) := by
      have heq : (st.server i).face.extents[p]? = some (addr, size) := haddr
      rw [hextent, Option.some.injEq, Prod.mk.injEq] at heq
      rw [hextent, heq.2]
    rw [hstep, State.net_setStage, State.net_setServer, hface, ← hvaddr]
    rw [← hvaddr] at hp
    refine h.acquire hroom hpos hend rfl rfl rfl hp (fun q x hq => hq) ?_ rfl rfl
      ⟨rfl, rfl, rfl⟩
    intro size' list q hlist hq
    rcases Server.lookup_popFree hfree hlist with ⟨rfl, rfl⟩ | ⟨-, hold⟩
    · exact (h.core.placed i).free _ _ q hfree (List.mem_cons_of_mem _ hq)
    · exact (h.core.placed i).free _ _ q hold hq

theorem eq_held_of_isHeld {stage : Stage Int} (h : isHeld stage = true) :
    ∃ prepared, stage = .held stage.size prepared := by
  cases stage with
  | held size prepared => exact ⟨prepared, rfl⟩
  | absent | given | accepted => simp [isHeld] at h

theorem deallocateStep_inv (h : Inv st.net) {i : Int} {addr : Nat} {s : Server}
    (hs : (st.server i).deallocate addr = .ok s) (hkeeps : isHeld (st.stage i addr) = true) :
    Inv ((st.setServer i s).setStage i addr .absent).net := by
  obtain ⟨prepared, hheld⟩ := eq_held_of_isHeld hkeeps
  have hlive : st.net.stage i addr ≠ .absent := by
    intro habsent
    rw [show st.stage i addr = .absent from habsent] at hheld
    cases hheld
  obtain ⟨p, memory, hp, hmemory, hface⟩ := Server.deallocate_face hs
  obtain ⟨p', hp', hextent⟩ := (h.core.placed i).live addr hlive
  have hpp : p' = p := Option.some.inj (hp'.symm.trans hp)
  rw [hpp] at hextent
  have hmem : memory.vaddr = addr ∧ memory.size = (st.stage i addr).size := by
    have hget : (st.server i).face.extents[p]? = some memory.extent := by
      simp [Server.face, hmemory]
    have heq := Option.some.inj (hget.symm.trans hextent)
    exact ⟨congrArg Prod.fst heq, congrArg Prod.snd heq⟩
  rw [hmem.1, hmem.2] at hface
  rw [State.net_setStage, State.net_setServer, hface]
  constructor
  · exact h.core.alone rfl (h.core.serverId i) ((h.core.placed i).release hlive hextent)
      (.inr (.inr ⟨_, prepared, hheld, rfl⟩)) (fun _ haddr => haddr) (.refl _ _)
  · have hlogs : Logs (st.net.setServer i { (st.server i).face with
        mapped := cut (span addr (st.stage i addr)) (st.server i).mapped
        freeMap := (st.server i).freeMap.insert (st.stage i addr).size
          (((st.server i).freeMap.lookup (st.stage i addr).size).getD [] ++ [p]) }) :=
      h.logs.setServer (fun _ => rfl) (fun _ _ hq => hq) rfl rfl rfl
    exact ⟨hlogs.posted, hlogs.replies, hlogs.accepts, hlogs.transfers, hlogs.dones⟩

theorem write_inv (h : Inv st.net) {i : Int} {addr offset : Nat} {value : UInt8}
    (hfollows : Follows st (.write i addr offset value)) :
    Inv (st.setServer i { st.server i with
      bytes := update (st.server i).bytes (addr + offset) value }).net := by
  obtain ⟨hheld, hoffset⟩ := hfollows
  obtain ⟨prepared, hstage⟩ := eq_held_of_isHeld hheld
  have hle := Server.le_pageUp (st.stage i addr).size
  rw [State.net_setServer]
  refine h.setServer (h.core.placed i) rfl rfl rfl ?_ rfl ⟨rfl, rfl, rfl⟩
  refine h.core.undisturbed_write (?_ : st.net.stage i addr ≠ .absent) ?_ ?_
  · intro habsent
    rw [show st.stage i addr = .absent from habsent] at hstage
    cases hstage
  · intro size d prepared' hgiven
    rw [show st.stage i addr = _ from hgiven] at hstage
    cases hstage
  · intro a ha
    have hne : a ≠ addr + offset := by
      rintro rfl
      apply ha
      change Covers (addr, Server.pageUp (st.stage i addr).size) (addr + offset)
      unfold Covers
      omega
    exact update_of_ne hne _ _

/-! ## Calls that post a message -/

/-- Server `i` has posted `m` to `j`, about the segment at `addr`, and `c` has become its
connection. -/
structure Sends (st : State Face) (i j : Int) (addr : Nat) (c : Connection) (m : RdmaMessage) :
    Prop where
  ne : i ≠ j
  registrations : ∀ addr', addr' ≠ addr → c.registrations.lookup addr' =
    ((st.server i).connections j).registrations.lookup addr'
  received : c.recvQueue = ((st.server i).connections j).recvQueue
  remote : c.remoteRegistrations = ((st.server i).connections j).remoteRegistrations
  addr : m.regionInfo.addr = addr

theorem connections_setConnection (f : Face) (j : Int) (c : Connection) :
    (f.setConnection j c).connections j = c := by
  simp [Face.setConnection]

theorem Sends.isLocal {st : State Face} {i j : Int} {c : Connection} {v : Stage Int} {owing : Bool}
    {m : RdmaMessage} (h : Sends st i j addr c m) :
    Act.Local st ⟨i, j, addr, (st.server i).setConnection j c, v, owing, [m]⟩ :=
  .of_update h.ne rfl h.registrations (fun _ _ => by rw [h.received])
    (fun m' hm' => by rw [List.mem_singleton.mp hm', h.addr])

theorem Inv.send {st st' : State Face} (h : Inv st) {i j : Int} {addr : Nat} {c : Connection}
    {v : Stage Int} {owing : Bool} {m : RdmaMessage} (hsends : Sends st i j addr c m)
    (hst' : st' = st.act ⟨i, j, addr, (st.server i).setConnection j c, v, owing, [m]⟩)
    (hplaced : Placed (update (st.stage i) addr v) (st.server i).toLayout)
    (hkeys : Unreplaced (st.stage i addr) j
      (((st.server i).connections j).registrations.lookup addr) (c.registrations.lookup addr))
    (haccept : m.messageType ≠ .accept) (hsound : Sound st' i j m)
    (hstep : Frame (st.view addr) (st'.view addr) i j →
      (st'.view addr).link i j =
        { (st.view addr).link i j with
          here := v
          out := ((st.view addr).link i j).out ++ [m].filterMap (toMsg addr)
          owing := owing
          mine := (c.registrations.lookup addr).map Registration.length } →
      Step (st.view addr) (st'.view addr)) : Inv st' := by
  subst hst'
  have hself := connections_setConnection (st.server i) j c
  constructor
  · refine h.core.act hsends.isLocal (h.core.serverId i) hplaced ?_
      (fun _ hmem => hmem) (.refl _ _) (by rwa [hself]) ?_ ?_ ?_
    · refine hstep (frame_act hsends.isLocal) ?_
      rw [link_act hsends.isLocal]
      simp only [hself, hsends.received]
      rfl
    · intro m' hm'
      rw [hself, hsends.received] at hm'
      exact hm'
    · rw [hself, hsends.remote]
    · intro m' hm'
      rw [List.mem_singleton.mp hm']
      exact hsound
  · have hserver := h.logs.setServer (i := i) (f := (st.server i).setConnection j c)
      (fun s => by
        by_cases hs : s = j
        · rw [hs, hself, hsends.received]
        · simp [Face.setConnection, hs])
      (fun _ _ hq => hq) rfl rfl rfl
    have hposted := hserver.post (s := i) (d := j) haccept
    exact ⟨hposted.posted, hposted.replies, hposted.accepts, hposted.transfers, hposted.dones⟩

theorem prepareStep_cases (h : prepareStep b st s addr size d = some st') :
    ∃ m : RdmaMessage, m.messageType = .prepare ∧ m.regionInfo.addr = addr ∧
      m.regionInfo.length = size ∧
      st'.net = st.net.act ⟨s, d, addr, (st.net.server s).setConnection d
        (((st.net.server s).connections d).registerMemory addr size (st.server s).nextKey),
        preparedFor d (st.net.stage s addr), st.net.pending addr s d, [m]⟩ := by
  obtain ⟨⟨server, m⟩, hcall, hret⟩ := Option.bind_eq_some_iff.mp h
  cases hret
  obtain ⟨hface, htype, haddr, hlen⟩ := Server.prepare_face (toOption_eq_some hcall)
  refine ⟨m, htype, haddr, hlen, ?_⟩
  rw [State.net_post, State.net_setStage, State.net_setServer, hface]
  exact post_eq_act

theorem transferStep_cases (h : transferStep b st s addr size d = some st') :
    ∃ (m : RdmaMessage) (mr : Registration), m.messageType = .transfer ∧
      ((st.net.server s).connections d).registrations.lookup addr = some mr ∧
      m.regionInfo = ⟨addr, size, mr.rkey⟩ ∧
      st'.net = State.act
        { st.net with snapshot := update₂ st.snapshot s addr (st.server s).bytes }
        ⟨s, d, addr, (st.net.server s).setConnection d ((st.net.server s).connections d),
          givenTo d (st.net.stage s addr), st.net.pending addr s d, [m]⟩ := by
  obtain ⟨⟨server, m⟩, hcall, hret⟩ := Option.bind_eq_some_iff.mp h
  cases hret
  obtain ⟨hface, htype, mr, hmr, hregion⟩ := Server.transfer_face (toOption_eq_some hcall)
  refine ⟨m, mr, htype, hmr, hregion, ?_⟩
  have hsame : (st.server s).face =
      (st.net.server s).setConnection d ((st.net.server s).connections d) := by
    simp [Face.setConnection, State.net]
  rw [State.net_post, State.net_setStage, State.net_setServer, hface, hsame]
  exact post_eq_act

theorem closeStep_cases (h : closeStep b st d addr size s = some st') :
    st'.net = st.net.act ⟨d, s, addr, (st.net.server d).setConnection s
      (((st.net.server d).connections s).unregister addr), st.net.stage d addr, false,
      [sendClose addr size]⟩ := by
  obtain ⟨⟨server, m⟩, hcall, hret⟩ := Option.bind_eq_some_iff.mp h
  cases hret
  obtain ⟨hface, rfl⟩ := Server.close_face (toOption_eq_some hcall)
  rw [State.net_post, State.net_setPending, State.net_setServer, hface]
  simp only [State.act, State.post, State.setServer, State.setStage, State.setPending,
    update₂_eq_self]
  rfl

theorem sends_prepare {m : RdmaMessage} (hne : s ≠ d)
    (haddr : m.regionInfo.addr = addr) : Sends st.net s d addr
      (((st.net.server s).connections d).registerMemory addr size (st.server s).nextKey) m :=
  ⟨hne, fun _ hx => Connection.lookup_registerMemory_ne _ _ _ hx, rfl, rfl, haddr⟩

theorem sends_close (hne : d ≠ s) : Sends st.net d s addr
    (((st.net.server d).connections s).unregister addr) (sendClose addr size) :=
  ⟨hne, fun _ hx => AList.lookup_erase_ne hx, rfl, rfl, rfl⟩

theorem prepareStep_inv (h : Inv st.net) {s d : Int} {addr size : Nat} (hne : s ≠ d)
    (hpermits : Permits st (.prepare s addr size d))
    (hstep : prepareStep b st s addr size d = some st') : Inv st'.net := by
  obtain ⟨⟨hheld, hsize⟩, hsmall⟩ := hpermits
  obtain ⟨prepared, hstage⟩ := eq_held_of_isHeld hheld
  rw [hsize] at hstage
  obtain ⟨m, htype, haddr, hlen, hst'⟩ := prepareStep_cases hstep
  have hstage' : st.net.stage s addr = .held size prepared := hstage
  have hlive : st.net.stage s addr ≠ .absent := by simp [hstage']
  have htable : addr ∈ (st.server s).face.memoryMap := by
    obtain ⟨p, hp, -⟩ := (h.core.placed s).live addr hlive
    exact AList.lookup_isSome.mp (Option.isSome_iff_exists.mpr ⟨p, hp⟩)
  refine h.send (sends_prepare hne haddr) hst' ((h.core.placed s).restage hlive ?_)
    (by simp [Unreplaced, hstage']) (by simp [htype]) ?_ ?_
  · simp [hstage', preparedFor, Stage.size]
  · refine ⟨.inl htype, fun _ => ?_, by simp [htype], by simp [htype], by simp [htype]⟩
    rw [haddr, hlen, hst', server_act_self]
    exact ⟨htable, hsmall⟩
  · intro hframe hlink
    refine .prepare s d size prepared hne hframe hstage' ?_
    have hmsg : [m].filterMap (toMsg addr) = [.prepare size] := by simp [toMsg, htype, haddr, hlen]
    rw [hlink, Connection.lookup_registerMemory _ hsmall, hmsg, hstage']
    rfl

theorem Inv.snapshot {st : State Face} (h : Inv st) {s : Int} {addr : Nat}
    (hheld : isHeld (st.stage s addr) = true) (bytes : Nat → UInt8) :
    Inv { st with snapshot := update₂ st.snapshot s addr bytes } := by
  refine ⟨⟨h.core.serverId, h.core.placed, h.core.segment, h.core.apart, ?_, h.core.announced⟩,
    ⟨h.logs.posted, h.logs.replies, h.logs.accepts, h.logs.transfers, h.logs.dones⟩⟩
  intro x y m hm
  have hsound := h.core.sound x y m hm
  refine ⟨hsound.type, hsound.prepared, hsound.accepted, fun htype a ha => ?_, hsound.keyed⟩
  have hne : (x, m.regionInfo.addr) ≠ (s, addr) := by
    intro heq
    simp only [Prod.mk.injEq] at heq
    obtain ⟨prepared, hgiven⟩ := h.core.transfer_given hm htype
    rw [heq.1, heq.2] at hgiven
    simp [hgiven, isHeld] at hheld
  dsimp only
  rw [update₂_ne _ _ hne]
  exact hsound.bytes htype a ha

theorem transferStep_inv (h : Inv st.net) {s d : Int} {addr size : Nat} (hne : s ≠ d)
    (hfollows : Follows st (.transfer s addr size d))
    (hstep : transferStep b st s addr size d = some st') : Inv st'.net := by
  obtain ⟨hheld, hsize, hd⟩ := hfollows
  obtain ⟨prepared, hstage⟩ := eq_held_of_isHeld hheld
  rw [hsize] at hstage
  obtain ⟨m, mr, htype, hmr, hregion, hst'⟩ := transferStep_cases hstep
  have haddr : m.regionInfo.addr = addr := by rw [hregion]
  have hlen : m.regionInfo.length = size := by rw [hregion]
  have hstage' : st.net.stage s addr = .held size prepared := hstage
  have hlive : st.net.stage s addr ≠ .absent := by simp [hstage']
  have h' := h.snapshot hheld (st.server s).bytes
  refine h'.send ⟨hne, fun _ _ => rfl, rfl, rfl, haddr⟩ hst' ((h.core.placed s).restage hlive ?_)
    (.refl _ _ _) (by simp [htype]) ?_ ?_
  · simp [hstage', givenTo, Stage.size]
  · refine ⟨.inr (.inr (.inl htype)), by simp [htype], by simp [htype], fun _ a _ => ?_,
      fun _ mr' hmr' => ?_⟩
    · rw [hst', haddr]
      simp [State.act, State.setServer, State.setStage, Face.setConnection, State.net, Server.face]
    · rw [hst', server_act_self, haddr] at hmr'
      simp only [Face.setConnection, update_self] at hmr'
      rw [hregion, Option.some.inj (hmr'.symm.trans hmr)]
  · intro hframe hlink
    refine .transfer s d size prepared hne hframe hstage' ?_ ?_
    · simpa [hstage, Stage.prepared] using hd
    · have hmsg : [m].filterMap (toMsg addr) = [.transfer size] := by
        simp [toMsg, htype, haddr, hlen]
      rw [hlink, hmsg, hstage']
      rfl

theorem closeStep_inv (h : Inv st.net) {s d : Int} {addr size : Nat} (hne : d ≠ s)
    (hfollows : Follows st (.close d addr size s))
    (hstep : closeStep b st d addr size s = some st') :
    Inv st'.net := by
  have hpending : st.net.pending addr d s = true := hfollows
  refine h.send (sends_close hne) (closeStep_cases hstep) ?_
    (by simp [Unreplaced, Connection.unregister])
    (by simp [sendClose, RdmaMessage.ofRange, RdmaMessage.cleared]) ?_ ?_
  · rw [update_eq_self]
    exact h.core.placed d
  · constructor
    all_goals simp [sendClose, RdmaMessage.ofRange, RdmaMessage.cleared]
  · intro hframe hlink
    refine .close d s hne hframe hpending ?_
    have hmsg : [sendClose addr size].filterMap (toMsg addr) = [.done] := by
      simp [toMsg, sendClose, RdmaMessage.ofRange, RdmaMessage.cleared]
    rw [hlink, hmsg]
    simp only [Connection.unregister, AList.lookup_erase, Option.map_none]
    rfl

end Calls

end RdmaMigration.Migration.System
