import RdmaMigration.Cluster.Ownership
import RdmaMigration.Lib.Arenas
import RdmaMigration.Migration.Poller

/-! # The blocks that segments are made of

As long as every mapping is made where `allocate` asks for it, the segments of
the whole cluster are blocks carved from the servers' parts of the address range.
Records, registrations, what the peers announced and the messages under way all
speak of such blocks, however often a block has been given away, freed and used
again, and blocks never overlap.
-/

namespace RdmaMigration.Migration.System

open Lib Function Network Manager Cluster Cluster.Ownership

/-- Everything the cluster knows or says about a segment is about one of the blocks. -/
structure Within (blocks : List (Nat × Nat)) (st : State Face) : Prop where
  records : ∀ i (p : Nat) x, (st.server i).extents[p]? = some x → x ∈ blocks
  registered : ∀ i j addr mr,
    ((st.server i).connections j).registrations.lookup addr = some mr →
      (addr, mr.length) ∈ blocks
  announced : ∀ i j addr r,
    ((st.server i).connections j).remoteRegistrations.lookup addr = some r →
      (addr, r.length) ∈ blocks
  messages : ∀ s d, ∀ m ∈ st.queue s d, m.messageType = .prepare ∨ m.messageType = .transfer →
    (m.regionInfo.addr, m.regionInfo.length) ∈ blocks
  received : ∀ addr d s, st.pending addr d s = true →
    d ≠ s ∧ addr ∈ (st.server d).memoryMap

section Steps

variable {blocks : List (Nat × Nat)} {st : State Face}

theorem Within.grow (h : Within blocks st) {blocks' : List (Nat × Nat)}
    (hsub : ∀ x ∈ blocks, x ∈ blocks') : Within blocks' st :=
  ⟨fun i p x hx => hsub _ (h.records i p x hx),
    fun i j addr mr hmr => hsub _ (h.registered i j addr mr hmr),
    fun i j addr r hr => hsub _ (h.announced i j addr r hr),
    fun s d m hm htype => hsub _ (h.messages s d m hm htype), h.received⟩

theorem Within.live (h : Within blocks st) (hcore : Core st) {i : Int} {addr : Nat}
    (hlive : st.stage i addr ≠ .absent) : (addr, (st.stage i addr).size) ∈ blocks := by
  obtain ⟨p, -, hp⟩ := (hcore.placed i).live addr hlive
  exact h.records i p _ hp

theorem Within.alone (h : Within blocks st) {st' : State Face} {i : Int} {f : Face}
    (hserver : st'.server = update st.server i f) (hwire : st'.wire = st.wire)
    (hpending : st'.pending = st.pending) (hconnections : f.connections = (st.server i).connections)
    (htable : ∀ addr, addr ∈ (st.server i).memoryMap → addr ∈ f.memoryMap)
    (hrecords : ∀ (p : Nat) x, f.extents[p]? = some x → x ∈ blocks) : Within blocks st' := by
  have hconn : ∀ x, (st'.server x).connections = (st.server x).connections :=
    update_kept hserver Face.connections hconnections
  have hqueue : st'.queue = st.queue := by
    funext x y
    simp only [State.queue, hconn, hwire]
  refine ⟨?_, ?_, ?_, ?_, ?_⟩
  · intro x p e he
    rcases update_cases hserver x with ⟨-, heq⟩ | ⟨-, heq⟩
    · rw [heq] at he
      exact hrecords p e he
    · rw [heq] at he
      exact h.records x p e he
  · intro x y
    rw [hconn]
    exact h.registered x y
  · intro x y
    rw [hconn]
    exact h.announced x y
  · rw [hqueue]
    exact h.messages
  · intro addr x y hxy
    rw [hpending] at hxy
    obtain ⟨hne, hold⟩ := h.received addr x y hxy
    refine ⟨hne, ?_⟩
    rcases update_cases hserver x with ⟨hx, heq⟩ | ⟨-, heq⟩
    · rw [heq]
      rw [hx] at hold
      exact htable addr hold
    · rwa [heq]

theorem Within.act (h : Within blocks st) {a : Act} (hl : a.Local st)
    (hrecords : ∀ (p : Nat) x, a.face.extents[p]? = some x → x ∈ blocks)
    (hregistered : ∀ mr, (a.face.connections a.j).registrations.lookup a.addr = some mr →
      (a.addr, mr.length) ∈ blocks) (hremote : (a.face.connections a.j).remoteRegistrations =
      ((st.server a.i).connections a.j).remoteRegistrations)
    (hreceived : ∀ m ∈ (a.face.connections a.j).recvQueue,
      m ∈ ((st.server a.i).connections a.j).recvQueue)
    (hsent : ∀ m ∈ a.sent, m.messageType = .prepare ∨ m.messageType = .transfer →
      (m.regionInfo.addr, m.regionInfo.length) ∈ blocks)
    (htable : ∀ addr, addr ∈ (st.server a.i).memoryMap → addr ∈ a.face.memoryMap)
    (howing : a.owing = true → a.addr ∈ a.face.memoryMap) : Within blocks (st.act a) := by
  refine ⟨?_, ?_, ?_, ?_, ?_⟩
  · intro x p e he
    by_cases hx : x = a.i
    · rw [hx, server_act_self] at he
      exact hrecords p e he
    · rw [server_act_ne hx] at he
      exact h.records x p e he
  · intro x y addr mr hmr
    by_cases hxy : (x, y, addr) = (a.i, a.j, a.addr)
    · simp only [Prod.mk.injEq] at hxy
      rw [hxy.1, hxy.2.1, hxy.2.2, server_act_self] at hmr
      rw [hxy.2.2]
      exact hregistered mr hmr
    · rw [registrations_act hl hxy] at hmr
      exact h.registered x y addr mr hmr
  · intro x y
    rw [remoteRegistrations_act hl hremote]
    exact h.announced x y
  · intro x y m hm htype
    rcases mem_queue_act hl hreceived hm with hm | ⟨-, hm⟩
    · exact h.messages x y m hm htype
    · exact hsent m hm htype
  · intro addr x y hxy
    by_cases hnew : (x, y, addr) = (a.i, a.j, a.addr)
    · simp only [Prod.mk.injEq] at hnew
      obtain ⟨rfl, rfl, rfl⟩ := hnew
      rw [server_act_self]
      exact ⟨hl.ne, howing (by simpa [State.act] using hxy)⟩
    · rw [pending_act_ne hnew] at hxy
      obtain ⟨hne, hold⟩ := h.received addr x y hxy
      refine ⟨hne, ?_⟩
      by_cases hx : x = a.i
      · rw [hx] at hold ⊢
        rw [server_act_self]
        exact htable addr hold
      · rwa [server_act_ne hx]

theorem Within.deliver (h : Within blocks st) {s d : Int} {m : RdmaMessage}
    {rest : List RdmaMessage} (hwire : st.wire s d = m :: rest) :
    Within blocks (st.deliver s d m rest) := by
  have hm : m ∈ st.queue s d := by simp [State.queue, hwire]
  refine ⟨?_, ?_, ?_, ?_, ?_⟩
  · intro x p e he
    rw [toLayout_deliver] at he
    exact h.records x p e he
  · intro x y
    rw [registrations_deliver]
    exact h.registered x y
  · intro x y addr r hr
    by_cases hxy : (x, y) = (d, s)
    · simp only [Prod.mk.injEq] at hxy
      rw [hxy.1, hxy.2, connection_deliver] at hr
      simp only [Connection.receive, Connection.announce] at hr
      split at hr
      · rename_i htype
        rcases lookup_insert_cases hr with ⟨rfl, rfl⟩ | hold
        · exact h.messages s d m hm (.inr htype)
        · exact h.announced d s addr r hold
      · exact h.announced d s addr r hr
    · rw [connection_deliver_ne hxy] at hr
      exact h.announced x y addr r hr
  · rw [queue_deliver hwire]
    exact h.messages
  · intro addr x y hxy
    rw [toLayout_deliver]
    exact h.received addr x y hxy

end Steps

/-! ## How much of its part a server has used -/

def marks (s : Server) : Nat × Nat := (s.ledger.allocAddress, s.ledger.endAddress)

section Marks

variable {b : Build} {s s' : Server} {size : Nat} {reuse fresh : Option Nat}

theorem handle_marks {remote : Server} {m : RdmaMessage} {source : Int} {mapped : Option Nat}
    {reply : Option RdmaMessage} (hb : b.faultTolerant = false)
    (hmapped : m.messageType = .prepare → mapped = some m.regionInfo.addr)
    (h : s.handle b remote m source mapped = .ok (s', reply)) : marks s' = marks s := by
  cases htype : m.messageType with
  | prepare =>
      simp only [Server.handle, htype, getMessageType] at h
      obtain ⟨⟨t, r⟩, hcall, hret⟩ := bind_eq_ok.mp h
      cases hret
      rw [hmapped htype] at hcall
      rw [marks, (Server.accept_ledger hb hcall).1]
      rfl
  | accept =>
      simp only [Server.handle, htype, getMessageType] at h
      obtain ⟨t, hcall, hret⟩ := bind_eq_ok.mp h
      cases hret
      obtain ⟨p, -, hledger⟩ := Server.onAccept_ledger hb hcall
      rw [marks, hledger]
      rfl
  | decline =>
      simp only [Server.handle, htype, getMessageType] at h
      obtain ⟨t, hcall, hret⟩ := bind_eq_ok.mp h
      cases hret
      obtain rfl := Server.deregisterMemory_cases hcall
      rfl
  | transfer =>
      simp only [Server.handle, htype, getMessageType] at h
      obtain ⟨t, hcall, hret⟩ := bind_eq_ok.mp h
      cases hret
      obtain ⟨p, -, hledger⟩ := Server.receiveTransfer_ledger hb hcall
      rw [marks, hledger]
      rfl
  | meminfo | ackMeminfo | done | doneTransfer =>
      simp only [Server.handle, htype, getMessageType] at h
      obtain ⟨t, hcall, hret⟩ := bind_eq_ok.mp h
      cases hret
      obtain ⟨p, -, hledger⟩ := Server.onClose_ledger hb hcall
      rw [marks, hledger]
      rfl
  | getPartitions | sentPartitions | user =>
      simp only [Server.handle, htype, getMessageType] at h
      cases h
      rfl

theorem allocate_grows {result : Except Fault (Option Nat)}
    (h : s.allocate size reuse fresh = (s', result)) :
    s'.face.connections = s.face.connections ∧
      (∀ addr, addr ∈ s.face.memoryMap → addr ∈ s'.face.memoryMap) ∧
      s'.endAddress = s.endAddress ∧
      ((s'.allocAddress = s.allocAddress ∧ s'.face.extents = s.face.extents) ∨
        ∃ res, fresh = some res ∧ wrap64 (s.allocAddress + size) ≤ s.endAddress ∧
          s'.allocAddress = wrap64 (s.allocAddress + size) ∧
          (s'.face.extents = s.face.extents ∨
            s'.face.extents = s.face.extents ++ [(res, size)])) := by
  rcases Server.allocate_cases h with hshared | ⟨rfl, -⟩ | ⟨p, rest, res, memory, -, -, -, -, hs'⟩
  · rcases Server.allocateShared_cases hshared with ⟨rfl, -⟩ | ⟨res, hres, hend, ⟨hs', -⟩ |
      ⟨r, hr, hs', -⟩⟩
    · exact ⟨rfl, fun _ ha => ha, rfl, .inl ⟨rfl, rfl⟩⟩
    · rw [hs']
      exact ⟨rfl, fun _ ha => ha, rfl, .inr ⟨res, hres, hend, rfl, .inl rfl⟩⟩
    · obtain ⟨hvaddr, hsize, -⟩ := RDMAMemory.construct_eq hr
      have hextent : r.extent = (res, size) := by rw [RDMAMemory.extent, hvaddr, hsize]
      have hface := Server.face_insertRecord (b := ⟨false, false⟩) rfl (s.takeShared size res) res r
      refine ⟨?_, ?_, ?_, .inr ⟨res, hres, hend, ?_, .inr ?_⟩⟩
      · rw [hs', hface]
        rfl
      · rw [hs', hface]
        exact fun _ ha => mem_insert_of_mem ha
      · rw [hs', Server.insertRecord_of_memoryMap rfl]
        rfl
      · rw [hs', Server.insertRecord_of_memoryMap rfl]
        rfl
      · rw [hs', hface, hextent]
        rfl
  · exact ⟨rfl, fun _ ha => ha, rfl, .inl ⟨rfl, rfl⟩⟩
  · rw [hs']
    exact ⟨rfl, fun _ ha => mem_insert_of_mem ha, rfl, .inl ⟨rfl, rfl⟩⟩

end Marks

/-! ## Every step -/

def ByMember (n : Nat) : Action → Prop
  | .allocate i _ _ _ => IsServer n i
  | _ => True

/-- The mappings of `allocate` are made at the addresses it asks for. -/
def MapsInPlace (st : State Server) : Action → Prop
  | .allocate i size reuse fresh => (∀ res ∈ fresh, res = (st.server i).allocAddress) ∧
      ReusesInPlace st (.allocate i size reuse fresh)
  | _ => True

theorem MapsInPlace.reuses {st : State Server} {act : Action} (h : MapsInPlace st act) :
    ReusesInPlace st act := by
  cases act with
  | allocate => exact h.2
  | _ => trivial

instance (n : Nat) (act : Action) : Decidable (ByMember n act) :=
  match act with
  | .allocate i _ _ _ => inferInstanceAs (Decidable (IsServer n i))
  | .deallocate _ _ | .write _ _ _ _ | .prepare _ _ _ _ | .transfer _ _ _ _ | .close _ _ _ _
  | .poll _ _ _ | .deliver _ _ | .pollForAccept _ | .pollForTransfer _ | .pollForClose _ =>
      .isTrue trivial

instance (st : State Server) (act : Action) : Decidable (MapsInPlace st act) :=
  match act with
  | .allocate _ _ _ _ => inferInstanceAs (Decidable (_ ∧ _))
  | .deallocate _ _ | .write _ _ _ _ | .prepare _ _ _ _ | .transfer _ _ _ _ | .close _ _ _ _
  | .poll _ _ _ | .deliver _ _ | .pollForAccept _ | .pollForTransfer _ | .pollForClose _ =>
      .isTrue trivial

structure Territory (n : Nat) (blocks : List (Nat × Nat)) (st : State Server) : Prop where
  within : Within blocks st.net
  carved : Carved (IsServer n) (startAddress n) (fun i => startAddress n i + perServer n)
    (fun i => (st.server i).allocAddress) blocks
  ends : ∀ i, (st.server i).endAddress = startAddress n i + perServer n

theorem initial_territory (n : Nat) : Territory n [] (initial n) := by
  refine ⟨?_, .empty fun i _ => Nat.le_add_right _ _, fun i => rfl⟩
  constructor
  all_goals simp [State.net, initial, Server.face, Server.construct, Connection.empty, State.queue]

section Step

variable {n : Nat} {blocks : List (Nat × Nat)} {b : Build} {st st' : State Server}

theorem Territory.keep (h : Territory n blocks st) (hwithin : Within blocks st'.net)
    (hmarks : ∀ i, marks (st'.server i) = marks (st.server i)) : Territory n blocks st' := by
  have halloc : (fun i => (st'.server i).allocAddress) = fun i => (st.server i).allocAddress := by
    funext i
    exact congrArg Prod.fst (hmarks i)
  refine ⟨hwithin, by rw [halloc]; exact h.carved, fun i => ?_⟩
  rw [← h.ends i]
  exact congrArg Prod.snd (hmarks i)

theorem marks_update {i : Int} {s : Server} (hserver : st'.server = update st.server i s)
    (hs : marks s = marks (st.server i)) (x : Int) :
    marks (st'.server x) = marks (st.server x) := by
  rw [hserver]
  by_cases hx : x = i
  · rw [hx, update_self, hs]
  · rw [update_of_ne hx]

theorem net_server_update {i : Int} {s : Server}
    (hserver : st'.server = update st.server i s) :
    st'.net.server = update st.net.server i s.face := by
  funext x
  simp only [State.net, hserver]
  by_cases hx : x = i
  · rw [hx, update_self, update_self]
  · rw [update_of_ne hx, update_of_ne hx]

theorem Territory.alone (h : Territory n blocks st) {i : Int} {s : Server}
    (hserver : st'.server = update st.server i s) (hwire : st'.wire = st.wire)
    (hpending : st'.pending = st.pending)
    (hconnections : s.face.connections = (st.server i).face.connections)
    (htable : s.face.memoryMap = (st.server i).face.memoryMap)
    (hextents : s.face.extents = (st.server i).face.extents)
    (hmarks : marks s = marks (st.server i)) : Territory n blocks st' := by
  refine h.keep (h.within.alone (net_server_update hserver) hwire hpending hconnections ?_ ?_)
    (marks_update hserver hmarks)
  · intro addr haddr
    rw [htable]
    exact haddr
  · intro p x hx
    rw [hextents] at hx
    exact h.within.records i p x hx

theorem allocateStep_server (st : State Server) (i : Int) (size : Nat) (reuse fresh : Option Nat) :
    (allocateStep st i size reuse fresh).server =
        update st.server i ((st.server i).allocate size reuse fresh).1 ∧
      (allocateStep st i size reuse fresh).wire = st.wire ∧
      (allocateStep st i size reuse fresh).pending = st.pending := by
  unfold allocateStep
  split
  · rename_i heq
    rw [heq]
    exact ⟨rfl, rfl, rfl⟩
  · rename_i heq
    rw [heq]
    exact ⟨rfl, rfl, rfl⟩

theorem allocateStep_territory (h : Territory n blocks st) {i : Int} {size : Nat}
    {reuse fresh : Option Nat} (hmember : IsServer n i)
    (hfresh : ∀ res ∈ fresh, (st.server i).MapsAt size res)
    (hplace : ∀ res ∈ fresh, res = (st.server i).allocAddress) :
    ∃ blocks', Territory n blocks' (allocateStep st i size reuse fresh) := by
  obtain ⟨hserver, hwire, hpending⟩ := allocateStep_server st i size reuse fresh
  generalize hres : (st.server i).allocate size reuse fresh = outcome at hserver
  obtain ⟨s, result⟩ := outcome
  obtain ⟨hconnections, htable, hend, hmark⟩ := allocate_grows hres
  have halone : ∀ {blocks' : List (Nat × Nat)}, Within blocks' st.net →
      (∀ (p : Nat) x, s.face.extents[p]? = some x → x ∈ blocks') →
      Within blocks' (allocateStep st i size reuse fresh).net := fun hwithin hrecords =>
    hwithin.alone (net_server_update hserver) hwire hpending hconnections htable hrecords
  rcases hmark with ⟨halloc, hextents⟩ | ⟨res, rfl, hle, halloc, hextents⟩
  · refine ⟨blocks, h.keep (halone h.within ?_) (marks_update hserver ?_)⟩
    · intro p x hx
      rw [hextents] at hx
      exact h.within.records i p x hx
    · exact Prod.ext halloc hend
  · obtain ⟨hpos, -, hroom, -⟩ := hfresh res rfl
    have hat := hplace res rfl
    have hpages := Server.le_pageUp size
    have hnowrap : wrap64 ((st.server i).allocAddress + size) =
        (st.server i).allocAddress + size := by
      refine wrap64_of_lt ?_
      omega
    rw [hnowrap] at hle halloc
    rw [h.ends i] at hle
    have hcarved := h.carved.carve (fun _ _ hi hj hij => startAddress_apart hi hj hij) hmember hpos
      hle
    refine ⟨(res, size) :: blocks, halone (h.within.grow fun x hx => List.mem_cons_of_mem _ hx) ?_,
      ?_, ?_⟩
    · intro p x hx
      rcases hextents with hsame | hnew
      · rw [hsame] at hx
        exact List.mem_cons_of_mem _ (h.within.records i p x hx)
      · rw [hnew] at hx
        rcases getElem?_snoc_cases hx with hold | ⟨-, rfl⟩
        · exact List.mem_cons_of_mem _ (h.within.records i p x hold)
        · exact List.mem_cons_self
    · have hmarks : (fun j => ((allocateStep st i size reuse (some res)).server j).allocAddress) =
          update (fun j => (st.server j).allocAddress) i
            ((st.server i).allocAddress + size) := by
        funext j
        rw [hserver]
        by_cases hj : j = i
        · rw [hj, update_self, update_self]
          exact halloc
        · rw [update_of_ne hj, update_of_ne hj]
      rw [hmarks, hat]
      exact hcarved
    · intro j
      rw [hserver, ← h.ends j]
      by_cases hj : j = i
      · rw [hj, update_self]
        exact hend
      · rw [update_of_ne hj]

theorem Within.send {st : State Face} (h : Within blocks st) {i j : Int} {addr : Nat}
    {c : Connection} {v : Stage Int} {owing : Bool} {m : RdmaMessage}
    (hsends : Sends st i j addr c m)
    (hregistered : ∀ mr, c.registrations.lookup addr = some mr → (addr, mr.length) ∈ blocks)
    (hmessage : m.messageType = .prepare ∨ m.messageType = .transfer →
      (addr, m.regionInfo.length) ∈ blocks) (howing : owing = true → st.pending addr i j = true) :
    Within blocks (st.act ⟨i, j, addr, (st.server i).setConnection j c, v, owing, [m]⟩) := by
  have hself := connections_setConnection (st.server i) j c
  refine h.act hsends.isLocal (h.records i) ?_ ?_ ?_ ?_ (fun _ hmem => hmem)
    fun ho => (h.received addr i j (howing ho)).2
  · dsimp only
    rw [hself]
    exact hregistered
  · dsimp only
    rw [hself, hsends.remote]
  · dsimp only
    rw [hself, hsends.received]
    exact fun _ hm => hm
  · intro m' hm' htype
    rw [List.mem_singleton.mp hm'] at htype ⊢
    rw [hsends.addr]
    exact hmessage htype

theorem prepareStep_territory (h : Territory n blocks st) (hinv : Inv st.net) {s d : Int}
    {addr size : Nat} (hne : s ≠ d) (hpermits : Permits st (.prepare s addr size d))
    (hstep : prepareStep b st s addr size d = some st') : Territory n blocks st' := by
  obtain ⟨⟨hheld, hsize⟩, hsmall⟩ := hpermits
  have hblock : (addr, size) ∈ blocks := by
    rw [← hsize]
    refine h.within.live hinv.core (i := s) fun habsent => ?_
    rw [show st.stage s addr = .absent from habsent] at hheld
    cases hheld
  obtain ⟨m, -, haddr, hlen, hst'⟩ := prepareStep_cases hstep
  obtain ⟨⟨server, m'⟩, hcall, hret⟩ := Option.bind_eq_some_iff.mp hstep
  have hserver : st'.server = update st.server s server := by
    cases hret
    rfl
  refine h.keep ?_ (marks_update hserver ?_)
  · rw [hst']
    refine h.within.send (sends_prepare hne haddr) ?_ ?_ fun ho => ho
    · intro mr hmr
      rw [Connection.lookup_registerMemory _ hsmall, Option.some.injEq] at hmr
      rw [← hmr]
      exact hblock
    · intro _
      rw [hlen]
      exact hblock
  · rw [marks, (Server.prepare_ledger (toOption_eq_some hcall)).1]
    rfl

theorem transferStep_territory (hb : b.faultTolerant = false) (h : Territory n blocks st)
    (hinv : Inv st.net) {s d : Int} {addr size : Nat} (hne : s ≠ d)
    (hfollows : Follows st (.transfer s addr size d))
    (hstep : transferStep b st s addr size d = some st') : Territory n blocks st' := by
  obtain ⟨hheld, hsize, -⟩ := hfollows
  have hblock : (addr, size) ∈ blocks := by
    rw [← hsize]
    refine h.within.live hinv.core (i := s) fun habsent => ?_
    rw [show st.stage s addr = .absent from habsent] at hheld
    cases hheld
  obtain ⟨m, mr, -, hmr, hregion, hst'⟩ := transferStep_cases hstep
  obtain ⟨⟨server, m'⟩, hcall, hret⟩ := Option.bind_eq_some_iff.mp hstep
  have hserver : st'.server = update st.server s server := by
    cases hret
    rfl
  have hwithin : Within blocks
      { st.net with snapshot := update₂ st.snapshot s addr (st.server s).bytes } :=
    ⟨h.within.records, h.within.registered, h.within.announced, h.within.messages,
      h.within.received⟩
  refine h.keep ?_ (marks_update hserver ?_)
  · rw [hst']
    refine hwithin.send ⟨hne, fun _ _ => rfl, rfl, rfl, by rw [hregion]⟩
      (h.within.registered s d addr) ?_ fun ho => ho
    intro _
    rw [hregion]
    exact hblock
  · obtain ⟨p, -, hledger, -⟩ := Server.transfer_ledger hb (toOption_eq_some hcall)
    rw [marks, hledger]
    rfl

theorem closeStep_territory (h : Territory n blocks st) {s d : Int} {addr size : Nat}
    (hne : d ≠ s) (hstep : closeStep b st d addr size s = some st') : Territory n blocks st' := by
  obtain ⟨⟨server, m'⟩, hcall, hret⟩ := Option.bind_eq_some_iff.mp hstep
  have hserver : st'.server = update st.server d server := by
    cases hret
    rfl
  refine h.keep ?_ (marks_update hserver ?_)
  · rw [closeStep_cases hstep]
    refine h.within.send (sends_close hne) ?_ ?_ fun ho => absurd ho (by simp)
    · intro mr hmr
      simp [Connection.unregister] at hmr
    · rintro (htype | htype)
      all_goals cases htype
  · rw [marks, (Server.close_ledger (toOption_eq_some hcall)).1]
    rfl

theorem deliverStep_territory (h : Territory n blocks st) {s d : Int}
    (hstep : deliverStep st s d = some st') : Territory n blocks st' := by
  obtain ⟨m, rest, hwire, hst'⟩ := deliverStep_cases hstep
  refine h.keep (by rw [hst']; exact h.within.deliver hwire) ?_
  unfold deliverStep at hstep
  split at hstep
  · cases hstep
  · cases hstep
    exact marks_update rfl rfl

theorem Within.records_round (h : Within blocks st.net) {d s : Int} {m : RdmaMessage}
    {rest : List RdmaMessage} {f : Face} {c : Connection} {reply : Option RdmaMessage}
    (hround : Round st d s m rest f c reply) (p : Nat) (x : Nat × Nat)
    (hx : f.extents[p]? = some x) : x ∈ blocks := by
  cases hround.kind with
  | prepare htype _ _ _ _ _ hlayout =>
      rw [hlayout] at hx
      rcases getElem?_snoc_cases hx with hold | ⟨-, rfl⟩
      · exact h.records d p x hold
      · exact h.messages s d m (head_mem hround.queue) (.inl htype)
  | accept _ _ _ _ hlayout | transfer _ _ _ _ _ hlayout | close _ _ _ _ _ _ _ hlayout =>
      rw [hlayout] at hx
      exact h.records d p x hx

theorem Within.registered_round (h : Within blocks st.net) {d s : Int} {m : RdmaMessage}
    {rest : List RdmaMessage} {f : Face} {c : Connection} {reply : Option RdmaMessage}
    (hround : Round st d s m rest f c reply) (hsound : Sound st.net s d m) (mr : Registration)
    (hmr : c.registrations.lookup m.regionInfo.addr = some mr) :
    (m.regionInfo.addr, mr.length) ∈ blocks := by
  cases hround.kind with
  | prepare htype _ _ _ _ hc =>
      rw [hc, Connection.lookup_registerMemory _ (hsound.prepared htype).2,
        Option.some.injEq] at hmr
      rw [← hmr]
      exact h.messages s d m (head_mem hround.queue) (.inl htype)
  | accept _ _ _ hc | transfer _ _ _ _ hc =>
      rw [hc] at hmr
      exact h.registered d s _ mr hmr
  | close _ _ _ _ _ _ hc =>
      rw [hc, Connection.unregister, AList.lookup_erase] at hmr
      cases hmr

theorem pollStep_territory (hb : b.faultTolerant = false) (h : Territory n blocks st)
    (hinv : Inv st.net) {d s : Int} {mapped : Option Nat} (hne : d ≠ s)
    (hfollows : Follows st (.poll d s mapped)) (hstep : pollStep b st d s mapped = some st') :
    Territory n blocks st' := by
  obtain ⟨m, rest, server, c, reply, hround, hcall, hmapped, hserver, hst'⟩ :=
    pollStep_round hb hinv.core hne hfollows hstep
  refine h.keep ?_ (marks_update hserver ((handle_marks hb hmapped hcall).trans rfl))
  have hact : Within blocks (st.net.act (roundAct st d s m server.face reply)) := by
    refine h.within.act (hround.isLocal hne) ?_ ?_ ?_ ?_ ?_ (fun _ haddr => hround.memoryMap haddr)
      ?_
    · exact h.within.records_round hround
    · dsimp only [roundAct]
      rw [hround.connection]
      exact h.within.registered_round hround (hinv.core.sound s d m (head_mem hround.queue))
    · dsimp only [roundAct]
      rw [hround.connection, hround.remote]
    · dsimp only [roundAct]
      rw [hround.connection, hround.rest, hround.queue]
      exact fun _ hm' => List.mem_cons_of_mem _ hm'
    · intro m' hm' htype
      rw [hround.answer hm'] at htype
      rcases htype with htype | htype
      all_goals cases htype
    · intro howing
      refine hround.memoryMap ?_
      by_cases htype : m.messageType = .transfer
      · cases hround.kind with
        | transfer _ _ hstage =>
            obtain ⟨p, hp, -⟩ := (hinv.core.placed d).live m.regionInfo.addr (by simp [hstage])
            exact AList.lookup_isSome.mp (Option.isSome_iff_exists.mpr ⟨p, hp⟩)
        | prepare hother | accept hother | close _ _ hother => simp [htype] at hother
      · dsimp only [roundAct] at howing
        rw [if_neg htype] at howing
        exact (h.within.received _ d s howing).2
  rw [hst', polled]
  exact ⟨hact.records, hact.registered, hact.announced, hact.messages, hact.received⟩

theorem step_territory {act : Action} (hb : b.faultTolerant = false) (h : Territory n blocks st)
    (hinv : Inv st.net) (hpermits : Permits st act) (hmember : ByMember n act)
    (hplace : MapsInPlace st act) (hstep : step b st act = some st') :
    ∃ blocks', Territory n blocks' st' := by
  cases step_cases hstep with
  | allocate i size reuse fresh _ hfresh => exact allocateStep_territory h hmember hfresh hplace.1
  | deallocate i addr s hcall =>
      obtain ⟨p, memory, -, -, rfl⟩ := Server.deallocate_cases hcall
      exact ⟨blocks, h.alone rfl rfl rfl rfl rfl rfl rfl⟩
  | prepare s addr size d _ hne hstep =>
      exact ⟨blocks, prepareStep_territory h hinv hne hpermits hstep⟩
  | transfer s addr size d _ hne hstep =>
      exact ⟨blocks, transferStep_territory hb h hinv hne hpermits hstep⟩
  | close d addr size s _ hne hstep => exact ⟨blocks, closeStep_territory h hne hstep⟩
  | deliver s d _ _ hstep => exact ⟨blocks, deliverStep_territory h hstep⟩
  | poll d s mapped _ hne hstep =>
      exact ⟨blocks, pollStep_territory hb h hinv hne hpermits hstep⟩
  | write | pollForAccept | pollForTransfer | pollForClose =>
      exact ⟨blocks, h.alone rfl rfl rfl rfl rfl rfl rfl⟩

end Step

/-! ## What a read finds -/

theorem find_block {n : Nat} {blocks : List (Nat × Nat)} {mark : Int → Nat}
    (hcarved : Carved (IsServer n) (startAddress n) (fun i => startAddress n i + perServer n) mark
      blocks) {ν : Type} {regions : AList fun _ : Nat => ν} {length : ν → Nat}
    (hblocks : ∀ addr r, regions.lookup addr = some r → (addr, length r) ∈ blocks)
    {addr size a len : Nat} {region : ν} (hsize : (addr, size) ∈ blocks)
    (hregion : regions.lookup addr = some region) (hlo : addr ≤ a) (hhi : a + len ≤ addr + size)
    (hlen : 0 < len) : firstContaining regions length a len = some region := by
  have hbound : ∀ {start size : Nat}, (start, size) ∈ blocks → start + size < 2 ^ 64 := by
    intro start size hmem
    obtain ⟨-, i, hi, -, hle⟩ := hcarved.inside _ hmem
    have hmark := (hcarved.bounds i hi).2
    have hend := startAddress_bound hi
    have hrange : allocatableRangeEnd < 2 ^ 64 := by decide
    dsimp only at hle
    omega
  have hsame := hcarved.same_size hsize (hblocks addr region hregion)
  have hend := hbound hsize
  refine firstContaining_eq hregion hlo ?_ ?_
  · rw [← hsame, wrap64_of_lt (by omega), wrap64_of_lt hend]
    exact hhi
  · intro base' region' hregion' hlo' hhi'
    have hmem := hblocks base' region' hregion'
    rw [wrap64_of_lt (by omega), wrap64_of_lt (hbound hmem)] at hhi'
    have heq := hcarved.unique hmem hsize (a := a) ⟨hlo', by dsimp only; omega⟩
      ⟨hlo, by dsimp only; omega⟩
    exact congrArg Prod.fst heq

/-- The read of a `TRANSFER` finds the key that the `TRANSFER` carries, and the source has
the segment registered under it. -/
theorem Territory.readable {n : Nat} {blocks : List (Nat × Nat)} {st : State Server}
    (h : Territory n blocks st) (hcore : Core st.net) {d s : Int} {m : RdmaMessage}
    {rest : List RdmaMessage} (hne : d ≠ s)
    (hqueue : ((st.net.server d).connections s).recvQueue = m :: rest)
    (htype : m.messageType = .transfer) :
    Server.Readable (popped (st.server d) s rest) (st.server s) s m.regionInfo.addr
      m.regionInfo.length := by
  have hview := view_queue (.transfer m.regionInfo.length) hqueue (by simp [toMsg, htype])
  obtain ⟨-, -, hmine, htheirs⟩ :=
    ((hcore.segment m.regionInfo.addr).both hne).transfer_ready hview
  obtain ⟨mr, hmr, -⟩ := Option.map_eq_some_iff.mp hmine
  obtain ⟨own, hown, hlen⟩ := Option.map_eq_some_iff.mp htheirs
  have hblock := h.within.messages s d m (head_mem hqueue) (.inr htype)
  have hpos := (h.carved.inside _ hblock).1
  have hannounced := hcore.announced s d m (by simp [hqueue]) htype
  have hlocal := find_block h.carved (h.within.registered d s) hblock hmr (Nat.le_refl _)
    (Nat.le_refl _) hpos
  have hremote := find_block h.carved (h.within.announced d s) hblock hannounced (Nat.le_refl _)
    (Nat.le_refl _) hpos
  have hconnection : (popped (st.server d) s rest).connections s =
      { (st.net.server d).connections s with recvQueue := rest } := connection_popped _ _ _
  have hid : (popped (st.server d) s rest).serverId = d := hcore.serverId d
  refine ⟨mr, m.regionInfo, by simp [hconnection, Connection.rdmaRead, hlocal, hremote], ?_⟩
  rw [hid, ← (hcore.sound s d m (head_mem hqueue)).keyed htype own hown]
  exact Connection.serves_of_lookup hown (by rw [hlen])

end RdmaMigration.Migration.System
