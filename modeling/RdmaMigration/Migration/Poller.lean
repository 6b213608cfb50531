import RdmaMigration.Migration.Calls

/-! # The poller keeps the invariant

The handlers of `ACCEPT`, `TRANSFER` and `CLOSE` find what they look up, so they
return. A `PREPARE` is accepted at the address it asks for.
-/

namespace RdmaMigration.Migration.System

open Lib Function Network Manager Cluster

variable {b : Build} {st st' : State Server}

/-! ## Delivery -/

theorem one_transfer {st : State Face} (h : Core st) {s d : Int} {before after : List RdmaMessage}
    {m m' : RdmaMessage} (hne : s ≠ d) (hqueue : st.queue s d = before ++ m :: after)
    (hm' : m' ∈ before) (htype : m.messageType = .transfer) (htype' : m'.messageType = .transfer) :
    m'.regionInfo.addr ≠ m.regionInfo.addr := by
  intro haddr
  have honce := (h.segment m.regionInfo.addr s d hne).once
  have hbefore : 0 < (before.filterMap (toMsg m.regionInfo.addr)).countP Msg.isTransfer :=
    List.countP_pos_iff.mpr ⟨.transfer m'.regionInfo.length,
      mem_toMsg hm' (by simp [toMsg, htype', haddr]), rfl⟩
  have hsplit : (st.view m.regionInfo.addr).queue s d =
      before.filterMap (toMsg m.regionInfo.addr) ++
        .transfer m.regionInfo.length :: after.filterMap (toMsg m.regionInfo.addr) := by
    simp [State.view, hqueue, toMsg, htype]
  simp only [Segment.link, hsplit, List.countP_append, List.countP_cons, Msg.isTransfer,
    if_true] at honce
  omega

theorem receive_announced {c : Connection} {m : RdmaMessage}
    (h : ∀ m' ∈ c.recvQueue, m'.messageType = .transfer →
      c.remoteRegistrations.lookup m'.regionInfo.addr = some m'.regionInfo)
    (hother : ∀ m' ∈ c.recvQueue, m.messageType = .transfer → m'.messageType = .transfer →
      m'.regionInfo.addr ≠ m.regionInfo.addr) :
    ∀ m' ∈ (c.receive m).recvQueue, m'.messageType = .transfer →
      (c.receive m).remoteRegistrations.lookup m'.regionInfo.addr = some m'.regionInfo := by
  intro m' hm' htype'
  rw [Connection.receive, List.mem_append, List.mem_singleton] at hm'
  simp only [Connection.receive, Connection.announce]
  by_cases htype : m.messageType = .transfer
  · rw [if_pos htype]
    rcases hm' with hold | rfl
    · rw [AList.lookup_insert_ne (hother m' hold htype htype')]
      exact h m' hold htype'
    · rw [AList.lookup_insert]
  · rw [if_neg htype]
    rcases hm' with hold | rfl
    · exact h m' hold htype'
    · exact absurd htype' htype

theorem Inv.quiet {st st' : State Face} (h : Inv st)
    (hlayout : ∀ x, (st'.server x).toLayout = (st.server x).toLayout)
    (hbytes : ∀ x, (st'.server x).bytes = (st.server x).bytes) (hqueue : st'.queue = st.queue)
    (hregistrations : ∀ x y addr, ((st'.server x).connections y).registrations.lookup addr =
      ((st.server x).connections y).registrations.lookup addr)
    (hghost : st'.stage = st.stage ∧ st'.pending = st.pending ∧ st'.snapshot = st.snapshot)
    (hlog : st'.posted = st.posted ∧ st'.handled = st.handled)
    (hannounced : ∀ s d, ∀ m ∈ ((st'.server d).connections s).recvQueue,
      m.messageType = .transfer →
        ((st'.server d).connections s).remoteRegistrations.lookup m.regionInfo.addr =
          some m.regionInfo) (hentries : ∀ x, st'.polledAccepts x ++ (st'.server x).accepts =
        st.polledAccepts x ++ (st.server x).accepts ∧
      st'.polledTransfers x ++ (st'.server x).transfers =
        st.polledTransfers x ++ (st.server x).transfers ∧
      st'.polledDones x ++ (st'.server x).dones = st.polledDones x ++ (st.server x).dones) :
    Inv st' := by
  obtain ⟨hstage, hpending, hsnapshot⟩ := hghost
  obtain ⟨hposted, hhandled⟩ := hlog
  have hregistered : st'.registered = st.registered := by
    funext x y addr
    rw [State.registered, State.registered, hregistrations]
  have hview : ∀ addr, st'.view addr = st.view addr := by
    intro addr
    simp only [State.view, hqueue, hregistered, hstage, hpending]
  have hfrom : st'.handledFrom = st.handledFrom := by
    funext x y
    simp only [State.handledFrom, hhandled]
  have hentered : ∀ {x type ps}, st.entered x type ps → st'.entered x type ps := by
    intro x type ps hold
    simpa only [State.entered, congrArg Layout.extents (hlayout x), hhandled] using hold
  refine ⟨⟨fun x => ?_, fun x => ?_, fun addr => ?_, fun x => ?_, fun x y m hm => ?_, hannounced⟩,
    ⟨fun x y => ?_, fun x y => ?_, fun x => ?_, fun x => ?_, fun x => ?_⟩⟩
  · rw [congrArg Layout.serverId (hlayout x)]
    exact h.core.serverId x
  · rw [hlayout, hstage]
    exact h.core.placed x
  · rw [hview]
    exact h.core.segment addr
  · rw [hqueue]
    exact h.core.apart x
  · rw [hqueue] at hm
    refine (h.core.sound x y m hm).of_later ?_ (fun _ a _ => by rw [hbytes])
      (fun _ mr hmr => by rwa [hregistrations] at hmr) hsnapshot
    intro z addr haddr
    rwa [congrArg Layout.memoryMap (hlayout z)]
  · rw [hposted, hfrom, hqueue]
    exact h.logs.posted x y
  · rw [hposted, hfrom]
    exact h.logs.replies x y
  · rw [(hentries x).1]
    exact hentered (h.logs.accepts x)
  · rw [(hentries x).2.1]
    exact hentered (h.logs.transfers x)
  · rw [(hentries x).2.2]
    exact hentered (h.logs.dones x)

theorem Core.announced_deliver {st : State Face} (h : Core st) {s d : Int} {m : RdmaMessage}
    {rest : List RdmaMessage} (hne : s ≠ d) (hwire : st.wire s d = m :: rest) (x y : Int) :
    ∀ m' ∈ (((st.deliver s d m rest).server y).connections x).recvQueue,
      m'.messageType = .transfer →
        (((st.deliver s d m rest).server y).connections x).remoteRegistrations.lookup
          m'.regionInfo.addr = some m'.regionInfo := by
  by_cases hyx : (y, x) = (d, s)
  · simp only [Prod.mk.injEq] at hyx
    rw [hyx.1, hyx.2, connection_deliver]
    refine receive_announced (h.announced s d) ?_
    intro m' hm' htype htype'
    exact one_transfer h hne (by rw [State.queue, hwire]) hm' htype htype'
  · rw [connection_deliver_ne hyx]
    exact h.announced x y

theorem deliverStep_inv (h : Inv st.net) {s d : Int} (hne : s ≠ d)
    (hstep : deliverStep st s d = some st') : Inv st'.net := by
  obtain ⟨m, rest, hwire, hst'⟩ := deliverStep_cases hstep
  have hkeep : ∀ x, ((st.net.deliver s d m rest).server x).bytes = (st.net.server x).bytes ∧
      ((st.net.deliver s d m rest).server x).accepts = (st.net.server x).accepts ∧
      ((st.net.deliver s d m rest).server x).transfers = (st.net.server x).transfers ∧
      ((st.net.deliver s d m rest).server x).dones = (st.net.server x).dones := by
    intro x
    by_cases hx : x = d
    · simp [State.deliver, State.setServer, Face.setConnection, hx]
    · simp [State.deliver, State.setServer, hx]
  rw [hst']
  refine h.quiet (fun x => toLayout_deliver) (fun x => (hkeep x).1) (queue_deliver hwire)
    (fun x y addr => by rw [registrations_deliver]) ⟨rfl, rfl, rfl⟩ ⟨rfl, rfl⟩
    (h.core.announced_deliver hne hwire) ?_
  · intro x
    rw [(hkeep x).2.1, (hkeep x).2.2.1, (hkeep x).2.2.2]
    exact ⟨rfl, rfl, rfl⟩

/-! ## The handlers return -/

section Handlers

variable {d s : Int} {m : RdmaMessage} {rest : List RdmaMessage} {mapped : Option Nat}

theorem face_popped (server : Server) (source : Int) (rest : List RdmaMessage) :
    (popped server source rest).face = server.face.setConnection source
      { server.face.connections source with recvQueue := rest } := rfl

theorem connection_popped (server : Server) (source : Int) (rest : List RdmaMessage) :
    (popped server source rest).face.connections source =
      { server.face.connections source with recvQueue := rest } := by
  simp [face_popped, Face.setConnection]

theorem head_mem (hqueue : ((st.net.server d).connections s).recvQueue = m :: rest) :
    m ∈ st.net.queue s d := by
  simp [State.queue, hqueue]

theorem view_queue (msg : Msg) (hqueue : ((st.net.server d).connections s).recvQueue = m :: rest)
    (hmsg : toMsg m.regionInfo.addr m = some msg) :
    (st.net.view m.regionInfo.addr).queue s d =
      msg :: (rest ++ st.net.wire s d).filterMap (toMsg m.regionInfo.addr) := by
  simp [State.view, State.queue, hqueue, hmsg]

theorem lookup_of_mem {t : AList fun _ : Nat => Nat} {addr : Nat} (h : addr ∈ t) :
    ∃ p, t.lookup addr = some p :=
  Option.isSome_iff_exists.mp (AList.lookup_isSome.mpr h)

theorem handle_accept (hb : b.faultTolerant = false) (h : Core st.net)
    (hqueue : ((st.net.server d).connections s).recvQueue = m :: rest)
    (htype : m.messageType = .accept) :
    ∃ p n server, (st.net.server d).memoryMap.lookup m.regionInfo.addr = some p ∧
      (st.net.server d).extents[p]? = some (m.regionInfo.addr, n) ∧
      (popped (st.server d) s rest).handle b (st.server s) m s mapped = .ok (server, none) ∧
      server.face = { (popped (st.server d) s rest).face with
        accepts := (st.net.server d).accepts ++ [p] } := by
  obtain ⟨p, hp⟩ := lookup_of_mem ((h.sound s d m (head_mem hqueue)).accepted htype)
  obtain ⟨n, hn⟩ := (h.placed d).table _ p hp
  obtain ⟨server, hcall, hface⟩ := Server.onAccept_face hb (s := popped (st.server d) s rest) hp
  refine ⟨p, n, server, hp, hn, ?_, hface⟩
  simp [Server.handle, htype, getMessageType, hcall, bind, Except.bind, pure, Except.pure]

theorem handle_close (hb : b.faultTolerant = false) (h : Core st.net) (hne : d ≠ s)
    (hqueue : ((st.net.server d).connections s).recvQueue = m :: rest)
    (htype : m.messageType = .doneTransfer) :
    ∃ p n server, (st.net.server d).memoryMap.lookup m.regionInfo.addr = some p ∧
      (st.net.server d).extents[p]? = some (m.regionInfo.addr, n) ∧
      (popped (st.server d) s rest).handle b (st.server s) m s mapped = .ok (server, none) ∧
      server.face = { (popped (st.server d) s rest).face.setConnection s
          (((popped (st.server d) s rest).face.connections s).unregister m.regionInfo.addr) with
        dones := (st.net.server d).dones ++ [p] } := by
  have hview := view_queue .done hqueue (by simp [toMsg, htype])
  obtain ⟨⟨size, prepared, hgiven⟩, hmine⟩ :=
    ((h.segment m.regionInfo.addr).both hne).done_ready hview
  have hlive : st.net.stage d m.regionInfo.addr ≠ .absent := by
    intro habsent
    rw [show ((st.net.view m.regionInfo.addr).link d s).here =
      st.net.stage d m.regionInfo.addr from rfl, habsent] at hgiven
    simp at hgiven
  obtain ⟨p, hp, hextent⟩ := (h.placed d).live _ hlive
  have hregistered : st.net.registered d s m.regionInfo.addr ≠ none := hmine
  obtain ⟨mr, hmr⟩ : ∃ mr, ((st.net.server d).connections s).registrations.lookup
      m.regionInfo.addr = some mr := by
    rw [← Option.ne_none_iff_exists']
    intro hnone
    exact hregistered (by simp [State.registered, hnone])
  have hmr' : ((popped (st.server d) s rest).face.connections s).registrations.lookup
      m.regionInfo.addr = some mr := by
    rw [connection_popped]
    exact hmr
  obtain ⟨server, hcall, hface⟩ := Server.onClose_face hb (s := popped (st.server d) s rest) hp hmr'
  refine ⟨p, _, server, hp, hextent, ?_, hface⟩
  simp [Server.handle, htype, getMessageType, hcall, bind, Except.bind, pure, Except.pure]

theorem firstContaining_of_length {ν : Type} {regions : AList fun _ : Nat => ν} {length : ν → Nat}
    {addr len : Nat} (h : (regions.lookup addr).map length = some len) :
    (firstContaining regions length addr len).isSome := by
  obtain ⟨region, hregion, hlen⟩ := Option.map_eq_some_iff.mp h
  exact firstContaining_isSome hregion (Nat.le_refl _) (by rw [hlen])

theorem Core.read_found (h : Core st.net) (hne : d ≠ s)
    (hqueue : ((st.net.server d).connections s).recvQueue = m :: rest)
    (htype : m.messageType = .transfer) :
    (((popped (st.server d) s rest).connections s).rdmaRead m.regionInfo.addr m.regionInfo.addr
      m.regionInfo.length).isSome := by
  have hview := view_queue (.transfer m.regionInfo.length) hqueue (by simp [toMsg, htype])
  obtain ⟨-, -, hmine, -⟩ := ((h.segment m.regionInfo.addr).both hne).transfer_ready hview
  have hannounced := h.announced s d m (by simp [hqueue]) htype
  have hconnection : (popped (st.server d) s rest).connections s =
      { (st.net.server d).connections s with recvQueue := rest } := connection_popped _ _ _
  obtain ⟨mr, hmr⟩ := Option.isSome_iff_exists.mp (firstContaining_of_length hmine)
  obtain ⟨region, hregion⟩ := Option.isSome_iff_exists.mp
    (firstContaining_of_length (congrArg (Option.map RemoteRegion.length) hannounced))
  simp [hconnection, Connection.rdmaRead, hmr, hregion]

theorem handle_transfer (mapped : Option Nat) (hb : b.faultTolerant = false) (h : Core st.net)
    (hne : d ≠ s) (hqueue : ((st.net.server d).connections s).recvQueue = m :: rest)
    (htype : m.messageType = .transfer)
    (hreadable : b.paging = false → Server.Readable (popped (st.server d) s rest) (st.server s) s
      m.regionInfo.addr m.regionInfo.length) :
    ∃ p server, (st.net.server d).memoryMap.lookup m.regionInfo.addr = some p ∧
      (st.net.server d).extents[p]? = some (m.regionInfo.addr, m.regionInfo.length) ∧
      (popped (st.server d) s rest).handle b (st.server s) m s mapped = .ok (server, none) ∧
      server.face = { (popped (st.server d) s rest).face with
        bytes := fun a =>
          if b.paging = false ∧ Covers (m.regionInfo.addr, m.regionInfo.length) a then
            (st.net.server s).bytes a else (st.net.server d).bytes a
        transfers := (st.net.server d).transfers ++ [p] } := by
  have hview := view_queue (.transfer m.regionInfo.length) hqueue (by simp [toMsg, htype])
  have hstage : st.net.stage d m.regionInfo.addr = .accepted m.regionInfo.length s :=
    (((h.segment m.regionInfo.addr).both hne).transfer_ready hview).1
  obtain ⟨p, hp, hextent⟩ := (h.placed d).live m.regionInfo.addr (by simp [hstage])
  rw [hstage] at hextent
  obtain ⟨server, hcall, hface⟩ := Server.receiveTransfer_face hb
    (s := popped (st.server d) s rest) hp hreadable
  refine ⟨p, server, hp, hextent, ?_, hface⟩
  simp [Server.handle, htype, getMessageType, hcall, bind, Except.bind, pure, Except.pure]

/-- A `TRANSFER` whose handler has returned was read, so the key it announced was served. -/
theorem handled_transfer {server : Server} {reply : Option RdmaMessage}
    (hb : b.faultTolerant = false) (h : Core st.net) (hne : d ≠ s)
    (hqueue : ((st.net.server d).connections s).recvQueue = m :: rest)
    (htype : m.messageType = .transfer)
    (hcall : (popped (st.server d) s rest).handle b (st.server s) m s mapped =
      .ok (server, reply)) :
    reply = none ∧ ∃ p, (st.net.server d).memoryMap.lookup m.regionInfo.addr = some p ∧
      (st.net.server d).extents[p]? = some (m.regionInfo.addr, m.regionInfo.length) ∧
      server.face = { (popped (st.server d) s rest).face with
        bytes := fun a =>
          if b.paging = false ∧ Covers (m.regionInfo.addr, m.regionInfo.length) a then
            (st.net.server s).bytes a else (st.net.server d).bytes a
        transfers := (st.net.server d).transfers ++ [p] } := by
  have hreceive := hcall
  simp only [Server.handle, htype, getMessageType] at hreceive
  obtain ⟨t, ht, -⟩ := bind_eq_ok.mp hreceive
  obtain ⟨p, server', hp, hextent, hcall', hface⟩ := handle_transfer mapped hb h hne hqueue htype
    fun hpaging => Server.receiveTransfer_readable hpaging (h.read_found hne hqueue htype) ht
  rw [hcall', Except.ok.injEq, Prod.mk.injEq] at hcall
  obtain ⟨rfl, rfl⟩ := hcall
  exact ⟨rfl, p, hp, hextent, hface⟩

theorem handle_prepare {server : Server} {reply : Option RdmaMessage}
    (hb : b.faultTolerant = false) (htype : m.messageType = .prepare)
    (hcall : (popped (st.server d) s rest).handle b (st.server s) m s (some m.regionInfo.addr) =
      .ok (server, reply)) :
    reply = some (sendAccept m.regionInfo.addr m.regionInfo.length) ∧
      server.face = { (popped (st.server d) s rest).face.setConnection s
          (((popped (st.server d) s rest).face.connections s).registerMemory m.regionInfo.addr
            m.regionInfo.length (st.server d).nextKey) with
        extents := (st.net.server d).extents ++ [(m.regionInfo.addr, m.regionInfo.length)]
        memoryMap := (st.net.server d).memoryMap.insert m.regionInfo.addr
          (st.net.server d).extents.length
        mapped := (m.regionInfo.addr, Server.pageUp m.regionInfo.length) ::
          (st.net.server d).mapped
        bytes := fun a => if Covers (m.regionInfo.addr, Server.pageUp m.regionInfo.length) a then 0
          else (st.net.server d).bytes a } := by
  simp only [Server.handle, htype, getMessageType] at hcall
  obtain ⟨⟨server', reply'⟩, hacc, hret⟩ := bind_eq_ok.mp hcall
  cases hret
  obtain ⟨hface, rfl⟩ := Server.accept_face hb hacc
  exact ⟨rfl, hface⟩

/-! ## One round of the poller -/

/-- What a round of the poller of `d` on a message `m` from `s` does, if it leaves the face
`f` and answers with `reply`. -/
def roundAct (st : State Server) (d s : Int) (m : RdmaMessage) (f : Face)
    (reply : Option RdmaMessage) : Act :=
  ⟨d, s, m.regionInfo.addr, f, afterHandling s m reply (st.stage d m.regionInfo.addr),
    if m.messageType = .transfer then true else st.pending m.regionInfo.addr d s, reply.toList⟩

def polled (st : State Server) (d s : Int) (m : RdmaMessage) (server : Server)
    (reply : Option RdmaMessage) : State Face :=
  (st.net.act (roundAct st d s m server.face reply)).log d s m

theorem pollStep_cases (h : pollStep b st d s mapped = some st') :
    ∃ m rest server reply, ((st.net.server d).connections s).recvQueue = m :: rest ∧
      (∀ res ∈ mapped, (st.server d).MapsAt m.regionInfo.length res) ∧
      (popped (st.server d) s rest).handle b (st.server s) m s mapped = .ok (server, reply) ∧
      st'.server = update st.server d server ∧
      st'.net = polled st d s m server reply := by
  unfold pollStep at h
  split at h
  · simp at h
  · rename_i m rest hqueue
    split at h
    · simp at h
    · rename_i hmaps
      simp only [Option.bind_eq_bind, Option.bind_eq_some_iff, Prod.exists] at h
      obtain ⟨server, reply, hcall, hret⟩ := h
      refine ⟨m, rest, server, reply, hqueue, not_not.mp hmaps, toOption_eq_some hcall, ?_, ?_⟩
      · cases hret
        cases reply with
        | none =>
            simp only [State.log]
            split
            · rfl
            · rfl
        | some reply =>
            simp only [State.post, State.log]
            split
            · rfl
            · rfl
      cases hret
      have hpending : (State.net (if m.messageType = .transfer then
          ((st.setServer d server).setStage d m.regionInfo.addr
            (afterHandling s m reply (st.stage d m.regionInfo.addr))).setPending d s
              m.regionInfo.addr true
          else (st.setServer d server).setStage d m.regionInfo.addr
            (afterHandling s m reply (st.stage d m.regionInfo.addr)))) =
          (((st.net.setServer d server.face).setStage d m.regionInfo.addr
            (afterHandling s m reply (st.stage d m.regionInfo.addr))).setPending d s
              m.regionInfo.addr
              (if m.messageType = .transfer then true
                else st.pending m.regionInfo.addr d s)) := by
        split
        · simp
        · rw [State.net_setStage, State.net_setServer]
          exact (State.setPending_self _ _ _ _).symm
      cases reply with
      | none =>
          simp only [State.net_log, hpending]
          simp [polled, roundAct, State.act, State.log, State.setPending, State.setStage,
            State.setServer]
      | some reply =>
          simp only [State.net_post, State.net_log, hpending]
          simp [polled, roundAct, State.act, State.log, State.post, State.setPending, State.setStage,
            State.setServer]

/-- What the handlers do to the segment, its registration and the layout. -/
inductive Handled (st : State Server) (d s : Int) (m : RdmaMessage) (f : Face) (c : Connection)
    (reply : Option RdmaMessage) (after : Stage Int) : Prop
  | prepare (htype : m.messageType = .prepare)
      (hreply : reply = some (sendAccept m.regionInfo.addr m.regionInfo.length))
      (hmaps : (st.server d).MapsAt m.regionInfo.length m.regionInfo.addr)
      (hstage : st.net.stage d m.regionInfo.addr = .absent)
      (hafter : after = .accepted m.regionInfo.length s)
      (hc : c.registrations = (((st.net.server d).connections s).registerMemory m.regionInfo.addr
        m.regionInfo.length (st.server d).nextKey).registrations)
      (hlayout : f.toLayout = { (st.net.server d).toLayout with
        extents := (st.net.server d).extents ++ [(m.regionInfo.addr, m.regionInfo.length)]
        memoryMap := (st.net.server d).memoryMap.insert m.regionInfo.addr
          (st.net.server d).extents.length
        mapped := (m.regionInfo.addr, Server.pageUp m.regionInfo.length) ::
          (st.net.server d).mapped })
  | accept (htype : m.messageType = .accept) (hreply : reply = none)
      (hafter : after = st.net.stage d m.regionInfo.addr)
      (hc : c.registrations = ((st.net.server d).connections s).registrations)
      (hlayout : f.toLayout = (st.net.server d).toLayout)
  | transfer (htype : m.messageType = .transfer) (hreply : reply = none)
      (hstage : st.net.stage d m.regionInfo.addr = .accepted m.regionInfo.length s)
      (hafter : after = .held m.regionInfo.length [])
      (hc : c.registrations = ((st.net.server d).connections s).registrations)
      (hlayout : f.toLayout = (st.net.server d).toLayout)
  | close (size : Nat) (prepared : List Int) (htype : m.messageType = .doneTransfer)
      (hreply : reply = none) (hstage : st.net.stage d m.regionInfo.addr = .given size s prepared)
      (hafter : after = .held size prepared)
      (hc : c.registrations =
        (((st.net.server d).connections s).unregister m.regionInfo.addr).registrations)
      (hlayout : f.toLayout = (st.net.server d).toLayout)

/-- What a round of the poller of `d` on a message `m` from `s` leaves: the face
`f`, with connection `c` to `s`, and the answer. -/
structure Round (st : State Server) (d s : Int) (m : RdmaMessage) (rest : List RdmaMessage)
    (f : Face) (c : Connection) (reply : Option RdmaMessage) : Prop where
  queue : ((st.net.server d).connections s).recvQueue = m :: rest
  connections : f.connections = update (st.net.server d).connections s c
  rest : c.recvQueue = rest
  remote : c.remoteRegistrations = ((st.net.server d).connections s).remoteRegistrations
  kind : Handled st d s m f c reply (afterHandling s m reply (st.stage d m.regionInfo.addr))
  bytes : Undisturbed (st.net.stage d) (st.net.server d).bytes f.bytes
  accepts : Entered f.extents (st.net.server d).accepts f.accepts (addresses .accept [m])
  transfers : Entered f.extents (st.net.server d).transfers f.transfers (addresses .transfer [m])
  dones : Entered f.extents (st.net.server d).dones f.dones (addresses .doneTransfer [m])

theorem entered_one {extents : List (Nat × Nat)} {queue : List Nat} {p n : Nat}
    (hp : extents[p]? = some (m.regionInfo.addr, n)) :
    Entered extents queue (queue ++ [p]) (addresses m.messageType [m]) := by
  refine ⟨[p], rfl, ?_⟩
  rw [addresses_single, if_pos rfl]
  exact .cons ⟨n, hp⟩ .nil

theorem entered_none {extents : List (Nat × Nat)} {type : MessageType} {queue : List Nat}
    (htype : m.messageType ≠ type) : Entered extents queue queue (addresses type [m]) := by
  refine ⟨[], by rw [List.append_nil], ?_⟩
  rw [addresses_single, if_neg htype]
  exact .nil

section Rounds

variable {server : Server} {reply : Option RdmaMessage}

theorem round_prepare (hb : b.faultTolerant = false) (h : Core st.net)
    (hqueue : ((st.net.server d).connections s).recvQueue = m :: rest)
    (htype : m.messageType = .prepare)
    (hmaps : (st.server d).MapsAt m.regionInfo.length m.regionInfo.addr)
    (hcall : (popped (st.server d) s rest).handle b (st.server s) m s (some m.regionInfo.addr) =
      .ok (server, reply)) :
    Round st d s m rest server.face
      { ((st.net.server d).connections s).registerMemory m.regionInfo.addr m.regionInfo.length
        (st.server d).nextKey with recvQueue := rest } reply := by
  obtain ⟨hreply, hface⟩ := handle_prepare hb htype hcall
  obtain ⟨hpos, -, -, hroom⟩ := id hmaps
  have hafter : afterHandling s m reply (st.stage d m.regionInfo.addr) =
      .accepted m.regionInfo.length s := by
    simp [afterHandling, htype, getMessageType, hreply, sendAccept, RdmaMessage.ofRange,
      RdmaMessage.cleared]
  rw [hface]
  refine ⟨hqueue, ?_, rfl, rfl, .prepare htype hreply hmaps (h.absent_of_room hpos hroom) hafter rfl
    rfl, h.undisturbed_map hroom, entered_none (by simp [htype]), entered_none (by simp [htype]),
    entered_none (by simp [htype])⟩
  rw [connection_popped, face_popped]
  simp only [Face.setConnection, update_idem]
  rfl

theorem round_accept (hb : b.faultTolerant = false) (h : Core st.net)
    (hqueue : ((st.net.server d).connections s).recvQueue = m :: rest)
    (htype : m.messageType = .accept)
    (hcall : (popped (st.server d) s rest).handle b (st.server s) m s mapped =
      .ok (server, reply)) :
    Round st d s m rest server.face
      { (st.net.server d).connections s with recvQueue := rest } reply := by
  obtain ⟨p, n, server', -, hextent, hcall', hface⟩ := handle_accept hb h hqueue htype
  rw [hcall', Except.ok.injEq, Prod.mk.injEq] at hcall
  obtain ⟨rfl, rfl⟩ := hcall
  rw [hface]
  exact ⟨hqueue, rfl, rfl, rfl,
    .accept htype rfl (by simp [afterHandling, htype, getMessageType, State.net]) rfl rfl,
    .refl _ _, htype ▸ entered_one hextent, entered_none (by simp [htype]),
    entered_none (by simp [htype])⟩

theorem round_transfer (hb : b.faultTolerant = false) (h : Core st.net) (hne : d ≠ s)
    (hqueue : ((st.net.server d).connections s).recvQueue = m :: rest)
    (htype : m.messageType = .transfer)
    (hcall : (popped (st.server d) s rest).handle b (st.server s) m s mapped =
      .ok (server, reply)) :
    Round st d s m rest server.face
      { (st.net.server d).connections s with recvQueue := rest } reply := by
  obtain ⟨rfl, p, -, hextent, hface⟩ := handled_transfer hb h hne hqueue htype hcall
  have hview := view_queue (.transfer m.regionInfo.length) hqueue (by simp [toMsg, htype])
  have hstage : st.net.stage d m.regionInfo.addr = .accepted m.regionInfo.length s :=
    (((h.segment m.regionInfo.addr).both hne).transfer_ready hview).1
  rw [hface]
  refine ⟨hqueue, rfl, rfl, rfl, .transfer htype rfl hstage
    (by simp [afterHandling, htype, getMessageType]) rfl rfl,
    @Core.undisturbed_write _ h d m.regionInfo.addr _ (by simp [hstage]) (by simp [hstage])
      fun a ha => ?_,
    entered_none (by simp [htype]), htype ▸ entered_one hextent, entered_none (by simp [htype])⟩
  refine if_neg fun hcovers => ha ?_
  exact Placed.covers_span (by simpa [hstage, Stage.size] using hcovers.2)

theorem round_close (hb : b.faultTolerant = false) (h : Core st.net) (hne : d ≠ s)
    (hqueue : ((st.net.server d).connections s).recvQueue = m :: rest)
    (htype : m.messageType = .doneTransfer)
    (hcall : (popped (st.server d) s rest).handle b (st.server s) m s mapped =
      .ok (server, reply)) :
    Round st d s m rest server.face
      { ((st.net.server d).connections s).unregister m.regionInfo.addr with recvQueue := rest }
      reply := by
  obtain ⟨p, n, server', -, hextent, hcall', hface⟩ := handle_close hb h hne hqueue htype
  rw [hcall', Except.ok.injEq, Prod.mk.injEq] at hcall
  obtain ⟨rfl, rfl⟩ := hcall
  have hview := view_queue .done hqueue (by simp [toMsg, htype])
  obtain ⟨⟨size, prepared, hgiven⟩, -⟩ :=
    ((h.segment m.regionInfo.addr).both hne).done_ready hview
  have hafter : afterHandling s m none (st.stage d m.regionInfo.addr) = .held size prepared := by
    rw [show st.stage d m.regionInfo.addr = .given size s prepared from hgiven]
    simp [afterHandling, htype, getMessageType, closedBy]
  rw [hface]
  refine ⟨hqueue, ?_, rfl, rfl, .close size prepared htype rfl hgiven hafter rfl rfl, .refl _ _,
    entered_none (by simp [htype]), entered_none (by simp [htype]), htype ▸ entered_one hextent⟩
  rw [connection_popped, face_popped]
  simp only [Face.setConnection, update_idem]
  rfl

end Rounds

theorem pollStep_round (hb : b.faultTolerant = false) (h : Core st.net) (hne : d ≠ s)
    (hfollows : Follows st (.poll d s mapped)) (hstep : pollStep b st d s mapped = some st') :
    ∃ m rest server c reply, Round st d s m rest server.face c reply ∧
      (popped (st.server d) s rest).handle b (st.server s) m s mapped = .ok (server, reply) ∧
      (m.messageType = .prepare → mapped = some m.regionInfo.addr) ∧
      st'.server = update st.server d server ∧
      st'.net = polled st d s m server reply := by
  obtain ⟨m, rest, server, reply, hqueue, hmaps, hcall, hst'⟩ := pollStep_cases hstep
  have hmapped : m.messageType = .prepare → mapped = some m.regionInfo.addr := by
    have hqueue' : ((st.server d).connections s).recvQueue = m :: rest := hqueue
    exact hfollows m (by simp [State.head, hqueue'])
  rcases (h.sound s d m (head_mem hqueue)).type with htype | htype | htype | htype
  · have hat := hmapped htype
    subst hat
    exact ⟨m, rest, server, _, reply, round_prepare hb h hqueue htype (hmaps _ rfl) hcall, hcall,
      hmapped, hst'⟩
  · exact ⟨m, rest, server, _, reply, round_accept hb h hqueue htype hcall, hcall, hmapped, hst'⟩
  · exact ⟨m, rest, server, _, reply, round_transfer hb h hne hqueue htype hcall, hcall, hmapped,
      hst'⟩
  · exact ⟨m, rest, server, _, reply, round_close hb h hne hqueue htype hcall, hcall, hmapped,
      hst'⟩

namespace Round

variable {f : Face} {c : Connection} {reply : Option RdmaMessage}

theorem registrations_ne (h : Round st d s m rest f c reply) {addr : Nat}
    (haddr : addr ≠ m.regionInfo.addr) : c.registrations.lookup addr =
      ((st.net.server d).connections s).registrations.lookup addr := by
  cases h.kind with
  | prepare _ _ _ _ _ hc => rw [hc, Connection.lookup_registerMemory_ne _ _ _ haddr]
  | accept _ _ _ hc => rw [hc]
  | transfer _ _ _ _ hc => rw [hc]
  | close _ _ _ _ _ _ hc =>
      rw [hc]
      exact AList.lookup_erase_ne haddr

theorem unreplaced (h : Round st d s m rest f c reply) :
    Unreplaced (st.net.stage d m.regionInfo.addr) s
      (((st.net.server d).connections s).registrations.lookup m.regionInfo.addr)
      (c.registrations.lookup m.regionInfo.addr) := by
  cases h.kind with
  | prepare _ _ _ hstage => simp [Unreplaced, hstage]
  | accept _ _ _ hc =>
      rw [hc]
      exact .refl _ _ _
  | transfer _ _ _ _ hc =>
      rw [hc]
      exact .refl _ _ _
  | close _ _ _ _ _ _ hc =>
      rw [hc]
      simp [Unreplaced, Connection.unregister]

/-- The only answer is an `ACCEPT` for the same address. -/
theorem answer (h : Round st d s m rest f c reply) {m' : RdmaMessage} (hm' : m' ∈ reply.toList) :
    m' = sendAccept m.regionInfo.addr m.regionInfo.length := by
  cases h.kind with
  | prepare _ hreply =>
      rw [hreply] at hm'
      simpa using hm'
  | accept _ hreply | transfer _ hreply | close _ _ _ hreply =>
      rw [hreply] at hm'
      simp at hm'

theorem addresses_answer (h : Round st d s m rest f c reply) :
    addresses .accept reply.toList = addresses .prepare [m] := by
  cases h.kind with
  | prepare htype hreply =>
      simp [addresses, htype, hreply, sendAccept, RdmaMessage.ofRange, RdmaMessage.cleared]
  | accept htype hreply | transfer htype hreply | close _ _ htype hreply =>
      simp [addresses, htype, hreply]

theorem isLocal (h : Round st d s m rest f c reply) (hne : d ≠ s) :
    Act.Local st.net (roundAct st d s m f reply) := by
  refine .of_update hne h.connections (fun _ haddr => h.registrations_ne haddr) ?_
    fun _ hm' => by rw [h.answer hm']; rfl
  intro addr haddr
  dsimp only [roundAct] at haddr ⊢
  rw [h.queue, h.rest, List.filterMap_cons_none (toMsg_ne haddr.symm)]

theorem connection (h : Round st d s m rest f c reply) : f.connections s = c := by
  rw [h.connections, update_self]

theorem memoryMap (h : Round st d s m rest f c reply) {addr : Nat}
    (haddr : addr ∈ (st.net.server d).memoryMap) : addr ∈ f.memoryMap := by
  cases h.kind with
  | prepare _ _ _ _ _ _ hlayout =>
      rw [hlayout]
      exact mem_insert_of_mem haddr
  | accept _ _ _ _ hlayout | transfer _ _ _ _ _ hlayout | close _ _ _ _ _ _ _ hlayout =>
      rwa [hlayout]

theorem serverId (h : Round st d s m rest f c reply) : f.serverId = (st.net.server d).serverId := by
  cases h.kind with
  | prepare _ _ _ _ _ _ hlayout | accept _ _ _ _ hlayout | transfer _ _ _ _ _ hlayout
  | close _ _ _ _ _ _ _ hlayout => rw [hlayout]

theorem extents (h : Round st d s m rest f c reply) {p : Nat} {x : Nat × Nat}
    (hx : (st.net.server d).extents[p]? = some x) : f.extents[p]? = some x := by
  cases h.kind with
  | prepare _ _ _ _ _ _ hlayout =>
      rw [hlayout]
      exact getElem?_append_of_some hx
  | accept _ _ _ _ hlayout | transfer _ _ _ _ _ hlayout | close _ _ _ _ _ _ _ hlayout =>
      rwa [hlayout]

theorem placed (h : Round st d s m rest f c reply) (hcore : Core st.net) :
    Placed (update (st.net.stage d) m.regionInfo.addr
      (afterHandling s m reply (st.stage d m.regionInfo.addr))) f.toLayout := by
  have hold := hcore.placed d
  cases h.kind with
  | prepare _ _ hmaps _ hafter _ hlayout =>
      obtain ⟨hpos, -, hend, hroom⟩ := hmaps
      rw [hafter, hlayout]
      refine hold.place rfl rfl (by simp)
        (fun q x hq => getElem?_append_of_some hq) ?_ hpos hend hroom rfl
      intro size list q hlist hq
      obtain ⟨addr, haddr⟩ := hold.free size list q hlist hq
      exact ⟨addr, getElem?_append_of_some haddr⟩
  | accept _ _ hafter _ hlayout =>
      rw [hafter, hlayout, update_eq_self]
      exact hold
  | transfer _ _ hstage hafter _ hlayout =>
      rw [hafter, hlayout]
      exact hold.restage (by simp [hstage]) (by simp [hstage, Stage.size])
  | close _ _ _ _ hstage hafter _ hlayout =>
      rw [hafter, hlayout]
      exact hold.restage (by simp [hstage]) (by simp [hstage, Stage.size])

theorem sound (h : Round st d s m rest f c reply) (hcore : Core st.net) (hne : d ≠ s)
    {m' : RdmaMessage} (hm' : m' ∈ reply.toList) :
    Sound (st.net.act (roundAct st d s m f reply)) d s m' := by
  rw [h.answer hm']
  cases h.kind with
  | prepare htype =>
      refine ⟨.inr (.inl rfl), by simp [sendAccept, RdmaMessage.ofRange, RdmaMessage.cleared],
        fun _ => ?_, by simp [sendAccept, RdmaMessage.ofRange, RdmaMessage.cleared],
        by simp [sendAccept, RdmaMessage.ofRange, RdmaMessage.cleared]⟩
      show m.regionInfo.addr ∈ _
      have hsource := ((hcore.sound s d m (head_mem h.queue)).prepared htype).1
      simpa [roundAct, State.act, State.setServer, State.setStage, hne.symm] using hsource
  | accept _ hreply | transfer _ hreply | close _ _ _ hreply =>
      rw [hreply] at hm'
      simp at hm'

/-- At its address the round is a step of the protocol. -/
theorem step (h : Round st d s m rest f c reply) (hcore : Core st.net) (hne : d ≠ s) :
    Step (st.net.view m.regionInfo.addr)
      ((st.net.act (roundAct st d s m f reply)).view m.regionInfo.addr) := by
  have hframe := frame_act (h.isLocal hne)
  have hlink := link_act (h.isLocal hne)
  simp only [roundAct, h.connection, h.rest] at hframe hlink
  cases h.kind with
  | prepare htype hreply _ hstage hafter hc =>
      have hsmall := ((hcore.sound s d m (head_mem h.queue)).prepared htype).2
      have hmsg : reply.toList.filterMap (toMsg m.regionInfo.addr) = [.accept] := by
        simp [hreply, toMsg, sendAccept, RdmaMessage.ofRange, RdmaMessage.cleared]
      refine .accept d s _ _ hne hframe hstage
        (view_queue (.prepare m.regionInfo.length) h.queue (by simp [toMsg, htype])) ?_
      refine hlink.trans ?_
      rw [hafter, htype, hmsg, hc, Connection.lookup_registerMemory _ hsmall]
      simp only [reduceCtorEq, if_false]
      rfl
  | accept htype hreply hafter hc =>
      refine .onAccept d s _ hne hframe (view_queue .accept h.queue (by simp [toMsg, htype])) ?_
      refine hlink.trans ?_
      rw [hafter, htype, hreply, hc]
      simp only [Option.toList, List.filterMap_nil, List.append_nil, reduceCtorEq, if_false]
      rfl
  | transfer htype hreply _ hafter hc =>
      refine .receive d s _ _ hne hframe
        (view_queue (.transfer m.regionInfo.length) h.queue (by simp [toMsg, htype])) ?_
      refine hlink.trans ?_
      rw [hafter, htype, hreply, hc]
      simp only [Option.toList, List.filterMap_nil, List.append_nil, if_true]
      rfl
  | close size prepared htype hreply hstage hafter hc =>
      refine .onClose d s size prepared _ hne hframe hstage
        (view_queue .done h.queue (by simp [toMsg, htype])) ?_
      refine hlink.trans ?_
      rw [hafter, htype, hreply, hc]
      simp only [Option.toList, List.filterMap_nil, List.append_nil, reduceCtorEq, if_false,
        Connection.unregister, AList.lookup_erase, Option.map_none]
      rfl

theorem inv {server : Server} (h : Round st d s m rest server.face c reply) (hinv : Inv st.net)
    (hne : d ≠ s) : Inv (polled st d s m server reply) := by
  have hcore : Core (st.net.act (roundAct st d s m server.face reply)) := by
    refine hinv.core.act (h.isLocal hne) (h.serverId.trans (hinv.core.serverId d))
      (h.placed hinv.core) (h.step hinv.core hne) (fun _ haddr => h.memoryMap haddr) h.bytes
      ?_ ?_ ?_ fun _ hm' => h.sound hinv.core hne hm'
    · simp only [roundAct, h.connection]
      exact h.unreplaced
    · intro m' hm'
      simp only [roundAct, h.connection, h.rest] at hm' ⊢
      rw [h.queue]
      exact List.mem_cons_of_mem _ hm'
    · simp only [roundAct, h.connection, h.remote]
  refine ⟨⟨hcore.serverId, hcore.placed, hcore.segment, hcore.apart, fun x y m' hm' => ?_,
    hcore.announced⟩, ?_⟩
  · have hsound := hcore.sound x y m' hm'
    exact ⟨hsound.type, hsound.prepared, hsound.accepted, hsound.bytes, hsound.keyed⟩
  · refine hinv.logs.handle hne ?_ (by rw [h.connection, h.rest, h.queue])
      (fun _ _ hx => h.extents hx) h.addresses_answer h.accepts h.transfers h.dones rfl rfl rfl rfl
      ⟨rfl, rfl, rfl⟩
    intro x hx
    rw [h.connections, update_of_ne hx]

end Round

theorem pollStep_inv (hb : b.faultTolerant = false) (h : Inv st.net) (hne : d ≠ s)
    (hfollows : Follows st (.poll d s mapped)) (hstep : pollStep b st d s mapped = some st') :
    Inv st'.net := by
  obtain ⟨m, rest, server, c, reply, hround, -, -, -, hst'⟩ :=
    pollStep_round hb h.core hne hfollows hstep
  rw [hst']
  exact hround.inv h hne

end Handlers

/-! ## Every step -/

theorem Inv.dequeue {st st' : State Face} (h : Inv st) {i : Int} {f : Face}
    (hserver : st'.server = update st.server i f)
    (hlayout : f.toLayout = (st.server i).toLayout) (hbytes : f.bytes = (st.server i).bytes)
    (hconnections : f.connections = (st.server i).connections) (hwire : st'.wire = st.wire)
    (hghost : st'.stage = st.stage ∧ st'.pending = st.pending ∧ st'.snapshot = st.snapshot)
    (hlog : st'.posted = st.posted ∧ st'.handled = st.handled)
    (hself : st'.polledAccepts i ++ f.accepts = st.polledAccepts i ++ (st.server i).accepts ∧
      st'.polledTransfers i ++ f.transfers = st.polledTransfers i ++ (st.server i).transfers ∧
      st'.polledDones i ++ f.dones = st.polledDones i ++ (st.server i).dones)
    (hother : ∀ x, x ≠ i → st'.polledAccepts x = st.polledAccepts x ∧
      st'.polledTransfers x = st.polledTransfers x ∧ st'.polledDones x = st.polledDones x) :
    Inv st' := by
  have hconn : ∀ x, (st'.server x).connections = (st.server x).connections :=
    update_kept hserver Face.connections hconnections
  refine h.quiet (update_kept hserver Face.toLayout hlayout)
    (update_kept hserver Face.bytes hbytes) ?_ (fun x y addr => by rw [hconn]) hghost hlog ?_ ?_
  · funext x y
    simp only [State.queue, hconn, hwire]
  · intro x y
    rw [hconn]
    exact h.core.announced x y
  · intro x
    rcases update_cases hserver x with ⟨hx, heq⟩ | ⟨hx, heq⟩
    · rw [heq, hx]
      exact hself
    · rw [heq, (hother x hx).1, (hother x hx).2.1, (hother x hx).2.2]
      exact ⟨rfl, rfl, rfl⟩

theorem step_inv {act : Action} (hb : b.faultTolerant = false) (h : Inv st.net)
    (hpermits : Permits st act) (hplace : ReusesInPlace st act)
    (hstep : step b st act = some st') : Inv st'.net := by
  cases step_cases hstep with
  | allocate i size reuse fresh hreuse hfresh => exact allocateStep_inv h hreuse hfresh hplace
  | deallocate i addr s hcall => exact deallocateStep_inv h hcall hpermits
  | write => exact write_inv h hpermits
  | prepare s addr size d _ hne hstep => exact prepareStep_inv h hne hpermits hstep
  | transfer s addr size d _ hne hstep => exact transferStep_inv h hne hpermits hstep
  | close d addr size s _ hne hstep => exact closeStep_inv h hne hpermits hstep
  | deliver s d _ hne hstep => exact deliverStep_inv h hne hstep
  | poll d s mapped _ hne hstep => exact pollStep_inv hb h hne hpermits hstep
  | pollForAccept i p rest hqueue =>
      refine h.dequeue (congrArg State.server (State.net_setServer st i _)) rfl rfl rfl rfl
        ⟨rfl, rfl, rfl⟩ ⟨rfl, rfl⟩ ⟨?_, rfl, rfl⟩ fun x hx => ⟨?_, rfl, rfl⟩
      · simp [State.net, Server.face, hqueue]
      · simp [State.net, hx]
  | pollForTransfer i p rest hqueue =>
      refine h.dequeue (congrArg State.server (State.net_setServer st i _)) rfl rfl rfl rfl
        ⟨rfl, rfl, rfl⟩ ⟨rfl, rfl⟩ ⟨rfl, ?_, rfl⟩ fun x hx => ⟨rfl, ?_, rfl⟩
      · simp [State.net, Server.face, hqueue]
      · simp [State.net, hx]
  | pollForClose i p rest hqueue =>
      refine h.dequeue (congrArg State.server (State.net_setServer st i _)) rfl rfl rfl rfl
        ⟨rfl, rfl, rfl⟩ ⟨rfl, rfl⟩ ⟨rfl, rfl, ?_⟩ fun x hx => ⟨rfl, rfl, ?_⟩
      · simp [State.net, Server.face, hqueue]
      · simp [State.net, hx]

end RdmaMigration.Migration.System
