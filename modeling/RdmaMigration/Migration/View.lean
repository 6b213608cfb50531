import RdmaMigration.Manager.Face
import RdmaMigration.Migration.System

/-! # The protocol at one address

What the cluster is for the segment at one address: the messages about it, the
registrations of it, and the standings. A step of the cluster that concerns the
address is a step of the protocol there, and changes nothing at other addresses.
-/

namespace RdmaMigration.Migration.System

open Lib Function Network Manager

def toMsg (addr : Nat) (m : RdmaMessage) : Option Msg :=
  if m.regionInfo.addr = addr then
    match m.messageType with
    | .prepare => some (.prepare m.regionInfo.length)
    | .accept => some .accept
    | .transfer => some (.transfer m.regionInfo.length)
    | .doneTransfer => some .done
    | .getPartitions | .sentPartitions | .user | .meminfo | .ackMeminfo | .done | .decline => none
  else none

theorem toMsg_ne {addr : Nat} {m : RdmaMessage} (h : m.regionInfo.addr ≠ addr) :
    toMsg addr m = none := by
  simp [toMsg, h]

namespace State

/-- The cluster with only the faces of its servers. -/
def net (st : State Server) : State Face := { st with server := fun i => (st.server i).face }

def queue (st : State Face) (s d : Int) : List RdmaMessage :=
  ((st.server d).connections s).recvQueue ++ st.wire s d

def registered (st : State Face) (s d : Int) (addr : Nat) : Option Nat :=
  (((st.server s).connections d).registrations.lookup addr).map Registration.length

def view (st : State Face) (addr : Nat) : Segment Int :=
  { stage := fun i => st.stage i addr
    pending := st.pending addr
    queue := fun s d => (st.queue s d).filterMap (toMsg addr)
    registered := fun s d => st.registered s d addr }

@[simp] theorem net_setServer (st : State Server) (i : Int) (s : Server) :
    (st.setServer i s).net = st.net.setServer i s.face := by
  simp only [net, setServer, State.mk.injEq, and_true]
  funext x
  by_cases h : x = i
  · simp [h]
  · simp [h]

@[simp] theorem net_setStage (st : State Server) (i : Int) (addr : Nat) (stage : Stage Int) :
    (st.setStage i addr stage).net = st.net.setStage i addr stage := rfl

@[simp] theorem net_setPending (st : State Server) (d s : Int) (addr : Nat) (value : Bool) :
    (st.setPending d s addr value).net = st.net.setPending d s addr value := rfl

theorem setPending_self (st : State Face) (d s : Int) (addr : Nat) :
    st.setPending d s addr (st.pending addr d s) = st := by
  simp [setPending]

@[simp] theorem net_post (st : State Server) (s d : Int) (m : RdmaMessage) :
    (st.post s d m).net = st.net.post s d m := rfl

@[simp] theorem net_log (st : State Server) (d s : Int) (m : RdmaMessage) :
    (st.log d s m).net = st.net.log d s m := rfl

end State

/-! ## A step of one server towards another -/

/-- Server `i` turns into `f`, with connection `c` to `j`, its standing to `addr`
and what it owes `j` become the ones given, and it posts the messages `sent`. -/
structure Act where
  i : Int
  j : Int
  addr : Nat
  face : Face
  stage : Stage Int
  owing : Bool
  sent : List RdmaMessage

def State.act (st : State Face) (a : Act) : State Face :=
  { (st.setServer a.i a.face).setStage a.i a.addr a.stage with
    pending := update st.pending a.addr
      (update₂ (st.pending a.addr) a.i a.j a.owing)
    wire := update₂ st.wire a.i a.j (st.wire a.i a.j ++ a.sent)
    posted := update₂ st.posted a.i a.j (st.posted a.i a.j ++ a.sent) }

structure Act.Local (st : State Face) (a : Act) : Prop where
  ne : a.i ≠ a.j
  connections : ∀ x, x ≠ a.j → a.face.connections x = (st.server a.i).connections x
  registrations : ∀ addr, addr ≠ a.addr → (a.face.connections a.j).registrations.lookup addr =
    ((st.server a.i).connections a.j).registrations.lookup addr
  received : ∀ addr, addr ≠ a.addr → (a.face.connections a.j).recvQueue.filterMap (toMsg addr) =
    ((st.server a.i).connections a.j).recvQueue.filterMap (toMsg addr)
  sent : ∀ m ∈ a.sent, m.regionInfo.addr = a.addr

section Act

variable {st : State Face} {a : Act} {addr : Nat} {x y : Int}

theorem Act.Local.of_update {c : Connection} (hne : a.i ≠ a.j)
    (hconnections : a.face.connections = update (st.server a.i).connections a.j c)
    (hregistrations : ∀ addr, addr ≠ a.addr → c.registrations.lookup addr =
      ((st.server a.i).connections a.j).registrations.lookup addr)
    (hreceived : ∀ addr, addr ≠ a.addr → c.recvQueue.filterMap (toMsg addr) =
      ((st.server a.i).connections a.j).recvQueue.filterMap (toMsg addr))
    (hsent : ∀ m ∈ a.sent, m.regionInfo.addr = a.addr) : a.Local st := by
  refine ⟨hne, ?_, ?_, ?_, hsent⟩
  · intro x hx
    rw [hconnections, update_of_ne hx]
  · rw [hconnections, update_self]
    exact hregistrations
  · rw [hconnections, update_self]
    exact hreceived

@[simp] theorem server_act_self (st : State Face) (a : Act) : (st.act a).server a.i = a.face := by
  simp [State.act, State.setServer, State.setStage]

theorem server_act_ne (hx : x ≠ a.i) : (st.act a).server x = st.server x := by
  simp [State.act, State.setServer, State.setStage, hx]

theorem pending_act_ne (h : (x, y, addr) ≠ (a.i, a.j, a.addr)) :
    (st.act a).pending addr x y = st.pending addr x y := by
  by_cases haddr : addr = a.addr
  · have hxy : (x, y) ≠ (a.i, a.j) := fun hxy => h (by
      simp only [Prod.mk.injEq] at hxy
      rw [hxy.1, hxy.2, haddr])
    simp only [State.act, haddr, update_self]
    exact update₂_ne _ _ hxy
  · simp [State.act, haddr]

theorem queue_act_ne (h : a.Local st) (hout : (x, y) ≠ (a.i, a.j)) (hback : (x, y) ≠ (a.j, a.i)) :
    (st.act a).queue x y = st.queue x y := by
  have hwire : (st.act a).wire x y = st.wire x y := update₂_ne _ _ hout
  have hqueue : (((st.act a).server y).connections x).recvQueue =
      ((st.server y).connections x).recvQueue := by
    by_cases hy : y = a.i
    · have hx : x ≠ a.j := fun hx => hback (by rw [hx, hy])
      rw [hy]
      simp [State.act, State.setServer, State.setStage, h.connections x hx]
    · simp [State.act, State.setServer, State.setStage, hy]
  simp only [State.queue, hwire, hqueue]

theorem queue_act_out (h : a.Local st) : (st.act a).queue a.i a.j = st.queue a.i a.j ++ a.sent := by
  simp [State.queue, State.act, State.setServer, State.setStage, h.ne.symm]

theorem queue_act_back (h : a.Local st) :
    (st.act a).queue a.j a.i = (a.face.connections a.j).recvQueue ++ st.wire a.j a.i := by
  have hwire : (st.act a).wire a.j a.i = st.wire a.j a.i :=
    update₂_ne _ _ (by simp [h.ne])
  simp only [State.queue, hwire]
  simp [State.act, State.setServer, State.setStage]

theorem mem_queue_act (h : a.Local st) (hreceived : ∀ m ∈ (a.face.connections a.j).recvQueue,
      m ∈ ((st.server a.i).connections a.j).recvQueue) {m : RdmaMessage}
    (hm : m ∈ (st.act a).queue x y) :
    m ∈ st.queue x y ∨ ((x, y) = (a.i, a.j) ∧ m ∈ a.sent) := by
  by_cases hout : (x, y) = (a.i, a.j)
  · simp only [Prod.mk.injEq] at hout
    rw [hout.1, hout.2, queue_act_out h, List.mem_append] at hm
    rw [hout.1, hout.2]
    exact hm.imp_right fun hsent => ⟨rfl, hsent⟩
  · left
    by_cases hback : (x, y) = (a.j, a.i)
    · simp only [Prod.mk.injEq] at hback
      rw [hback.1, hback.2, queue_act_back h, List.mem_append] at hm
      rw [hback.1, hback.2]
      exact List.mem_append.mpr (hm.imp_left (hreceived m))
    · rwa [queue_act_ne h hout hback] at hm

theorem registrations_act (h : a.Local st) (hne : (x, y, addr) ≠ (a.i, a.j, a.addr)) :
    (((st.act a).server x).connections y).registrations.lookup addr =
      ((st.server x).connections y).registrations.lookup addr := by
  by_cases hx : x = a.i
  · rw [hx, server_act_self]
    by_cases hy : y = a.j
    · rw [hy]
      exact h.registrations addr fun haddr => hne (by rw [hx, hy, haddr])
    · rw [h.connections y hy]
  · rw [server_act_ne hx]

theorem registered_act (h : a.Local st) (hne : (x, y, addr) ≠ (a.i, a.j, a.addr)) :
    (st.act a).registered x y addr = st.registered x y addr := by
  rw [State.registered, State.registered, registrations_act h hne]

theorem remoteRegistrations_act (h : a.Local st)
    (hremote : (a.face.connections a.j).remoteRegistrations =
      ((st.server a.i).connections a.j).remoteRegistrations) :
    (((st.act a).server x).connections y).remoteRegistrations =
      ((st.server x).connections y).remoteRegistrations := by
  by_cases hx : x = a.i
  · rw [hx, server_act_self]
    by_cases hy : y = a.j
    · rw [hy, hremote]
    · rw [h.connections y hy]
  · rw [server_act_ne hx]

theorem view_act_ne (h : a.Local st) (hne : addr ≠ a.addr) :
    (st.act a).view addr = st.view addr := by
  have hstage : ∀ x, (st.act a).stage x addr = st.stage x addr := fun x =>
    update₂_ne _ _ (by simp [hne])
  have hpending : (st.act a).pending addr = st.pending addr := update_of_ne hne _ _
  have hqueue : ∀ x y, ((st.act a).queue x y).filterMap (toMsg addr) =
      (st.queue x y).filterMap (toMsg addr) := by
    intro x y
    by_cases hout : (x, y) = (a.i, a.j)
    · simp only [Prod.mk.injEq] at hout
      have hsent : a.sent.filterMap (toMsg addr) = [] :=
        List.filterMap_eq_nil_iff.mpr fun m hm => toMsg_ne (by rw [h.sent m hm]; exact hne.symm)
      rw [hout.1, hout.2, queue_act_out h, List.filterMap_append, hsent, List.append_nil]
    · by_cases hback : (x, y) = (a.j, a.i)
      · simp only [Prod.mk.injEq] at hback
        rw [hback.1, hback.2, queue_act_back h, List.filterMap_append, h.received addr hne,
          ← List.filterMap_append]
        rfl
      · rw [queue_act_ne h hout hback]
  have hregistered : ∀ x y, (st.act a).registered x y addr = st.registered x y addr :=
    fun x y => registered_act h (by simp [hne])
  simp only [State.view, hstage, hpending, hqueue, hregistered]

theorem frame_act (h : a.Local st) : Frame (st.view a.addr) ((st.act a).view a.addr) a.i a.j := by
  refine ⟨fun x hx => update₂_ne _ _ (by simp [hx]), fun x y hout hback => ⟨?_, ?_, ?_⟩⟩
  · simp only [State.view, queue_act_ne h hout hback]
  · simp only [State.view, State.act, update_self]
    exact update₂_ne _ _ hout
  · exact registered_act h (by simpa using hout)

theorem link_act (h : a.Local st) :
    ((st.act a).view a.addr).link a.i a.j =
      { (st.view a.addr).link a.i a.j with
        here := a.stage
        out := ((st.view a.addr).link a.i a.j).out ++ a.sent.filterMap (toMsg a.addr)
        back := ((a.face.connections a.j).recvQueue ++ st.wire a.j a.i).filterMap (toMsg a.addr)
        owing := a.owing
        mine :=
    ((a.face.connections a.j).registrations.lookup a.addr).map Registration.length } := by
  have hthere : (st.act a).stage a.j a.addr = st.stage a.j a.addr :=
    update₂_ne _ _ (by simp [h.ne.symm])
  have howed : (st.act a).pending a.addr a.j a.i = st.pending a.addr a.j a.i := by
    simp only [State.act, update_self]
    exact update₂_ne _ _ (by simp [h.ne])
  have hmine : (st.act a).registered a.i a.j a.addr =
      ((a.face.connections a.j).registrations.lookup a.addr).map Registration.length := by
    simp [State.registered, State.act, State.setServer, State.setStage]
  have htheirs : (st.act a).registered a.j a.i a.addr = st.registered a.j a.i a.addr :=
    registered_act h (by simp [h.ne.symm])
  simp only [Segment.link, State.view, queue_act_out h, queue_act_back h, hthere, howed, hmine,
    htheirs, List.filterMap_append, Link.mk.injEq, true_and, and_true]
  simp [State.act, State.setStage]

theorem post_eq_act {i j : Int} {f : Face} {v : Stage Int} {m : RdmaMessage} :
    ((st.setServer i f).setStage i addr v).post i j m =
      st.act ⟨i, j, addr, f, v, st.pending addr i j, [m]⟩ := by
  simp [State.act, State.post, State.setServer, State.setStage]

end Act

/-! ## The arrival of a message -/

def State.deliver (st : State Face) (s d : Int) (m : RdmaMessage) (rest : List RdmaMessage) :
    State Face :=
  { st.setServer d ((st.server d).setConnection s (((st.server d).connections s).receive m)) with
    wire := update₂ st.wire s d rest }

section Deliver

variable {st : State Face} {s d x y : Int} {m : RdmaMessage} {rest : List RdmaMessage}

theorem toLayout_deliver : ((st.deliver s d m rest).server x).toLayout =
    (st.server x).toLayout := by
  by_cases hx : x = d
  · simp [State.deliver, State.setServer, Face.setConnection, hx]
  · simp [State.deliver, State.setServer, hx]

theorem connection_deliver : ((st.deliver s d m rest).server d).connections s =
    ((st.server d).connections s).receive m := by
  simp [State.deliver, State.setServer, Face.setConnection]

theorem connection_deliver_ne (h : (x, y) ≠ (d, s)) :
    ((st.deliver s d m rest).server x).connections y = (st.server x).connections y := by
  by_cases hx : x = d
  · have hy : y ≠ s := fun hy => h (by rw [hx, hy])
    simp [State.deliver, State.setServer, Face.setConnection, hx, hy]
  · simp [State.deliver, State.setServer, hx]

theorem registrations_deliver : (((st.deliver s d m rest).server x).connections y).registrations =
    ((st.server x).connections y).registrations := by
  by_cases h : (x, y) = (d, s)
  · simp only [Prod.mk.injEq] at h
    rw [h.1, h.2, connection_deliver]
    unfold Connection.receive Connection.announce
    split
    · rfl
    · rfl
  · rw [connection_deliver_ne h]

theorem queue_deliver (hwire : st.wire s d = m :: rest) :
    (st.deliver s d m rest).queue = st.queue := by
  funext x y
  by_cases h : (y, x) = (d, s)
  · simp only [Prod.mk.injEq] at h
    rw [h.1, h.2, State.queue, State.queue, connection_deliver, hwire]
    simp [State.deliver, Connection.receive]
  · have hxy : (x, y) ≠ (s, d) := by simpa [and_comm] using h
    rw [State.queue, State.queue, connection_deliver_ne h]
    simp only [State.deliver, update₂_ne _ _ hxy]

end Deliver

theorem deliverStep_cases {st st' : State Server} {s d : Int} (h : deliverStep st s d = some st') :
    ∃ m rest, st.net.wire s d = m :: rest ∧ st'.net = st.net.deliver s d m rest := by
  unfold deliverStep at h
  split at h
  · cases h
  · rename_i m rest hwire
    cases h
    exact ⟨m, rest, hwire, congrArg
      (fun net : State Face => { net with wire := update₂ st.net.wire s d rest })
      (State.net_setServer st d _)⟩

end RdmaMigration.Migration.System
