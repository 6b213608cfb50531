import RdmaMigration.Lib.Run
import RdmaMigration.Network.Message

/-! # Registering memory for the peer

`register_memory` with remote access sends the new region in a `MSG_MEMINFO` and
waits for the `MSG_ACK_MEMINFO`. Both ends of a connection make such calls, under
the `user_mutex` of each, while their completion threads answer the peer's. Posted
messages arrive as they were posted, in order.

Each end's calls are a protocol of their own that the other end's calls only
delay: `View` is what one of the two protocols is about.
-/

namespace RdmaMigration.Network

open Lib Function

def sendMeminfo (addr : Nat) (mr : Registration) : RdmaMessage :=
  { RdmaMessage.cleared .meminfo with regionInfo := ⟨addr, mr.length, mr.rkey⟩ }

structure RegisterCall where
  call : Nat
  addr : Nat
  len : Nat
  meminfo : Registration
  deriving DecidableEq, Repr

inductive Registering where
  | idle
  /-- In front of setting `register_memory_sem`. -/
  | registered (p : RegisterCall)
  /-- In front of `post_rdma_send`. -/
  | armed (p : RegisterCall)
  /-- In `sem_wait`. -/
  | waiting (p : RegisterCall)
  /-- In front of clearing `register_memory_sem`. -/
  | returning (p : RegisterCall)
  deriving DecidableEq, Repr

/-- A message on its way. A `MSG_MEMINFO` is marked with the call that sent it, a
`MSG_ACK_MEMINFO` with the call whose message it answers; the code sees no mark. -/
structure Posted where
  message : RdmaMessage
  call : Nat
  deriving DecidableEq, Repr

/-- One end. The semaphore of a call is known by the number of the call; `acking`
is the message the completion thread has stored and not yet answered. -/
structure Registrar where
  conn : Connection
  calls : Nat
  user : Registering
  registerMemorySem : Option Nat
  semaphore : Nat → Nat
  acking : Option Nat

/-- What a call leaves when it returns: the entry of this end's `registrations`
and the entry of the peer's `remote_registrations`. -/
structure Returned where
  call : Nat
  addr : Nat
  len : Nat
  registration : Option Registration
  entry : Option RemoteRegion
  deriving DecidableEq, Repr

/-- Both maps say the same of the region that the call has registered. -/
structure Returned.Exact (r : Returned) (mr : Registration) : Prop where
  registration : r.registration = some mr
  length : mr.length = toSizeT (toInt32 r.len)
  entry : r.entry = some ⟨r.addr, mr.length, mr.rkey⟩

/-- `wire i` has the messages of `i` that the peer has not received. `woken i`
pairs the call an acknowledgement answers with the semaphore it hit. -/
structure Handshake where
  side : Side → Registrar
  wire : Side → List Posted
  woken : Side → List (Nat × Option Nat)
  returned : Side → List Returned

namespace Handshake

def initial (conn : Side → Connection) : Handshake :=
  { side := fun i => ⟨conn i, 0, .idle, none, fun _ => 0, none⟩
    wire := fun _ => []
    woken := fun _ => []
    returned := fun _ => [] }

inductive Action where
  | register (i : Side) (addr len rkey : Nat)
  | arm (i : Side)
  | post (i : Side)
  | proceed (i : Side)
  | finish (i : Side)
  | receive (i : Side)
  | postAck (i : Side)
  deriving DecidableEq, Repr

def setSide (st : Handshake) (i : Side) (r : Registrar) : Handshake :=
  { st with side := update st.side i r }

def postSend (st : Handshake) (i : Side) (t : Posted) : Handshake :=
  { st with wire := update st.wire i (st.wire i ++ [t]) }

def hit (semaphore : Nat → Nat) : Option Nat → Nat → Nat
  | none => semaphore
  | some n => update semaphore n (semaphore n + 1)

def storeMeminfo (r : Registrar) (t : Posted) : Registrar :=
  { r with
    conn := { r.conn with
      remoteRegistrations :=
        r.conn.remoteRegistrations.insert t.message.regionInfo.addr t.message.regionInfo }
    acking := some t.call }

def onRecvFinish (st : Handshake) (i : Side) (t : Posted) : Handshake :=
  let r := st.side i
  match t.message.messageType with
  | .meminfo => st.setSide i (storeMeminfo r t)
  | .ackMeminfo =>
      { st.setSide i { r with semaphore := hit r.semaphore r.registerMemorySem } with
        woken := update st.woken i (st.woken i ++ [(t.call, r.registerMemorySem)]) }
  | _ => st

def step (st : Handshake) : Action → Option Handshake
  | .register i addr len rkey =>
      let r := st.side i
      if r.user = .idle then
        some (st.setSide i
          { r with
            conn := r.conn.registerMemory addr len rkey
            calls := r.calls + 1
            user := .registered ⟨r.calls, addr, len, ⟨toSizeT (toInt32 len), rkey⟩⟩ })
      else none
  | .arm i =>
      let r := st.side i
      match r.user with
      | .registered p =>
          some (st.setSide i
            { r with
              user := .armed p
              registerMemorySem := some p.call
              semaphore := update r.semaphore p.call 0 })
      | _ => none
  | .post i =>
      let r := st.side i
      match r.user with
      | .armed p =>
          some ((st.setSide i { r with user := .waiting p }).postSend i
            ⟨sendMeminfo p.addr p.meminfo, p.call⟩)
      | _ => none
  | .proceed i =>
      let r := st.side i
      match r.user with
      | .waiting p =>
          if 0 < r.semaphore p.call then
            some (st.setSide i
              { r with
                user := .returning p
                semaphore := update r.semaphore p.call (r.semaphore p.call - 1) })
          else none
      | _ => none
  | .finish i =>
      let r := st.side i
      match r.user with
      | .returning p =>
          some { st.setSide i { r with user := .idle, registerMemorySem := none } with
            returned := update st.returned i (st.returned i ++
              [⟨p.call, p.addr, p.len, r.conn.registrations.lookup p.addr,
                (st.side i.peer).conn.remoteRegistrations.lookup p.addr⟩]) }
      | _ => none
  | .receive i =>
      if (st.side i).acking = none then
        match st.wire i.peer with
        | [] => none
        | t :: rest =>
            some ({ st with wire := update st.wire i.peer rest }.onRecvFinish i t)
      else none
  | .postAck i =>
      let r := st.side i
      match r.acking with
      | some n =>
          some ((st.setSide i { r with acking := none }).postSend i ⟨.cleared .ackMeminfo, n⟩)
      | none => none

end Handshake

/-! ## The calls of one end -/

structure View where
  calls : Nat
  user : Registering
  sem : Option Nat
  semaphore : Nat → Nat
  registrations : AList fun _ : Nat => Registration
  infos : List Posted
  acking : Option Nat
  acks : List Posted
  remote : AList fun _ : Nat => RemoteRegion
  woken : List (Nat × Option Nat)
  returned : List Returned

namespace View

def isMeminfo (t : Posted) : Bool := t.message.messageType = .meminfo

def isAck (t : Posted) : Bool := t.message.messageType = .ackMeminfo

inductive Step (v : View) : View → Prop where
  | register (addr len rkey : Nat) (huser : v.user = .idle) :
      Step v { v with
        registrations := v.registrations.insert addr ⟨toSizeT (toInt32 len), rkey⟩
        calls := v.calls + 1
        user := .registered ⟨v.calls, addr, len, ⟨toSizeT (toInt32 len), rkey⟩⟩ }
  | arm (p : RegisterCall) (huser : v.user = .registered p) :
      Step v { v with
        user := .armed p
        sem := some p.call
        semaphore := update v.semaphore p.call 0 }
  | post (p : RegisterCall) (huser : v.user = .armed p) :
      Step v { v with
        user := .waiting p
        infos := v.infos ++ [⟨sendMeminfo p.addr p.meminfo, p.call⟩] }
  | store (t : Posted) (rest : List Posted) (hinfos : v.infos = t :: rest) :
      Step v { v with
        infos := rest
        acking := some t.call
        remote := v.remote.insert t.message.regionInfo.addr t.message.regionInfo }
  | answer (n : Nat) (hacking : v.acking = some n) :
      Step v { v with acking := none, acks := v.acks ++ [⟨.cleared .ackMeminfo, n⟩] }
  | wake (t : Posted) (rest : List Posted) (hacks : v.acks = t :: rest) :
      Step v { v with
        acks := rest
        semaphore := Handshake.hit v.semaphore v.sem
        woken := v.woken ++ [(t.call, v.sem)] }
  | proceed (p : RegisterCall) (huser : v.user = .waiting p) (hpos : 0 < v.semaphore p.call) :
      Step v { v with
        user := .returning p
        semaphore := update v.semaphore p.call (v.semaphore p.call - 1) }
  | finish (p : RegisterCall) (huser : v.user = .returning p) :
      Step v { v with
        user := .idle
        sem := none
        returned := v.returned ++ [⟨p.call, p.addr, p.len, v.registrations.lookup p.addr,
          v.remote.lookup p.addr⟩] }

def region (p : RegisterCall) : RemoteRegion := ⟨p.addr, p.meminfo.length, p.meminfo.rkey⟩

def Quiet (v : View) : Prop := v.infos = [] ∧ v.acking = none ∧ v.acks = []

/-- The last call has armed its semaphore and not been woken. -/
structure Unwoken (v : View) (p : RegisterCall) : Prop where
  sem : v.sem = some p.call
  value : v.semaphore p.call = 0
  fresh : ∀ w ∈ v.woken, w.1 < p.call

/-- The peer knows the region of the call, and the call has been woken. -/
structure Ready (v : View) (p : RegisterCall) : Prop where
  entry : v.remote.lookup p.addr = some (region p)
  woken : (p.call, some p.call) ∈ v.woken

inductive Course (v : View) : Prop where
  | idle (huser : v.user = .idle) (hquiet : v.Quiet)
  | registered (p : RegisterCall) (huser : v.user = .registered p) (hquiet : v.Quiet)
      (hfresh : ∀ w ∈ v.woken, w.1 < p.call)
  | armed (p : RegisterCall) (huser : v.user = .armed p) (hquiet : v.Quiet)
      (hunwoken : v.Unwoken p)
  | sent (p : RegisterCall) (huser : v.user = .waiting p)
      (hinfos : v.infos = [⟨sendMeminfo p.addr p.meminfo, p.call⟩]) (hacking : v.acking = none)
      (hacks : v.acks = []) (hunwoken : v.Unwoken p)
  | stored (p : RegisterCall) (huser : v.user = .waiting p) (hinfos : v.infos = [])
      (hacking : v.acking = some p.call) (hacks : v.acks = []) (hunwoken : v.Unwoken p)
      (hentry : v.remote.lookup p.addr = some (region p))
  | answered (p : RegisterCall) (huser : v.user = .waiting p) (hinfos : v.infos = [])
      (hacking : v.acking = none) (hacks : v.acks = [⟨.cleared .ackMeminfo, p.call⟩])
      (hunwoken : v.Unwoken p) (hentry : v.remote.lookup p.addr = some (region p))
  | woken (p : RegisterCall) (huser : v.user = .waiting p) (hquiet : v.Quiet)
      (hready : v.Ready p)
  | returning (p : RegisterCall) (huser : v.user = .returning p) (hquiet : v.Quiet)
      (hready : v.Ready p)

def pending : Registering → Option RegisterCall
  | .idle => none
  | .registered p | .armed p | .waiting p | .returning p => some p

structure Inv (v : View) : Prop where
  course : Course v
  last : ∀ p, pending v.user = some p → p.call + 1 = v.calls ∧
    v.registrations.lookup p.addr = some p.meminfo ∧ p.meminfo.length = toSizeT (toInt32 p.len)
  woken : ∀ w ∈ v.woken, w.2 = some w.1 ∧ w.1 < v.calls
  once : (v.woken.map Prod.fst).Nodup
  returned : ∀ r ∈ v.returned, (∃ mr, r.Exact mr) ∧ (r.call, some r.call) ∈ v.woken

variable {v v' : View} {p : RegisterCall}

/-! The stages that a step starts from. -/

theorem Course.of_idle (h : Course v) (huser : v.user = .idle) : v.Quiet := by
  cases h <;> simp_all

theorem Course.of_registered (h : Course v) (huser : v.user = .registered p) :
    v.Quiet ∧ ∀ w ∈ v.woken, w.1 < p.call := by
  cases h with
  | registered q hq hquiet hfresh =>
      obtain rfl : q = p := by simpa [huser] using hq.symm
      exact ⟨hquiet, hfresh⟩
  | _ => simp_all

theorem Course.of_armed (h : Course v) (huser : v.user = .armed p) : v.Quiet ∧ v.Unwoken p := by
  cases h <;> simp_all

theorem Course.of_info (h : Course v) {t : Posted} {rest : List Posted}
    (hinfos : v.infos = t :: rest) :
    ∃ p, v.user = .waiting p ∧ t = ⟨sendMeminfo p.addr p.meminfo, p.call⟩ ∧ rest = [] ∧
      v.acks = [] ∧ v.Unwoken p := by
  cases h <;> simp_all [Quiet]

theorem Course.of_acking (h : Course v) {n : Nat} (hacking : v.acking = some n) :
    ∃ p, v.user = .waiting p ∧ n = p.call ∧ v.infos = [] ∧ v.acks = [] ∧ v.Unwoken p ∧
      v.remote.lookup p.addr = some (region p) := by
  cases h <;> simp_all [Quiet]

theorem Course.of_ack (h : Course v) {t : Posted} {rest : List Posted}
    (hacks : v.acks = t :: rest) :
    ∃ p, v.user = .waiting p ∧ t.call = p.call ∧ rest = [] ∧ v.infos = [] ∧ v.acking = none ∧
      v.Unwoken p ∧ v.remote.lookup p.addr = some (region p) := by
  cases h with
  | answered q hq hinfos hacking hone hunwoken hentry =>
      obtain ⟨rfl, rfl⟩ := List.cons.inj (hacks.symm.trans hone)
      exact ⟨q, hq, rfl, rfl, hinfos, hacking, hunwoken, hentry⟩
  | _ => simp_all [Quiet]

theorem Course.of_woken (h : Course v) (huser : v.user = .waiting p)
    (hpos : 0 < v.semaphore p.call) : v.Quiet ∧ v.Ready p := by
  cases h with
  | woken q hq hquiet hready =>
      obtain rfl : q = p := by simpa [huser] using hq.symm
      exact ⟨hquiet, hready⟩
  | sent q hq _ _ _ hunwoken | stored q hq _ _ _ hunwoken _ | answered q hq _ _ _ hunwoken _ =>
      obtain rfl : q = p := by simpa [huser] using hq.symm
      rw [hunwoken.value] at hpos
      exact absurd hpos (Nat.lt_irrefl 0)
  | _ => simp_all

theorem Course.of_returning (h : Course v) (huser : v.user = .returning p) :
    v.Quiet ∧ v.Ready p := by
  cases h <;> simp_all

/-! Each step keeps the invariant. -/

theorem Inv.register (h : Inv v) {addr len rkey : Nat} (huser : v.user = .idle) :
    Inv { v with
      registrations := v.registrations.insert addr ⟨toSizeT (toInt32 len), rkey⟩
      calls := v.calls + 1
      user := .registered ⟨v.calls, addr, len, ⟨toSizeT (toInt32 len), rkey⟩⟩ } := by
  have hquiet := h.course.of_idle huser
  refine { h with
    course := .registered _ rfl hquiet fun w hw => (h.woken w hw).2
    last := fun p hp => ?_
    woken := fun w hw => ⟨(h.woken w hw).1, Nat.lt_succ_of_lt (h.woken w hw).2⟩ }
  obtain rfl := Option.some.inj hp
  dsimp only
  exact ⟨rfl, AList.lookup_insert _, rfl⟩

theorem Inv.arm (h : Inv v) (huser : v.user = .registered p) :
    Inv { v with
      user := .armed p
      sem := some p.call
      semaphore := update v.semaphore p.call 0 } := by
  obtain ⟨hquiet, hfresh⟩ := h.course.of_registered huser
  refine { h with course := .armed p rfl hquiet ⟨rfl, by simp, hfresh⟩, last := fun q hq => ?_ }
  obtain rfl := Option.some.inj hq
  exact h.last p (by rw [huser]; rfl)

theorem Inv.post (h : Inv v) (huser : v.user = .armed p) :
    Inv { v with
      user := .waiting p
      infos := v.infos ++ [⟨sendMeminfo p.addr p.meminfo, p.call⟩] } := by
  obtain ⟨⟨hinfos, hacking, hacks⟩, hunwoken⟩ := h.course.of_armed huser
  have hone : v.infos ++ [⟨sendMeminfo p.addr p.meminfo, p.call⟩] =
      [⟨sendMeminfo p.addr p.meminfo, p.call⟩] := by rw [hinfos, List.nil_append]
  refine { h with
    course := .sent p rfl hone hacking hacks ⟨hunwoken.sem, hunwoken.value, hunwoken.fresh⟩
    last := fun q hq => ?_ }
  obtain rfl := Option.some.inj hq
  exact h.last p (by rw [huser]; rfl)

theorem Inv.store (h : Inv v) {t : Posted} {rest : List Posted} (hinfos : v.infos = t :: rest) :
    Inv { v with
      infos := rest
      acking := some t.call
      remote := v.remote.insert t.message.regionInfo.addr t.message.regionInfo } := by
  obtain ⟨p, huser, rfl, rfl, hacks, hunwoken⟩ := h.course.of_info hinfos
  exact { h with
    course := .stored p huser rfl rfl hacks ⟨hunwoken.sem, hunwoken.value, hunwoken.fresh⟩
      (AList.lookup_insert _) }

theorem Inv.answer (h : Inv v) {n : Nat} (hacking : v.acking = some n) :
    Inv { v with acking := none, acks := v.acks ++ [⟨.cleared .ackMeminfo, n⟩] } := by
  obtain ⟨p, huser, rfl, hinfos, hacks, hunwoken, hentry⟩ := h.course.of_acking hacking
  have hone : v.acks ++ [⟨.cleared .ackMeminfo, p.call⟩] = [⟨.cleared .ackMeminfo, p.call⟩] := by
    rw [hacks, List.nil_append]
  exact { h with
    course := .answered p huser hinfos rfl hone
      ⟨hunwoken.sem, hunwoken.value, hunwoken.fresh⟩ hentry }

/-- The pointer is that of the one call under way, which the message answers. -/
theorem Inv.wake (h : Inv v) {t : Posted} {rest : List Posted} (hacks : v.acks = t :: rest) :
    Inv { v with
      acks := rest
      semaphore := Handshake.hit v.semaphore v.sem
      woken := v.woken ++ [(t.call, v.sem)] } := by
  obtain ⟨p, huser, hcall, rfl, hinfos, hacking, hunwoken, hentry⟩ := h.course.of_ack hacks
  have hpair : (t.call, v.sem) = (p.call, some p.call) := by rw [hcall, hunwoken.sem]
  have hlast := h.last p (by rw [huser]; rfl)
  rw [hpair]
  refine { h with
    course := .woken p huser ⟨hinfos, hacking, rfl⟩ ⟨hentry, by simp⟩
    woken := fun w hw => ?_
    once := ?_
    returned := fun r hr => ⟨(h.returned r hr).1, List.mem_append_left _ (h.returned r hr).2⟩ }
  · rcases List.mem_append.mp hw with hold | hnew
    · exact h.woken w hold
    · obtain rfl := List.mem_singleton.mp hnew
      exact ⟨rfl, Nat.lt_of_succ_le (Nat.le_of_eq hlast.1)⟩
  · rw [List.map_append, List.map_singleton, List.nodup_append]
    refine ⟨h.once, List.nodup_singleton _, fun n hn m hm heq => ?_⟩
    obtain ⟨w, hw, rfl⟩ := List.mem_map.mp hn
    rw [List.mem_singleton.mp hm] at heq
    exact absurd heq (Nat.ne_of_lt (hunwoken.fresh w hw))

theorem Inv.proceed (h : Inv v) (huser : v.user = .waiting p) (hpos : 0 < v.semaphore p.call) :
    Inv { v with
      user := .returning p
      semaphore := update v.semaphore p.call (v.semaphore p.call - 1) } := by
  obtain ⟨hquiet, hready⟩ := h.course.of_woken huser hpos
  refine { h with
    course := .returning p rfl hquiet ⟨hready.entry, hready.woken⟩
    last := fun q hq => ?_ }
  obtain rfl := Option.some.inj hq
  exact h.last p (by rw [huser]; rfl)

theorem Inv.finish (h : Inv v) (huser : v.user = .returning p) :
    Inv { v with
      user := .idle
      sem := none
      returned := v.returned ++ [⟨p.call, p.addr, p.len, v.registrations.lookup p.addr,
        v.remote.lookup p.addr⟩] } := by
  obtain ⟨hquiet, hready⟩ := h.course.of_returning huser
  obtain ⟨-, hregistered, hlength⟩ := h.last p (by rw [huser]; rfl)
  refine { h with course := .idle rfl hquiet, last := nofun, returned := fun r hr => ?_ }
  rcases List.mem_append.mp hr with hold | hnew
  · exact h.returned r hold
  · obtain rfl := List.mem_singleton.mp hnew
    exact ⟨⟨p.meminfo, hregistered, hlength, hready.entry⟩, hready.woken⟩

theorem Step.inv (hstep : Step v v') (h : Inv v) : Inv v' := by
  cases hstep with
  | register addr len rkey huser => exact h.register huser
  | arm p huser => exact h.arm huser
  | post p huser => exact h.post huser
  | store t rest hinfos => exact h.store hinfos
  | answer n hacking => exact h.answer hacking
  | wake t rest hacks => exact h.wake hacks
  | proceed p huser hpos => exact h.proceed huser hpos
  | finish p huser => exact h.finish huser

end View

/-! ## Both ends -/

namespace Handshake

open View

def view (st : Handshake) (i : Side) : View where
  calls := (st.side i).calls
  user := (st.side i).user
  sem := (st.side i).registerMemorySem
  semaphore := (st.side i).semaphore
  registrations := (st.side i).conn.registrations
  infos := (st.wire i).filter isMeminfo
  acking := (st.side i.peer).acking
  acks := (st.wire i.peer).filter isAck
  remote := (st.side i.peer).conn.remoteRegistrations
  woken := st.woken i
  returned := st.returned i

variable {st st' : Handshake} {i : Side}

@[simp] theorem update_peer {α : Type*} (f : Side → α) (i : Side) (x : α) :
    update f i x i.peer = f i.peer := update_of_ne i.peer_ne x f

@[simp] theorem update_peer_apply {α : Type*} (f : Side → α) (i : Side) (x : α) :
    update f i.peer x i = f i := update_of_ne i.peer_ne.symm x f

theorem view_peer_of_user {r : Registrar} (hconn : r.conn.remoteRegistrations =
      (st.side i).conn.remoteRegistrations) (hacking : r.acking = (st.side i).acking) :
    (st.setSide i r).view i.peer = st.view i.peer := by
  simp [view, setSide, hconn, hacking]

theorem view_receive {t : Posted} {rest : List Posted} (hwire : st.wire i.peer = t :: rest)
    (j : Side) :
    ({ st with wire := update st.wire i.peer rest }.onRecvFinish i t).view j = st.view j ∨
      Step (st.view j) (({ st with wire := update st.wire i.peer rest }.onRecvFinish i
        t).view j) := by
  unfold onRecvFinish
  dsimp only
  split
  · rename_i htype
    have hinfo : isMeminfo t = true := by simp [isMeminfo, htype]
    have hack : isAck t = false := by simp [isAck, htype]
    rcases i.eq_or_eq_peer j with rfl | rfl
    · left
      simp [view, setSide, storeMeminfo, hwire, hack]
    · right
      have hstep := Step.store (v := st.view i.peer) t (rest.filter isMeminfo)
        (by simp [view, hwire, hinfo])
      convert hstep using 1
      simp [view, setSide, storeMeminfo]
  · rename_i htype
    have hinfo : isMeminfo t = false := by simp [isMeminfo, htype]
    have hack : isAck t = true := by simp [isAck, htype]
    rcases i.eq_or_eq_peer j with rfl | rfl
    · right
      have hstep := Step.wake (v := st.view j) t (rest.filter isAck) (by simp [view, hwire, hack])
      convert hstep using 1
      simp [view, setSide]
    · left
      simp [view, setSide, hwire, hinfo]
  · rename_i hinfo hack
    left
    have hinfo' : isMeminfo t = false := by simpa [isMeminfo] using hinfo
    have hack' : isAck t = false := by simpa [isAck] using hack
    rcases i.eq_or_eq_peer j with rfl | rfl
    · simp [view, hwire, hack']
    · simp [view, hwire, hinfo']

theorem view_of_own (hown : Step (st.view i) (st'.view i))
    (hpeer : st'.view i.peer = st.view i.peer) (j : Side) :
    st'.view j = st.view j ∨ Step (st.view j) (st'.view j) := by
  rcases i.eq_or_eq_peer j with rfl | rfl
  · exact .inr hown
  · exact .inl hpeer

theorem step_view {a : Action} (h : st.step a = some st') (j : Side) :
    st'.view j = st.view j ∨ Step (st.view j) (st'.view j) := by
  cases a with
  | register i addr len rkey =>
      obtain ⟨huser, heq⟩ := Option.ite_none_right_eq_some.mp h
      cases heq
      refine view_of_own (i := i) ?_ ?_ j
      · convert Step.register (v := st.view i) addr len rkey huser using 1
        simp [view, setSide, Connection.registerMemory]
      · exact view_peer_of_user rfl rfl
  | arm i =>
      simp only [step] at h
      split at h
      case h_2 => cases h
      case h_1 p huser =>
        cases h
        refine view_of_own (i := i) ?_ ?_ j
        · convert Step.arm (v := st.view i) p huser using 1
          simp [view, setSide]
        · exact view_peer_of_user rfl rfl
  | post i =>
      simp only [step] at h
      split at h
      case h_2 => cases h
      case h_1 p huser =>
        cases h
        refine view_of_own (i := i) ?_ ?_ j
        · convert Step.post (v := st.view i) p huser using 1
          simp [view, setSide, postSend, isMeminfo, sendMeminfo, RdmaMessage.cleared]
        · simp [view, setSide, postSend, isAck, sendMeminfo, RdmaMessage.cleared]
  | proceed i =>
      simp only [step] at h
      split at h
      case h_2 => cases h
      case h_1 p huser =>
        obtain ⟨hpos, heq⟩ := Option.ite_none_right_eq_some.mp h
        cases heq
        refine view_of_own (i := i) ?_ ?_ j
        · convert Step.proceed (v := st.view i) p huser hpos using 1
          simp [view, setSide]
        · exact view_peer_of_user rfl rfl
  | finish i =>
      simp only [step] at h
      split at h
      case h_2 => cases h
      case h_1 p huser =>
        cases h
        refine view_of_own (i := i) ?_ ?_ j
        · convert Step.finish (v := st.view i) p huser using 1
          simp [view, setSide]
        · simp [view, setSide]
  | receive i =>
      obtain ⟨-, h⟩ := Option.ite_none_right_eq_some.mp h
      split at h
      case h_1 => cases h
      case h_2 t rest hwire =>
        cases h
        exact view_receive hwire j
  | postAck i =>
      simp only [step] at h
      split at h
      case h_2 => cases h
      case h_1 n hacking =>
        cases h
        rcases i.eq_or_eq_peer j with rfl | rfl
        · left
          simp [view, setSide, postSend, isMeminfo, RdmaMessage.cleared]
        · right
          have hstep := Step.answer (v := st.view i.peer) n (by simpa [view] using hacking)
          convert hstep using 1
          simp [view, setSide, postSend, isAck, RdmaMessage.cleared]

def Inv (st : Handshake) : Prop := ∀ i, (st.view i).Inv

theorem initial_inv (conn : Side → Connection) : Inv (initial conn) := fun _ =>
  { course := .idle rfl ⟨rfl, rfl, rfl⟩
    last := nofun
    woken := nofun
    once := .nil
    returned := nofun }

theorem Inv.step (hinv : Inv st) {a : Action} (h : st.step a = some st') : Inv st' := by
  intro i
  rcases step_view h i with hsame | hmove
  · rw [hsame]
    exact hinv i
  · exact hmove.inv (hinv i)

/-- When a call returns, the peer's map has its region exactly, and every
acknowledgement wakes the call it answers, and no call twice. -/
theorem register_memory_ready {conn : Side → Connection} {st : Handshake}
    (h : Reaches step anyAction (initial conn) st) (i : Side) :
    (∀ r ∈ st.returned i, (∃ mr, r.Exact mr) ∧ (r.call, some r.call) ∈ st.woken i) ∧
      (∀ w ∈ st.woken i, w.2 = some w.1) ∧ ((st.woken i).map Prod.fst).Nodup := by
  have hinv : Inv st := h.invariant (fun _ _ _ hinv _ hstep => hinv.step hstep) (initial_inv conn)
  exact ⟨(hinv i).returned, fun w hw => ((hinv i).woken w hw).1, (hinv i).once⟩

/-- Both ends register at the same time, and the client the same address again. -/
def bothRegister : List Action :=
  [.register .client 4096 8192 5, .register .server 4096 100 6, .arm .client, .arm .server,
    .post .client, .post .server, .receive .server, .receive .client, .postAck .client,
    .postAck .server, .receive .client, .receive .server, .proceed .server, .finish .server,
    .proceed .client, .finish .client, .register .client 4096 4096 7, .arm .client,
    .post .client, .receive .server, .postAck .server, .receive .client, .proceed .client,
    .finish .client]

theorem register_memory_ready_both :
    ∃ st, Reaches step anyAction (initial fun _ => .empty) st ∧
      (st.returned .client).map Returned.entry = [some ⟨4096, 8192, 5⟩, some ⟨4096, 4096, 7⟩] ∧
      (st.returned .server).map Returned.entry = [some ⟨4096, 100, 6⟩] ∧
      ∀ i, ∀ r ∈ st.returned i, ∃ mr, r.Exact mr := by
  have hrun : (run step (initial fun _ => .empty) bothRegister).map
      (fun st => ((st.returned .client).map Returned.entry,
        (st.returned .server).map Returned.entry)) =
      some ([some ⟨4096, 8192, 5⟩, some ⟨4096, 4096, 7⟩], [some ⟨4096, 100, 6⟩]) := by
    decide +kernel
  obtain ⟨st, hreach, hpair⟩ := reaches_of_map_run hrun
  rw [Prod.mk.injEq] at hpair
  exact ⟨st, hreach, hpair.1, hpair.2, fun i r hr => ((register_memory_ready hreach i).1 r hr).1⟩

end Handshake

end RdmaMigration.Network
