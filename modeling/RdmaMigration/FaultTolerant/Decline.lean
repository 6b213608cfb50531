import RdmaMigration.FaultTolerant.Records
import RdmaMigration.Network.Send

/-! # A refused `Prepare`

When nothing can be mapped for a `PREPARE`, `accept` answers with `send_decline`
of the null pointer that `allocate` returned, so the source is never told which
address was refused. It deregisters the null address and keeps the registration
that its `Prepare` made. The process that sent the `MSG_DECLINE` is not better
off: `on_send_finish` has no branch for that type.
-/

namespace RdmaMigration.FaultTolerant.Decline

open Lib Network Manager Coordinator

def pollerRound (b : Build) (s remote : Server) (m : RdmaMessage) (source : Int)
    (mapped : Option Nat) : Zk (Server × Option RdmaMessage) :=
  if b.faultTolerant then handle b.paging s remote m source mapped
  else plain (s.handle b remote m source mapped)

/-- A `Prepare` of server `s` that server `d` answers with a `MSG_DECLINE`, its
`mmap` having failed: the two servers and the session before it, the source once
it has sent the `request`, and the destination once it has sent the `reply`. -/
structure RefusedPrepare (b : Build) where
  s : Int
  d : Int
  addr : Nat
  size : Nat
  clientId : RDMAMemory → List Char
  source : Server
  destination : Server
  before : Session
  prepared : Server
  request : RdmaMessage
  answered : Server
  reply : RdmaMessage
  after : Session
  prepares : source.prepare b addr size d clientId = .ok (prepared, request)
  answers : pollerRound b destination prepared request s none before =
    .ok ((answered, some reply), after)
  declines : reply.messageType = .decline

namespace RefusedPrepare

variable {b : Build} (r : RefusedPrepare b)

/-- The source handles the `DECLINE`, has the registrations of before without the
refused address, and can call `Prepare` again. -/
def SourceUndone : Prop :=
  ∃ s t, pollerRound b r.prepared r.answered r.reply r.d none r.after = .ok ((s, none), t) ∧
    (∀ a, (s.connections r.d).registrations.lookup a =
      if a = r.addr then none else (r.source.connections r.d).registrations.lookup a) ∧
    ∃ again, s.prepare b r.addr r.size r.d r.clientId = .ok again

def DestinationUndone : Prop :=
  r.answered.table b = r.destination.table b ∧
    (b.faultTolerant = true → processList r.after.store r.destination.serverId =
      processList r.before.store r.destination.serverId)

/-- No send completion of the exchange ends in the throw of `on_send_finish`. -/
def CompletionsReturn : Prop :=
  onSendFinish r.request.messageType ≠ .throws ∧ onSendFinish r.reply.messageType ≠ .throws

def Undone : Prop := r.SourceUndone ∧ r.DestinationUndone ∧ r.CompletionsReturn

/-! ## What the two sides do -/

theorem prepared_registered :
    r.request.messageType = .prepare ∧
      ((r.prepared.connections r.d).registrations.lookup r.addr).isSome := by
  obtain ⟨p, -, h⟩ := bind_eq_ok.mp r.prepares
  obtain ⟨memory, -, h⟩ := bind_eq_ok.mp h
  obtain ⟨m, hm, hret⟩ := bind_eq_ok.mp h
  rw [deref_eq_ok] at hm
  obtain ⟨mr, hmr, heq⟩ := Option.map_eq_some_iff.mp hm
  obtain ⟨hs, hrequest⟩ := Prod.mk.inj (Except.ok.inj hret)
  refine ⟨by rw [← hrequest, ← heq], ?_⟩
  rw [← hs, hmr]
  rfl

/-- A refusal names the null address. -/
theorem accept_null {paging : Bool} {s s' : Server} {addr size : Nat} {source id : Int}
    {z t : Session} {m : RdmaMessage}
    (h : accept paging s addr size source id none z = .ok ((s', m), t)) :
    m = sendDecline 0 size := by
  rcases accept_cases h with ⟨-, hanswer⟩ | ⟨res, r, hnone, -⟩
  · exact congrArg Prod.snd hanswer
  · cases hnone

theorem reply_null : r.reply.regionInfo.addr = 0 := by
  have hanswers := r.answers
  have htype : getMessageType r.request.messageType = .prepare := by
    rw [r.prepared_registered.1]
    rfl
  unfold pollerRound at hanswers
  split at hanswers
  · simp only [handle, htype] at hanswers
    obtain ⟨⟨s, m⟩, z, haccept, hret⟩ := Zk.bind_eq_ok.mp hanswers
    have hreply : some r.reply = some m := congrArg (fun x => x.1.2) (Zk.pure_eq_ok.mp hret)
    rw [Option.some.inj hreply, accept_null haccept]
    rfl
  · obtain ⟨⟨s, m⟩, hhandle, heq⟩ := plain_eq_ok.mp hanswers
    simp only [Server.handle, htype] at hhandle
    obtain ⟨⟨s', m'⟩, haccept, hret⟩ := bind_eq_ok.mp hhandle
    have hm' : m' = sendDecline 0 r.request.regionInfo.length :=
      (congrArg Prod.snd (Except.ok.inj haccept)).symm
    have hm : some m' = m := congrArg Prod.snd (Except.ok.inj hret)
    have hreply : some r.reply = m := congrArg (fun x => x.1.2) heq
    rw [Option.some.inj (hreply.trans hm.symm), hm']
    rfl

theorem handled_decline {s t : Server} {m : RdmaMessage} {peer : Int} {z u : Session}
    {out : Option RdmaMessage} {remote : Server} (hm : m.messageType = .decline)
    (h : pollerRound b s remote m peer none z = .ok ((t, out), u)) :
    s.deregisterMemory peer m.regionInfo.addr = .ok t := by
  unfold pollerRound at h
  split at h
  · simp only [handle, hm, getMessageType] at h
    obtain ⟨t', z₁, hplain, hret⟩ := Zk.bind_eq_ok.mp h
    obtain ⟨t'', hderegister, heq⟩ := plain_eq_ok.mp hplain
    have ht : t = t' := congrArg (fun x => x.1.1) (Zk.pure_eq_ok.mp hret)
    have ht' : t' = t'' := congrArg Prod.fst heq
    rw [ht, ht', hderegister]
  · obtain ⟨⟨t', out'⟩, hhandle, heq⟩ := plain_eq_ok.mp h
    simp only [Server.handle, hm, getMessageType] at hhandle
    obtain ⟨t'', hderegister, hret⟩ := bind_eq_ok.mp hhandle
    have ht : t = t' := congrArg (fun x => x.1.1) heq
    have ht' : t'' = t' := congrArg Prod.fst (Except.ok.inj hret)
    rw [ht, ← ht', hderegister]

theorem registered_deregister {s t : Server} {peer : Int} {addr addr' : Nat} (hne : addr ≠ addr')
    (h : s.deregisterMemory peer addr' = .ok t) :
    (t.connections peer).registrations.lookup addr =
      (s.connections peer).registrations.lookup addr := by
  obtain rfl := Server.deregisterMemory_cases h
  simp [Server.setConnection, Connection.unregister, AList.lookup_erase_ne hne]

/-- Of no refused `Prepare` of a segment, which never lies at the null address, is
the source rid of its registration, and the send completion of the refusal throws. -/
theorem refused_prepare_not_undone (haddr : r.addr ≠ 0) :
    ¬ r.SourceUndone ∧ ¬ r.CompletionsReturn ∧ ¬ r.Undone := by
  have hsource : ¬ r.SourceUndone := by
    rintro ⟨s, t, hhandled, hregistrations, -⟩
    have hderegister := handled_decline r.declines hhandled
    rw [r.reply_null] at hderegister
    have hkept := registered_deregister haddr hderegister
    have hgone := hregistrations r.addr
    rw [if_pos rfl, hkept] at hgone
    have hregistered := r.prepared_registered.2
    rw [hgone] at hregistered
    cases hregistered
  refine ⟨hsource, ?_, fun hundone => hsource hundone.1⟩
  rintro ⟨-, hreply⟩
  rw [r.declines] at hreply
  exact hreply rfl

end RefusedPrepare

/-! ## Refusals in runs -/

def refuse (b : Build) (s d : Int) (addr size : Nat) (clientId : RDMAMemory → List Char)
    (source destination : Server) (before : Session) : Option (RefusedPrepare b) :=
  match hprepare : source.prepare b addr size d clientId with
  | .error _ => none
  | .ok (prepared, request) =>
      match hanswer : pollerRound b destination prepared request s none before with
      | .ok ((answered, some reply), after) =>
          if hdecline : reply.messageType = .decline then
            some ⟨s, d, addr, size, clientId, source, destination, before, prepared, request,
              answered, reply, after, hprepare, hanswer, hdecline⟩
          else none
      | _ => none

/-- A segment of server 0 that server 1 cannot map, with and without fault
tolerance. -/
theorem refused_prepare_not_undone_both :
    (∃ r : RefusedPrepare ⟨true, false⟩, r.addr ≠ 0 ∧ ¬ r.Undone) ∧
      ∃ r : RefusedPrepare ⟨false, false⟩, r.addr ≠ 0 ∧ ¬ r.Undone := by
  have hwith : ((run (System.step false 2) (System.initial 2) (System.oneMigration.take 1)).bind
      fun st => refuse ⟨true, false⟩ 0 1 allocatableRangeStart 4096
        (fun memory => decimalInt memory.applicationId) (st.server 0) (st.server 1)
        ⟨st.zk, [], false⟩).map (fun r => r.addr) = some allocatableRangeStart := by
    decide +kernel
  have hwithout : (refuse ⟨false, false⟩ 0 1 allocatableRangeStart 4096 (fun _ => [])
      ((Server.construct 2 0).allocate 4096 none (some allocatableRangeStart)).1
      (Server.construct 2 1) ⟨System.initialStore 2, [], false⟩).map (fun r => r.addr) =
      some allocatableRangeStart := by
    decide +kernel
  have hne : allocatableRangeStart ≠ 0 := by decide
  obtain ⟨r, -, hr⟩ := Option.map_eq_some_iff.mp hwith
  obtain ⟨r', -, hr'⟩ := Option.map_eq_some_iff.mp hwithout
  rw [← hr] at hne
  have hne' : r'.addr ≠ 0 := by rw [hr', ← hr]; exact hne
  exact ⟨⟨r, hne, (r.refused_prepare_not_undone hne).2.2⟩,
    ⟨r', hne', (r'.refused_prepare_not_undone hne').2.2⟩⟩

/-- The refusal names the null address, the id is in the process list of the server
that refused, and the source, which still has the segment registered, cannot
handle the `DECLINE`. -/
theorem refusal_of_null_address :
    ∃ st, run (System.step false 2) (System.initial 2)
        [.allocate 0 4096 7 (some allocatableRangeStart) [],
          .prepare 0 allocatableRangeStart 4096 1, .poll 1 0 none []] = some st ∧
      st.wire 1 0 = [sendDecline 0 4096] ∧ processList st.zk 1 = [7] ∧
      ((st.server 0).connections 1).registrations.keys = [allocatableRangeStart] ∧
      (System.step false 2 st (.poll 0 1 none [])).isNone = true ∧
      onSendFinish (sendDecline 0 4096).messageType = .throws := by
  have hrun : (run (System.step false 2) (System.initial 2)
      [.allocate 0 4096 7 (some allocatableRangeStart) [],
        .prepare 0 allocatableRangeStart 4096 1, .poll 1 0 none []]).map (fun st =>
        (st.wire 1 0, processList st.zk 1, ((st.server 0).connections 1).registrations.keys,
          (System.step false 2 st (.poll 0 1 none [])).isNone)) =
      some ([sendDecline 0 4096], [7], [allocatableRangeStart], true) := by
    decide +kernel
  obtain ⟨st, hst, hresult⟩ := Option.map_eq_some_iff.mp hrun
  simp only [Prod.mk.injEq] at hresult
  obtain ⟨hwire, hlist, hkeys, hnone⟩ := hresult
  exact ⟨st, hst, hwire, hlist, hkeys, hnone, rfl⟩

end RdmaMigration.FaultTolerant.Decline
