import RdmaMigration.Coordinator.Shutdown
import RdmaMigration.Lib.Simulation
import RdmaMigration.Network.Disconnect

/-! # Two servers at a closing connection

`Shutdown` knows of the end of a connection only whether `done` has been called there and
which `MSG_DONE`s its completion thread has seen. The connection of `Network.Disconnect`
has buffers, work requests and other messages besides. If no send is unfinished when
`done` is called, it runs as the shutdown of two servers does, up to the events of the
disconnection, which it leaves out.
-/

namespace RdmaMigration.Coordinator

open Lib Function Network

/-! ## What a step does to the two ends -/

def closing : UserCall → Bool
  | .idle => false
  | .copied _ wait | .waiting wait => wait = .disconnection

def fateAfter (disconnects : Nat) : Teardown :=
  if disconnects = 0 then .established else .disconnecting

def LinkEnd.ofLink (l : Link) (i : Side) : LinkEnd where
  called := closing (l.side i).user
  sentDone := (l.side i).sentDone
  recvDone := (l.side i).recvDone
  fate := fateAfter (l.disconnects i + l.disconnects i.peer)

/-- End `i` has become `e`, and both ends are disconnected if `disconnects`. -/
def after (ends : Side → LinkEnd) (i : Side) (e : LinkEnd) (disconnects : Bool) : Side → LinkEnd :=
  fun j =>
    if disconnects then (update ends i e j).disconnect else update ends i e j

inductive Moves (ends : Side → LinkEnd) : (Side → LinkEnd) → Prop
  | quiet : Moves ends ends
  | call (i : Side) (hnot : (ends i).called = false) :
      Moves ends (update ends i { ends i with called := true })
  | onRecvDone (i : Side) (hpeer : (ends i.peer).called = true)
      (hnot : (ends i).recvDone = false) :
      Moves ends (after ends i { ends i with recvDone := true } (ends i).sentDone)
  | onSendDone (i : Side) (hcalled : (ends i).called = true)
      (hnot : (ends i).sentDone = false) :
      Moves ends (after ends i { ends i with sentDone := true } (ends i).recvDone)

section Ends

variable {st st' : SendSide} {a : SendSide.Action} {l l' : Link} {i : Side}

/-- What a step can do at its own end: nothing, the call of `done`, or the completion of
its `MSG_DONE`. -/
inductive Effect (st st' : SendSide) (disconnects : Bool) : Prop
  | quiet (hcalled : closing st'.user = closing st.user) (hsent : st'.sentDone = st.sentDone)
      (hrecv : st'.recvDone = st.recvDone) (hnone : disconnects = false)
  | call (hnot : closing st.user = false) (hcalled : closing st'.user = true)
      (hsent : st'.sentDone = st.sentDone) (hrecv : st'.recvDone = st.recvDone)
      (hnone : disconnects = false)
  | finish (hcalled : closing st.user = true) (hkept : closing st'.user = closing st.user)
      (hnot : st.sentDone = false) (hsent : st'.sentDone = true)
      (hrecv : st'.recvDone = st.recvDone) (hboth : disconnects = st.recvDone)

theorem closing_signal (st : SendSide) (sem : Bool) :
    closing (st.signal sem).user = closing st.user ∧
      (st.signal sem).sentDone = st.sentDone ∧ (st.signal sem).recvDone = st.recvDone ∧
      (st.signal sem).received = st.received := by
  unfold SendSide.signal
  split
  · rename_i hwaiting
    simp [closing, hwaiting.2]
  · simp

theorem Effect.of_finish {f d : Nat} {wr : Bool} {rest : List Bool} (h : st.Parting f d)
    (hread : st.read = wr :: rest)
    (hkept : closing st'.user = closing ({ st with read := rest }.finished).user)
    (hsent : st'.sentDone = ({ st with read := rest }.finished).sentDone)
    (hrecv : st'.recvDone = ({ st with read := rest }.finished).recvDone) :
    Effect st st' (st.callsDisconnect .finish) := by
  cases hfinish : onSendFinish st.sendBuffer.messageType with
  | noted | throws =>
      simp only [SendSide.finished, hfinish] at hkept hsent hrecv
      exact .quiet hkept hsent hrecv (by simp [SendSide.callsDisconnect, hfinish])
  | sentDone =>
      simp only [SendSide.finished, hfinish] at hkept hsent hrecv
      have hboth : st.callsDisconnect .finish = st.recvDone := by
        simp [SendSide.callsDisconnect, hfinish]
      cases (h.alone (onSendFinish_eq_sentDone.mp hfinish)).2 with
      | none _ hnone _ | unread _ _ hnone _ _ =>
          rw [hread] at hnone
          cases hnone
      | read _ _ _ huser hnot _ =>
          exact .finish (by rw [huser]; rfl) hkept hnot hsent hrecv hboth

/-- A `MSG_DONE` goes out only at an end that has called `done`. -/
theorem effect_liveStep {f d : Nat} (h : st.Parting f d)
    (hstep : st.liveStep a = some st') (hdone : a ≠ .receiveDone) :
    Effect st st' (st.callsDisconnect a) ∧
      ∀ m ∈ st'.received, m.messageType = .done → m ∈ st.received ∨ closing st'.user = true := by
  cases SendSide.liveStep_cases hstep with
  | register | deregister | receiveMeminfo =>
      exact ⟨.quiet rfl rfl rfl rfl, fun m hm _ => .inl hm⟩
  | call sender m hidle =>
      refine ⟨?_, fun m hm _ => .inl hm⟩
      by_cases hsender : sender.wait = .disconnection
      · exact .call (by rw [hidle]; rfl) (by simp [closing, hsender]) rfl rfl rfl
      · exact .quiet (by simp [closing, hsender, hidle]) rfl rfl rfl
  | post taken m wait st₁ huser hpost =>
      obtain ⟨unread, posted, rfl, -⟩ := SendSide.postSend_eq hpost
      refine ⟨.quiet ?_ rfl rfl rfl, fun m hm _ => .inl hm⟩
      cases wait <;> simp [closing, huser]
  | postAck taken m st₁ _ hpost =>
      obtain ⟨unread, posted, rfl, -⟩ := SendSide.postSend_eq hpost
      exact ⟨.quiet rfl rfl rfl rfl, fun m hm _ => .inl hm⟩
  | receiveAck huser => exact ⟨.quiet (by rw [huser]; rfl) rfl rfl rfl, fun m hm _ => .inl hm⟩
  | receiveDone => exact absurd rfl hdone
  | nicRead wr rest hunread =>
      refine ⟨.quiet rfl rfl rfl rfl, fun m hm hm' => ?_⟩
      rcases List.mem_append.mp hm with hold | hnew
      · exact .inl hold
      · rw [List.mem_singleton.mp hnew] at hm'
        cases (h.alone hm').2 with
        | none hnone _ _ | read _ hnone _ _ _ _ =>
            rw [hunread] at hnone
            cases hnone
        | unread _ _ _ huser _ => exact .inr (by rw [huser]; rfl)
  | finish wr rest hread =>
      have hreceived : ({ st with read := rest }.finished).received = st.received := by
        unfold SendSide.finished
        split <;> rfl
      split
      · obtain ⟨huser, hsent, hrecv, hkept⟩ :=
          closing_signal ({ st with read := rest }.finished) wr
        refine ⟨.of_finish h hread huser hsent hrecv, fun m hm _ => .inl ?_⟩
        rwa [hkept, hreceived] at hm
      · exact ⟨.of_finish h hread rfl rfl rfl, fun m hm _ => .inl (hreceived ▸ hm)⟩

theorem fateAfter_add (d : Nat) (c : Bool) :
    fateAfter (d + c.toNat) = if c then (fateAfter d).disconnect else fateAfter d := by
  cases c with
  | false => rfl
  | true =>
      by_cases hd : d = 0
      · simp [fateAfter, hd, Teardown.disconnect]
      · simp [fateAfter, hd, Teardown.disconnect]

theorem ofLink_perform (h : l.perform i a = some l') :
    ∃ st, (l.side i).liveStep a = some st ∧ l'.side = update l.side i st ∧
      LinkEnd.ofLink l' = after (LinkEnd.ofLink l) i { LinkEnd.ofLink l i with
        called := closing st.user, sentDone := st.sentDone, recvDone := st.recvDone }
        ((l.side i).callsDisconnect a) := by
  obtain ⟨-, h⟩ := Option.ite_none_right_eq_some.mp h
  obtain ⟨st, hst, rfl⟩ := Option.map_eq_some_iff.mp h
  refine ⟨st, hst, rfl, ?_⟩
  funext j
  generalize (l.side i).callsDisconnect a = c
  have hcount : update l.disconnects i (l.disconnects i + c.toNat) j +
      update l.disconnects i (l.disconnects i + c.toNat) j.peer =
        l.disconnects j + l.disconnects j.peer + c.toNat := by
    cases i <;> cases j <;> simp [Side.peer] <;> omega
  simp only [LinkEnd.ofLink, hcount, fateAfter_add, after]
  by_cases hj : j = i
  · subst hj
    cases c <;> simp [LinkEnd.disconnect]
  · cases c <;> simp [LinkEnd.ofLink, LinkEnd.disconnect, hj]

theorem Effect.called {disconnects : Bool} (h : Effect st st' disconnects)
    (hcalled : closing st.user = true) : closing st'.user = true := by
  cases h with
  | quiet hkept | finish _ hkept => exact hkept.trans hcalled
  | call _ hcall => exact hcall

/-- An end from which a `MSG_DONE` has gone out is in the call of `done`. -/
structure Parts (l : Link) : Prop where
  inv : l.Inv
  called : ∀ i, ∀ m ∈ (l.side i).received, m.messageType = .done → closing (l.side i).user = true

theorem Parts.update (h : Parts l) (hinv : l'.Inv) (hside : l'.side = update l.side i st)
    (hreceived : ∀ m ∈ st.received, m.messageType = .done →
      m ∈ (l.side i).received ∨ closing st.user = true)
    (hcalled : closing (l.side i).user = true → closing st.user = true) : Parts l' := by
  refine ⟨hinv, fun j m hm hdone => ?_⟩
  rcases update_cases hside j with ⟨rfl, hj⟩ | ⟨-, hj⟩
  · rw [hj] at hm ⊢
    rcases hreceived m hm hdone with hold | hnow
    · exact hcalled (h.called j m hold hdone)
    · exact hnow
  · rw [hj] at hm ⊢
    exact h.called j m hm hdone

theorem Parts.perform (h : Parts l) (hsettled : a = .call .done →
      (l.side i).unread = [] ∧ (l.side i).read = [] ∧ (l.side i).acking = none)
    (ha : a ≠ .receiveDone) (hperform : l.perform i a = some l') :
    Parts l' ∧ Moves (LinkEnd.ofLink l) (LinkEnd.ofLink l') := by
  obtain ⟨st, hst, hside, hends⟩ := ofLink_perform hperform
  obtain ⟨heffect, hreceived⟩ := effect_liveStep (h.inv.parting i) hst ha
  refine ⟨h.update (h.inv.perform hsettled ha hperform) hside hreceived heffect.called, ?_⟩
  rw [hends]
  cases heffect with
  | quiet hcalled hsent hrecv hnone =>
      have hsame : after (LinkEnd.ofLink l) i (LinkEnd.ofLink l i) false = LinkEnd.ofLink l :=
        update_eq_self ..
      rw [hcalled, hsent, hrecv, hnone]
      exact Eq.mpr (congrArg (Moves _) hsame) .quiet
  | call hnot hcalled hsent hrecv hnone =>
      rw [hcalled, hsent, hrecv, hnone]
      exact .call i hnot
  | finish hcalled hkept hnot hsent hrecv hboth =>
      rw [hkept, hsent, hrecv, hboth]
      exact .onSendDone i hcalled hnot

theorem Parts.receiveDone (h : Parts l) (hrecv : (l.side i).recvDone = false) {m : RdmaMessage}
    (hm : (l.side i.peer).received[l.taken i]? = some m) (htype : m.messageType = .done)
    (hperform : l.perform i .receiveDone = some l') :
    Parts (l'.take i) ∧ Moves (LinkEnd.ofLink l) (LinkEnd.ofLink l') := by
  obtain ⟨st, hst, hside, hends⟩ := ofLink_perform hperform
  obtain ⟨-, heq⟩ := Option.ite_none_right_eq_some.mp hst
  cases heq
  refine ⟨h.update (h.inv.receiveDone hrecv hm htype hperform) hside (fun m hm _ => .inl hm) id, ?_⟩
  rw [hends]
  exact .onRecvDone i (h.called i.peer m (List.mem_of_getElem? hm) htype) hrecv

theorem Parts.step (h : Parts l) {act : Link.Action} (hok : l.Settled act)
    (hstep : l.step act = some l') :
    Parts l' ∧ Moves (LinkEnd.ofLink l) (LinkEnd.ofLink l') := by
  have hpass : ∀ i, Parts (l.take i) ∧ Moves (LinkEnd.ofLink l) (LinkEnd.ofLink (l.take i)) :=
    fun i => ⟨⟨h.inv.take i, h.called⟩, .quiet⟩
  cases act with
  | act i a =>
      obtain ⟨hnot, hstep⟩ := Option.ite_none_left_eq_some.mp hstep
      refine h.perform ?_ ?_ hstep
      · rintro rfl
        exact hok
      · rintro rfl
        exact hnot rfl
  | receive i =>
      obtain ⟨hrecv, hstep⟩ := Option.ite_none_left_eq_some.mp hstep
      split at hstep
      case h_1 => cases hstep
      case h_2 m hm =>
        obtain ⟨l₁, hl₁, rfl⟩ := Option.map_eq_some_iff.mp hstep
        have hother : ∀ a, a ≠ .receiveDone → a ≠ .call .done → l.perform i a = some l₁ →
            Parts (l₁.take i) ∧ Moves (LinkEnd.ofLink l) (LinkEnd.ofLink (l₁.take i)) := by
          intro a ha hcall hperform
          obtain ⟨hparts, hmoves⟩ := h.perform (fun heq => absurd heq hcall) ha hperform
          exact ⟨⟨hparts.inv.take i, hparts.called⟩, hmoves⟩
        unfold Link.onRecvFinish at hl₁
        split at hl₁
        · exact hother .receiveMeminfo (by simp) (by simp) hl₁
        · split at hl₁
          · exact hother .receiveAck (by simp) (by simp) hl₁
          · rw [Link.pass_eq hl₁]
            exact hpass i
        · rename_i htype
          exact h.receiveDone (by simpa using hrecv) hm htype hl₁
        · rw [Link.pass_eq hl₁]
          exact hpass i

end Ends

/-! ## The shutdown of two servers -/

def serverAt : Side → Fin 2
  | .client => 0
  | .server => 1

structure Closing (ends : Side → LinkEnd) (s : Shutdown 2) : Prop where
  conn : ∀ i, s.conn (serverAt i, serverAt i.peer) = ends i
  stage : ∀ i, s.stage (serverAt i) =
    if (ends i).called then .waiting (serverAt i.peer) else .running

namespace Closing

variable {ends : Side → LinkEnd} {s : Shutdown 2} {i : Side}

theorem update_serverAt {β : Type*} (f : Fin 2 × Fin 2 → β) (x : β) (j : Side) :
    update f (serverAt i, serverAt i.peer) x (serverAt j, serverAt j.peer) =
      update (fun k => f (serverAt k, serverAt k.peer)) i x j := by
  cases i <;> cases j <;> simp [serverAt, Side.peer]

theorem handle (h : Closing ends s) {e : LinkEnd} (hcalled : e.called = (ends i).called) :
    Closing (after ends i e (e.sentDone && e.recvDone))
      (s.handle (serverAt i) (serverAt i.peer) e) := by
  have hends : (fun k => s.conn (serverAt k, serverAt k.peer)) = ends := funext h.conn
  refine ⟨fun j => ?_, fun j => (h.stage j).trans ?_⟩
  · have hboth : (serverAt j, serverAt j.peer) = (serverAt i, serverAt i.peer) ∨
        (serverAt j, serverAt j.peer) = (serverAt i.peer, serverAt i) := by
      cases i <;> cases j <;> decide
    rw [Shutdown.handle_conn, update_serverAt, hends]
    simp only [hboth, and_true, after]
  · have hkept : (after ends i e (e.sentDone && e.recvDone) j).called = (ends j).called := by
      unfold after
      rw [apply_ite LinkEnd.called]
      simp only [LinkEnd.disconnect, ite_self]
      exact update_kept rfl LinkEnd.called hcalled j
    rw [hkept]

theorem enter (h : Closing ends s) (hnot : (ends i).called = false) :
    ∃ t, Reaches Shutdown.step anyAction s t ∧
      Closing (update ends i { ends i with called := true }) t := by
  have hrunning : s.stage (serverAt i) = .running := by
    rw [h.stage, hnot]
    rfl
  refine ⟨(s.setStage (serverAt i) (.waiting (serverAt i.peer))).setConn
    (serverAt i, serverAt i.peer) { ends i with called := true }, ?_, fun j => ?_, fun j => ?_⟩
  · have hconn := h.conn i
    cases i with
    | client =>
        refine @reaches_of_run _ _ _ _ _ [.shutDown 0, .next 0, .next 0] ?_
        simp only [serverAt, Side.peer] at hrunning hconn
        simp [run, Shutdown.step, hrunning, Shutdown.next, Shutdown.setStage, serverAt, Side.peer,
          Shutdown.setConn, hconn]
    | server =>
        refine @reaches_of_run _ _ _ _ _ [.shutDown 1, .next 1] ?_
        simp only [serverAt, Side.peer] at hrunning hconn
        simp [run, Shutdown.step, hrunning, Shutdown.next, Shutdown.setStage, serverAt, Side.peer,
          Shutdown.setConn, hconn]
  · have hends : (fun k => s.conn (serverAt k, serverAt k.peer)) = ends := funext h.conn
    rw [← hends]
    exact update_serverAt s.conn _ j
  · have hstage := h.stage j
    cases i <;> cases j <;>
      simp_all [Shutdown.setConn, Shutdown.setStage, serverAt, Side.peer]

theorem moves (h : Closing ends s) (hlive : ∀ i, (ends i).fate ≠ .freed)
    {ends' : Side → LinkEnd} (hmoves : Moves ends ends') :
    ∃ t, Reaches Shutdown.step anyAction s t ∧ Closing ends' t := by
  cases hmoves with
  | quiet => exact ⟨s, Reaches.refl _ _ s, h⟩
  | call i hnot => exact h.enter hnot
  | onRecvDone i hpeer hnot =>
      have hclosing := @handle _ _ i h { ends i with recvDone := true } rfl
      rw [Bool.and_true] at hclosing
      refine ⟨_, (Reaches.refl _ _ s).snoc (a := .onRecvDone (serverAt i) (serverAt i.peer))
        trivial ?_, hclosing⟩
      have hconn := h.conn i.peer
      rw [Side.peer_peer] at hconn
      simp only [Shutdown.step, h.conn, hconn]
      exact if_pos ⟨hpeer, hnot, hlive i⟩
  | onSendDone i hcalled hnot =>
      have hclosing := @handle _ _ i h { ends i with sentDone := true } rfl
      refine ⟨_, (Reaches.refl _ _ s).snoc (a := .onSendDone (serverAt i) (serverAt i.peer))
        trivial ?_, hclosing⟩
      simp only [Shutdown.step, h.conn]
      exact if_pos ⟨hcalled, hnot, hlive i⟩

end Closing

/-- Whatever a connection comes to, the shutdown of two servers comes to as well: the same
flags are set at both ends, and the ends are being disconnected exactly if
`rdma_disconnect` has been called at one of them. -/
theorem link_closes_as_shutdown {conn : Side → Connection} {junk : Side → RdmaMessage} {l : Link}
    (h : Reaches Link.step Link.Settled (Link.initial conn junk) l) :
    ∃ s, Reaches Shutdown.step anyAction (Shutdown.initial 2) s ∧
      ∀ i, s.conn (serverAt i, serverAt i.peer) = .ofLink l i := by
  have hstart : Parts (Link.initial conn junk) :=
    ⟨⟨fun i => SendSide.initial_parting (conn i) (junk i), fun i hrecv => nomatch hrecv⟩,
      fun i m hm => nomatch hm⟩
  have hlive : ∀ (l : Link) i, (LinkEnd.ofLink l i).fate ≠ .freed := by
    intro l i
    simp only [LinkEnd.ofLink, fateAfter]
    split <;> simp
  have hstep : ∀ u a v s, (Parts u ∧ Closing (.ofLink u) s) → u.Settled a →
      Link.step u a = some v →
      ∃ t, Reaches Shutdown.step anyAction s t ∧ Parts v ∧ Closing (.ofLink v) t := by
    rintro u a v s ⟨hu, hs⟩ hok hv
    obtain ⟨hparts, hmoves⟩ := hu.step hok hv
    obtain ⟨t, hreach, hclosing⟩ := hs.moves (hlive u) hmoves
    exact ⟨t, hreach, hparts, hclosing⟩
  obtain ⟨s, hreach, -, hclosing⟩ :=
    Reaches.simulated hstep (t := Shutdown.initial 2) ⟨hstart, fun i => rfl, fun i => rfl⟩ h
  exact ⟨s, hreach, hclosing.conn⟩

end RdmaMigration.Coordinator
