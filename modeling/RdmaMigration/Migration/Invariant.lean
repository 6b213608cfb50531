import RdmaMigration.Migration.Placement
import RdmaMigration.Migration.View

/-! # The invariant of the cluster

The core of the invariant is what the handlers need: segments are placed, the
protocol's invariant holds at every address, and every message under way says
something true. The logs relate what was posted to what was handled and to the
three queues.
-/

namespace RdmaMigration.Migration.System

open Lib Network Manager

/-! ## Messages under way -/

/-- What a message from `s` to `d` can be relied on for. The key that a `TRANSFER` carries
is that of the registration of the segment, unless that has been dropped. -/
structure Sound (st : State Face) (s d : Int) (m : RdmaMessage) : Prop where
  type : m.messageType = .prepare ∨ m.messageType = .accept ∨ m.messageType = .transfer ∨
    m.messageType = .doneTransfer
  prepared : m.messageType = .prepare → m.regionInfo.addr ∈ (st.server s).memoryMap ∧
    m.regionInfo.length < 2 ^ 31
  accepted : m.messageType = .accept → m.regionInfo.addr ∈ (st.server d).memoryMap
  bytes : m.messageType = .transfer → ∀ a, Covers (m.regionInfo.addr, m.regionInfo.length) a →
    (st.server s).bytes a = st.snapshot s m.regionInfo.addr a
  keyed : m.messageType = .transfer → ∀ mr,
    ((st.server s).connections d).registrations.lookup m.regionInfo.addr = some mr →
      mr.rkey = m.regionInfo.rkey

theorem Sound.of_later {st st' : State Face} {s d : Int} {m : RdmaMessage} (h : Sound st s d m)
    (htable : ∀ x addr, addr ∈ (st.server x).memoryMap → addr ∈ (st'.server x).memoryMap)
    (hbytes : m.messageType = .transfer → ∀ a,
      Covers (m.regionInfo.addr, m.regionInfo.length) a →
        (st'.server s).bytes a = (st.server s).bytes a) (hkeys : m.messageType = .transfer → ∀ mr,
      ((st'.server s).connections d).registrations.lookup m.regionInfo.addr = some mr →
        ((st.server s).connections d).registrations.lookup m.regionInfo.addr = some mr)
    (hsnapshot : st'.snapshot = st.snapshot) : Sound st' s d m := by
  refine ⟨h.type, fun hm => ?_, fun hm => htable _ _ (h.accepted hm), fun hm a ha => ?_,
    fun hm mr hmr => h.keyed hm mr (hkeys hm mr hmr)⟩
  · exact ⟨htable _ _ (h.prepared hm).1, (h.prepared hm).2⟩
  · rw [hbytes hm a ha, hsnapshot]
    exact h.bytes hm a ha

structure Core (st : State Face) : Prop where
  serverId : ∀ i, (st.server i).serverId = i
  placed : ∀ i, Placed (st.stage i) (st.server i).toLayout
  segment : ∀ addr, (st.view addr).Inv
  apart : ∀ s, st.queue s s = []
  sound : ∀ s d, ∀ m ∈ st.queue s d, Sound st s d m
  announced : ∀ s d, ∀ m ∈ ((st.server d).connections s).recvQueue, m.messageType = .transfer →
    ((st.server d).connections s).remoteRegistrations.lookup m.regionInfo.addr =
      some m.regionInfo

theorem mem_toMsg {addr : Nat} {q : List RdmaMessage} {m : RdmaMessage} {msg : Msg} (hm : m ∈ q)
    (h : toMsg addr m = some msg) : msg ∈ q.filterMap (toMsg addr) :=
  List.mem_filterMap.mpr ⟨m, hm, h⟩

section Core

variable {st : State Face}

/-- The source of a `TRANSFER` has given the segment away and not got it back. -/
theorem Core.transfer_given (h : Core st) {s d : Int} {m : RdmaMessage} (hm : m ∈ st.queue s d)
    (htype : m.messageType = .transfer) :
    ∃ prepared, st.stage s m.regionInfo.addr = .given m.regionInfo.length d prepared := by
  have hne : s ≠ d := by
    rintro rfl
    simp [h.apart s] at hm
  exact ((h.segment m.regionInfo.addr) s d hne).transferGiven _
    (mem_toMsg hm (by simp [toMsg, htype]))

def Undisturbed (stage : Nat → Stage Int) (before after : Nat → UInt8) : Prop :=
  ∀ addr size d prepared, stage addr = .given size d prepared → ∀ a, Covers (addr, size) a →
    after a = before a

theorem Undisturbed.refl (stage : Nat → Stage Int) (bytes : Nat → UInt8) :
    Undisturbed stage bytes bytes := fun _ _ _ _ _ _ _ => rfl

/-- The registration of a segment given to `peer` may be dropped but not replaced. -/
def Unreplaced (stage : Stage Int) (peer : Int) (before after : Option Registration) : Prop :=
  stage.GivenTo peer → ∀ mr, after = some mr → before = some mr

theorem Unreplaced.refl (stage : Stage Int) (peer : Int) (mr : Option Registration) :
    Unreplaced stage peer mr mr := fun _ _ h => h

theorem Core.sound_later (h : Core st) {st' : State Face} {i : Int}
    (hserver : ∀ x, x ≠ i → st'.server x = st.server x)
    (htable : ∀ addr, addr ∈ (st.server i).memoryMap → addr ∈ (st'.server i).memoryMap)
    (hbytes : Undisturbed (st.stage i) (st.server i).bytes (st'.server i).bytes)
    (hkeys : ∀ y addr, Unreplaced (st.stage i addr) y
      (((st.server i).connections y).registrations.lookup addr)
      (((st'.server i).connections y).registrations.lookup addr))
    (hsnapshot : st'.snapshot = st.snapshot) {s d : Int} {m : RdmaMessage}
    (hm : m ∈ st.queue s d) : Sound st' s d m := by
  refine (h.sound s d m hm).of_later ?_ ?_ ?_ hsnapshot
  · intro x addr haddr
    by_cases hx : x = i
    · rw [hx] at haddr ⊢
      exact htable addr haddr
    · rwa [hserver x hx]
  · intro htype a ha
    by_cases hs : s = i
    · obtain ⟨prepared, hgiven⟩ := h.transfer_given hm htype
      rw [hs] at hgiven ⊢
      exact hbytes _ _ _ _ hgiven a ha
    · rw [hserver s hs]
  · intro htype
    by_cases hs : s = i
    · obtain ⟨prepared, hgiven⟩ := h.transfer_given hm htype
      rw [hs] at hgiven ⊢
      exact hkeys d _ ⟨_, prepared, hgiven⟩
    · rw [hserver s hs]
      exact fun _ hmr => hmr

/-! ## Steps that keep the core -/

theorem Core.act (h : Core st) {a : Act} (hl : a.Local st) (hid : a.face.serverId = a.i)
    (hplaced : Placed (Function.update (st.stage a.i) a.addr a.stage) a.face.toLayout)
    (hstep : Step (st.view a.addr) ((st.act a).view a.addr))
    (htable : ∀ addr, addr ∈ (st.server a.i).memoryMap → addr ∈ a.face.memoryMap)
    (hbytes : Undisturbed (st.stage a.i) (st.server a.i).bytes a.face.bytes)
    (hkeys : Unreplaced (st.stage a.i a.addr) a.j
      (((st.server a.i).connections a.j).registrations.lookup a.addr)
      ((a.face.connections a.j).registrations.lookup a.addr))
    (hreceived : ∀ m ∈ (a.face.connections a.j).recvQueue,
      m ∈ ((st.server a.i).connections a.j).recvQueue)
    (hremote : (a.face.connections a.j).remoteRegistrations =
      ((st.server a.i).connections a.j).remoteRegistrations)
    (hsent : ∀ m ∈ a.sent, Sound (st.act a) a.i a.j m) : Core (st.act a) := by
  have hself : (st.act a).server a.i = a.face := server_act_self st a
  have hother : ∀ x, x ≠ a.i → (st.act a).server x = st.server x := fun x hx => server_act_ne hx
  refine ⟨?_, ?_, ?_, ?_, ?_, ?_⟩
  · intro x
    by_cases hx : x = a.i
    · rw [hx, hself, hid]
    · rw [hother x hx, h.serverId]
  · intro x
    by_cases hx : x = a.i
    · rw [hx, hself]
      simpa [State.act, State.setStage, State.setServer, update₂_row] using hplaced
    · rw [hother x hx]
      simpa [State.act, State.setStage, State.setServer, update₂_row_ne _ _ _ hx] using h.placed x
  · intro addr
    by_cases haddr : addr = a.addr
    · rw [haddr]
      exact (h.segment a.addr).step hstep
    · rw [view_act_ne hl haddr]
      exact h.segment addr
  · intro x
    have hne : ∀ {y z : Int}, y ≠ z → (x, x) ≠ (y, z) := by
      rintro y z hyz heq
      simp only [Prod.mk.injEq] at heq
      exact hyz (heq.1.symm.trans heq.2)
    rw [queue_act_ne hl (hne hl.ne) (hne hl.ne.symm), h.apart x]
  · intro x y m hm
    have hkept : ∀ y addr, Unreplaced (st.stage a.i addr) y
        (((st.server a.i).connections y).registrations.lookup addr)
        ((((st.act a).server a.i).connections y).registrations.lookup addr) := by
      intro y addr
      by_cases hat : (a.i, y, addr) = (a.i, a.j, a.addr)
      · simp only [Prod.mk.injEq, true_and] at hat
        rw [hself, hat.1, hat.2]
        exact hkeys
      · rw [registrations_act hl hat]
        exact .refl _ _ _
    have hold : m ∈ st.queue x y → Sound (st.act a) x y m := fun hm =>
      h.sound_later hother (by rwa [hself]) (by rwa [hself]) hkept rfl hm
    rcases mem_queue_act hl hreceived hm with hm | ⟨hxy, hm⟩
    · exact hold hm
    · simp only [Prod.mk.injEq] at hxy
      rw [hxy.1, hxy.2]
      exact hsent m hm
  · intro x y m hm htype
    by_cases hy : y = a.i
    · rw [hy, hself] at hm ⊢
      by_cases hx : x = a.j
      · rw [hx] at hm ⊢
        rw [hremote]
        exact h.announced a.j a.i m (hreceived m hm) htype
      · rw [hl.connections x hx] at hm ⊢
        exact h.announced x a.i m hm htype
    · rw [hother y hy] at hm ⊢
      exact h.announced x y m hm htype

theorem Core.alone (h : Core st) {i : Int} {f : Face} {addr : Nat} {v : Stage Int}
    (hconnections : f.connections = (st.server i).connections)
    (hid : f.serverId = i) (hplaced : Placed (Function.update (st.stage i) addr v) f.toLayout)
    (hstep : v = st.stage i addr ∨
      (∃ size, st.stage i addr = .absent ∧ v = .held size []) ∨
      ∃ size prepared, st.stage i addr = .held size prepared ∧ v = .absent)
    (htable : ∀ addr, addr ∈ (st.server i).memoryMap → addr ∈ f.memoryMap)
    (hbytes : Undisturbed (st.stage i) (st.server i).bytes f.bytes) :
    Core ((st.setServer i f).setStage i addr v) := by
  have hself : ((st.setServer i f).setStage i addr v).server i = f := by
    simp [State.setServer, State.setStage]
  have hother : ∀ x, x ≠ i → ((st.setServer i f).setStage i addr v).server x = st.server x := by
    intro x hx
    simp [State.setServer, State.setStage, hx]
  have hconn : ∀ x, (((st.setServer i f).setStage i addr v).server x).connections =
      (st.server x).connections := by
    intro x
    by_cases hx : x = i
    · rw [hx, hself, hconnections]
    · rw [hother x hx]
  have hqueue : ((st.setServer i f).setStage i addr v).queue = st.queue := by
    funext x y
    simp only [State.queue, hconn]
    rfl
  have hregistered : ((st.setServer i f).setStage i addr v).registered = st.registered := by
    funext x y addr'
    simp only [State.registered, hconn]
  have hrow : ∀ x, x ≠ i → ((st.setServer i f).setStage i addr v).stage x = st.stage x :=
    fun x hx => update₂_row_ne _ _ _ hx
  have hview : ∀ addr', ((st.setServer i f).setStage i addr v).view addr' =
      { st.view addr' with
        stage := fun x => ((st.setServer i f).setStage i addr v).stage x addr' } := by
    intro addr'
    simp only [State.view, hqueue, hregistered]
    rfl
  have hstage : ((st.setServer i f).setStage i addr v).stage i addr = v := by simp [State.setStage]
  have hframe : Frame (st.view addr) (((st.setServer i f).setStage i addr v).view addr) i i := by
    rw [hview]
    exact ⟨fun x hx => congrFun (hrow x hx) addr, fun x y _ _ => ⟨rfl, rfl, rfl⟩⟩
  refine ⟨?_, ?_, ?_, ?_, ?_, ?_⟩
  · intro x
    by_cases hx : x = i
    · rw [hx, hself, hid]
    · rw [hother x hx, h.serverId]
  · intro x
    by_cases hx : x = i
    · rw [hx, hself]
      simpa [State.setStage, State.setServer, update₂_row] using hplaced
    · rw [hother x hx, hrow x hx]
      exact h.placed x
  · intro addr'
    by_cases haddr : addr' = addr
    · rw [haddr]
      rcases hstep with hsame | ⟨size, hold, hnew⟩ | ⟨size, prepared, hold, hnew⟩
      · have hnone : ((st.setServer i f).setStage i addr v).view addr = st.view addr := by
          rw [hview, hsame]
          simp [State.setStage, State.setServer, State.view]
        rw [hnone]
        exact h.segment addr
      · exact (h.segment addr).step (.acquire i size hframe hold (hstage.trans hnew))
      · exact (h.segment addr).step (.release i size prepared hframe hold (hstage.trans hnew))
    · have hnone : ((st.setServer i f).setStage i addr v).view addr' = st.view addr' := by
        rw [hview]
        have : ∀ x, ((st.setServer i f).setStage i addr v).stage x addr' = st.stage x addr' :=
          fun x => update₂_ne _ _ (by simp [haddr])
        simp only [this]
        rfl
      rw [hnone]
      exact h.segment addr'
  · intro x
    rw [hqueue]
    exact h.apart x
  · intro x y m hm
    rw [hqueue] at hm
    refine h.sound_later hother (by rwa [hself]) (by rwa [hself]) (fun y addr' => ?_) rfl hm
    rw [hconn]
    exact .refl _ _ _
  · intro x y
    rw [hconn]
    exact h.announced x y

end Core

end RdmaMigration.Migration.System
