import RdmaMigration.Migration.Territory

/-! # The keys that remote reads use

`rdma_read` looks its two keys up by address, in maps from which the entries of
the peer are never taken out. The cluster is run together with a note of which
registration the last `Prepare` and the last `accept` of an address have made, so
that the keys found can be compared with those of the migration under way.
-/

namespace RdmaMigration.Migration.System

open Lib Function Network Manager Cluster Cluster.Ownership

/-! ## The keys of one migration -/

/-- What there is between a sender and a receiver of a segment: `own` is the
sender's registration and `taken` the receiver's, `prepared` and `accepted` are
the ones that their last calls made, `announced` is what the receiver was told of
the sender's, and `sent` are the regions in the `TRANSFER`s under way. -/
structure KeyView (ι : Type) where
  here : Stage ι
  there : Stage ι
  owed : Bool
  owing : Bool
  own : Option Registration
  prepared : Option Registration
  taken : Option Registration
  accepted : Option Registration
  announced : Option RemoteRegion
  sent : List RemoteRegion

structure KeyInv {ι : Type} (s d : ι) (v : KeyView ι) : Prop where
  serving : d ∈ v.here.prepared ∨ v.sent ≠ [] ∨ v.owed = true →
    ∃ mr, v.own = some mr ∧ v.prepared = some mr
  forward : d ∈ v.here.prepared ∨ v.sent ≠ [] → v.owing = false
  carried : ∀ r ∈ v.sent, v.prepared.map Registration.rkey = some r.rkey
  took : v.owed = true ∨ (∃ size, v.there = .accepted size s) →
    ∃ mr, v.taken = some mr ∧ v.accepted = some mr
  told : v.owed = true → ∃ r, v.announced = some r ∧
    v.prepared.map Registration.rkey = some r.rkey

namespace KeyInv

variable {ι : Type} {s d : ι} {v : KeyView ι}

theorem idle (s d : ι) :
    KeyInv s d ⟨.absent, .absent, false, false, none, none, none, none, none, []⟩ := by
  constructor
  all_goals simp [Stage.prepared]

theorem here_changed (h : KeyInv s d v) {stage : Stage ι}
    (hprepared : d ∈ stage.prepared → d ∈ v.here.prepared) :
    KeyInv s d { v with here := stage } :=
  { h with
    serving := fun hwhy => h.serving (hwhy.imp_left hprepared)
    forward := fun hwhy => h.forward (hwhy.imp_left hprepared) }

theorem there_changed (h : KeyInv s d v) {stage : Stage ι}
    (haccepted : ∀ size, stage = .accepted size s → ∃ n, v.there = .accepted n s) :
    KeyInv s d { v with there := stage } :=
  { h with took := fun hwhy => h.took (hwhy.imp_right fun ⟨size, hsize⟩ => haccepted size hsize) }

theorem prepare (h : KeyInv s d v) {stage : Stage ι} {mr : Registration} (howed : v.owed = false)
    (hsent : v.sent = []) (howing : v.owing = false) :
    KeyInv s d { v with here := stage, own := some mr, prepared := some mr } := by
  refine ⟨fun _ => ⟨mr, rfl, rfl⟩, fun _ => howing, ?_, ?_, ?_⟩
  · intro r hr
    simp [hsent] at hr
  · exact h.took
  · intro ho
    simp [howed] at ho

theorem transfer (h : KeyInv s d v) {stage : Stage ι} {mr : Registration} {r : RemoteRegion}
    (hprepared : d ∈ v.here.prepared) (hmr : v.own = some mr) (hr : r.rkey = mr.rkey) :
    KeyInv s d { v with here := stage, sent := v.sent ++ [r] } := by
  obtain ⟨mr', hown, hmade⟩ := h.serving (.inl hprepared)
  have hsame : mr' = mr := Option.some.inj (hown.symm.trans hmr)
  subst hsame
  refine ⟨fun _ => ⟨mr', hown, hmade⟩, fun _ => h.forward (.inl hprepared), ?_, h.took, h.told⟩
  intro r' hr'
  rcases List.mem_append.mp hr' with hold | hnew
  · exact h.carried r' hold
  · rw [List.mem_singleton.mp hnew, hr, hmade]
    rfl

theorem unserved (h : KeyInv s d v) {stage : Stage ι} {mr : Option Registration} {owing : Bool}
    (hprepared : d ∉ stage.prepared) (hsent : v.sent = []) (howed : v.owed = false) :
    KeyInv s d { v with here := stage, own := mr, owing := owing } := by
  have hidle : ¬ (d ∈ stage.prepared ∨ v.sent ≠ []) := by simp [hprepared, hsent]
  refine ⟨?_, fun hwhy => absurd hwhy hidle, h.carried, h.took, h.told⟩
  rintro (hwhy | hwhy | hwhy)
  · exact absurd hwhy hprepared
  · exact absurd hsent hwhy
  · simp [howed] at hwhy

theorem untaken (h : KeyInv s d v) {stage : Stage ι} {mr made : Option Registration}
    (hthere : ∀ size, stage ≠ .accepted size s) :
    KeyInv s d { v with there := stage, owed := false, taken := mr, accepted := made } := by
  refine ⟨?_, h.forward, h.carried, ?_, ?_⟩
  · rintro (hwhy | hwhy | hwhy)
    · exact h.serving (.inl hwhy)
    · exact h.serving (.inr (.inl hwhy))
    · cases hwhy
  · rintro (hwhy | ⟨size, hsize⟩)
    · cases hwhy
    · exact absurd hsize (hthere size)
  · intro hwhy
    cases hwhy

theorem accept (h : KeyInv s d v) {stage : Stage ι} {mr : Registration} :
    KeyInv s d { v with there := stage, taken := some mr, accepted := some mr } :=
  { h with took := fun _ => ⟨mr, rfl, rfl⟩ }

theorem receive (h : KeyInv s d v) {stage : Stage ι} {r : RemoteRegion} {rest : List RemoteRegion}
    {size : Nat} (hsent : v.sent = r :: rest) (hthere : v.there = .accepted size s)
    (hannounced : v.announced = some r) :
    KeyInv s d { v with there := stage, owed := true, sent := rest } := by
  have hsome : v.sent ≠ [] := by simp [hsent]
  refine ⟨fun _ => h.serving (.inr (.inl hsome)), fun _ => h.forward (.inr hsome), ?_,
    fun _ => h.took (.inr ⟨size, hthere⟩), fun _ => ⟨r, hannounced, h.carried r (by simp [hsent])⟩⟩
  intro r' hr'
  exact h.carried r' (by simp [hsent, hr'])

theorem announce (h : KeyInv s d v) {r : Option RemoteRegion} (howed : v.owed = false) :
    KeyInv s d { v with announced := r } := by
  refine { h with told := ?_ }
  intro ho
  simp [howed] at ho

end KeyInv

/-! ## The keys of the cluster -/

/-- The registrations that the last `Prepare` of a server for another and its last
`accept` from another have made of an address. -/
structure Made where
  prepared : Int × Int × Nat → Option Registration
  accepted : Int × Int × Nat → Option Registration

def announcement (addr : Nat) (m : RdmaMessage) : Option RemoteRegion :=
  if m.messageType = .transfer ∧ m.regionInfo.addr = addr then some m.regionInfo else none

theorem announcement_ne (addr : Nat) {m : RdmaMessage} (h : m.messageType ≠ .transfer) :
    announcement addr m = none := by
  simp [announcement, h]

namespace State

def registration (st : State Face) (i j : Int) (addr : Nat) : Option Registration :=
  ((st.server i).connections j).registrations.lookup addr

def keyView (st : State Face) (made : Made) (addr : Nat) (s d : Int) : KeyView Int :=
  { here := st.stage s addr
    there := st.stage d addr
    owed := st.pending addr d s
    owing := st.pending addr s d
    own := st.registration s d addr
    prepared := made.prepared (s, d, addr)
    taken := st.registration d s addr
    accepted := made.accepted (d, s, addr)
    announced := ((st.server d).connections s).remoteRegistrations.lookup addr
    sent := (st.queue s d).filterMap (announcement addr) }

end State

def KeysInv (st : State Face) (made : Made) : Prop :=
  ∀ addr s d, s ≠ d → KeyInv s d (st.keyView made addr s d)

/-- The step makes registrations of its own address for its peer only, and is told
nothing by it. -/
structure Act.Keyed (st : State Face) (a : Act) (made made' : Made) : Prop where
  isLocal : a.Local st
  remote : (a.face.connections a.j).remoteRegistrations =
    ((st.server a.i).connections a.j).remoteRegistrations
  received : ∀ addr, addr ≠ a.addr →
    (a.face.connections a.j).recvQueue.filterMap (announcement addr) =
      ((st.server a.i).connections a.j).recvQueue.filterMap (announcement addr)
  prepared : ∀ k, k ≠ (a.i, a.j, a.addr) → made'.prepared k = made.prepared k
  accepted : ∀ k, k ≠ (a.i, a.j, a.addr) → made'.accepted k = made.accepted k

section Act

variable {st : State Face} {a : Act} {made made' : Made}

theorem keyView_act_out (h : a.Keyed st made made') :
    (st.act a).keyView made' a.addr a.i a.j =
      { st.keyView made a.addr a.i a.j with
        here := a.stage
        owing := a.owing
        own := (a.face.connections a.j).registrations.lookup a.addr
        prepared := made'.prepared (a.i, a.j, a.addr)
        sent := (st.keyView made a.addr a.i a.j).sent ++
          a.sent.filterMap (announcement a.addr) } := by
  have hne : (a.j, a.i, a.addr) ≠ (a.i, a.j, a.addr) := by simp [h.isLocal.ne.symm]
  have hthere : (st.act a).stage a.j a.addr = st.stage a.j a.addr :=
    update₂_ne _ _ (by simp [h.isLocal.ne.symm])
  have hother : (st.act a).server a.j = st.server a.j := server_act_ne h.isLocal.ne.symm
  simp only [State.keyView, State.registration, hthere, pending_act_ne hne, hother,
    server_act_self, queue_act_out h.isLocal, h.accepted _ hne, List.filterMap_append,
    KeyView.mk.injEq, and_true]
  simp [State.act, State.setStage]

theorem keyView_act_back (h : a.Keyed st made made') :
    (st.act a).keyView made' a.addr a.j a.i =
      { st.keyView made a.addr a.j a.i with
        there := a.stage
        owed := a.owing
        taken := (a.face.connections a.j).registrations.lookup a.addr
        accepted := made'.accepted (a.i, a.j, a.addr)
        sent := ((a.face.connections a.j).recvQueue ++ st.wire a.j a.i).filterMap
          (announcement a.addr) } := by
  have hne : (a.j, a.i, a.addr) ≠ (a.i, a.j, a.addr) := by simp [h.isLocal.ne.symm]
  have hhere : (st.act a).stage a.j a.addr = st.stage a.j a.addr :=
    update₂_ne _ _ (by simp [h.isLocal.ne.symm])
  have hother : (st.act a).server a.j = st.server a.j := server_act_ne h.isLocal.ne.symm
  simp only [State.keyView, State.registration, hhere, pending_act_ne hne, hother,
    server_act_self, queue_act_back h.isLocal, h.remote, h.prepared _ hne, KeyView.mk.injEq,
    and_true]
  simp [State.act, State.setStage]

theorem sent_act_away (h : a.Keyed st made made') {addr : Nat} {x y : Int}
    (hpair : addr = a.addr → (x, y) ≠ (a.i, a.j) ∧ (x, y) ≠ (a.j, a.i)) :
    ((st.act a).queue x y).filterMap (announcement addr) =
      (st.queue x y).filterMap (announcement addr) := by
  by_cases hout : (x, y) = (a.i, a.j)
  · have haddr : addr ≠ a.addr := fun haddr => (hpair haddr).1 hout
    simp only [Prod.mk.injEq] at hout
    have hsent : a.sent.filterMap (announcement addr) = [] := by
      refine List.filterMap_eq_nil_iff.mpr fun m hm => ?_
      have hne : m.regionInfo.addr ≠ addr := by
        rw [h.isLocal.sent m hm]
        exact haddr.symm
      simp [announcement, hne]
    rw [hout.1, hout.2, queue_act_out h.isLocal, List.filterMap_append, hsent, List.append_nil]
  · by_cases hback : (x, y) = (a.j, a.i)
    · have haddr : addr ≠ a.addr := fun haddr => (hpair haddr).2 hback
      simp only [Prod.mk.injEq] at hback
      rw [hback.1, hback.2, queue_act_back h.isLocal, List.filterMap_append, h.received addr haddr,
        ← List.filterMap_append]
      rfl
    · rw [queue_act_ne h.isLocal hout hback]

theorem keyView_act_away (h : a.Keyed st made made') {addr : Nat} {x y : Int}
    (hpair : addr = a.addr → (x, y) ≠ (a.i, a.j) ∧ (x, y) ≠ (a.j, a.i)) :
    (st.act a).keyView made' addr x y =
      { st.keyView made addr x y with
        here := (st.act a).stage x addr
        there := (st.act a).stage y addr } := by
  have hxy : (x, y, addr) ≠ (a.i, a.j, a.addr) := by
    intro heq
    simp only [Prod.mk.injEq] at heq
    exact (hpair heq.2.2).1 (by rw [heq.1, heq.2.1])
  have hyx : (y, x, addr) ≠ (a.i, a.j, a.addr) := by
    intro heq
    simp only [Prod.mk.injEq] at heq
    exact (hpair heq.2.2).2 (by rw [heq.1, heq.2.1])
  simp only [State.keyView, State.registration, registrations_act h.isLocal hxy,
    registrations_act h.isLocal hyx, remoteRegistrations_act h.isLocal h.remote,
    pending_act_ne hxy, pending_act_ne hyx, h.prepared _ hxy, h.accepted _ hyx,
    sent_act_away h hpair]

theorem KeysInv.act (hinv : KeysInv st made) (h : a.Keyed st made made')
    (hprepared : ∀ x, x ≠ a.j → x ∈ a.stage.prepared → x ∈ (st.stage a.i a.addr).prepared)
    (haccepted : ∀ x, x ≠ a.j → ∀ n, a.stage = .accepted n x →
      ∃ n', st.stage a.i a.addr = .accepted n' x)
    (hout : KeyInv a.i a.j ((st.act a).keyView made' a.addr a.i a.j))
    (hback : KeyInv a.j a.i ((st.act a).keyView made' a.addr a.j a.i)) :
    KeysInv (st.act a) made' := by
  have hself : (st.act a).stage a.i a.addr = a.stage := by simp [State.act, State.setStage]
  have hother : ∀ x addr, (x, addr) ≠ (a.i, a.addr) →
      (st.act a).stage x addr = st.stage x addr := fun x addr hx => update₂_ne _ _ hx
  intro addr x y hne
  by_cases hpair : addr = a.addr ∧ ((x, y) = (a.i, a.j) ∨ (x, y) = (a.j, a.i))
  · obtain ⟨rfl, heq | heq⟩ := hpair
    · simp only [Prod.mk.injEq] at heq
      rw [heq.1, heq.2]
      exact hout
    · simp only [Prod.mk.injEq] at heq
      rw [heq.1, heq.2]
      exact hback
  · have hpair' : addr = a.addr → (x, y) ≠ (a.i, a.j) ∧ (x, y) ≠ (a.j, a.i) := by
      intro haddr
      exact ⟨fun heq => hpair ⟨haddr, .inl heq⟩, fun heq => hpair ⟨haddr, .inr heq⟩⟩
    have hhere : y ∈ ((st.act a).stage x addr).prepared → y ∈ (st.stage x addr).prepared := by
      by_cases hx : (x, addr) = (a.i, a.addr)
      · simp only [Prod.mk.injEq] at hx
        obtain ⟨rfl, rfl⟩ := hx
        rw [hself]
        exact hprepared y fun hy => (hpair' rfl).1 (by rw [hy])
      · rw [hother x addr hx]
        exact fun hy => hy
    have hthere : ∀ n, (st.act a).stage y addr = .accepted n x →
        ∃ n', st.stage y addr = .accepted n' x := by
      intro n hn
      by_cases hy : (y, addr) = (a.i, a.addr)
      · simp only [Prod.mk.injEq] at hy
        obtain ⟨rfl, rfl⟩ := hy
        rw [hself] at hn
        exact haccepted x (fun hx => (hpair' rfl).2 (by rw [hx])) n hn
      · rw [hother y addr hy] at hn
        exact ⟨n, hn⟩
    rw [keyView_act_away h hpair']
    exact ((hinv addr x y hne).here_changed hhere).there_changed hthere

end Act

theorem KeysInv.alone {st st' : State Face} {made : Made} (hinv : KeysInv st made) {i : Int}
    {addr : Nat} (hconnections : ∀ x, (st'.server x).connections = (st.server x).connections)
    (hwire : st'.wire = st.wire) (hpending : st'.pending = st.pending)
    (hstage : ∀ x addr', (x, addr') ≠ (i, addr) → st'.stage x addr' = st.stage x addr')
    (hprepared : (st'.stage i addr).prepared = [] ∨ st'.stage i addr = st.stage i addr)
    (haccepted : ∀ n x, st'.stage i addr = .accepted n x → st.stage i addr = .accepted n x) :
    KeysInv st' made := by
  intro addr' x y hne
  have hqueue : st'.queue = st.queue := by
    funext x y
    simp only [State.queue, hconnections, hwire]
  have hview : st'.keyView made addr' x y =
      { st.keyView made addr' x y with
        here := st'.stage x addr'
        there := st'.stage y addr' } := by
    simp only [State.keyView, State.registration, hconnections, hpending, hqueue]
  have hhere : y ∈ (st'.stage x addr').prepared → y ∈ (st.stage x addr').prepared := by
    by_cases hx : (x, addr') = (i, addr)
    · simp only [Prod.mk.injEq] at hx
      rw [hx.1, hx.2]
      intro hy
      rcases hprepared with hnone | hsame
      · simp [hnone] at hy
      · rwa [hsame] at hy
    · rw [hstage x addr' hx]
      exact fun hy => hy
  have hthere : ∀ n, st'.stage y addr' = .accepted n x →
      ∃ n', st.stage y addr' = .accepted n' x := by
    intro n hn
    by_cases hy : (y, addr') = (i, addr)
    · simp only [Prod.mk.injEq] at hy
      rw [hy.1, hy.2] at hn ⊢
      exact ⟨n, haccepted n x hn⟩
    · rw [hstage y addr' hy] at hn
      exact ⟨n, hn⟩
  rw [hview]
  exact ((hinv addr' x y hne).here_changed hhere).there_changed hthere

/-! ## Every step -/

theorem LinkInv.closing {ι : Type} [DecidableEq ι] {s d : ι} {l : Link ι} (h : LinkInv s d l)
    (hdone : .done ∈ l.back) : l.owed = false ∧ l.owing = false := by
  have hcount : 0 < l.back.countP Msg.isDone := List.countP_pos_iff.mpr ⟨_, hdone, rfl⟩
  have honce := h.once
  constructor
  · cases ho : l.owed with
    | false => rfl
    | true =>
        simp only [ho, Bool.toNat_true] at honce
        omega
  · cases ho : l.owing with
    | false => rfl
    | true => exact absurd hdone (h.oneWay ho).2

section Step

variable {b : Build} {st st' : State Server} {made made' : Made}

theorem sent_eq_nil {st : State Face} {addr : Nat} {s d : Int}
    (h : ∀ size, .transfer size ∉ ((st.view addr).link s d).out) :
    (st.keyView made addr s d).sent = [] := by
  refine List.filterMap_eq_nil_iff.mpr fun m hm => ?_
  unfold announcement
  split
  · rename_i htype
    exact absurd (mem_toMsg hm (by simp [toMsg, htype])) (h m.regionInfo.length)
  · rfl

theorem KeysInv.send {st : State Face} (hinv : KeysInv st made) {i j : Int} {addr : Nat}
    {c : Connection} {v : Stage Int} {owing : Bool} {m : RdmaMessage}
    (hsends : Sends st i j addr c m)
    (hprepared : ∀ k, k ≠ (i, j, addr) → made'.prepared k = made.prepared k)
    (haccepted : made'.accepted = made.accepted)
    (hothers : ∀ x, x ≠ j → x ∈ v.prepared → x ∈ (st.stage i addr).prepared)
    (hstill : ∀ x n, v = .accepted n x → st.stage i addr = .accepted n x)
    (hout : KeyInv i j { st.keyView made addr i j with
      here := v
      owing := owing
      own := c.registrations.lookup addr
      prepared := made'.prepared (i, j, addr)
      sent := (st.keyView made addr i j).sent ++ [m].filterMap (announcement addr) })
    (hback : KeyInv j i { st.keyView made addr j i with
      there := v
      owed := owing
      taken := c.registrations.lookup addr }) :
    KeysInv (st.act ⟨i, j, addr, (st.server i).setConnection j c, v, owing, [m]⟩) made' := by
  have hself := connections_setConnection (st.server i) j c
  have hkeyed : Act.Keyed st ⟨i, j, addr, (st.server i).setConnection j c, v, owing, [m]⟩ made
      made' := by
    refine ⟨hsends.isLocal, ?_, ?_, hprepared, fun k _ => by rw [haccepted]⟩
    · dsimp only
      rw [hself, hsends.remote]
    · intro addr' _
      dsimp only
      rw [hself, hsends.received]
  refine hinv.act hkeyed hothers (fun x _ n hn => ⟨n, hstill x n hn⟩) ?_ ?_
  · rw [keyView_act_out hkeyed]
    dsimp only
    rw [hself]
    exact hout
  · rw [keyView_act_back hkeyed]
    dsimp only
    rw [hself, hsends.received, haccepted]
    exact hback

theorem prepareStep_keys (hinv : KeysInv st.net made) (hcore : Core st.net) {s d : Int}
    {addr size : Nat} (hne : s ≠ d) (hpermits : Permits st (.prepare s addr size d))
    (hclosed : st.pending addr s d = false) (hstep : prepareStep b st s addr size d = some st') :
    KeysInv st'.net { made with
      prepared := update made.prepared (s, d, addr) (st'.net.registration s d addr) } := by
  obtain ⟨⟨hheld, -⟩, hsmall⟩ := hpermits
  obtain ⟨prepared, hstage⟩ := eq_held_of_isHeld hheld
  have hstage' : st.net.stage s addr = .held (st.stage s addr).size prepared := hstage
  obtain ⟨m, htype, haddr, -, hst'⟩ := prepareStep_cases hstep
  obtain ⟨-, howed, htransfer⟩ := ((hcore.segment addr) s d hne).quiet (by
    rw [show ((st.net.view addr).link s d).here = st.net.stage s addr from rfl, hstage']
    simp)
  have hnone : [m].filterMap (announcement addr) = [] := by
    simp [announcement_ne addr (show m.messageType ≠ .transfer by simp [htype])]
  have hlookup := @Connection.lookup_registerMemory ((st.net.server s).connections d) addr size
    (st.server s).nextKey hsmall
  have hreg : st'.net.registration s d addr = some ⟨size, (st.server s).nextKey⟩ := by
    rw [State.registration, hst', server_act_self]
    simpa [Face.setConnection] using hlookup
  rw [hreg, hst']
  refine hinv.send (sends_prepare hne haddr) (fun k hk => update_of_ne hk _ _) rfl
    ?_ ?_ ?_ ?_
  · intro x hx hmem
    rw [hstage'] at hmem ⊢
    simpa [preparedFor, Stage.prepared, hx] using hmem
  · intro x n hn
    rw [hstage'] at hn
    cases hn
  · rw [hlookup, hnone, List.append_nil]
    dsimp only
    rw [update_self]
    exact (hinv addr s d hne).prepare howed (sent_eq_nil htransfer) hclosed
  · rw [show st.net.pending addr s d = false from hclosed]
    refine (hinv addr d s hne.symm).untaken ?_
    intro n hn
    rw [hstage'] at hn
    cases hn

theorem transferStep_keys (hinv : KeysInv st.net made) {s d : Int} {addr size : Nat}
    (hne : s ≠ d) (hfollows : Follows st (.transfer s addr size d))
    (hstep : transferStep b st s addr size d = some st') : KeysInv st'.net made := by
  obtain ⟨hheld, -, hd⟩ := hfollows
  obtain ⟨prepared, hstage⟩ := eq_held_of_isHeld hheld
  have hstage' : st.net.stage s addr = .held (st.stage s addr).size prepared := hstage
  obtain ⟨m, mr, htype, hmr, hregion, hst'⟩ := transferStep_cases hstep
  have haddr : m.regionInfo.addr = addr := by rw [hregion]
  have hsent : [m].filterMap (announcement addr) = [m.regionInfo] := by
    simp [announcement, htype, haddr]
  have hinv' : KeysInv { st.net with
      snapshot := update₂ st.snapshot s addr (st.server s).bytes } made := hinv
  rw [hst']
  refine hinv'.send ⟨hne, fun _ _ => rfl, rfl, rfl, haddr⟩ (fun _ _ => rfl) rfl ?_ ?_ ?_ ?_
  · intro x hx hmem
    rw [hstage'] at hmem
    rw [show ({ st.net with snapshot := update₂ st.snapshot s addr (st.server s).bytes } :
      State Face).stage s addr = st.net.stage s addr from rfl, hstage']
    simp only [givenTo, Stage.prepared, List.mem_filter] at hmem ⊢
    exact hmem.1
  · intro x n hn
    rw [hstage'] at hn
    cases hn
  · rw [hsent]
    refine (hinv addr s d hne).transfer hd hmr ?_
    rw [hregion]
  · refine (hinv addr d s hne.symm).there_changed ?_
    intro n hn
    rw [hstage'] at hn
    cases hn

theorem closeStep_keys (hinv : KeysInv st.net made) (hcore : Core st.net) {s d : Int}
    {addr size : Nat} (hne : d ≠ s) (hpending : st.pending addr d s = true)
    (hstep : closeStep b st d addr size s = some st') : KeysInv st'.net made := by
  have howing : ((st.net.view addr).link d s).owing = true := hpending
  have hlink := (hcore.segment addr).both hne
  have hforward := (hinv addr d s hne).forward
  have hidle : ¬ (s ∈ (st.net.stage d addr).prepared ∨
      (st.net.keyView made addr d s).sent ≠ []) := by
    intro hwhy
    have hfalse : st.net.pending addr d s = false := hforward hwhy
    rw [show st.net.pending addr d s = true from hpending] at hfalse
    cases hfalse
  rw [not_or, not_not] at hidle
  have hnone : [sendClose addr size].filterMap (announcement addr) = [] := by
    simp [announcement, sendClose, RdmaMessage.ofRange, RdmaMessage.cleared]
  rw [closeStep_cases hstep]
  refine hinv.send (sends_close hne) (fun _ _ => rfl) rfl (fun _ _ hmem => hmem)
    (fun _ _ hn => hn) ?_ ?_
  · rw [hnone, List.append_nil]
    exact (hinv addr d s hne).unserved hidle.1 hidle.2 (hlink.1.oneWay howing).1
  · exact (hinv addr s d hne.symm).untaken (hlink.2.notAgain (.inl howing))

theorem deliverStep_keys (hinv : KeysInv st.net made) (hcore : Core st.net) {s d : Int}
    (hne : s ≠ d) (hstep : deliverStep st s d = some st') : KeysInv st'.net made := by
  obtain ⟨m, rest, hwire, hst'⟩ := deliverStep_cases hstep
  rw [hst']
  intro addr x y hxy
  have hview : (st.net.deliver s d m rest).keyView made addr x y =
      { st.net.keyView made addr x y with
        announced := (((st.net.deliver s d m rest).server y).connections
          x).remoteRegistrations.lookup addr } := by
    simp only [State.keyView, State.registration, registrations_deliver, queue_deliver hwire]
    rfl
  rw [hview]
  by_cases hyx : (y, x) = (d, s)
  · simp only [Prod.mk.injEq] at hyx
    obtain ⟨rfl, rfl⟩ := hyx
    rw [connection_deliver]
    simp only [Connection.receive, Connection.announce]
    split
    · rename_i htype
      by_cases haddr : addr = m.regionInfo.addr
      · refine (hinv addr x y hxy).announce ?_
        have hmem : .transfer m.regionInfo.length ∈ ((st.net.view addr).link x y).out :=
          mem_toMsg (m := m) (by simp [State.queue, hwire]) (by simp [toMsg, htype, haddr])
        by_contra howed
        rw [Bool.not_eq_false] at howed
        exact ((hcore.segment addr) x y hxy).transfer_not_mem (.inl howed) _ hmem
      · rw [AList.lookup_insert_ne haddr]
        exact hinv addr x y hxy
    · exact hinv addr x y hxy
  · rw [connection_deliver_ne hyx]
    exact hinv addr x y hxy

/-! ## The poller -/

section Round

variable {d s : Int} {m : RdmaMessage} {rest : List RdmaMessage} {f : Face} {c : Connection}
  {reply : Option RdmaMessage}

theorem KeysInv.round (hinv : KeysInv st.net made) (hround : Round st d s m rest f c reply)
    (hne : d ≠ s) {v : Stage Int} {owing : Bool}
    (hv : afterHandling s m reply (st.stage d m.regionInfo.addr) = v)
    (howing : (if m.messageType = .transfer then true else st.pending m.regionInfo.addr d s) =
      owing) (hprepared : made'.prepared = made.prepared)
    (haccepted : ∀ k, k ≠ (d, s, m.regionInfo.addr) → made'.accepted k = made.accepted k)
    (hothers : ∀ x, x ≠ s → x ∈ v.prepared → x ∈ (st.stage d m.regionInfo.addr).prepared)
    (hstill : ∀ x, x ≠ s → ∀ n, v = .accepted n x → st.stage d m.regionInfo.addr = .accepted n x)
    (hout : KeyInv d s { st.net.keyView made m.regionInfo.addr d s with
      here := v
      owing := owing
      own := c.registrations.lookup m.regionInfo.addr })
    (hback : KeyInv s d { st.net.keyView made m.regionInfo.addr s d with
      there := v
      owed := owing
      taken := c.registrations.lookup m.regionInfo.addr
      accepted := made'.accepted (d, s, m.regionInfo.addr)
      sent := (rest ++ st.net.wire s d).filterMap (announcement m.regionInfo.addr) }) :
    KeysInv (st.net.act (roundAct st d s m f reply)) made' := by
  subst hv howing
  have hkeyed : Act.Keyed st.net (roundAct st d s m f reply) made made' := by
    refine ⟨hround.isLocal hne, ?_, ?_, fun k _ => by rw [hprepared], haccepted⟩
    · dsimp only [roundAct]
      rw [hround.connection, hround.remote]
    · intro addr haddr
      dsimp only [roundAct] at haddr ⊢
      have hother : announcement addr m = none := by simp [announcement, haddr.symm]
      rw [hround.connection, hround.rest, hround.queue, List.filterMap_cons_none hother]
  have hnone : reply.toList.filterMap (announcement m.regionInfo.addr) = [] := by
    refine List.filterMap_eq_nil_iff.mpr fun m' hm' => ?_
    rw [hround.answer hm']
    simp [announcement, sendAccept, RdmaMessage.ofRange, RdmaMessage.cleared]
  refine hinv.act hkeyed hothers (fun x hx n hn => ⟨n, hstill x hx n hn⟩) ?_ ?_
  · rw [keyView_act_out hkeyed]
    dsimp only [roundAct]
    rw [hround.connection, hnone, List.append_nil, hprepared]
    exact hout
  · rw [keyView_act_back hkeyed]
    dsimp only [roundAct]
    rw [hround.connection, hround.rest]
    exact hback

theorem sent_skip (made : Made) (hround : Round st d s m rest f c reply)
    (htype : m.messageType ≠ .transfer) :
    (rest ++ st.net.wire s d).filterMap (announcement m.regionInfo.addr) =
      (st.net.keyView made m.regionInfo.addr s d).sent := by
  rw [State.keyView, State.queue, hround.queue, List.cons_append,
    List.filterMap_cons_none (announcement_ne _ htype)]

theorem round_prepare_keys (hinv : KeysInv st.net made) (hcore : Core st.net) (hne : d ≠ s)
    (hround : Round st d s m rest f c reply) (htype : m.messageType = .prepare)
    {mr : Registration} (hmr : c.registrations.lookup m.regionInfo.addr = some mr)
    (hstage : st.net.stage d m.regionInfo.addr = .absent)
    (hafter : afterHandling s m reply (st.stage d m.regionInfo.addr) =
      .accepted m.regionInfo.length s) :
    KeysInv (st.net.act (roundAct st d s m f reply)) { made with
      accepted := update made.accepted (d, s, m.regionInfo.addr) (some mr) } := by
  obtain ⟨-, howed, htransfer⟩ := ((hcore.segment m.regionInfo.addr) d s hne).quiet (by
    rw [show ((st.net.view m.regionInfo.addr).link d s).here =
      st.net.stage d m.regionInfo.addr from rfl, hstage]
    simp)
  refine hinv.round hround hne hafter (if_neg (by simp [htype])) rfl
    (fun k hk => update_of_ne hk _ _) ?_ ?_ ?_ ?_
  · intro x _ hmem
    simp [Stage.prepared] at hmem
  · intro x hx n hn
    cases hn
    exact absurd rfl hx
  · exact (hinv m.regionInfo.addr d s hne).unserved (by simp [Stage.prepared])
      (sent_eq_nil htransfer) howed
  · rw [hmr, sent_skip made hround (by simp [htype])]
    dsimp only
    rw [update_self]
    exact (hinv m.regionInfo.addr s d hne.symm).accept

theorem round_accept_keys (hinv : KeysInv st.net made) (hne : d ≠ s)
    (hround : Round st d s m rest f c reply) (htype : m.messageType = .accept)
    (hc : c.registrations = ((st.net.server d).connections s).registrations)
    (hafter : afterHandling s m reply (st.stage d m.regionInfo.addr) =
      st.stage d m.regionInfo.addr) :
    KeysInv (st.net.act (roundAct st d s m f reply)) made := by
  refine hinv.round hround hne hafter (if_neg (by simp [htype])) rfl (fun _ _ => rfl)
    (fun _ _ hmem => hmem) (fun _ _ _ hn => hn) ?_ ?_
  · rw [hc]
    exact hinv m.regionInfo.addr d s hne
  · rw [hc, sent_skip made hround (by simp [htype])]
    exact hinv m.regionInfo.addr s d hne.symm

theorem round_transfer_keys (hinv : KeysInv st.net made) (hcore : Core st.net) (hne : d ≠ s)
    (hround : Round st d s m rest f c reply) (htype : m.messageType = .transfer)
    (hstage : st.net.stage d m.regionInfo.addr = .accepted m.regionInfo.length s)
    (hc : c.registrations = ((st.net.server d).connections s).registrations)
    (hafter : afterHandling s m reply (st.stage d m.regionInfo.addr) =
      .held m.regionInfo.length []) :
    KeysInv (st.net.act (roundAct st d s m f reply)) made := by
  obtain ⟨-, howed, htransfer⟩ := ((hcore.segment m.regionInfo.addr) d s hne).quiet (by
    rw [show ((st.net.view m.regionInfo.addr).link d s).here =
      st.net.stage d m.regionInfo.addr from rfl, hstage]
    simp)
  have hsent : (st.net.keyView made m.regionInfo.addr s d).sent = m.regionInfo ::
      (rest ++ st.net.wire s d).filterMap (announcement m.regionInfo.addr) := by
    have hhead : announcement m.regionInfo.addr m = some m.regionInfo := by
      simp [announcement, htype]
    rw [State.keyView, State.queue, hround.queue, List.cons_append,
      List.filterMap_cons_some hhead]
  refine hinv.round hround hne hafter (if_pos htype) rfl (fun _ _ => rfl) ?_ ?_ ?_ ?_
  · intro x _ hmem
    simp [Stage.prepared] at hmem
  · intro x _ n hn
    cases hn
  · exact (hinv m.regionInfo.addr d s hne).unserved (by simp [Stage.prepared])
      (sent_eq_nil htransfer) howed
  · rw [hc]
    exact (hinv m.regionInfo.addr s d hne.symm).receive hsent hstage
      (hcore.announced s d m (by simp [hround.queue]) htype)

theorem round_close_keys (hinv : KeysInv st.net made) (hcore : Core st.net) (hne : d ≠ s)
    (hround : Round st d s m rest f c reply) (htype : m.messageType = .doneTransfer)
    {size : Nat} {prepared : List Int}
    (hstage : st.net.stage d m.regionInfo.addr = .given size s prepared)
    (hafter : afterHandling s m reply (st.stage d m.regionInfo.addr) = .held size prepared) :
    KeysInv (st.net.act (roundAct st d s m f reply)) made := by
  have hview := view_queue .done hround.queue (by simp [toMsg, htype])
  have hlink := (hcore.segment m.regionInfo.addr) d s hne
  have hdone : .done ∈ ((st.net.view m.regionInfo.addr).link d s).back := by
    rw [show ((st.net.view m.regionInfo.addr).link d s).back =
      (st.net.view m.regionInfo.addr).queue s d from rfl, hview]
    exact List.mem_cons_self
  have hgiven : ((st.net.view m.regionInfo.addr).link d s).here = .given size s prepared := hstage
  obtain ⟨howed, howing⟩ := LinkInv.closing hlink hdone
  have hnot : s ∉ prepared := by
    have := hlink.notPrepared (by rw [hgiven]; simp)
    rwa [hgiven] at this
  refine hinv.round hround hne hafter (if_neg (by simp [htype])) rfl (fun _ _ => rfl) ?_ ?_ ?_ ?_
  · intro x _ hmem
    rw [show st.stage d m.regionInfo.addr = .given size s prepared from hstage]
    exact hmem
  · intro x _ n hn
    cases hn
  · exact (hinv m.regionInfo.addr d s hne).unserved hnot
      (sent_eq_nil (hlink.transfer_not_mem (.inr hdone))) howed
  · rw [show st.pending m.regionInfo.addr d s = false from howing,
      sent_skip made hround (by simp [htype])]
    exact (hinv m.regionInfo.addr s d hne.symm).untaken (by simp)

end Round

end Step

/-! ## The cluster with its notes -/

structure Traced where
  cluster : State Server
  made : Made

namespace Traced

def initial (n : Nat) : Traced := ⟨System.initial n, fun _ => none, fun _ => none⟩

def note (t : Traced) (st : State Server) : Action → Made
  | .prepare s addr _ d => { t.made with
      prepared := update t.made.prepared (s, d, addr) (st.net.registration s d addr) }
  | .poll d s _ =>
      match t.cluster.head d s with
      | none => t.made
      | some m =>
          if m.messageType = .prepare then
            { t.made with
              accepted := update t.made.accepted (d, s, m.regionInfo.addr)
                (st.net.registration d s m.regionInfo.addr) }
          else t.made
  | .allocate _ _ _ _ | .deallocate _ _ | .write _ _ _ _ | .transfer _ _ _ _ | .close _ _ _ _
  | .deliver _ _ | .pollForAccept _ | .pollForTransfer _ | .pollForClose _ => t.made

def step (b : Build) (t : Traced) (act : Action) : Option Traced :=
  (System.step b t.cluster act).map fun st => ⟨st, t.note st act⟩

/-- Segments are prepared with their own address and size, below `2 ^ 31`, and a
`PREPARE` is accepted at the address it asks for. -/
def Migrates (n : Nat) (t : Traced) (act : Action) : Prop :=
  Permits t.cluster act ∧ ByMember n act

/-- A received segment is prepared for the server it came from after it was closed. -/
def ClosedFirst (st : State Server) : Action → Prop
  | .prepare s addr _ d => st.pending addr s d = false
  | _ => True

/-- Besides, the mappings of `allocate` are made at the addresses it asks for. -/
def Orderly (n : Nat) (t : Traced) (act : Action) : Prop :=
  Migrates n t act ∧ MapsInPlace t.cluster act ∧ ClosedFirst t.cluster act

structure Inv (n : Nat) (t : Traced) : Prop where
  base : System.Inv t.cluster.net
  territory : ∃ blocks, Territory n blocks t.cluster
  keys : KeysInv t.cluster.net t.made

theorem initial_inv (n : Nat) : Inv n (initial n) :=
  ⟨System.initial_inv n, ⟨[], initial_territory n⟩, fun _ s d _ => KeyInv.idle s d⟩

section Step

variable {b : Build} {n : Nat} {t t' : Traced}

theorem pollStep_keys (hb : b.faultTolerant = false) (hinv : KeysInv t.cluster.net t.made)
    (hcore : Core t.cluster.net) {d s : Int} {mapped : Option Nat} {st' : State Server}
    (hne : d ≠ s) (hfollows : Follows t.cluster (.poll d s mapped))
    (hstep : pollStep b t.cluster d s mapped = some st') :
    KeysInv st'.net (t.note st' (.poll d s mapped)) := by
  obtain ⟨m, rest, server, c, reply, hround, -, -, -, hst'⟩ :=
    pollStep_round hb hcore hne hfollows hstep
  have hhead : t.cluster.head d s = some m := by
    have hqueue : ((t.cluster.server d).connections s).recvQueue = m :: rest := hround.queue
    simp [State.head, hqueue]
  have hother : m.messageType ≠ .prepare → t.note st' (.poll d s mapped) = t.made := by
    intro htype
    simp [note, hhead, htype]
  rw [hst', polled]
  cases hround.kind with
  | prepare htype _ _ hstage hafter hc =>
      have hsmall := ((hcore.sound s d m (head_mem hround.queue)).prepared htype).2
      have hmr : c.registrations.lookup m.regionInfo.addr =
          some ⟨m.regionInfo.length, (t.cluster.server d).nextKey⟩ := by
        rw [hc, Connection.lookup_registerMemory _ hsmall]
      have hreg : st'.net.registration d s m.regionInfo.addr =
          some ⟨m.regionInfo.length, (t.cluster.server d).nextKey⟩ := by
        rw [← hmr, ← hround.connection, hst', polled, State.registration]
        simp [roundAct, State.log, State.act, State.setServer, State.setStage]
      have hnote : t.note st' (.poll d s mapped) = { t.made with
          accepted := update t.made.accepted (d, s, m.regionInfo.addr)
            (some ⟨m.regionInfo.length, (t.cluster.server d).nextKey⟩) } := by
        simp [note, hhead, htype, hreg]
      rw [hnote]
      exact round_prepare_keys hinv hcore hne hround htype hmr hstage hafter
  | accept htype _ hafter hc =>
      rw [hother (by simp [htype])]
      exact round_accept_keys hinv hne hround htype hc hafter
  | transfer htype _ hstage hafter hc =>
      rw [hother (by simp [htype])]
      exact round_transfer_keys hinv hcore hne hround htype hstage hc hafter
  | close size prepared htype _ hstage hafter =>
      rw [hother (by simp [htype])]
      exact round_close_keys hinv hcore hne hround htype hstage hafter

theorem keys_setServer {st : State Server} {made : Made} (hinv : KeysInv st.net made) {i : Int}
    {s : Server} {addr : Nat} {v : Stage Int}
    (hconnections : s.face.connections = (st.server i).face.connections)
    (hv : v.prepared = [] ∨ v = st.stage i addr)
    (haccepted : ∀ n x, v = .accepted n x → st.stage i addr = .accepted n x) :
    KeysInv ((st.setServer i s).setStage i addr v).net made := by
  have hself : ((st.setServer i s).setStage i addr v).net.stage i addr = v := by
    simp [State.net, State.setStage]
  refine @KeysInv.alone _ _ _ hinv i addr ?_ rfl rfl ?_ ?_ ?_
  · intro x
    rw [State.net_setStage, State.net_setServer]
    by_cases hx : x = i
    · have hface : ((st.net.setServer i s.face).setStage i addr v).server i = s.face := by
        simp [State.setServer, State.setStage]
      rw [hx, hface, hconnections]
      rfl
    · simp [State.setServer, State.setStage, hx]
  · exact fun x addr' hx => update₂_ne _ _ hx
  · rw [hself]
    exact hv
  · rw [hself]
    exact haccepted

theorem step_keys {act : Action} (hb : b.faultTolerant = false) (h : Inv n t)
    (hok : Orderly n t act) {st' : State Server} (hstep : System.step b t.cluster act = some st') :
    KeysInv st'.net (t.note st' act) := by
  obtain ⟨⟨hpermits, -⟩, -, hclosed⟩ := hok
  have hcore := h.base.core
  have hsame : ∀ {i : Int} {s : Server},
      s.face.connections = (t.cluster.server i).face.connections →
      KeysInv (t.cluster.setServer i s).net t.made := by
    intro i s hconnections
    have hkeys := keys_setServer h.keys (v := t.cluster.stage i 0) hconnections (.inr rfl)
      fun _ _ hn => hn
    rwa [show (t.cluster.setServer i s).setStage i 0 (t.cluster.stage i 0) =
      t.cluster.setServer i s from State.setStage_self _ _ _] at hkeys
  cases step_cases hstep with
  | allocate i size reuse fresh =>
      unfold allocateStep
      split
      · rename_i s addr heq
        exact keys_setServer h.keys (allocate_grows heq).1 (.inl rfl) (by simp)
      · rename_i s result _ heq
        exact hsame (allocate_grows heq).1
  | deallocate i addr s hcall =>
      obtain ⟨p, memory, -, -, hface⟩ := Server.deallocate_face hcall
      exact keys_setServer h.keys (by rw [hface]) (.inl rfl) (by simp)
  | write => exact hsame rfl
  | prepare s addr size d _ hne hstep =>
      exact prepareStep_keys h.keys hcore hne hpermits hclosed hstep
  | transfer s addr size d _ hne hstep => exact transferStep_keys h.keys hne hpermits hstep
  | close d addr size s _ hne hstep => exact closeStep_keys h.keys hcore hne hpermits hstep
  | deliver s d _ hne hstep => exact deliverStep_keys h.keys hcore hne hstep
  | poll d s mapped _ hne hstep => exact pollStep_keys hb h.keys hcore hne hpermits hstep
  | pollForAccept i p rest =>
      have hkeys := hsame (i := i) (s := { t.cluster.server i with incomingAccepts := rest }) rfl
      exact hkeys
  | pollForTransfer i p rest =>
      have hkeys := hsame (i := i) (s := { t.cluster.server i with incomingTransfers := rest }) rfl
      exact hkeys
  | pollForClose i p rest =>
      have hkeys := hsame (i := i) (s := { t.cluster.server i with incomingDones := rest }) rfl
      exact hkeys

theorem step_inv {act : Action} (hb : b.faultTolerant = false) (h : Inv n t)
    (hok : Orderly n t act) (hstep : t.step b act = some t') : Inv n t' := by
  obtain ⟨st', hst', rfl⟩ := Option.map_eq_some_iff.mp hstep
  obtain ⟨⟨hpermits, hmember⟩, hplace, -⟩ := id hok
  obtain ⟨blocks, hblocks⟩ := h.territory
  exact ⟨System.step_inv hb h.base hpermits hplace.reuses hst',
    step_territory hb hblocks h.base hpermits hmember hplace hst', step_keys hb h hok hst'⟩

end Step

/-! ## What a read finds -/

/-- For a segment that `d` has received from `s` and not closed, every read of a
part of it uses the registration that this migration's `accept` made and the key
of the one that its `Prepare` made, which the source still has. -/
def ReadsOwnKeys (t : Traced) : Prop :=
  ∀ d s addr, t.cluster.pending addr d s = true →
    ∃ p memory mr own, (t.cluster.server d).memoryMap.lookup addr = some p ∧
      (t.cluster.server d).heap[p]? = some memory ∧ memory.vaddr = addr ∧
      t.made.accepted (d, s, addr) = some mr ∧ t.made.prepared (s, d, addr) = some own ∧
      ((t.cluster.server s).connections d).registrations.lookup addr = some own ∧
      ∀ a len, addr ≤ a → a + len ≤ addr + memory.size → 0 < len →
        ∃ region, ((t.cluster.server d).connections s).rdmaRead a a len = some (mr, region) ∧
          region.rkey = own.rkey

theorem reads_own_keys {n : Nat} {t : Traced} (h : Inv n t) : ReadsOwnKeys t := by
  intro d s addr hpending
  obtain ⟨blocks, hblocks⟩ := h.territory
  have hwithin := hblocks.within
  obtain ⟨hne, hmem⟩ := hwithin.received addr d s hpending
  have hkeys := h.keys addr s d hne.symm
  obtain ⟨mr, htaken, haccepted⟩ := hkeys.took (.inl hpending)
  obtain ⟨own, hown, hprepared⟩ := hkeys.serving (.inr (.inr hpending))
  obtain ⟨region, hannounced, hrkey⟩ := hkeys.told hpending
  obtain ⟨p, hp⟩ := lookup_of_mem hmem
  obtain ⟨size, hextent⟩ := (h.base.core.placed d).table addr p hp
  have hsize := hwithin.records d p _ hextent
  have hmap : ((t.cluster.server d).heap.map RDMAMemory.extent)[p]? = some (addr, size) := hextent
  rw [List.getElem?_map] at hmap
  obtain ⟨memory, hmemory, heq⟩ := Option.map_eq_some_iff.mp hmap
  refine ⟨p, memory, mr, own, hp, hmemory, congrArg Prod.fst heq, haccepted, hprepared, hown, ?_⟩
  intro a len hlo hhi hlen
  have hmsize : memory.size = size := congrArg Prod.snd heq
  rw [hmsize] at hhi
  refine ⟨region, ?_, ?_⟩
  · have hlocal : firstContaining ((t.cluster.net.server d).connections s).registrations
        Registration.length a len = some mr :=
      find_block hblocks.carved (hwithin.registered d s) hsize htaken hlo hhi hlen
    have hremote : firstContaining ((t.cluster.net.server d).connections s).remoteRegistrations
        RemoteRegion.length a len = some region :=
      find_block hblocks.carved (hwithin.announced d s) hsize hannounced hlo hhi hlen
    have hlocal' : firstContaining ((t.cluster.server d).connections s).registrations
        Registration.length a len = some mr := hlocal
    have hremote' : firstContaining ((t.cluster.server d).connections s).remoteRegistrations
        RemoteRegion.length a len = some region := hremote
    simp [Connection.rdmaRead, hlocal', hremote']
  · rw [hprepared] at hrkey
    exact (Option.some.inj hrkey).symm

/-- However often an address has been migrated, closed, freed and used again. -/
theorem reads_use_own_keys {b : Build} (hb : b.faultTolerant = false) {n : Nat} {t : Traced}
    (h : Reaches (step b) (Orderly n) (initial n) t) : ReadsOwnKeys t :=
  reads_own_keys (h.invariant (fun _ _ _ hi hok hstep => step_inv hb hi hok hstep)
    (initial_inv n))

/-! ## Runs -/

instance (t : Traced) (n : Nat) (act : Action) : Decidable (Migrates n t act) :=
  inferInstanceAs (Decidable (_ ∧ _))

instance (st : State Server) (act : Action) : Decidable (ClosedFirst st act) :=
  match act with
  | .prepare _ _ _ _ => inferInstanceAs (Decidable (_ = false))
  | .allocate _ _ _ _ | .deallocate _ _ | .write _ _ _ _ | .transfer _ _ _ _ | .close _ _ _ _
  | .poll _ _ _ | .deliver _ _ | .pollForAccept _ | .pollForTransfer _ | .pollForClose _ =>
      .isTrue trivial

instance (t : Traced) (n : Nat) (act : Action) : Decidable (Orderly n t act) :=
  inferInstanceAs (Decidable (_ ∧ _))

def probe (t : Traced) (d s : Int) (addr a len : Nat) : Option (Nat × Nat) × Option (Nat × Nat) :=
  ((((t.cluster.server d).connections s).rdmaRead a a len).map fun (mr, region) =>
      (mr.rkey, region.rkey),
    do
      let mr ← t.made.accepted (d, s, addr)
      let own ← t.made.prepared (s, d, addr)
      return (mr.rkey, own.rkey))

def recordSize (t : Traced) (d : Int) (addr : Nat) : Option Nat :=
  (((t.cluster.server d).memoryMap.lookup addr).bind
    fun p => (t.cluster.server d).heap[p]?).map RDMAMemory.size

theorem ReadsOwnKeys.probe {t : Traced} (h : ReadsOwnKeys t) {d s : Int} {addr size : Nat}
    (a len : Nat) (hpending : t.cluster.pending addr d s = true)
    (hsize : t.recordSize d addr = some size)
    (hlo : addr ≤ a) (hhi : a + len ≤ addr + size) (hlen : 0 < len) :
    (t.probe d s addr a len).1 = (t.probe d s addr a len).2 := by
  obtain ⟨p, memory, mr, own, hp, hmemory, -, haccepted, hprepared, -, hread⟩ :=
    h d s addr hpending
  have hsame : memory.size = size := by
    simpa [recordSize, hp, hmemory] using hsize
  rw [← hsame] at hhi
  obtain ⟨region, hfound, hrkey⟩ := hread a len hlo hhi hlen
  simp [Traced.probe, hfound, haccepted, hprepared, hrkey]

theorem not_readsOwnKeys {t : Traced} {d s : Int} {addr size len : Nat}
    {found own : Option (Nat × Nat)}
    (hfacts : (t.cluster.pending addr d s, t.recordSize d addr, t.probe d s addr addr len) =
      (true, some size, found, own))
    (hlen : 0 < len) (hsize : len ≤ size) (hother : found ≠ own) : ¬ ReadsOwnKeys t := by
  intro hreads
  simp only [Prod.mk.injEq] at hfacts
  obtain ⟨hpending, hrecord, hprobe⟩ := hfacts
  have hsame := hreads.probe addr len hpending hrecord (Nat.le_refl _) (by omega) hlen
  rw [hprobe] at hsame
  exact hother hsame

/-- A block that was migrated, closed and freed at both ends is allocated again and
migrated again: the keys are those of the second migration. -/
theorem reads_use_own_keys_again : ∃ t, Reaches (step ⟨false, false⟩) (Orderly 2) (initial 2) t ∧
    t.cluster.pending (2 ^ 44) 1 0 = true ∧
    (t.probe 1 0 (2 ^ 44) (2 ^ 44 + 8) 16).1 = some (2, 2) ∧ ReadsOwnKeys t := by
  have hrun : (checkedRun (step ⟨false, false⟩) (Orderly 2) (initial 2)
      ([.allocate 0 4096 none (some (2 ^ 44))] ++ migration 0 1 (2 ^ 44) 4096 ++
        conclusion 0 1 (2 ^ 44) 4096 ++ [.deallocate 1 (2 ^ 44),
          .allocate 0 4096 (some (2 ^ 44)) none] ++ migration 0 1 (2 ^ 44) 4096)).map
      (fun t => (t.cluster.pending (2 ^ 44) 1 0, (t.probe 1 0 (2 ^ 44) (2 ^ 44 + 8) 16).1)) =
      some (true, some (2, 2)) := by
    decide +kernel
  obtain ⟨t, hreach, hfacts⟩ := reaches_of_map_checkedRun hrun
  obtain ⟨hpending, hfound⟩ := Prod.mk.inj hfacts
  exact ⟨t, hreach, hpending, hfound, reads_use_own_keys rfl hreach⟩

/-- Server 0 allocates blocks of 100 and 4196 bytes; `mmap` takes the second hint up
to the next page. When the second block has been migrated and freed, the hint for
a third block lies inside the old one. A read of the third block then finds the
entry of the second, whose registration is gone. In the other run server 1 prepares
a segment for its way back before it closes it. -/
theorem keys_of_other_registrations :
    (∃ t, Reaches (step ⟨false, false⟩)
        (fun t act => Migrates 2 t act ∧ ClosedFirst t.cluster act) (initial 2) t ∧
      ¬ ReadsOwnKeys t) ∧
    ∃ t, Reaches (step ⟨false, false⟩)
        (fun t act => Migrates 2 t act ∧ MapsInPlace t.cluster act) (initial 2) t ∧
      ¬ ReadsOwnKeys t := by
  constructor
  · have hrun : (checkedRun (step ⟨false, false⟩)
        (fun t act => Migrates 2 t act ∧ ClosedFirst t.cluster act) (initial 2)
        ([.allocate 0 100 none (some (2 ^ 44)),
            .allocate 0 4196 none (some (2 ^ 44 + 4096))] ++
          migration 0 1 (2 ^ 44 + 4096) 4196 ++ conclusion 0 1 (2 ^ 44 + 4096) 4196 ++
          [.deallocate 1 (2 ^ 44 + 4096), .allocate 0 4096 none (some (2 ^ 44 + 8192))] ++
          migration 0 1 (2 ^ 44 + 8192) 4096)).map
        (fun t => (t.cluster.pending (2 ^ 44 + 8192) 1 0, t.recordSize 1 (2 ^ 44 + 8192),
          t.probe 1 0 (2 ^ 44 + 8192) (2 ^ 44 + 8192) 8)) =
        some (true, some 4096, some (2, 1), some (2, 2)) := by
      decide +kernel
    obtain ⟨t, hreach, hfacts⟩ := reaches_of_map_checkedRun hrun
    exact ⟨t, hreach, not_readsOwnKeys hfacts (by decide) (by decide) (by decide)⟩
  · have hrun : (checkedRun (step ⟨false, false⟩)
        (fun t act => Migrates 2 t act ∧ MapsInPlace t.cluster act) (initial 2)
        ([.allocate 0 4096 none (some (2 ^ 44))] ++ migration 0 1 (2 ^ 44) 4096 ++
          [.prepare 1 (2 ^ 44) 4096 0])).map
        (fun t => (t.cluster.pending (2 ^ 44) 1 0, t.recordSize 1 (2 ^ 44),
          t.probe 1 0 (2 ^ 44) (2 ^ 44) 8)) =
        some (true, some 4096, some (2, 1), some (1, 1)) := by
      decide +kernel
    obtain ⟨t, hreach, hfacts⟩ := reaches_of_map_checkedRun hrun
    exact ⟨t, hreach, not_readsOwnKeys hfacts (by decide) (by decide) (by decide)⟩

end Traced

end RdmaMigration.Migration.System
