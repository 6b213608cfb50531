import Mathlib.Data.Fintype.EquivFin
import RdmaMigration.Coordinator.Mesh
import RdmaMigration.Lib.Progress
import RdmaMigration.Lib.Simulation

/-! # The mesh gets connected

The event thread of a server is one thread: while it is inside `on_connection`,
waiting on `conn_queue_sem` for an accepter, it answers no connection request, and a
client that connects to the server waits for it. The servers therefore wait for each
other: a server accepts only after it has connected to all lower ids, and its event
thread may be stuck with an early connection until then. They all get through
nevertheless, because the server with the lowest id waits for nobody's acceptance.

The machine here is the one of the mesh with the event threads made explicit, and every
run of it is a run of the mesh.
-/

namespace RdmaMigration.Coordinator

open Lib Function

/-! ## The event threads -/

/-- `requested` marks the servers whose client has sent its connection request and waits
in `connect`, `handling` has the connection with which an event thread is inside
`on_connection`. -/
structure EventMesh (n : Nat) where
  mesh : Mesh n
  requested : Fin n → Bool
  handling : Fin n → Option Nat

namespace EventMesh

variable {n : Nat}

def initial (n : Nat) : EventMesh n := ⟨.initial n, fun _ => false, fun _ => none⟩

inductive Action (n : Nat) where
  | request (i : Fin n)
  | onConnectRequest (j i : Fin n) (client conn peerConn : Nat)
  | onConnection (j : Fin n) (conn : Nat)
  | enqueue (j : Fin n)
  | send (i : Fin n)
  | lowerDone (i : Fin n)
  | accept (i : Fin n)
  | dequeue (i : Fin n)
  | receive (i : Fin n)
  | finish (i : Fin n)
  deriving DecidableEq, Repr

def visible (s : EventMesh n) : Action n → Option (Mesh.Action n)
  | .request _ => none
  | .onConnectRequest _ i client conn peerConn => some (.connect i client conn peerConn)
  | .onConnection _ _ => none
  | .enqueue j => (s.handling j).map (.onConnection j)
  | .send i => some (.send i)
  | .lowerDone i => some (.lowerDone i)
  | .accept i => some (.accept i)
  | .dequeue i => some (.dequeue i)
  | .receive i => some (.receive i)
  | .finish i => some (.finish i)

def own (s : EventMesh n) (a : Mesh.Action n) : Option (EventMesh n) :=
  (s.mesh.step a).map fun mesh => { s with mesh := mesh }

def step (s : EventMesh n) : Action n → Option (EventMesh n)
  | .request i =>
      if (s.mesh.node i).phase = .connecting ∧ 0 ≤ (s.mesh.node i).idToConnect ∧
          s.requested i = false then
        some { s with requested := update s.requested i true }
      else none
  | .onConnectRequest j i client conn peerConn =>
      if s.requested i = true ∧ (s.mesh.node i).idToConnect = j ∧ s.handling j = none then
        (s.mesh.connect i client conn peerConn).map fun mesh =>
          { s with mesh := mesh, requested := update s.requested i false }
      else none
  | .onConnection j conn =>
      if s.handling j = none ∧ conn ∈ (s.mesh.node j).arrived then
        some { s with handling := update s.handling j (some conn) }
      else none
  | .enqueue j =>
      match s.handling j with
      | none => none
      | some conn => (s.mesh.step (.onConnection j conn)).map fun mesh =>
          { s with mesh := mesh, handling := update s.handling j none }
  | .send i => s.own (.send i)
  | .lowerDone i => s.own (.lowerDone i)
  | .accept i => s.own (.accept i)
  | .dequeue i => s.own (.dequeue i)
  | .receive i => s.own (.receive i)
  | .finish i => s.own (.finish i)

/-- With the event threads left out, this is the mesh. -/
theorem mesh_simulation (n : Nat) :
    Simulation (step (n := n)) Mesh.step (fun _ => True) EventMesh.mesh visible where
  keeps := fun _ _ => trivial
  hidden := by
    intro s t a _ h hv
    cases a with
    | request i =>
        obtain ⟨-, heq⟩ := Option.ite_none_right_eq_some.mp h
        cases heq
        rfl
    | onConnection j conn =>
        obtain ⟨-, heq⟩ := Option.ite_none_right_eq_some.mp h
        cases heq
        rfl
    | enqueue j =>
        rw [visible, Option.map_eq_none_iff] at hv
        rw [step, hv] at h
        cases h
    | onConnectRequest | send | lowerDone | accept | dequeue | receive | finish => cases hv
  shown := by
    intro s t a b _ h hv
    have hown : ∀ {c : Mesh.Action n}, s.own c = some t → s.mesh.step c = some t.mesh := by
      intro c hc
      obtain ⟨mesh, hmesh, rfl⟩ := Option.map_eq_some_iff.mp hc
      exact hmesh
    cases a with
    | request | onConnection => cases hv
    | onConnectRequest j i client conn peerConn =>
        cases hv
        obtain ⟨-, h⟩ := Option.ite_none_right_eq_some.mp h
        obtain ⟨mesh, hmesh, rfl⟩ := Option.map_eq_some_iff.mp h
        exact hmesh
    | enqueue j =>
        obtain ⟨conn, hconn, rfl⟩ := Option.map_eq_some_iff.mp hv
        rw [step, hconn] at h
        obtain ⟨mesh, hmesh, rfl⟩ := Option.map_eq_some_iff.mp h
        exact hmesh
    | send | lowerDone | accept | dequeue | receive | finish =>
        cases hv
        exact hown h

end EventMesh

/-! ## What every server has in hand -/

namespace MemNode

variable {n : Nat} {i : Fin n} {nd nd' : MemNode n}

def awaited (nd : MemNode n) : Nat :=
  match nd.phase with
  | .dequeuing => 1
  | _ => 0

/-- What keeps a server going: its loops are entered with something left to do, and no
connection from a higher id is forgotten. -/
structure Ready (i : Fin n) (nd : MemNode n) : Prop where
  sends : ∀ conn, nd.phase = .sending conn → ∃ e, nd.ends.lookup conn = some e
  tickets : nd.connQueueSem + nd.connQueue.length = nd.awaited
  short : nd.inProgress = 1 → nd.connections.keys.length < n - 1
  lowers : ∀ k : Fin n, k < i → nd.reached < k → (k : Int) ∈ nd.connections
  uppers : ∀ c e, nd.ends.lookup c = some e → i < e.other →
    c ∈ nd.waiting ∨ (e.other : Int) ∈ nd.connections
  code : ∀ code, nd.phase = .returned code → code = 0

theorem start_ready (i : Fin n) : Ready i (start i) where
  sends := nofun
  tickets := rfl
  short := nofun
  lowers := by
    intro k hk hreached
    have hki : (k : Int) < i := by exact_mod_cast hk
    simp only [start, reached] at hreached
    omega
  uppers := fun c e h => by simp [start] at h
  code := nofun

theorem Move.arrived (h : Move nd nd') : nd'.arrived = nd.arrived := by cases h <;> rfl

theorem Move.ends (h : Move nd nd') : nd'.ends = nd.ends := by cases h <;> rfl

theorem Move.not_sending (h : Move nd nd') (conn : Nat) : nd.phase ≠ .sending conn := by
  cases h <;> simp [*]

theorem Move.not_connecting (h : Move nd nd') (hphase : nd.phase = .connecting) :
    nd.idToConnect < 0 := by
  cases h <;> simp_all

theorem Move.waiting (h : Move nd nd') (hnodup : nd.waiting.Nodup) {c : Nat}
    (hc : c ∈ nd'.waiting) : c ∈ nd.waiting ∧ nd'.recvQueue c = nd.recvQueue c := by
  cases h with
  | lowerDone hphase | accept hphase | finish hphase =>
      exact ⟨by simpa [MemNode.waiting, hphase] using hc, rfl⟩
  | dequeue conn rest hphase hqueue =>
      refine ⟨?_, rfl⟩
      simp only [MemNode.waiting, hphase, hqueue, List.mem_append, List.mem_cons] at hc ⊢
      tauto
  | receive conn id rest hphase hqueue =>
      simp only [MemNode.waiting, hphase, List.append_nil] at hc hnodup ⊢
      rw [List.nodup_append] at hnodup
      have hne : c ≠ conn := hnodup.2.2 c hc conn (List.mem_singleton_self conn)
      exact ⟨List.mem_append_left _ hc, update_of_ne hne ..⟩

theorem Ready.move (h : Ready i nd) (hends : nd'.ends = nd.ends)
    (hconnections : nd'.connections = nd.connections) (hreached : nd'.reached = nd.reached)
    (hwaiting : ∀ c ∈ nd.waiting, c ∈ nd'.waiting)
    (hsends : ∀ conn, nd'.phase = .sending conn → nd.phase = .sending conn)
    (htickets : nd'.connQueueSem + nd'.connQueue.length + nd.awaited =
      nd.connQueueSem + nd.connQueue.length + nd'.awaited)
    (hshort : nd'.inProgress = 1 → nd.connections.keys.length < n - 1)
    (hcode : ∀ code, nd'.phase = .returned code → code = 0) : Ready i nd' where
  sends := by
    rw [hends]
    exact fun conn hconn => h.sends conn (hsends conn hconn)
  tickets := by
    have hold := h.tickets
    omega
  short := by
    rw [hconnections]
    exact hshort
  lowers := by
    rw [hreached, hconnections]
    exact h.lowers
  uppers := by
    rw [hends, hconnections]
    exact fun c e he hlt => (h.uppers c e he hlt).imp_left (hwaiting c)
  code := hcode

theorem mem_insertNew {m : AList fun _ : Int => Nat} {k id : Int} {v : Nat} (h : k ∈ m) :
    k ∈ insertNew m id v := by
  unfold insertNew
  split
  · exact h
  · exact (AList.mem_insert _).mpr (.inr h)

theorem self_mem_insertNew (m : AList fun _ : Int => Nat) (id : Int) (v : Nat) :
    id ∈ insertNew m id v := by
  unfold insertNew
  split
  · assumption
  · exact (AList.mem_insert _).mpr (.inl rfl)

theorem Ready.connect (h : Ready i nd) {j : Fin n} {client conn peerConn : Nat}
    (hphase : nd.phase = .connecting) (hji : j < i) :
    Ready i (nd.connected j client conn peerConn) where
  sends := by
    intro c hc
    cases hc
    exact ⟨_, AList.lookup_insert _⟩
  tickets := by
    have htickets := h.tickets
    rw [awaited, hphase] at htickets
    exact htickets
  short := nofun
  lowers := by
    intro k hk hreached
    have hreached' : nd.idToConnect - 1 < (k : Int) := hreached
    by_cases hkj : (k : Int) = nd.idToConnect
    · rw [hkj]
      exact self_mem_insertNew ..
    · refine mem_insertNew (h.lowers k hk ?_)
      rw [reached, hphase]
      dsimp only
      omega
  uppers := by
    intro c e he hlt
    rcases lookup_insert_cases he with ⟨rfl, rfl⟩ | hold
    · exact absurd hlt (lt_asymm hji)
    · refine (h.uppers c e hold hlt).imp ?_ mem_insertNew
      intro hc
      simpa [MemNode.waiting, connected, hphase] using hc
  code := nofun

theorem Ready.incoming (h : Ready i nd) {k : Fin n} {conn peerConn : Nat} :
    Ready i (nd.incoming k conn peerConn) where
  sends := by
    intro c hc
    obtain ⟨e, he⟩ := h.sends c hc
    by_cases hcc : c = conn
    · rw [hcc]
      exact ⟨_, AList.lookup_insert _⟩
    · exact ⟨e, (AList.lookup_insert_ne hcc).trans he⟩
  tickets := h.tickets
  short := h.short
  lowers := h.lowers
  uppers := by
    intro c e he hlt
    have hmore : ∀ c ∈ nd.waiting, c ∈ (nd.incoming k conn peerConn).waiting := by
      intro c hc
      simp only [MemNode.waiting, MemNode.incoming, List.mem_append] at hc ⊢
      tauto
    rcases lookup_insert_cases he with ⟨rfl, rfl⟩ | hold
    · left
      simp [MemNode.waiting, MemNode.incoming]
    · exact (h.uppers c e hold hlt).imp_left (hmore c)
  code := h.code

theorem Ready.deliver (h : Ready i nd) (conn : Nat) (id : Int) : Ready i (nd.deliver conn id) :=
  ⟨h.sends, h.tickets, h.short, h.lowers, h.uppers, h.code⟩

theorem Ready.sent (h : Ready i nd) {conn : Nat} (hphase : nd.phase = .sending conn) :
    Ready i { nd with idToConnect := nd.idToConnect - 1, phase := .connecting } := by
  refine h.move rfl rfl (by simp [reached, hphase]) ?_ nofun (by simp [awaited, hphase]) nofun
    nofun
  intro c hc
  simpa [MemNode.waiting, hphase] using hc

theorem Ready.onConnection (h : Ready i nd) {conn : Nat} (hsem : 0 < nd.connQueueSem) :
    Ready i { nd with
      arrived := nd.arrived.erase conn
      connQueueSem := nd.connQueueSem - 1
      connQueue := nd.connQueue ++ [conn] } := by
  refine h.move rfl rfl rfl ?_ (fun _ hc => hc) ?_ h.short h.code
  · intro c hc
    simp only [MemNode.waiting, List.mem_append, List.mem_singleton] at hc ⊢
    by_cases hcc : c = conn
    · exact .inl (.inr (.inr hcc))
    · rcases hc with (hc | hc) | hc
      · exact .inl (.inl ((List.mem_erase_of_ne hcc).mpr hc))
      · exact .inl (.inr (.inl hc))
      · exact .inr hc
  · simp only [List.length_append, List.length_singleton, awaited]
    omega

theorem Ready.receive (h : Ready i nd) (hinv : Inv i nd) {conn : Nat} {id : Int} {rest : List Int}
    (hphase : nd.phase = .receiving conn) (hqueue : nd.recvQueue conn = id :: rest) :
    Ready i { nd with
      phase := .accepting
      recvQueue := update nd.recvQueue conn rest
      connections := insertNew nd.connections id conn } where
  sends := nofun
  tickets := by
    have htickets := h.tickets
    rw [awaited, hphase] at htickets
    exact htickets
  short := nofun
  lowers := by
    intro k hk hreached
    refine mem_insertNew (h.lowers k hk ?_)
    rw [reached, hphase]
    exact hreached
  uppers := by
    intro c e he hlt
    rcases h.uppers c e he hlt with hc | hmem
    · by_cases hcc : c = conn
      · right
        have hid : id = e.other := hinv.message c e he id (by rw [hcc, hqueue]; simp)
        rw [← hid]
        exact self_mem_insertNew ..
      · left
        simp only [MemNode.waiting, hphase, List.mem_append, List.mem_singleton] at hc
        simp only [MemNode.waiting, List.append_nil, List.mem_append]
        tauto
    · exact .inr (mem_insertNew hmem)
  code := nofun

theorem Ready.moved (h : Ready i nd) (hinv : Inv i nd) (hm : Move nd nd') : Ready i nd' := by
  cases hm with
  | receive conn id rest hphase hqueue => exact h.receive hinv hphase hqueue
  | lowerDone hphase | finish hphase =>
      exact h.move rfl rfl (by simp [reached, hphase]) (by simp [MemNode.waiting, hphase])
        (by simp) (by simp [awaited, hphase]) (by simp [inProgress]) (by simp [eq_comm])
  | accept hphase hshort =>
      refine h.move rfl rfl (by simp [reached, hphase]) (by simp [MemNode.waiting, hphase])
        (by simp) ?_ (fun _ => hshort) (by simp)
      simp only [awaited, hphase]
      omega
  | dequeue conn rest hphase hqueue =>
      refine h.move rfl rfl (by simp [reached, hphase]) ?_ (by simp) ?_ ?_ (by simp)
      · intro c hc
        simp only [MemNode.waiting, hphase, hqueue, List.mem_append, List.mem_cons] at hc ⊢
        tauto
      · simp only [awaited, hphase, hqueue, List.length_cons]
        omega
      · exact fun _ => h.short (by rw [inProgress, hphase])

end MemNode

/-! ## The cluster -/

namespace Mesh

variable {n : Nat} {st st' : Mesh n} {i j : Fin n}

/-- Whoever has not sent its id over a waiting connection is about to. -/
structure Ready (st : Mesh n) : Prop where
  node : ∀ i, (st.node i).Ready i
  spoken : ∀ j c e, (st.node j).ends.lookup c = some e → c ∈ (st.node j).waiting →
    (st.node j).recvQueue c ≠ [] ∨ (st.node e.other).phase = .sending e.peerConn

theorem initial_ready (n : Nat) : Ready (initial n) :=
  ⟨MemNode.start_ready, fun j c e he => by simp [initial, MemNode.start] at he⟩

theorem Ready.setNode (h : Ready st) {nd : MemNode n} (hnd : nd.Ready i)
    (hspoken : ∀ c e, nd.ends.lookup c = some e → c ∈ nd.waiting →
      nd.recvQueue c ≠ [] ∨ e.other ≠ i ∧ (st.node e.other).phase = .sending e.peerConn)
    (hphase : ∀ conn, (st.node i).phase = .sending conn → nd.phase = .sending conn ∨
      ∀ k c e, (st.node k).ends.lookup c = some e → e.other = i → e.peerConn = conn →
        (st.node k).recvQueue c ≠ []) : Ready (st.setNode i nd) where
  node := (forall_update_iff _ MemNode.Ready).mpr ⟨hnd, fun j _ => h.node j⟩
  spoken := by
    intro j c e he hc
    by_cases hj : j = i
    · subst hj
      rw [setNode_self] at he hc ⊢
      rcases hspoken c e he hc with hrecv | ⟨hother, hsending⟩
      · exact .inl hrecv
      · rw [setNode_ne st nd hother]
        exact .inr hsending
    · rw [setNode_ne st nd hj] at he hc ⊢
      rcases h.spoken j c e he hc with hrecv | hsending
      · exact .inl hrecv
      · by_cases hother : e.other = i
        · rw [hother] at hsending ⊢
          rw [setNode_self]
          exact (hphase _ hsending).symm.imp_left fun hcome => hcome j c e he hother rfl
        · rw [setNode_ne st nd hother]
          exact .inr hsending

theorem Ready.connect (h : Ready st) (hinv : Inv st) {client conn peerConn : Nat}
    (hphase : (st.node i).phase = .connecting) (hj : (j : Int) = (st.node i).idToConnect)
    (hconn : conn ∉ (st.node i).ends) (hpeer : peerConn ∉ (st.node j).ends) :
    Ready (st.linked i j client conn peerConn) := by
  have hji : j < i := by
    have hlt := ((hinv.node i).loop hphase).2
    rw [← hj] at hlt
    exact_mod_cast hlt
  have hfirst : Ready (st.setNode i ((st.node i).connected j client conn peerConn)) := by
    refine h.setNode ((h.node i).connect hphase hji) ?_ (by simp [hphase])
    intro c e he hc
    have hold : c ∈ (st.node i).waiting := by
      simpa [MemNode.waiting, MemNode.connected, hphase] using hc
    rcases lookup_insert_cases he with ⟨rfl, -⟩ | hlookup
    · obtain ⟨x, hx, -⟩ := (hinv.node i).waiting c hold
      exact absurd rfl (ne_of_lookup hconn hx)
    · exact (h.spoken i c e hlookup hold).imp_right (.intro (hinv.other_ne hlookup))
  have hnode := setNode_ne st ((st.node i).connected j client conn peerConn) (ne_of_lt hji)
  have hready := hfirst.node j
  rw [hnode] at hready
  refine hfirst.setNode hready.incoming ?_ ?_
  · intro c e he hc
    rcases lookup_insert_cases he with ⟨-, rfl⟩ | hlookup
    · right
      rw [setNode_self]
      exact ⟨ne_of_gt hji, rfl⟩
    · have hne := ne_of_lookup hpeer hlookup
      have hold : c ∈ (st.node j).waiting := by
        simp only [MemNode.waiting, MemNode.incoming, List.mem_append,
          List.mem_singleton] at hc ⊢
        tauto
      have hspoken := hfirst.spoken j c e
      rw [hnode] at hspoken
      exact (hspoken hlookup hold).imp_right (.intro (hinv.other_ne hlookup))
  · rw [hnode]
    exact fun _ hsending => .inl hsending

theorem Ready.send (h : Ready st) (hinv : Inv st) {conn : Nat} {e : End n}
    (hphase : (st.node i).phase = .sending conn) (he : (st.node i).ends.lookup conn = some e) :
    Ready (st.told i e) := by
  have hne := hinv.other_ne he
  have hfirst : Ready (st.setNode e.other ((st.node e.other).deliver e.peerConn i)) := by
    refine h.setNode ((h.node e.other).deliver _ _) ?_ fun _ hsending => .inl hsending
    intro c x hx hc
    refine (h.spoken e.other c x hx hc).imp ?_ (.intro (hinv.other_ne hx))
    intro hrecv
    rw [MemNode.deliver]
    by_cases hcc : c = e.peerConn
    · simp [hcc]
    · simpa [hcc] using hrecv
  have hnode := setNode_ne st ((st.node e.other).deliver e.peerConn i) hne.symm
  have hready := hfirst.node i
  have hspoken := hfirst.spoken i
  rw [hnode] at hready hspoken
  refine hfirst.setNode (hready.sent hphase) ?_ ?_
  · intro c x hx hc
    refine (hspoken c x hx ?_).imp_right (.intro (hinv.other_ne hx))
    simpa [MemNode.waiting, hphase] using hc
  · rw [hnode, hphase]
    intro _ hconn
    cases hconn
    right
    intro k c x hx hother hpeer
    rw [setNode_ends (by rfl)] at hx
    -- The other end of this connection is the sender: the message has gone to this end.
    obtain ⟨y, hy, hback, hc⟩ := hinv.paired k c x hx
    rw [hother, hpeer, he, Option.some.injEq] at hy
    rw [hy, hback, hc, setNode_self, MemNode.deliver]
    simp

theorem onConnection_ready {conn : Nat} (hinv : Inv st) (hready : Ready st)
    (h : st.step (.onConnection i conn) = some st') : Ready st' := by
  obtain ⟨⟨hconn, hsem⟩, heq⟩ := Option.ite_none_right_eq_some.mp h
  cases heq
  refine hready.setNode ((hready.node i).onConnection hsem) ?_ fun _ hsending => .inl hsending
  intro c e he hc
  refine (hready.spoken i c e he ?_).imp_right (.intro (hinv.other_ne he))
  simp only [MemNode.waiting, List.mem_append, List.mem_singleton] at hc ⊢
  rcases hc with (hc | hc | hc) | hc
  · exact .inl (.inl (List.mem_of_mem_erase hc))
  · exact .inl (.inr hc)
  · exact .inl (.inl (hc ▸ hconn))
  · exact .inr hc

end Mesh

/-! ## The work that is left -/

namespace MemNode

variable {n : Nat} {i : Fin n} {nd nd' : MemNode n}

def phaseWeight : MeshPhase → Nat
  | .connecting => 6
  | .sending _ => 2
  | .accepting => 3
  | .dequeuing => 2
  | .receiving _ => 1
  | .returned _ => 0

def weight (nd : MemNode n) : Nat :=
  5 * (nd.idToConnect + 1).toNat + phaseWeight nd.phase +
    3 * (n - 1 - nd.connections.keys.length) + 2 * nd.arrived.length

theorem keys_length_le_insertNew (m : AList fun _ : Int => Nat) (id : Int) (v : Nat) :
    m.keys.length ≤ (insertNew m id v).keys.length := by
  unfold insertNew
  split
  · exact le_rfl
  · rename_i h
    rw [keys_length_insert h]
    exact Nat.le_succ _

theorem connected_weight (hphase : nd.phase = .connecting) (j : Fin n)
    (client conn peerConn : Nat) :
    (nd.connected j client conn peerConn).weight + 4 ≤ nd.weight := by
  have hkeys := keys_length_le_insertNew nd.connections nd.idToConnect conn
  simp only [weight, connected, hphase, phaseWeight]
  omega

theorem incoming_weight (nd : MemNode n) (k : Fin n) (conn peerConn : Nat) :
    (nd.incoming k conn peerConn).weight = nd.weight + 2 := by
  simp only [weight, incoming, List.length_append, List.length_singleton]
  omega

theorem sent_weight {conn : Nat} (hphase : nd.phase = .sending conn) (hid : 0 ≤ nd.idToConnect) :
    ({ nd with idToConnect := nd.idToConnect - 1, phase := .connecting } : MemNode n).weight <
      nd.weight := by
  simp only [weight, hphase, phaseWeight]
  omega

theorem onConnection_weight {conn : Nat} (hconn : conn ∈ nd.arrived) :
    ({ nd with
        arrived := nd.arrived.erase conn
        connQueueSem := nd.connQueueSem - 1
        connQueue := nd.connQueue ++ [conn] } : MemNode n).weight + 2 = nd.weight := by
  have hlen := List.length_erase_of_mem hconn
  have hpos := List.length_pos_of_mem hconn
  simp only [weight, hlen]
  omega

theorem Move.weight (hm : Move nd nd') (hinv : Inv i nd) (hready : Ready i nd) :
    nd'.weight < nd.weight := by
  cases hm with
  | lowerDone hphase | accept hphase | dequeue _ _ hphase | finish hphase =>
      simp only [MemNode.weight, hphase, phaseWeight]
      omega
  | receive conn id rest hphase hqueue =>
      obtain ⟨e, he, -, hnone⟩ := hinv.waiting conn (by simp [MemNode.waiting, hphase])
      obtain rfl : id = e.other := hinv.message conn e he id (by simp [hqueue])
      have hshort := hready.short (by rw [inProgress, hphase])
      rw [insertNew_of_notMem hnone]
      simp only [MemNode.weight, hphase, phaseWeight, keys_length_insert hnone]
      omega

end MemNode

namespace Mesh

variable {n : Nat} {st st' : Mesh n} {i : Fin n}

def weight (st : Mesh n) : Nat := ∑ i, (st.node i).weight

theorem weight_setNode (st : Mesh n) (i : Fin n) (nd : MemNode n) :
    (st.setNode i nd).weight + (st.node i).weight = st.weight + nd.weight :=
  sum_update_add MemNode.weight st.node i nd

def Connecting (st : Mesh n) (k : Fin n) : Prop :=
  (st.node k).phase = .connecting ∧ 0 ≤ (st.node k).idToConnect

structure Leaves (st st' : Mesh n) : Prop where
  arrived : ∀ k, (st'.node k).arrived = (st.node k).arrived
  connecting : ∀ k, st.Connecting k → st'.Connecting k

theorem Leaves.trans {st'' : Mesh n} (h : Leaves st st') (h' : Leaves st' st'') :
    Leaves st st'' :=
  ⟨fun k => (h'.arrived k).trans (h.arrived k), fun k hk => h'.connecting k (h.connecting k hk)⟩

theorem leaves_setNode {nd : MemNode n} (harrived : nd.arrived = (st.node i).arrived)
    (hi : st.Connecting i → nd.phase = .connecting ∧ 0 ≤ nd.idToConnect) :
    Leaves st (st.setNode i nd) where
  arrived := (forall_update_iff _ fun k (x : MemNode n) =>
    x.arrived = (st.node k).arrived).mpr ⟨harrived, fun _ _ => rfl⟩
  connecting := (forall_update_iff _ fun k (x : MemNode n) =>
    st.Connecting k → x.phase = .connecting ∧ 0 ≤ x.idToConnect).mpr ⟨hi, fun _ _ hk => hk⟩

theorem send_step (hinv : Inv st) {conn : Nat} {e : End n}
    (hphase : (st.node i).phase = .sending conn) (he : (st.node i).ends.lookup conn = some e) :
    (st.told i e).weight < st.weight ∧ Leaves st (st.told i e) := by
  have hfalls := MemNode.sent_weight hphase ((hinv.node i).send conn hphase).1
  have hi := setNode_ne st ((st.node e.other).deliver e.peerConn i) (hinv.other_ne he).symm
  have hkept : ((st.node e.other).deliver e.peerConn i).weight = (st.node e.other).weight := rfl
  have hdelivered := weight_setNode st e.other ((st.node e.other).deliver e.peerConn i)
  have hsent : (st.told i e).weight + _ = _ + _ := weight_setNode _ i _
  rw [hi] at hsent
  dsimp only at hsent
  refine ⟨by omega, ?_⟩
  have hfirst : Leaves st (st.setNode e.other ((st.node e.other).deliver e.peerConn i)) :=
    leaves_setNode rfl fun hc => hc
  refine hfirst.trans (leaves_setNode ?_ ?_)
  · rw [hi]
  · rw [Connecting, hi, hphase]
    rintro ⟨hc, -⟩
    cases hc

theorem own_step {a : Action n} (hinv : Inv st) (hready : Ready st) (ha : Own a)
    (h : st.step a = some st') : Ready st' ∧ st'.weight < st.weight ∧ Leaves st st' := by
  rcases own_cases ha h with ⟨i, conn, e, hphase, he, rfl⟩ | ⟨i, nd, hm, rfl⟩
  · exact ⟨hready.send hinv hphase he, send_step hinv hphase he⟩
  · have hsum := weight_setNode st i nd
    have hfalls := hm.weight (hinv.node i) (hready.node i)
    refine ⟨?_, by omega, leaves_setNode hm.arrived ?_⟩
    · refine hready.setNode ((hready.node i).moved (hinv.node i) hm) ?_
        fun conn hconn => absurd hconn (hm.not_sending conn)
      intro c e he hc
      obtain ⟨hold, hrecv⟩ := hm.waiting (hinv.node i).nodup hc
      rw [hm.ends] at he
      rw [hrecv]
      exact (hready.spoken i c e he hold).imp_right (.intro (hinv.other_ne he))
    · intro hc
      exact absurd hc.2 (not_le.mpr (hm.not_connecting hc.1))

theorem connect_step (hinv : Inv st) {client conn peerConn : Nat}
    (h : st.connect i client conn peerConn = some st') :
    st'.weight + 2 ≤ st.weight ∧
      (∀ k, ∀ c ∈ (st.node k).arrived, c ∈ (st'.node k).arrived) ∧
      ∀ k, k ≠ i → st.Connecting k → st'.Connecting k := by
  obtain ⟨j, hphase, -, hne, -, -, rfl⟩ := connect_cases hinv h
  have hjn := setNode_ne st ((st.node i).connected j client conn peerConn) hne
  have hfirst := weight_setNode st i ((st.node i).connected j client conn peerConn)
  have hsecond := weight_setNode (st.setNode i ((st.node i).connected j client conn peerConn)) j
    ((st.node j).incoming i peerConn conn)
  rw [hjn, MemNode.incoming_weight] at hsecond
  have hless := MemNode.connected_weight hphase j client conn peerConn
  rw [linked]
  refine ⟨by omega, ?_, ?_⟩
  · intro k c hc
    by_cases hkj : k = j
    · rw [hkj] at hc
      rw [hkj, setNode_self]
      exact List.mem_append_left _ hc
    · rw [setNode_ne _ _ hkj]
      by_cases hki : k = i
      · rw [hki] at hc
        rw [hki, setNode_self]
        exact hc
      · rw [setNode_ne _ _ hki]
        exact hc
  · intro k hki hk
    by_cases hkj : k = j
    · rw [hkj] at hk
      rw [Connecting, hkj, setNode_self]
      exact hk
    · rw [Connecting, setNode_ne _ _ hkj, setNode_ne _ _ hki]
      exact hk

/-! ## Who waits for whom -/

def Stuck (st : Mesh n) : Prop := ∀ a, Own a → st.step a = none

theorem not_stuck {a : Action n} (ha : Own a) (h : st.step a ≠ none) : ¬ Stuck st :=
  fun hstuck => h (hstuck a ha)

theorem receiving_moves (hinv : Inv st) (hready : Ready st) {conn : Nat}
    (hphase : (st.node i).phase = .receiving conn) : ¬ Stuck st := by
  have hwaiting : conn ∈ (st.node i).waiting := by simp [MemNode.waiting, hphase]
  obtain ⟨e, he, -⟩ := (hinv.node i).waiting conn hwaiting
  rcases hready.spoken i conn e he hwaiting with hrecv | hsending
  · obtain ⟨sender, rest, hqueue⟩ := List.exists_cons_of_ne_nil hrecv
    exact not_stuck (a := .receive i) trivial (by simp [step, hphase, hqueue])
  · obtain ⟨e', he'⟩ := (hready.node e.other).sends e.peerConn hsending
    exact not_stuck (a := .send e.other) trivial (by simp [step, hsending, he'])

theorem Stuck.phase (hstuck : Stuck st) (hinv : Inv st) (hready : Ready st) (i : Fin n) :
    st.Connecting i ∨
      ((st.node i).phase = .dequeuing ∧ (st.node i).connQueue = []) ∨
      (st.node i).phase = .returned 0 := by
  cases hphase : (st.node i).phase with
  | connecting =>
      by_cases hid : 0 ≤ (st.node i).idToConnect
      · exact .inl ⟨hphase, hid⟩
      · exact absurd hstuck (not_stuck (a := .lowerDone i) trivial
          (by simp [step, hphase, not_le.mp hid]))
  | sending conn =>
      obtain ⟨e, he⟩ := (hready.node i).sends conn hphase
      exact absurd hstuck (not_stuck (a := .send i) trivial (by simp [step, hphase, he]))
  | accepting =>
      by_cases hshort : (st.node i).connections.keys.length < n - 1
      · exact absurd hstuck (not_stuck (a := .accept i) trivial (by simp [step, hphase, hshort]))
      · exact absurd hstuck (not_stuck (a := .finish i) trivial (by simp [step, hphase, hshort]))
  | dequeuing =>
      cases hqueue : (st.node i).connQueue with
      | nil => exact .inr (.inl ⟨rfl, rfl⟩)
      | cons conn rest =>
          exact absurd hstuck (not_stuck (a := .dequeue i) trivial
            (by simp [step, hphase, hqueue]))
  | receiving conn => exact absurd hstuck (receiving_moves hinv hready hphase)
  | returned code =>
      have hcode := (hready.node i).code code hphase
      exact .inr (.inr (by rw [hcode]))

theorem keys_full (h : ∀ k : Fin n, k ≠ i → (k : Int) ∈ (st.node i).connections) :
    n - 1 ≤ (st.node i).connections.keys.length := by
  rw [← card_others i, ← List.toFinset_card_of_nodup (AList.keys_nodup (st.node i).connections)]
  refine Finset.card_le_card ?_
  intro id hid
  obtain ⟨k, hk, rfl⟩ := Finset.mem_image.mp hid
  exact List.mem_toFinset.mpr (AList.mem_keys.mp (h k (Finset.ne_of_mem_erase hk)))

/-- A server that has connected to all lower ids is known to each of them, as a
connection that waits or as an entry of the map. -/
theorem known_below (hinv : Inv st) (hready : Ready st) {j : Fin n} (hji : j < i)
    (hdone : (st.node i).lowerDone) :
    (∃ c ∈ (st.node j).waiting, ∃ e, (st.node j).ends.lookup c = some e ∧ e.other = i) ∨
      (i : Int) ∈ (st.node j).connections := by
  have hreached : (st.node i).reached < (j : Int) := by
    have hid := (hinv.node i).done hdone
    have hle : (st.node i).reached ≤ (st.node i).idToConnect := by
      unfold MemNode.reached
      split
      · omega
      · exact le_rfl
    omega
  have hmem := (hready.node i).lowers j hji hreached
  obtain ⟨c, hc⟩ := Option.isSome_iff_exists.mp (AList.lookup_isSome.mpr hmem)
  obtain ⟨e, he, hother⟩ := (hinv.node i).connected _ c hc
  obtain rfl : e.other = j := Fin.ext (by exact_mod_cast hother)
  obtain ⟨e', he', hback, -⟩ := hinv.paired i c e he
  rcases (hready.node e.other).uppers e.peerConn e' he' (hback ▸ hji) with hwaiting | hentered
  · exact .inl ⟨e.peerConn, hwaiting, e', he', hback⟩
  · rw [hback] at hentered
    exact .inr hentered

theorem unknown_to_target (hinv : Inv st) {j : Fin n} (hconnecting : st.Connecting i)
    (hj : (st.node i).idToConnect = j) : (i : Int) ∉ (st.node j).connections := by
  intro hmem
  obtain ⟨c, hc⟩ := Option.isSome_iff_exists.mp (AList.lookup_isSome.mpr hmem)
  obtain ⟨e, he, hother⟩ := (hinv.node j).connected _ c hc
  obtain rfl : e.other = i := Fin.ext (by exact_mod_cast hother)
  obtain ⟨e', he', hback, -⟩ := hinv.paired j c e he
  have hlt : j < e.other := by
    have hbound := ((hinv.node e.other).loop hconnecting.1).2
    rw [hj] at hbound
    exact_mod_cast hbound
  have hbelow := ((hinv.node e.other).lower _ e' he' (hback ▸ hlt)).2
  rw [MemNode.reached, hconnecting.1, hback] at hbelow
  dsimp only at hbelow
  omega

end Mesh

/-! ## Every run comes to its end -/

namespace EventMesh

variable {n : Nat} {s s' : EventMesh n}

structure Going (s : EventMesh n) : Prop where
  inv : s.mesh.Inv
  ready : s.mesh.Ready
  requested : ∀ i, s.requested i = true → s.mesh.Connecting i
  handling : ∀ j conn, s.handling j = some conn → conn ∈ (s.mesh.node j).arrived

def idle (x : Option Nat) : Nat := if x.isNone then 1 else 0

def silent (requested : Bool) : Nat := if requested then 0 else 1

def rank (s : EventMesh n) : Nat :=
  s.mesh.weight + ∑ i, silent (s.requested i) + ∑ j, idle (s.handling j)

theorem initial_going (n : Nat) : Going (initial n) where
  inv := Mesh.initial_inv n
  ready := Mesh.initial_ready n
  requested := nofun
  handling := nofun

theorem own_going {a : Mesh.Action n} (hg : Going s) (ha : Mesh.Own a)
    (h : s.own a = some s') : Going s' ∧ s'.rank < s.rank := by
  obtain ⟨mesh, hmesh, rfl⟩ := Option.map_eq_some_iff.mp h
  obtain ⟨hready, hfalls, hleaves⟩ := Mesh.own_step hg.inv hg.ready ha hmesh
  refine ⟨⟨Mesh.step_inv hg.inv hmesh, hready, ?_, ?_⟩, ?_⟩
  · intro i hi
    exact hleaves.connecting i (hg.requested i hi)
  · intro j conn hconn
    dsimp only
    rw [hleaves.arrived j]
    exact hg.handling j conn hconn
  · simp only [rank]
    omega

theorem connectRequest_going {i : Fin n} {client conn peerConn : Nat} {mesh : Mesh n}
    (hg : Going s) (hrequested : s.requested i = true)
    (h : s.mesh.connect i client conn peerConn = some mesh) :
    Going { s with mesh := mesh, requested := update s.requested i false } ∧
      rank { s with mesh := mesh, requested := update s.requested i false } < s.rank := by
  have hinv := Mesh.step_inv (a := .connect i client conn peerConn) hg.inv h
  obtain ⟨hweight, harrived, hconnecting⟩ := Mesh.connect_step hg.inv h
  have hready : mesh.Ready := by
    obtain ⟨j, hphase, hj, -, hconn, hpeer, rfl⟩ := Mesh.connect_cases hg.inv h
    exact hg.ready.connect hg.inv hphase hj hconn hpeer
  refine ⟨⟨hinv, hready, ?_, ?_⟩, ?_⟩
  · exact (forall_update_iff _ fun k r => r = true → mesh.Connecting k).mpr
      ⟨by simp, fun k hki hk => hconnecting k hki (hg.requested k hk)⟩
  · intro j c hc
    exact harrived j c (hg.handling j c hc)
  · have hsilent := sum_update_add silent s.requested i false
    rw [hrequested] at hsilent
    change _ + 0 = _ + 1 at hsilent
    simp only [rank]
    omega

theorem enqueue_going {j : Fin n} {conn : Nat} {mesh : Mesh n} (hg : Going s)
    (hhandling : s.handling j = some conn) (h : s.mesh.step (.onConnection j conn) = some mesh) :
    Going { s with mesh := mesh, handling := update s.handling j none } ∧
      rank { s with mesh := mesh, handling := update s.handling j none } < s.rank := by
  obtain ⟨⟨hconn, -⟩, heq⟩ := Option.ite_none_right_eq_some.mp h
  refine ⟨⟨Mesh.step_inv hg.inv h, Mesh.onConnection_ready hg.inv hg.ready h, ?_, ?_⟩, ?_⟩
  · cases heq
    exact (forall_update_iff _ fun k (x : MemNode n) => s.requested k = true →
      x.phase = .connecting ∧ 0 ≤ x.idToConnect).mpr ⟨hg.requested j, fun k _ => hg.requested k⟩
  · refine (forall_update_iff _ fun k x => ∀ c, x = some c →
      c ∈ (mesh.node k).arrived).mpr ⟨by simp, fun k hkj c hc => ?_⟩
    cases heq
    rw [Mesh.setNode_ne _ _ hkj]
    exact hg.handling k c hc
  · have hidle := sum_update_add idle s.handling j none
    rw [hhandling] at hidle
    change _ + 0 = _ + 1 at hidle
    cases heq
    have hweight := Mesh.weight_setNode s.mesh j
      { s.mesh.node j with
        arrived := (s.mesh.node j).arrived.erase conn
        connQueueSem := (s.mesh.node j).connQueueSem - 1
        connQueue := (s.mesh.node j).connQueue ++ [conn] }
    have hless := MemNode.onConnection_weight hconn
    simp only [rank]
    dsimp only at hweight hless ⊢
    omega

theorem step_going {a : Action n} (hg : Going s) (h : s.step a = some s') :
    Going s' ∧ s'.rank < s.rank := by
  cases a with
  | request i =>
      obtain ⟨⟨hphase, hid, hsilent⟩, heq⟩ := Option.ite_none_right_eq_some.mp h
      cases heq
      refine ⟨{ hg with requested := ?_ }, ?_⟩
      · exact (forall_update_iff _ fun k r => r = true → s.mesh.Connecting k).mpr
          ⟨fun _ => ⟨hphase, hid⟩, fun k _ => hg.requested k⟩
      · have hsum := sum_update_add silent s.requested i true
        rw [hsilent] at hsum
        change _ + 1 = _ + 0 at hsum
        simp only [rank]
        omega
  | onConnectRequest j i client conn peerConn =>
      obtain ⟨⟨hrequested, -, -⟩, h⟩ := Option.ite_none_right_eq_some.mp h
      obtain ⟨mesh, hmesh, rfl⟩ := Option.map_eq_some_iff.mp h
      exact connectRequest_going hg hrequested hmesh
  | onConnection j conn =>
      obtain ⟨⟨hfree, hconn⟩, heq⟩ := Option.ite_none_right_eq_some.mp h
      cases heq
      refine ⟨{ hg with handling := ?_ }, ?_⟩
      · refine (forall_update_iff _ fun k x => ∀ c, x = some c →
          c ∈ (s.mesh.node k).arrived).mpr ⟨fun c hc => ?_, fun k _ => hg.handling k⟩
        cases hc
        exact hconn
      · have hsum := sum_update_add idle s.handling j (some conn)
        rw [hfree] at hsum
        change _ + 1 = _ + 0 at hsum
        simp only [rank]
        omega
  | enqueue j =>
      simp only [step] at h
      split at h
      case h_1 => cases h
      case h_2 conn hhandling =>
        obtain ⟨mesh, hmesh, rfl⟩ := Option.map_eq_some_iff.mp h
        exact enqueue_going hg hhandling hmesh
  | send i => exact own_going (a := .send i) hg trivial h
  | lowerDone i => exact own_going (a := .lowerDone i) hg trivial h
  | accept i => exact own_going (a := .accept i) hg trivial h
  | dequeue i => exact own_going (a := .dequeue i) hg trivial h
  | receive i => exact own_going (a := .receive i) hg trivial h
  | finish i => exact own_going (a := .finish i) hg trivial h

/-! ### No deadlock -/

theorem mesh_stuck (hstuck : ∀ a, s.step a = none) : s.mesh.Stuck := by
  intro a ha
  have hown : ∀ {b : Action n}, s.step b = s.own a → s.mesh.step a = none := by
    intro b hb
    exact Option.map_eq_none_iff.mp (hb.symm.trans (hstuck b))
  cases a with
  | connect | connectFails | onConnection => exact absurd ha id
  | send i => exact hown (b := .send i) rfl
  | lowerDone i => exact hown (b := .lowerDone i) rfl
  | accept i => exact hown (b := .accept i) rfl
  | dequeue i => exact hown (b := .dequeue i) rfl
  | receive i => exact hown (b := .receive i) rfl
  | finish i => exact hown (b := .finish i) rfl

/-- A client waits in `connect` because the event thread of the other server is inside
`on_connection` and nobody accepts there. -/
theorem waits_for (hg : Going s) (hstuck : ∀ a, s.step a = none) {i : Fin n}
    (hi : s.mesh.Connecting i) :
    ∃ j conn, j < i ∧ (s.mesh.node i).idToConnect = (j : Fin n) ∧ s.handling j = some conn ∧
      (s.mesh.node j).connQueueSem = 0 := by
  have hbound := ((hg.inv.node i).loop hi.1).2
  have hid := hi.2
  have hlt : (s.mesh.node i).idToConnect.toNat < n := by
    have := i.isLt
    omega
  let j : Fin n := ⟨(s.mesh.node i).idToConnect.toNat, hlt⟩
  have hj : (s.mesh.node i).idToConnect = (j : Fin n) := (Int.toNat_of_nonneg hid).symm
  have hji : j < i := by
    rw [hj] at hbound
    exact_mod_cast hbound
  have hrequested : s.requested i = true := by
    by_contra hsilent
    have hnone := hstuck (.request i)
    simp [step, hi.1, hi.2, hsilent] at hnone
  cases hhandling : s.handling j with
  | none =>
      exfalso
      obtain ⟨conn, hconn⟩ :=
        Infinite.exists_notMem_finset (insert 0 (s.mesh.node i).ends.keys.toFinset)
      obtain ⟨peerConn, hpeer⟩ :=
        Infinite.exists_notMem_finset (s.mesh.node j).ends.keys.toFinset
      rw [Finset.mem_insert, not_or, List.mem_toFinset, ← AList.mem_keys] at hconn
      rw [List.mem_toFinset, ← AList.mem_keys] at hpeer
      have hnone := hstuck (.onConnectRequest j i 0 conn peerConn)
      rw [step, if_pos ⟨hrequested, hj, hhandling⟩, Option.map_eq_none_iff] at hnone
      have hown : (s.mesh.node i).idToConnect ≠ (i : Int) := by omega
      simp only [Mesh.connect] at hnone
      rw [if_pos ⟨hi.1, hi.2⟩, if_neg hown, dif_pos hlt, if_pos ⟨hconn.1, hconn.2, hpeer⟩] at hnone
      cases hnone
  | some conn =>
      refine ⟨j, conn, hji, hj, hhandling, ?_⟩
      by_contra hsem
      have hnone := hstuck (.enqueue j)
      have harrived := hg.handling j conn hhandling
      simp [step, hhandling, Mesh.step, harrived, Nat.pos_of_ne_zero hsem] at hnone

/-- The lowest server that still connects would wait for one that neither connects nor
accepts, and such a server has returned with a connection to everyone. -/
theorem no_connecting (hg : Going s) (hstuck : ∀ a, s.step a = none) (i : Fin n) :
    ¬ s.mesh.Connecting i := by
  induction i using WellFoundedLT.induction with
  | ind i ih =>
      intro hi
      obtain ⟨j, conn, hji, hj, hhandling, hsem⟩ := waits_for hg hstuck hi
      have htickets := (hg.ready.node j).tickets
      rcases (mesh_stuck hstuck).phase hg.inv hg.ready j with hc | ⟨hphase, hqueue⟩ | hphase
      · exact ih j hji hc
      · rw [hsem, hqueue, MemNode.awaited, hphase] at htickets
        cases htickets
      · have hmem : (i : Int) ∈ (s.mesh.node j).connections := by
          rw [AList.mem_keys, ← List.mem_toFinset, hg.inv.keys hphase]
          exact Finset.mem_image.mpr
            ⟨i, Finset.mem_erase.mpr ⟨ne_of_gt hji, Finset.mem_univ i⟩, rfl⟩
        exact Mesh.unknown_to_target hg.inv hi hj hmem

theorem all_returned (hg : Going s) (hstuck : ∀ a, s.step a = none) (j : Fin n) :
    (s.mesh.node j).phase = .returned 0 := by
  have hphases : ∀ i, ((s.mesh.node i).phase = .dequeuing ∧ (s.mesh.node i).connQueue = []) ∨
      (s.mesh.node i).phase = .returned 0 := by
    intro i
    exact ((mesh_stuck hstuck).phase hg.inv hg.ready i).resolve_left (no_connecting hg hstuck i)
  have hdone : ∀ i, (s.mesh.node i).lowerDone := by
    intro i
    rcases hphases i with ⟨hphase, -⟩ | hphase
    · simp [MemNode.lowerDone, hphase]
    · simp [MemNode.lowerDone, hphase]
  refine (hphases j).resolve_left ?_
  rintro ⟨hphase, hqueue⟩
  have hsem : 0 < (s.mesh.node j).connQueueSem := by
    have htickets := (hg.ready.node j).tickets
    rw [hqueue, MemNode.awaited, hphase] at htickets
    simp only [List.length_nil] at htickets
    omega
  have hidle : s.handling j = none := by
    cases hhandling : s.handling j with
    | none => rfl
    | some conn =>
        have hnone := hstuck (.enqueue j)
        have harrived := hg.handling j conn hhandling
        simp [step, hhandling, Mesh.step, harrived, hsem] at hnone
  have harrived : (s.mesh.node j).arrived = [] := by
    rw [List.eq_nil_iff_forall_not_mem]
    intro c hc
    have hnone := hstuck (.onConnection j c)
    simp [step, hidle, hc] at hnone
  have hwaiting : (s.mesh.node j).waiting = [] := by
    simp [MemNode.waiting, harrived, hqueue, hphase]
  have hall : ∀ k : Fin n, k ≠ j → (k : Int) ∈ (s.mesh.node j).connections := by
    intro k hk
    rcases lt_or_gt_of_ne hk with hlt | hgt
    · refine (hg.ready.node j).lowers k hlt ?_
      have hid := (hg.inv.node j).done (hdone j)
      rw [MemNode.reached, hphase]
      dsimp only
      omega
    · rcases Mesh.known_below hg.inv hg.ready hgt (hdone k) with ⟨c, hc, -⟩ | hmem
      · rw [hwaiting] at hc
        cases hc
      · exact hmem
  have hshort := (hg.ready.node j).short (by rw [MemNode.inProgress, hphase])
  have hfull := Mesh.keys_full hall
  omega

theorem reaches_mesh (h : Reaches step anyAction (initial n) s) :
    Reaches Mesh.step anyAction (Mesh.initial n) s.mesh := by
  obtain ⟨as, -, hrun⟩ := h
  exact reaches_of_run ((mesh_simulation n).run_observed trivial hrun)

/-- If every connection attempt succeeds, then from every state of every run, whatever the
event threads and the threads in `connect_mesh` do, after boundedly many steps
`connect_mesh` has returned 0 on all servers; and the mesh that is built on the way is one
that can be built without regard to the event threads. -/
theorem mesh_gets_connected {n : Nat} {s : EventMesh n} (h : Reaches step anyAction (initial n) s) :
    (Completes step anyAction s fun t => ∀ i, (t.mesh.node i).phase = .returned 0) ∧
      Reaches Mesh.step anyAction (Mesh.initial n) s.mesh := by
  have hg : Going s :=
    h.invariant (fun _ _ _ hg _ hstep => (step_going hg hstep).1) (initial_going n)
  refine ⟨completes_of_rank (?_ : ∀ m u a v, Going u ∧ u.rank = m → anyAction u a →
    step u a = some v → ∃ l < m, Going v ∧ v.rank = l) ?_ ⟨hg, rfl⟩, reaches_mesh h⟩
  · intro m u a v hu _ hstep
    obtain ⟨hgoing, hless⟩ := step_going hu.1 hstep
    exact ⟨v.rank, hu.2 ▸ hless, hgoing, rfl⟩
  · intro m u hu hstuck
    exact all_returned hu.1 fun a => hstuck a trivial

/-- Three servers: the event thread of server 1 holds the connection from server 2 before
server 1 has connected to server 0. They still get through. -/
theorem mesh_gets_connected_three : ∃ s t : EventMesh 3,
    s.handling 1 = some 21 ∧ (s.mesh.node 1).phase = .connecting ∧
      Reaches step anyAction s t ∧ ∀ i, (t.mesh.node i).phase = .returned 0 := by
  let actions : List (Action 3) :=
    [.request 2, .onConnectRequest 1 2 100 11 21, .onConnection 1 21, .send 2]
  have hrun : (run step (initial 3) actions).map
      (fun s => (s.handling 1, (s.mesh.node 1).phase)) = some (some 21, .connecting) := by
    decide +kernel
  obtain ⟨s, hreach, hshown⟩ := reaches_of_map_run hrun
  rw [Prod.mk.injEq] at hshown
  obtain ⟨t, ht, hdone⟩ := (mesh_gets_connected hreach).1.exists_done
  exact ⟨s, t, hshown.1, hshown.2, ht, hdone⟩

end EventMesh

end RdmaMigration.Coordinator
