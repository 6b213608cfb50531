import Mathlib.Data.Finset.Card
import Mathlib.Data.Fintype.Card
import RdmaMigration.Lib.Run
import RdmaMigration.Lib.Update

/-! # Connecting the mesh

`connect_mesh` of every server of a cluster. A server connects to all lower ids
and sends its own id over each connection, then accepts connections until it has
one for every other server. The event thread of a server hands a connection to an
accepter, in whatever order the connections come in.

A connection has one object at each of its ends, known there by its address.
-/

namespace RdmaMigration.Coordinator

open Lib Function

/-- The object that owns a connection: the `RDMAServer` of the process, or one of
its `RDMAClient`s. -/
inductive Endpoint where
  | server
  | client (object : Nat)
  deriving DecidableEq, Repr

/-- The `rdma_connection` at one end: the server at the other end, the connection
object there, and the owner here. -/
structure End (n : Nat) where
  other : Fin n
  peerConn : Nat
  owner : Endpoint
  deriving DecidableEq, Repr

inductive MeshPhase where
  /-- At the head of the first loop. -/
  | connecting
  /-- In front of sending the id. -/
  | sending (conn : Nat)
  /-- At the head of the second loop. -/
  | accepting
  /-- In `accept`, after `sem_post`. -/
  | dequeuing
  /-- In `receive`. -/
  | receiving (conn : Nat)
  | returned (code : Int)
  deriving DecidableEq, Repr

/-- `arrived` has the established connections whose event the event thread has
not handled, `ends` all connections of the process. -/
structure MemNode (n : Nat) where
  idToConnect : Int
  phase : MeshPhase
  clients : AList fun _ : Nat => Nat
  connections : AList fun _ : Int => Nat
  accepts : Nat
  connQueueSem : Nat
  connQueue : List Nat
  arrived : List Nat
  recvQueue : Nat → List Int
  ends : AList fun _ : Nat => End n

namespace MemNode

variable {n : Nat}

def start (i : Fin n) : MemNode n :=
  ⟨(i : Int) - 1, .connecting, ∅, ∅, 0, 0, [], [], fun _ => [], ∅⟩

/-- `insert` of the standard maps keeps an entry that is there. -/
def insertNew {κ ν : Type} [DecidableEq κ] (m : AList fun _ : κ => ν) (k : κ) (v : ν) :
    AList fun _ : κ => ν :=
  if k ∈ m then m else m.insert k v

/-- `getServer`; `none` is the null pointer that the index operator makes for an
unknown connection. -/
def getServer (nd : MemNode n) (serverId id : Int) (connId : Nat) : Option Endpoint :=
  if id < serverId then (nd.clients.lookup connId).map .client else some .server

def connected (nd : MemNode n) (j : Fin n) (client conn peerConn : Nat) : MemNode n :=
  { nd with
    phase := .sending conn
    clients := insertNew nd.clients conn client
    connections := insertNew nd.connections nd.idToConnect conn
    ends := nd.ends.insert conn ⟨j, peerConn, .client client⟩ }

def incoming (nd : MemNode n) (i : Fin n) (conn peerConn : Nat) : MemNode n :=
  { nd with
    arrived := nd.arrived ++ [conn]
    ends := nd.ends.insert conn ⟨i, peerConn, .server⟩ }

def deliver (nd : MemNode n) (conn : Nat) (id : Int) : MemNode n :=
  { nd with recvQueue := update nd.recvQueue conn (nd.recvQueue conn ++ [id]) }

end MemNode

structure Mesh (n : Nat) where
  node : Fin n → MemNode n

namespace Mesh

variable {n : Nat}

def initial (n : Nat) : Mesh n := ⟨MemNode.start⟩

def setNode (st : Mesh n) (i : Fin n) (nd : MemNode n) : Mesh n :=
  ⟨update st.node i nd⟩

inductive Action (n : Nat) where
  | connect (i : Fin n) (client conn peerConn : Nat)
  | connectFails (i : Fin n)
  | send (i : Fin n)
  | lowerDone (i : Fin n)
  | accept (i : Fin n)
  | onConnection (i : Fin n) (conn : Nat)
  | dequeue (i : Fin n)
  | receive (i : Fin n)
  | finish (i : Fin n)
  deriving DecidableEq, Repr

/-- One round of the first loop up to the send. The two connection objects are at
addresses that the two processes do not use for another. -/
def connect (st : Mesh n) (i : Fin n) (client conn peerConn : Nat) : Option (Mesh n) :=
  let nd := st.node i
  if nd.phase = .connecting ∧ 0 ≤ nd.idToConnect then
    if nd.idToConnect = i then
      some (st.setNode i { nd with idToConnect := nd.idToConnect - 1 })
    else if h : nd.idToConnect.toNat < n then
      let j : Fin n := ⟨nd.idToConnect.toNat, h⟩
      if conn ≠ 0 ∧ conn ∉ nd.ends ∧ peerConn ∉ (st.node j).ends then
        some ((st.setNode i (nd.connected j client conn peerConn)).setNode j
          ((st.node j).incoming i peerConn conn))
      else none
    else none
  else none

def step (st : Mesh n) : Action n → Option (Mesh n)
  | .connect i client conn peerConn => st.connect i client conn peerConn
  | .connectFails i =>
      let nd := st.node i
      if nd.phase = .connecting ∧ 0 ≤ nd.idToConnect then
        some (st.setNode i { nd with phase := .returned (-1) })
      else none
  | .send i =>
      let nd := st.node i
      match nd.phase with
      | .sending conn =>
          match nd.ends.lookup conn with
          | none => none
          | some e =>
              some ((st.setNode e.other ((st.node e.other).deliver e.peerConn i)).setNode i
                { nd with idToConnect := nd.idToConnect - 1, phase := .connecting })
      | _ => none
  | .lowerDone i =>
      let nd := st.node i
      if nd.phase = .connecting ∧ nd.idToConnect < 0 then
        some (st.setNode i { nd with phase := .accepting })
      else none
  | .accept i =>
      let nd := st.node i
      if nd.phase = .accepting ∧ nd.connections.keys.length < n - 1 then
        some (st.setNode i
          { nd with
            phase := .dequeuing
            accepts := nd.accepts + 1
            connQueueSem := nd.connQueueSem + 1 })
      else none
  | .onConnection i conn =>
      let nd := st.node i
      if conn ∈ nd.arrived ∧ 0 < nd.connQueueSem then
        some (st.setNode i
          { nd with
            arrived := nd.arrived.erase conn
            connQueueSem := nd.connQueueSem - 1
            connQueue := nd.connQueue ++ [conn] })
      else none
  | .dequeue i =>
      let nd := st.node i
      match nd.phase, nd.connQueue with
      | .dequeuing, conn :: rest =>
          some (st.setNode i { nd with phase := .receiving conn, connQueue := rest })
      | _, _ => none
  | .receive i =>
      let nd := st.node i
      match nd.phase with
      | .receiving conn =>
          match nd.recvQueue conn with
          | [] => none
          | id :: rest =>
              some (st.setNode i
                { nd with
                  phase := .accepting
                  recvQueue := update nd.recvQueue conn rest
                  connections := MemNode.insertNew nd.connections id conn })
      | _ => none
  | .finish i =>
      let nd := st.node i
      if nd.phase = .accepting ∧ ¬ nd.connections.keys.length < n - 1 then
        some (st.setNode i { nd with phase := .returned 0 })
      else none

/-- All there is to say about server `i` once `connect_mesh` has returned 0. -/
structure Routed (st : Mesh n) (i : Fin n) : Prop where
  keys : ∀ id : Int, id ∈ (st.node i).connections ↔ 0 ≤ id ∧ id < n ∧ id ≠ i
  accepts : (st.node i).accepts = n - 1 - i
  route : ∀ j : Fin n, j ≠ i → ∃ conn e e', (st.node i).connections.lookup (j : Int) = some conn ∧
    (st.node i).ends.lookup conn = some e ∧ e.other = j ∧
    (st.node j).ends.lookup e.peerConn = some e' ∧ e'.other = i ∧ e'.peerConn = conn ∧
    (st.node i).getServer i j conn = some e.owner

end Mesh

/-! ## One server -/

namespace MemNode

variable {n : Nat} {i : Fin n} {nd : MemNode n}

def reached (nd : MemNode n) : Int :=
  match nd.phase with
  | .sending _ => nd.idToConnect - 1
  | _ => nd.idToConnect

def waiting (nd : MemNode n) : List Nat :=
  nd.arrived ++ nd.connQueue ++
    match nd.phase with
    | .receiving conn => [conn]
    | _ => []

def inProgress (nd : MemNode n) : Nat :=
  match nd.phase with
  | .dequeuing | .receiving _ => 1
  | _ => 0

def lowerDone (nd : MemNode n) : Prop :=
  match nd.phase with
  | .accepting | .dequeuing | .receiving _ => True
  | .returned code => code = 0
  | _ => False

structure Inv (i : Fin n) (nd : MemNode n) : Prop where
  lower : ∀ c e, nd.ends.lookup c = some e → e.other < i →
    (∃ k, e.owner = .client k ∧ nd.clients.lookup c = some k) ∧ nd.reached < e.other
  upper : ∀ c e, nd.ends.lookup c = some e → ¬ e.other < i → i < e.other ∧ e.owner = .server
  distinct : ∀ c c' e e', nd.ends.lookup c = some e → nd.ends.lookup c' = some e' →
    e.other = e'.other → c = c'
  clients : ∀ c ∈ nd.clients, c ∈ nd.ends
  connected : ∀ id c, nd.connections.lookup id = some c →
    ∃ e, nd.ends.lookup c = some e ∧ (e.other : Int) = id
  nodup : nd.waiting.Nodup
  waiting : ∀ c ∈ nd.waiting, ∃ e, nd.ends.lookup c = some e ∧ i < e.other ∧
    (e.other : Int) ∉ nd.connections
  message : ∀ c e, nd.ends.lookup c = some e → ∀ id ∈ nd.recvQueue c, id = e.other
  silent : ∀ c, c ∉ nd.ends → nd.recvQueue c = []
  count : (nd.connections.keys.length + nd.inProgress : Int) = i - 1 - nd.reached + nd.accepts
  loop : nd.phase = .connecting → -1 ≤ nd.idToConnect ∧ nd.idToConnect < i
  send : ∀ conn, nd.phase = .sending conn → 0 ≤ nd.idToConnect ∧ nd.idToConnect < i
  done : nd.lowerDone → nd.idToConnect = -1
  full : nd.phase = .returned 0 → n - 1 ≤ nd.connections.keys.length

theorem insertNew_of_notMem {κ ν : Type} [DecidableEq κ] {m : AList fun _ : κ => ν} {k : κ}
    (h : k ∉ m) (v : ν) : insertNew m k v = m.insert k v := if_neg h

theorem start_inv (i : Fin n) : Inv i (start i) where
  lower := fun c e h => by simp [start] at h
  upper := fun c e h => by simp [start] at h
  distinct := fun c c' e e' h => by simp [start] at h
  clients := fun c h => by simp [start] at h
  connected := fun id c h => by simp [start] at h
  nodup := .nil
  waiting := fun c h => by simp [MemNode.waiting, start] at h
  message := fun c e h => by simp [start] at h
  silent := fun _ _ => rfl
  count := by simp [start, inProgress, reached]
  loop := fun _ => by
    show -1 ≤ (i : Int) - 1 ∧ (i : Int) - 1 < i
    omega
  send := nofun
  done := nofun
  full := nofun

theorem Inv.not_connected (h : Inv i nd) {j : Fin n}
    (hno : ∀ c e, nd.ends.lookup c = some e → e.other ≠ j) : (j : Int) ∉ nd.connections := by
  intro hmem
  obtain ⟨c, hc⟩ := Option.isSome_iff_exists.mp (AList.lookup_isSome.mpr hmem)
  obtain ⟨e, he, hother⟩ := h.connected _ c hc
  exact hno c e he (Fin.ext (by exact_mod_cast hother))

theorem Inv.distinct_insert (h : Inv i nd) {conn : Nat} {x : End n}
    (hno : ∀ c e, nd.ends.lookup c = some e → e.other ≠ x.other) (c c' : Nat) (e e' : End n)
    (he : (nd.ends.insert conn x).lookup c = some e)
    (he' : (nd.ends.insert conn x).lookup c' = some e') (hsame : e.other = e'.other) : c = c' := by
  rcases lookup_insert_cases he with ⟨rfl, rfl⟩ | hold <;>
    rcases lookup_insert_cases he' with ⟨rfl, rfl⟩ | hold'
  · rfl
  · exact absurd hsame.symm (hno c' e' hold')
  · exact absurd hsame (hno c e hold)
  · exact h.distinct c c' e e' hold hold' hsame

theorem Inv.message_insert (h : Inv i nd) {conn : Nat} {x : End n} (hconn : conn ∉ nd.ends)
    (c : Nat) (e : End n) (he : (nd.ends.insert conn x).lookup c = some e) (id : Int)
    (hid : id ∈ nd.recvQueue c) : id = e.other := by
  rcases lookup_insert_cases he with ⟨rfl, rfl⟩ | hold
  · rw [h.silent c hconn] at hid
    cases hid
  · exact h.message c e hold id hid

theorem Inv.connect (h : Inv i nd) {j : Fin n} {client conn peerConn : Nat}
    (hphase : nd.phase = .connecting) (hj : (j : Int) = nd.idToConnect) (hconn : conn ∉ nd.ends) :
    Inv i (nd.connected j client conn peerConn) := by
  have hreached : nd.reached = nd.idToConnect := by simp [reached, hphase]
  have hji : j < i := by
    have := (h.loop hphase).2
    rw [← hj] at this
    exact_mod_cast this
  have hno : ∀ c e, nd.ends.lookup c = some e → e.other ≠ j := by
    rintro c e he rfl
    have := (h.lower c e he hji).2
    omega
  have hkey : nd.idToConnect ∉ nd.connections := hj ▸ h.not_connected hno
  have hclient : conn ∉ nd.clients := fun hmem => hconn (h.clients conn hmem)
  have hwaiting : (nd.connected j client conn peerConn).waiting = nd.waiting := by
    simp [MemNode.waiting, MemNode.connected, hphase]
  unfold MemNode.connected at hwaiting ⊢
  rw [insertNew_of_notMem hkey, insertNew_of_notMem hclient] at hwaiting ⊢
  refine
    { lower := ?_
      upper := ?_
      distinct := ?_
      clients := ?_
      connected := ?_
      nodup := ?_
      waiting := ?_
      message := ?_
      silent := ?_
      count := ?_
      loop := nofun
      send := ?_
      done := nofun
      full := nofun }
  · intro c e he hlt
    rcases lookup_insert_cases he with ⟨rfl, rfl⟩ | hold
    · refine ⟨⟨client, rfl, AList.lookup_insert _⟩, ?_⟩
      show nd.idToConnect - 1 < (j : Int)
      omega
    · obtain ⟨⟨k, howner, hk⟩, hbelow⟩ := h.lower c e hold hlt
      refine ⟨⟨k, howner, ?_⟩, ?_⟩
      · rw [AList.lookup_insert_ne (ne_of_lookup hclient hk)]
        exact hk
      · show nd.idToConnect - 1 < (e.other : Int)
        omega
  · intro c e he hnot
    rcases lookup_insert_cases he with ⟨rfl, rfl⟩ | hold
    · exact absurd hji hnot
    · exact h.upper c e hold hnot
  · exact h.distinct_insert hno
  · intro c hc
    rcases AList.mem_insert _ |>.mp hc with rfl | hold
    · exact (AList.mem_insert _).mpr (.inl rfl)
    · exact (AList.mem_insert _).mpr (.inr (h.clients c hold))
  · intro id c hc
    rcases lookup_insert_cases hc with ⟨rfl, rfl⟩ | hold
    · exact ⟨_, AList.lookup_insert _, hj⟩
    · obtain ⟨e, he, hother⟩ := h.connected id c hold
      refine ⟨e, ?_, hother⟩
      rw [AList.lookup_insert_ne (ne_of_lookup hconn he)]
      exact he
  · rw [hwaiting]
    exact h.nodup
  · intro c hc
    rw [hwaiting] at hc
    obtain ⟨e, he, hlt, hnone⟩ := h.waiting c hc
    refine ⟨e, ?_, hlt, ?_⟩
    · rw [AList.lookup_insert_ne (ne_of_lookup hconn he)]
      exact he
    · rw [AList.mem_insert]
      rintro (heq | hold)
      · have : (i : Int) < e.other := by exact_mod_cast hlt
        have : (j : Int) < i := by exact_mod_cast hji
        omega
      · exact hnone hold
  · exact h.message_insert hconn
  · intro c hc
    exact h.silent c fun hmem => hc ((AList.mem_insert _).mpr (.inr hmem))
  · have hcount := h.count
    rw [hreached] at hcount
    simp only [inProgress, hphase] at hcount
    simp only [keys_length_insert hkey, inProgress, reached]
    omega
  · intro c _
    obtain ⟨-, hlt⟩ := h.loop hphase
    show 0 ≤ nd.idToConnect ∧ nd.idToConnect < i
    omega

theorem Inv.incoming (h : Inv i nd) {k : Fin n} {conn peerConn : Nat} (hik : i < k)
    (hconn : conn ∉ nd.ends) (hno : ∀ c e, nd.ends.lookup c = some e → e.other ≠ k) :
    Inv i (nd.incoming k conn peerConn) := by
  have hmem : ∀ c, c ∈ (nd.incoming k conn peerConn).waiting ↔ c = conn ∨ c ∈ nd.waiting := by
    intro c
    simp only [MemNode.waiting, MemNode.incoming, List.mem_append, List.mem_singleton]
    tauto
  have hfresh : conn ∉ nd.waiting := by
    intro hc
    obtain ⟨e, he, -⟩ := h.waiting conn hc
    exact ne_of_lookup hconn he rfl
  refine
    { h with
      lower := ?_
      upper := ?_
      distinct := ?_
      clients := fun c hc => (AList.mem_insert _).mpr (.inr (h.clients c hc))
      connected := ?_
      nodup := ?_
      waiting := ?_
      message := ?_
      silent := fun c hc => h.silent c fun hold => hc ((AList.mem_insert _).mpr (.inr hold)) }
  · intro c e he hlt
    rcases lookup_insert_cases he with ⟨rfl, rfl⟩ | hold
    · exact absurd hlt (lt_asymm hik)
    · exact h.lower c e hold hlt
  · intro c e he hnot
    rcases lookup_insert_cases he with ⟨rfl, rfl⟩ | hold
    · exact ⟨hik, rfl⟩
    · exact h.upper c e hold hnot
  · exact h.distinct_insert hno
  · intro id c hc
    obtain ⟨e, he, hother⟩ := h.connected id c hc
    refine ⟨e, ?_, hother⟩
    show (nd.ends.insert conn _).lookup c = some e
    rw [AList.lookup_insert_ne (ne_of_lookup hconn he)]
    exact he
  · have hperm : (nd.incoming k conn peerConn).waiting.Perm (conn :: nd.waiting) := by
      simp only [MemNode.waiting, MemNode.incoming, List.append_assoc, List.singleton_append]
      exact List.perm_middle
    exact hperm.nodup_iff.mpr (List.nodup_cons.mpr ⟨hfresh, h.nodup⟩)
  · intro c hc
    show ∃ e, (nd.ends.insert conn _).lookup c = some e ∧ _
    rcases (hmem c).mp hc with rfl | hold
    · exact ⟨_, AList.lookup_insert _, hik, h.not_connected hno⟩
    · obtain ⟨e, he, hlt, hnone⟩ := h.waiting c hold
      refine ⟨e, ?_, hlt, hnone⟩
      rw [AList.lookup_insert_ne (ne_of_lookup hconn he)]
      exact he
  · exact h.message_insert hconn

theorem Inv.deliver (h : Inv i nd) {conn : Nat} {e : End n}
    (he : nd.ends.lookup conn = some e) : Inv i (nd.deliver conn e.other) := by
  refine { h with message := ?_, silent := ?_ }
  · intro c e' he' id hid
    by_cases hc : c = conn
    · subst hc
      obtain rfl : e = e' := Option.some.inj (he.symm.trans he')
      have hid' : id ∈ nd.recvQueue c ++ [(e.other : Int)] := by
        simpa [MemNode.deliver] using hid
      rcases List.mem_append.mp hid' with hold | hnew
      · exact h.message c e he id hold
      · exact List.mem_singleton.mp hnew
    · exact h.message c e' he' id (by simpa [MemNode.deliver, hc] using hid)
  · intro c hc
    have hne : c ≠ conn := fun heq => ne_of_lookup hc (heq ▸ he) rfl
    show update nd.recvQueue conn _ c = []
    rw [update_of_ne hne]
    exact h.silent c hc

/-- The moves that a server makes alone in its second loop. -/
inductive Move (nd : MemNode n) : MemNode n → Prop where
  | lowerDone : nd.phase = .connecting → nd.idToConnect < 0 →
      Move nd { nd with phase := .accepting }
  | accept : nd.phase = .accepting → nd.connections.keys.length < n - 1 →
      Move nd { nd with
        phase := .dequeuing
        accepts := nd.accepts + 1
        connQueueSem := nd.connQueueSem + 1 }
  | dequeue (conn : Nat) (rest : List Nat) :
      nd.phase = .dequeuing → nd.connQueue = conn :: rest →
      Move nd { nd with phase := .receiving conn, connQueue := rest }
  | receive (conn : Nat) (id : Int) (rest : List Int) :
      nd.phase = .receiving conn → nd.recvQueue conn = id :: rest →
      Move nd { nd with
        phase := .accepting
        recvQueue := update nd.recvQueue conn rest
        connections := insertNew nd.connections id conn }
  | finish : nd.phase = .accepting → n - 1 ≤ nd.connections.keys.length →
      Move nd { nd with phase := .returned 0 }

theorem Inv.move (h : Inv i nd) {nd' : MemNode n} (hends : nd'.ends = nd.ends)
    (hclients : nd'.clients = nd.clients) (hconnections : nd'.connections = nd.connections)
    (hrecv : nd'.recvQueue = nd.recvQueue) (hreached : nd'.reached = nd.reached)
    (hwaiting : nd'.waiting.Perm nd.waiting)
    (hcount : nd'.inProgress + nd.accepts = nd.inProgress + nd'.accepts)
    (hloop : nd'.phase = .connecting → -1 ≤ nd'.idToConnect ∧ nd'.idToConnect < i)
    (hsend : ∀ conn, nd'.phase = .sending conn → 0 ≤ nd'.idToConnect ∧ nd'.idToConnect < i)
    (hdone : nd'.lowerDone → nd'.idToConnect = -1)
    (hfull : nd'.phase = .returned 0 → n - 1 ≤ nd.connections.keys.length) : Inv i nd' where
  lower := by
    rw [hends, hclients, hreached]
    exact h.lower
  upper := by
    rw [hends]
    exact h.upper
  distinct := by
    rw [hends]
    exact h.distinct
  clients := by
    rw [hends, hclients]
    exact h.clients
  connected := by
    rw [hends, hconnections]
    exact h.connected
  nodup := hwaiting.nodup_iff.mpr h.nodup
  waiting := by
    rw [hends, hconnections]
    exact fun c hc => h.waiting c (hwaiting.mem_iff.mp hc)
  message := by
    rw [hends, hrecv]
    exact h.message
  silent := by
    rw [hends, hrecv]
    exact h.silent
  count := by
    have := h.count
    rw [hconnections, hreached]
    omega
  loop := hloop
  send := hsend
  done := hdone
  full := by
    rw [hconnections]
    exact hfull

theorem Inv.sent (h : Inv i nd) {conn : Nat} (hphase : nd.phase = .sending conn) :
    Inv i { nd with idToConnect := nd.idToConnect - 1, phase := .connecting } := by
  refine h.move rfl rfl rfl rfl (by simp [reached, hphase]) (by simp [MemNode.waiting, hphase])
    (by simp [inProgress, hphase]) (fun _ => ?_) nofun nofun nofun
  have := h.send conn hphase
  show -1 ≤ nd.idToConnect - 1 ∧ nd.idToConnect - 1 < i
  omega

theorem Inv.connectFails (h : Inv i nd) (hphase : nd.phase = .connecting) :
    Inv i { nd with phase := .returned (-1) } :=
  h.move rfl rfl rfl rfl (by simp [reached, hphase]) (by simp [MemNode.waiting, hphase])
    (by simp [inProgress, hphase]) nofun nofun
    (fun hdone => absurd hdone (by simp [MemNode.lowerDone]))
    (fun hfull => absurd hfull (by simp))

theorem Inv.onConnection (h : Inv i nd) {conn : Nat} (hconn : conn ∈ nd.arrived) :
    Inv i { nd with
      arrived := nd.arrived.erase conn
      connQueueSem := nd.connQueueSem - 1
      connQueue := nd.connQueue ++ [conn] } := by
  refine h.move rfl rfl rfl rfl rfl ?_ rfl h.loop h.send h.done h.full
  refine List.Perm.append_right _ ?_
  calc (nd.arrived.erase conn ++ (nd.connQueue ++ [conn])).Perm
        (nd.arrived.erase conn ++ (conn :: nd.connQueue)) :=
        (List.perm_append_singleton conn nd.connQueue).append_left _
    List.Perm _ (conn :: nd.arrived.erase conn ++ nd.connQueue) := List.perm_middle
    List.Perm _ (nd.arrived ++ nd.connQueue) := (List.perm_cons_erase hconn).symm.append_right _

theorem Inv.receive (h : Inv i nd) {conn : Nat} {id : Int} {rest : List Int}
    (hphase : nd.phase = .receiving conn) (hqueue : nd.recvQueue conn = id :: rest) :
    Inv i { nd with
      phase := .accepting
      recvQueue := update nd.recvQueue conn rest
      connections := insertNew nd.connections id conn } := by
  have hconn : conn ∈ nd.waiting := by simp [MemNode.waiting, hphase]
  obtain ⟨e, he, hlt, hnone⟩ := h.waiting conn hconn
  obtain rfl : id = e.other := h.message conn e he id (by simp [hqueue])
  rw [insertNew_of_notMem hnone]
  have hreached : nd.reached = nd.idToConnect := by simp [reached, hphase]
  have hold : nd.waiting = nd.arrived ++ nd.connQueue ++ [conn] := by
    simp [MemNode.waiting, hphase]
  have hnew : ({ nd with
      phase := .accepting
      recvQueue := update nd.recvQueue conn rest
      connections := nd.connections.insert e.other conn } : MemNode n).waiting =
      nd.arrived ++ nd.connQueue := by simp [MemNode.waiting]
  have hnodup := h.nodup
  rw [hold, List.nodup_append] at hnodup
  refine
    { lower := fun c x hx hxi => ⟨(h.lower c x hx hxi).1, hreached ▸ (h.lower c x hx hxi).2⟩
      upper := h.upper
      distinct := h.distinct
      clients := h.clients
      connected := ?_
      nodup := hnew ▸ hnodup.1
      waiting := ?_
      message := ?_
      silent := ?_
      count := ?_
      loop := nofun
      send := nofun
      done := fun _ => h.done (by simp [MemNode.lowerDone, hphase])
      full := nofun }
  · intro key c hc
    rcases lookup_insert_cases hc with ⟨rfl, rfl⟩ | hkept
    · exact ⟨e, he, rfl⟩
    · exact h.connected key c hkept
  · intro c hc
    rw [hnew] at hc
    obtain ⟨x, hx, hxi, hxnone⟩ := h.waiting c (hold ▸ List.mem_append_left _ hc)
    refine ⟨x, hx, hxi, ?_⟩
    rw [AList.mem_insert]
    rintro (heq | hmem)
    · have hsame : x.other = e.other := Fin.ext (by exact_mod_cast heq)
      have hcc := h.distinct c conn x e hx he hsame
      exact hnodup.2.2 c hc conn (List.mem_singleton_self conn) hcc
    · exact hxnone hmem
  · intro c x hx key hkey
    by_cases hc : c = conn
    · subst hc
      refine h.message c x hx key ?_
      rw [hqueue]
      exact List.mem_cons_of_mem _ (by simpa using hkey)
    · exact h.message c x hx key (by simpa [hc] using hkey)
  · intro c hc
    have hne : c ≠ conn := fun heq => ne_of_lookup hc (heq ▸ he) rfl
    show update nd.recvQueue conn _ c = []
    rw [update_of_ne hne]
    exact h.silent c hc
  · have hcount := h.count
    simp only [inProgress, hphase, hreached] at hcount
    simp only [keys_length_insert hnone, inProgress, reached]
    omega

theorem Inv.moved {nd' : MemNode n} (h : Inv i nd) (hm : Move nd nd') : Inv i nd' := by
  cases hm with
  | lowerDone hphase hid =>
      refine h.move rfl rfl rfl rfl (by simp [reached, hphase]) (by simp [MemNode.waiting, hphase])
        (by simp [inProgress, hphase]) nofun nofun (fun _ => ?_) nofun
      have := (h.loop hphase).1
      show nd.idToConnect = -1
      omega
  | accept hphase =>
      exact h.move rfl rfl rfl rfl (by simp [reached, hphase]) (by simp [MemNode.waiting, hphase])
        (by simp [inProgress, hphase]; omega) nofun nofun
        (fun _ => h.done (by simp [lowerDone, hphase])) nofun
  | dequeue conn rest hphase hqueue =>
      refine h.move rfl rfl rfl rfl (by simp [reached, hphase]) ?_ (by simp [inProgress, hphase])
        nofun nofun (fun _ => h.done (by simp [lowerDone, hphase])) nofun
      simp only [MemNode.waiting, hphase, hqueue, List.append_assoc, List.append_nil]
      exact (List.perm_append_singleton conn rest).append_left _
  | receive conn id rest hphase hqueue => exact h.receive hphase hqueue
  | finish hphase hfull =>
      exact h.move rfl rfl rfl rfl (by simp [reached, hphase]) (by simp [MemNode.waiting, hphase])
        (by simp [inProgress, hphase]) nofun nofun
        (fun _ => h.done (by simp [lowerDone, hphase])) (fun _ => hfull)

end MemNode

/-! ## The cluster -/

namespace Mesh

variable {n : Nat} {st st' : Mesh n} {i j : Fin n}

structure Inv (st : Mesh n) : Prop where
  node : ∀ i, (st.node i).Inv i
  paired : ∀ i c e, (st.node i).ends.lookup c = some e → ∃ e',
    (st.node e.other).ends.lookup e.peerConn = some e' ∧ e'.other = i ∧ e'.peerConn = c

theorem setNode_self (st : Mesh n) (i : Fin n) (nd : MemNode n) : (st.setNode i nd).node i = nd :=
  update_self ..

theorem setNode_ne (st : Mesh n) (nd : MemNode n) (h : j ≠ i) :
    (st.setNode i nd).node j = st.node j := update_of_ne h ..

/-- A connection between `i` and `j` is established. -/
def linked (st : Mesh n) (i j : Fin n) (client conn peerConn : Nat) : Mesh n :=
  (st.setNode i ((st.node i).connected j client conn peerConn)).setNode j
    ((st.node j).incoming i peerConn conn)

/-- The id of `i` is sent over a connection. -/
def told (st : Mesh n) (i : Fin n) (e : End n) : Mesh n :=
  (st.setNode e.other ((st.node e.other).deliver e.peerConn i)).setNode i
    { st.node i with
      idToConnect := (st.node i).idToConnect - 1
      phase := .connecting }

theorem setNode_ends {nd : MemNode n} (h : nd.ends = (st.node i).ends) (j : Fin n) :
    ((st.setNode i nd).node j).ends = (st.node j).ends := by
  by_cases hj : j = i
  · subst hj
    rw [setNode_self, h]
  · rw [setNode_ne st nd hj]

theorem Inv.setNode (hinv : Inv st) {nd : MemNode n} (hends : nd.ends = (st.node i).ends)
    (hnd : nd.Inv i) : Inv (st.setNode i nd) where
  node := by
    intro j
    by_cases hj : j = i
    · subst hj
      rw [setNode_self]
      exact hnd
    · rw [setNode_ne st nd hj]
      exact hinv.node j
  paired := by
    intro j c e he
    rw [setNode_ends hends] at he ⊢
    exact hinv.paired j c e he

theorem Inv.other_ne (hinv : Inv st) {c : Nat} {e : End n}
    (he : (st.node i).ends.lookup c = some e) : e.other ≠ i := by
  by_cases hlt : e.other < i
  · exact ne_of_lt hlt
  · exact ne_of_gt ((hinv.node i).upper c e he hlt).1

theorem Inv.connect (hinv : Inv st) {client conn peerConn : Nat}
    (hphase : (st.node i).phase = .connecting) (hj : (j : Int) = (st.node i).idToConnect)
    (hconn : conn ∉ (st.node i).ends) (hpeer : peerConn ∉ (st.node j).ends) :
    Inv (st.linked i j client conn peerConn) := by
  have hji : j < i := by
    have := ((hinv.node i).loop hphase).2
    rw [← hj] at this
    exact_mod_cast this
  have hreached : (st.node i).reached = j := by rw [MemNode.reached, hphase, hj]
  have hnone : ∀ c e, (st.node j).ends.lookup c = some e → e.other ≠ i := by
    rintro c e he rfl
    obtain ⟨e', he', hother, -⟩ := hinv.paired j c e he
    have hbelow := ((hinv.node e.other).lower _ e' he' (hother ▸ hji)).2
    rw [hreached, hother] at hbelow
    exact lt_irrefl _ hbelow
  have hi : (st.linked i j client conn peerConn).node i =
      (st.node i).connected j client conn peerConn := by
    rw [linked, setNode_ne _ _ (ne_of_gt hji), setNode_self]
  have hj' : (st.linked i j client conn peerConn).node j = (st.node j).incoming i peerConn conn :=
    setNode_self ..
  have hk' : ∀ k, k ≠ i → k ≠ j → (st.linked i j client conn peerConn).node k = st.node k := by
    intro k hki hkj
    rw [linked, setNode_ne _ _ hkj, setNode_ne _ _ hki]
  generalize st.linked i j client conn peerConn = st' at hi hj' hk' ⊢
  -- Nothing is lost, and the two new ends belong together.
  have hgrow : ∀ k c e, (st.node k).ends.lookup c = some e →
      (st'.node k).ends.lookup c = some e := by
    intro k c e he
    by_cases hki : k = i
    · subst hki
      rw [hi]
      exact (AList.lookup_insert_ne (ne_of_lookup hconn he)).trans he
    · by_cases hkj : k = j
      · subst hkj
        rw [hj']
        exact (AList.lookup_insert_ne (ne_of_lookup hpeer he)).trans he
      · rw [hk' k hki hkj]
        exact he
  have hnewi : (st'.node i).ends.lookup conn = some ⟨j, peerConn, .client client⟩ := by
    rw [hi]
    exact AList.lookup_insert _
  have hnewj : (st'.node j).ends.lookup peerConn = some ⟨i, conn, .server⟩ := by
    rw [hj']
    exact AList.lookup_insert _
  have hpaired : ∀ k c e, (st.node k).ends.lookup c = some e → ∃ e',
      (st'.node e.other).ends.lookup e.peerConn = some e' ∧ e'.other = k ∧ e'.peerConn = c := by
    intro k c e he
    obtain ⟨e', he', hback⟩ := hinv.paired k c e he
    exact ⟨e', hgrow _ _ _ he', hback⟩
  constructor
  · intro k
    by_cases hki : k = i
    · subst hki
      rw [hi]
      exact (hinv.node k).connect hphase hj hconn
    · by_cases hkj : k = j
      · subst hkj
        rw [hj']
        exact (hinv.node k).incoming hji hpeer hnone
      · rw [hk' k hki hkj]
        exact hinv.node k
  · intro k c e he
    by_cases hki : k = i
    · subst hki
      rw [hi] at he
      rcases lookup_insert_cases he with ⟨rfl, rfl⟩ | hold
      · exact ⟨_, hnewj, rfl, rfl⟩
      · exact hpaired k c e hold
    · by_cases hkj : k = j
      · subst hkj
        rw [hj'] at he
        rcases lookup_insert_cases he with ⟨rfl, rfl⟩ | hold
        · exact ⟨_, hnewi, rfl, rfl⟩
        · exact hpaired k c e hold
      · rw [hk' k hki hkj] at he
        exact hpaired k c e he

theorem Inv.send (hinv : Inv st) {conn : Nat} {e : End n}
    (hphase : (st.node i).phase = .sending conn) (he : (st.node i).ends.lookup conn = some e) :
    Inv (st.told i e) := by
  obtain ⟨e', he', hback, -⟩ := hinv.paired i conn e he
  have hdelivered : Inv (st.setNode e.other ((st.node e.other).deliver e.peerConn i)) := by
    refine hinv.setNode rfl ?_
    rw [← hback]
    exact (hinv.node e.other).deliver he'
  refine hdelivered.setNode ?_ ((hinv.node i).sent hphase)
  rw [setNode_ne _ _ (hinv.other_ne he).symm]

def Own : Action n → Prop
  | .send _ | .lowerDone _ | .accept _ | .dequeue _ | .receive _ | .finish _ => True
  | _ => False

theorem own_cases {a : Action n} (ha : Own a) (h : st.step a = some st') :
    (∃ i conn e, (st.node i).phase = .sending conn ∧ (st.node i).ends.lookup conn = some e ∧
      st' = st.told i e) ∨
    ∃ i nd, (st.node i).Move nd ∧ st' = st.setNode i nd := by
  cases a with
  | connect | connectFails | onConnection => exact absurd ha id
  | send i =>
      simp only [step] at h
      split at h
      case h_2 => cases h
      case h_1 conn hphase =>
        split at h
        case h_1 => cases h
        case h_2 e he => exact .inl ⟨i, conn, e, hphase, he, (Option.some.inj h).symm⟩
  | lowerDone i =>
      obtain ⟨⟨hphase, hid⟩, heq⟩ := Option.ite_none_right_eq_some.mp h
      exact .inr ⟨i, _, .lowerDone hphase hid, (Option.some.inj heq).symm⟩
  | accept i =>
      obtain ⟨⟨hphase, hshort⟩, heq⟩ := Option.ite_none_right_eq_some.mp h
      exact .inr ⟨i, _, .accept hphase hshort, (Option.some.inj heq).symm⟩
  | dequeue i =>
      simp only [step] at h
      split at h
      case h_2 => cases h
      case h_1 conn rest hphase hqueue =>
        exact .inr ⟨i, _, .dequeue conn rest hphase hqueue, (Option.some.inj h).symm⟩
  | receive i =>
      simp only [step] at h
      split at h
      case h_2 => cases h
      case h_1 conn hphase =>
        split at h
        case h_1 => cases h
        case h_2 sender rest hqueue =>
          exact .inr ⟨i, _, .receive conn sender rest hphase hqueue, (Option.some.inj h).symm⟩
  | finish i =>
      obtain ⟨⟨hphase, hfull⟩, heq⟩ := Option.ite_none_right_eq_some.mp h
      exact .inr ⟨i, _, .finish hphase (Nat.le_of_not_lt hfull), (Option.some.inj heq).symm⟩

theorem connect_cases {client conn peerConn : Nat} (hinv : Inv st)
    (h : st.connect i client conn peerConn = some st') :
    ∃ j : Fin n, (st.node i).phase = .connecting ∧ (j : Int) = (st.node i).idToConnect ∧ j ≠ i ∧
      conn ∉ (st.node i).ends ∧ peerConn ∉ (st.node j).ends ∧
      st' = st.linked i j client conn peerConn := by
  simp only [Mesh.connect] at h
  obtain ⟨⟨hphase, hid⟩, h⟩ := Option.ite_none_right_eq_some.mp h
  have hbound := ((hinv.node i).loop hphase).2
  split at h
  · omega
  · split at h
    case isFalse => cases h
    case isTrue hlt =>
      obtain ⟨⟨-, hconn, hpeer⟩, heq⟩ := Option.ite_none_right_eq_some.mp h
      have hj : ((⟨(st.node i).idToConnect.toNat, hlt⟩ : Fin n) : Int) = (st.node i).idToConnect :=
        Int.toNat_of_nonneg hid
      refine ⟨_, hphase, hj, ?_, hconn, hpeer, (Option.some.inj heq).symm⟩
      intro hji
      rw [hji] at hj
      omega

theorem step_inv {a : Action n} (hinv : Inv st) (h : st.step a = some st') : Inv st' := by
  cases a with
  | connect i client conn peerConn =>
      obtain ⟨j, hphase, hj, -, hconn, hpeer, rfl⟩ := connect_cases hinv h
      exact hinv.connect hphase hj hconn hpeer
  | connectFails i =>
      obtain ⟨⟨hphase, -⟩, heq⟩ := Option.ite_none_right_eq_some.mp h
      cases heq
      exact hinv.setNode rfl ((hinv.node i).connectFails hphase)
  | onConnection i conn =>
      obtain ⟨⟨hconn, -⟩, heq⟩ := Option.ite_none_right_eq_some.mp h
      cases heq
      exact hinv.setNode rfl ((hinv.node i).onConnection hconn)
  | send | lowerDone | accept | dequeue | receive | finish =>
      rcases own_cases (by trivial) h with ⟨i, conn, e, hphase, he, rfl⟩ | ⟨i, nd, hmove, rfl⟩
      · exact hinv.send hphase he
      · exact hinv.setNode (by cases hmove <;> rfl) ((hinv.node i).moved hmove)

theorem initial_inv (n : Nat) : Inv (initial n) :=
  ⟨MemNode.start_inv, fun i c e he => by simp [initial, MemNode.start] at he⟩

theorem card_others (i : Fin n) :
    ((Finset.univ.erase i).image fun j : Fin n => (j : Int)).card = n - 1 := by
  have hinj : Function.Injective fun j : Fin n => (j : Int) :=
    fun a b hab => Fin.ext (Int.ofNat.inj hab)
  rw [Finset.card_image_of_injective _ hinj, Finset.card_erase_of_mem (Finset.mem_univ i),
    Finset.card_univ, Fintype.card_fin]

theorem Inv.keys (hinv : Inv st) (hphase : (st.node i).phase = .returned 0) :
    (st.node i).connections.keys.toFinset =
      (Finset.univ.erase i).image fun j : Fin n => (j : Int) := by
  refine Finset.eq_of_subset_of_card_le ?_ ?_
  · intro id hid
    have hmem : id ∈ (st.node i).connections := AList.mem_keys.mpr (List.mem_toFinset.mp hid)
    obtain ⟨c, hc⟩ := Option.isSome_iff_exists.mp (AList.lookup_isSome.mpr hmem)
    obtain ⟨e, he, rfl⟩ := (hinv.node i).connected id c hc
    exact Finset.mem_image.mpr ⟨e.other,
      Finset.mem_erase.mpr ⟨hinv.other_ne he, Finset.mem_univ _⟩, rfl⟩
  · rw [card_others, List.toFinset_card_of_nodup (AList.keys_nodup _)]
    exact (hinv.node i).full hphase

/-- Whatever the order in which the connections come in, a server that has
returned 0 can reach every other one. -/
theorem connect_mesh_routes {st : Mesh n} (h : Reaches step anyAction (initial n) st) {i : Fin n}
    (hphase : (st.node i).phase = .returned 0) : Routed st i := by
  have hinv : Inv st := h.invariant (fun _ _ _ hinv _ hstep => step_inv hinv hstep) (initial_inv n)
  have hkeys := hinv.keys hphase
  have hmem : ∀ id : Int, id ∈ (st.node i).connections ↔ ∃ j : Fin n, j ≠ i ∧ (j : Int) = id := by
    intro id
    rw [AList.mem_keys, ← List.mem_toFinset, hkeys]
    simp
  constructor
  · intro id
    rw [hmem]
    constructor
    · rintro ⟨j, hj, rfl⟩
      have := j.isLt
      refine ⟨by omega, by omega, fun heq => hj (Fin.ext (by exact_mod_cast heq))⟩
    · rintro ⟨hlow, hhigh, hne⟩
      refine ⟨⟨id.toNat, by omega⟩, fun heq => hne ?_, Int.toNat_of_nonneg hlow⟩
      rw [← heq]
      exact (Int.toNat_of_nonneg hlow).symm
  · have hlen : (st.node i).connections.keys.length = n - 1 := by
      rw [← List.toFinset_card_of_nodup (AList.keys_nodup _), hkeys, card_others]
    have hcount := (hinv.node i).count
    have hdone := (hinv.node i).done (by simp [MemNode.lowerDone, hphase])
    simp only [MemNode.inProgress, MemNode.reached, hphase, hdone, hlen] at hcount
    have := i.isLt
    omega
  · intro j hj
    obtain ⟨c, hc⟩ := Option.isSome_iff_exists.mp
      (AList.lookup_isSome.mpr ((hmem j).mpr ⟨j, hj, rfl⟩))
    obtain ⟨e, he, hother⟩ := (hinv.node i).connected _ c hc
    obtain rfl : e.other = j := Fin.ext (by exact_mod_cast hother)
    obtain ⟨e', he', hback, hconn⟩ := hinv.paired i c e he
    refine ⟨c, e, e', hc, he, rfl, he', hback, hconn, ?_⟩
    unfold MemNode.getServer
    split
    · rename_i hlt
      obtain ⟨⟨k, howner, hk⟩, -⟩ := (hinv.node i).lower c e he (by exact_mod_cast hlt)
      rw [hk, howner]
      rfl
    · rename_i hnot
      rw [((hinv.node i).upper c e he fun hlt => hnot (by exact_mod_cast hlt)).2]

def threeServers : List (Action 3) :=
  [.connect 2 100 11 21, .send 2, .connect 2 101 12 22, .send 2, .lowerDone 2, .finish 2,
    .lowerDone 0, .accept 0, .connect 1 102 13 23, .onConnection 0 23, .dequeue 0, .send 1,
    .receive 0, .lowerDone 1, .accept 1, .onConnection 1 21, .dequeue 1, .receive 1, .finish 1,
    .accept 0, .onConnection 0 22, .dequeue 0, .receive 0, .finish 0]

theorem connect_mesh_routes_three :
    ∃ st, Reaches step anyAction (initial 3) st ∧
      ∀ i, (st.node i).phase = .returned 0 ∧ Routed st i := by
  have hrun : (run step (initial 3) threeServers).map (fun st => fun i => (st.node i).phase) =
      some fun _ => .returned 0 := by
    decide +kernel
  obtain ⟨st, hreach, hphases⟩ := reaches_of_map_run hrun
  exact ⟨st, hreach, fun i => ⟨congrFun hphases i, connect_mesh_routes hreach (congrFun hphases i)⟩⟩

end Mesh

end RdmaMigration.Coordinator
