import RdmaMigration.FaultTolerant.System

/-! # What the calls do to the segments of a server

The roster of a server is what its partition list is made from: the table of
segments, and of each record the id, the owner and the state.
-/

namespace RdmaMigration.FaultTolerant

open Lib Network Manager Coordinator

structure Card where
  id : Int
  owner : Int
  state : SegmentState
  deriving DecidableEq, Repr

def card (r : RDMAMemory) : Card := ⟨r.applicationId, r.owner, r.state⟩

structure Roster where
  serverId : Int
  table : AList fun _ : Nat => Nat
  cards : List Card

namespace Roster

def modify (r : Roster) (p : Nat) (f : Card → Card) : Roster :=
  { r with cards := r.cards.modify p f }

def enter (r : Roster) (addr : Nat) (c : Card) : Roster :=
  { r with table := r.table.insert addr r.cards.length, cards := r.cards ++ [c] }

def erase (r : Roster) (addr : Nat) : Roster := { r with table := r.table.erase addr }

end Roster

def roster (s : Server) : Roster := ⟨s.serverId, s.localSegments, s.heap.map card⟩

theorem card_of_heap {s : Server} {p : Nat} {memory : RDMAMemory} (h : s.heap[p]? = some memory) :
    (roster s).cards[p]? = some (card memory) := by
  simp [roster, h]

theorem heap_of_card {s : Server} {p : Nat} {c : Card} (h : (roster s).cards[p]? = some c) :
    ∃ memory, s.heap[p]? = some memory ∧ card memory = c := by
  have hmap : (s.heap[p]?).map card = some c := by simpa [roster] using h
  exact Option.map_eq_some_iff.mp hmap

section Updates

variable {paging : Bool} (s : Server)

theorem roster_modify {f : RDMAMemory → RDMAMemory} {g : Card → Card}
    (hfg : ∀ r, card (f r) = g (card r)) (p : Nat) :
    roster (s.modify p f) = (roster s).modify p g := by
  simp [roster, Roster.modify, Server.modify, map_modify hfg]

theorem roster_modify_eq {f : RDMAMemory → RDMAMemory} (hf : ∀ r, card (f r) = card r) (p : Nat) :
    roster (s.modify p f) = roster s := by
  simp [roster, Server.modify, map_modify_eq hf]

theorem roster_updatePair (addr : Nat) (id : Int) :
    roster (s.updatePair (build paging) addr id) = roster s := by
  unfold Server.updatePair Server.updateRecord
  split
  · refine roster_modify_eq s ?_ _
    intro r
    rfl
  · rfl

theorem roster_updateState {addr p : Nat} (h : s.localSegments.lookup addr = some p)
    (state : SegmentState) :
    roster (s.updateState (build paging) addr state) =
      (roster s).modify p fun c => { c with state := state } := by
  have htable : (s.table (build paging)).lookup addr = some p := h
  rw [Server.updateState, Server.updateRecord, htable]
  exact roster_modify s (fun _ => rfl) p

theorem roster_insertRecord (addr : Nat) (r : RDMAMemory) :
    roster (s.insertRecord (build paging) addr r) = (roster s).enter addr (card r) := by
  simp [Server.insertRecord, Server.setTable, Server.table, roster, Roster.enter]

end Updates

/-! ## The calls without ZooKeeper -/

section Calls

variable {paging : Bool} {s s' : Server} {m : RdmaMessage} {addr size : Nat} {peer : Int}

theorem prepare_roster {clientId : RDMAMemory → List Char}
    (h : s.prepare (build paging) addr size peer clientId = .ok (s', m)) :
    roster s' = roster s ∧ m.messageType = .prepare := by
  obtain ⟨p, memory, key, -, -, rfl, rfl⟩ := Server.prepare_cases h
  exact ⟨roster_updatePair s addr peer, rfl⟩

theorem transfer_roster (h : s.transfer (build paging) addr size peer = .ok (s', m)) :
    ∃ p, s.localSegments.lookup addr = some p ∧ m.messageType = .transfer ∧
      m.regionInfo.addr = addr ∧
      roster s' = (roster s).modify p fun c => { c with owner := peer, state := .shared } := by
  obtain ⟨p, mr, hp, -, rfl, rfl⟩ := Server.transfer_cases h
  exact ⟨p, hp, rfl, rfl, roster_modify s (fun _ => rfl) p⟩

def receivedState (paging : Bool) : SegmentState := if paging then .shared else .clean

theorem receiveTransfer_roster {remote : Server}
    (h : s.receiveTransfer (build paging) remote addr size peer = .ok s') :
    ∃ p, s.localSegments.lookup addr = some p ∧
      roster s' = (roster s).modify p fun c => { c with state := receivedState paging } := by
  obtain ⟨p, bytes, hp, rfl, -⟩ := Server.receiveTransfer_cases h
  exact ⟨p, hp, roster_updateState { s with bytes := bytes } hp (receivedState paging)⟩

theorem plainClose_roster {p : Nat} (h : s.close (build paging) addr size peer = .ok (s', m))
    (hp : s.localSegments.lookup addr = some p) :
    m.messageType = .doneTransfer ∧
      roster s' = (roster s).modify p fun c => { c with state := .clean } := by
  obtain ⟨rfl, rfl⟩ := Server.close_cases h
  exact ⟨rfl, roster_updateState s hp .clean⟩

theorem answer_roster {mem : Option Nat}
    (h : s.answer (build paging) addr size peer mem = (s', m)) :
    roster s' = roster s ∧ m.messageType = mem.elim .decline fun _ => .accept := by
  cases mem with
  | none =>
      cases h
      exact ⟨rfl, rfl⟩
  | some res =>
      cases h
      exact ⟨roster_updatePair s res peer, rfl⟩

end Calls

/-! ## The calls that go through ZooKeeper -/

section ZkCalls

variable {paging : Bool} {s s' : Server} {m : RdmaMessage} {addr size : Nat} {id source : Int}
  {mapped : Option Nat} {z t : Session}

theorem constructed_card {owner : Int} {res : Nat} {r : RDMAMemory}
    (h : RDMAMemory.construct owner res size id = some r) : card r = ⟨id, owner, .clean⟩ := by
  obtain ⟨-, -, howner, hstate, -, hid⟩ := RDMAMemory.construct_eq h
  rw [card, howner, hstate, hid]

theorem allocate_roster {result : Option Nat}
    (h : allocate paging s size id mapped z = .ok ((s', result), t)) :
    (result = none ∧ roster s' = roster s) ∨
      ∃ res, mapped = some res ∧ result.isSome ∧
        roster s' = (roster s).enter res ⟨id, s.serverId, .clean⟩ := by
  rcases allocate_cases h with ⟨-, rfl, rfl⟩ | ⟨res, rfl, ⟨rfl, rfl⟩ | ⟨r, hr, rfl, rfl⟩⟩
  · exact .inl ⟨rfl, rfl⟩
  · exact .inl ⟨rfl, rfl⟩
  · refine .inr ⟨res, rfl, rfl, ?_⟩
    rw [roster_insertRecord, constructed_card hr]
    rfl

theorem accept_roster (h : accept paging s addr size source id mapped z = .ok ((s', m), t)) :
    (mapped = none ∧ roster s' = roster s ∧ m.messageType = .decline) ∨
      ∃ res, mapped = some res ∧ m.messageType = .accept ∧
        roster s' = (roster s).enter res ⟨id, s.serverId, .clean⟩ := by
  rcases accept_cases h with ⟨rfl, hanswer⟩ | ⟨res, r, rfl, hr, hanswer⟩
  · exact .inl ⟨rfl, answer_roster hanswer.symm⟩
  · obtain ⟨hsame, htype⟩ := answer_roster hanswer.symm
    refine .inr ⟨res, rfl, htype, hsame.trans ?_⟩
    rw [roster_insertRecord, constructed_card hr]
    rfl

theorem onAccept_roster (h : onAccept s addr z = .ok (s', t)) : roster s' = roster s := by
  obtain ⟨p, -, rfl⟩ := onAccept_cases h
  rfl

theorem close_roster (h : close paging s addr size source z = .ok ((s', m), t)) :
    ∃ p, s.localSegments.lookup addr = some p ∧ m.messageType = .doneTransfer ∧
      roster s' = (roster s).modify p fun c => { c with state := .clean } := by
  obtain ⟨p, hp, hclose⟩ := close_cases h
  exact ⟨p, hp, plainClose_roster hclose hp⟩

theorem getMessageType_transfer {type : MessageType} :
    getMessageType type = .transfer ↔ type = .transfer := by
  cases type <;> simp [getMessageType]

/-- What the poller does to the roster: a segment accepted, a segment received, or
nothing. It never answers with a transfer. -/
theorem handle_roster {remote : Server} {reply : Option RdmaMessage}
    (h : handle paging s remote m source mapped z = .ok ((s', reply), t)) :
    (∀ r ∈ reply, r.messageType ≠ .transfer) ∧
      ((getMessageType m.messageType = .prepare ∧
          reply.map RdmaMessage.messageType = some .accept ∧
          ∃ res, mapped = some res ∧
            roster s' = (roster s).enter res ⟨atol (cStr m.data), s.serverId, .clean⟩) ∨
        (m.messageType = .transfer ∧ ∃ p, s.localSegments.lookup m.regionInfo.addr = some p ∧
            roster s' = (roster s).modify p fun c => { c with state := receivedState paging }) ∨
        (m.messageType ≠ .transfer ∧ roster s' = roster s ∧
          (getMessageType m.messageType = .prepare →
            reply.map RdmaMessage.messageType ≠ some .accept))) := by
  have hne : getMessageType m.messageType ≠ .transfer → m.messageType ≠ .transfer :=
    mt getMessageType_transfer.mpr
  unfold handle at h
  cases htype : getMessageType m.messageType with
  | prepare =>
      simp only [htype] at h
      obtain ⟨⟨s₁, r⟩, z₁, haccept, h⟩ := Zk.bind_eq_ok.mp h
      cases Zk.pure_eq_ok.mp h
      rcases accept_roster haccept with ⟨-, hsame, hdecline⟩ | ⟨res, hres, haccepted, henter⟩
      · exact ⟨by simp [hdecline], .inr (.inr ⟨hne (by simp [htype]), hsame, by simp [hdecline]⟩)⟩
      · exact ⟨by simp [haccepted], .inl ⟨rfl, by simp [haccepted], res, hres, henter⟩⟩
  | accept =>
      simp only [htype] at h
      obtain ⟨s₁, z₁, haccept, h⟩ := Zk.bind_eq_ok.mp h
      cases Zk.pure_eq_ok.mp h
      exact ⟨by simp, .inr (.inr ⟨hne (by simp [htype]), onAccept_roster haccept, by simp⟩)⟩
  | decline =>
      simp only [htype] at h
      obtain ⟨s₁, z₁, hplain, h⟩ := Zk.bind_eq_ok.mp h
      obtain ⟨s₂, hderegister, heq⟩ := plain_eq_ok.mp hplain
      cases heq
      cases Zk.pure_eq_ok.mp h
      obtain rfl := Server.deregisterMemory_cases hderegister
      exact ⟨by simp, .inr (.inr ⟨hne (by simp [htype]), rfl, by simp⟩)⟩
  | transfer =>
      simp only [htype] at h
      obtain ⟨s₁, z₁, hplain, h⟩ := Zk.bind_eq_ok.mp h
      obtain ⟨s₂, hreceive, heq⟩ := plain_eq_ok.mp hplain
      cases heq
      cases Zk.pure_eq_ok.mp h
      exact ⟨by simp, .inr (.inl ⟨getMessageType_transfer.mp htype,
        receiveTransfer_roster hreceive⟩)⟩
  | done =>
      simp only [htype] at h
      obtain ⟨s₁, z₁, hplain, h⟩ := Zk.bind_eq_ok.mp h
      obtain ⟨s₂, hclose, heq⟩ := plain_eq_ok.mp hplain
      cases heq
      cases Zk.pure_eq_ok.mp h
      obtain ⟨p, -, rfl⟩ := Server.onClose_cases hclose
      exact ⟨by simp, .inr (.inr ⟨hne (by simp [htype]), rfl, by simp⟩)⟩
  | getPartitions =>
      simp only [htype] at h
      cases Zk.pure_eq_ok.mp h
      refine ⟨?_, .inr (.inr ⟨hne (by simp [htype]), rfl, by simp⟩)⟩
      simp [partitionsReply, RdmaMessage.cleared]
  | sentPartitions | user =>
      simp only [htype] at h
      cases Zk.pure_eq_ok.mp h
      exact ⟨by simp, .inr (.inr ⟨hne (by simp [htype]), rfl, by simp⟩)⟩

theorem deallocate_roster {removed : Bool} (h : deallocate s id z = .ok ((s', removed), t)) :
    roster s' = roster s ∨
      ∃ addr, recordedAddress z id = some addr ∧ (s.localSegments.lookup addr).isSome ∧
        roster s' = (roster s).erase addr := by
  obtain ⟨-, rfl | ⟨addr, size, hrecorded, hsome, rfl⟩⟩ := deallocate_cases h
  · exact .inl rfl
  · exact .inr ⟨addr, hrecorded, hsome, rfl⟩

def closedId (s : Server) : Option Int :=
  (s.incomingDones.head?.bind fun p => s.heap[p]?).map RDMAMemory.applicationId

theorem pollForClose_roster {taken : Option (RDMAMemory × Bool)}
    (h : pollForClose s addr z = .ok ((s', taken), t)) :
    roster s' = roster s ∨
      ∃ id addr, closedId s = some id ∧ recordedAddress z id = some addr ∧
        (s.localSegments.lookup addr).isSome ∧ roster s' = (roster s).erase addr := by
  rcases pollForClose_cases h with ⟨rfl, -, -⟩ | ⟨p, rest, memory, removed, hdones, hheap, -, -, h⟩
  · exact .inl rfl
  · have hid : closedId s = some memory.applicationId := by simp [closedId, hdones, hheap]
    rcases deallocate_roster h with hsame | ⟨addr, hrecorded, hsome, herase⟩
    · exact .inl hsame
    · exact .inr ⟨memory.applicationId, addr, hid, hrecorded, hsome, herase⟩

end ZkCalls

end RdmaMigration.FaultTolerant
