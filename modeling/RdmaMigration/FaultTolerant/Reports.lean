import RdmaMigration.FaultTolerant.Partitions
import RdmaMigration.FaultTolerant.Records

/-! # Who reports a segment

A server reports the segments of its table that are in the state `Clean`, and a
segment that it has accepted is in that state from the start, before anything of
it has been transferred. Apart from such segments the list of a server names only
segments that it holds.
-/

namespace RdmaMigration.FaultTolerant.Partitions

open Lib Function Network Manager Coordinator FaultTolerant.System

/-! ## The cluster as a board -/

def transfers (ms : List RdmaMessage) : List Nat :=
  (ms.filter fun m => m.messageType = .transfer).map fun m => m.regionInfo.addr

def board (st : State) : Board :=
  { table := fun i addr => (roster (st.server i)).table.lookup addr
    card := fun i p => (roster (st.server i)).cards[p]?
    flying := fun s d => transfers (st.wire s d)
    log := st.log }

theorem transfers_append (ms ms' : List RdmaMessage) :
    transfers (ms ++ ms') = transfers ms ++ transfers ms' := by
  simp [transfers]

theorem transfers_of_ne {m : RdmaMessage} (h : m.messageType ≠ .transfer) (ms : List RdmaMessage) :
    transfers (m :: ms) = transfers ms := by
  simp [transfers, h]

theorem transfers_cons {m : RdmaMessage} (h : m.messageType = .transfer) (ms : List RdmaMessage) :
    transfers (m :: ms) = m.regionInfo.addr :: transfers ms := by
  simp [transfers, h]

section Rosters

variable {st : State} {i : Int} {s : Server} {addr p : Nat} {c : Card}

theorem table_same (h : roster s = roster (st.server i)) :
    (board (st.setServer i s)).table = (board st).table := by
  funext j a
  by_cases hj : j = i
  · subst hj
    simp [board, State.setServer, h]
  · simp [board, State.setServer, hj]

theorem card_same (h : roster s = roster (st.server i)) :
    (board (st.setServer i s)).card = (board st).card := by
  funext j q
  by_cases hj : j = i
  · subst hj
    simp [board, State.setServer, h]
  · simp [board, State.setServer, hj]

theorem table_enter (h : roster s = (roster (st.server i)).enter addr c) :
    (board (st.setServer i s)).table =
      update₂ (board st).table i addr (some (roster (st.server i)).cards.length) := by
  funext j a
  by_cases hj : j = i
  · subst hj
    by_cases ha : a = addr
    · subst ha
      simp [board, State.setServer, h, Roster.enter]
    · simp [board, State.setServer, h, Roster.enter, update₂, ha, AList.lookup_insert_ne]
  · simp [board, State.setServer, hj, update₂]

theorem card_enter (h : roster s = (roster (st.server i)).enter addr c) :
    (board (st.setServer i s)).card =
      update₂ (board st).card i (roster (st.server i)).cards.length (some c) := by
  funext j q
  by_cases hj : j = i
  · subst hj
    by_cases hq : q = (roster (st.server j)).cards.length
    · subst hq
      simp [board, State.setServer, h, Roster.enter]
    · simp only [board, State.setServer, update_self, h, Roster.enter, update₂, hq,
        and_false, if_false]
      rw [List.getElem?_append]
      split
      · rfl
      · rw [List.getElem?_eq_none (by simp; omega), List.getElem?_eq_none (by omega)]
  · simp [board, State.setServer, hj, update₂]

theorem table_modify {f : Card → Card} (h : roster s = (roster (st.server i)).modify p f) :
    (board (st.setServer i s)).table = (board st).table := by
  funext j a
  by_cases hj : j = i
  · subst hj
    simp [board, State.setServer, h, Roster.modify]
  · simp [board, State.setServer, hj]

theorem card_modify {f : Card → Card} (h : roster s = (roster (st.server i)).modify p f)
    (hc : (board st).card i p = some c) :
    (board (st.setServer i s)).card = update₂ (board st).card i p (some (f c)) := by
  funext j q
  by_cases hj : j = i
  · subst hj
    have hold : (roster (st.server j)).cards[p]? = some c := hc
    by_cases hq : q = p
    · subst hq
      simp [board, State.setServer, h, Roster.modify, hold]
    · have hne : p ≠ q := fun heq => hq heq.symm
      simp [board, State.setServer, h, Roster.modify, update₂, hq, hne]
  · simp [board, State.setServer, hj, update₂]

theorem table_erase (h : roster s = (roster (st.server i)).erase addr) :
    (board (st.setServer i s)).table = update₂ (board st).table i addr none := by
  funext j a
  by_cases hj : j = i
  · subst hj
    by_cases ha : a = addr
    · subst ha
      simp [board, State.setServer, h, Roster.erase]
    · simp [board, State.setServer, h, Roster.erase, update₂, ha, AList.lookup_erase_ne]
  · simp [board, State.setServer, hj, update₂]

end Rosters

/-! ## What the callers keep to -/

def NotAwaited (st : State) (i : Int) (addr : Option Nat) : Prop :=
  ∀ a ∈ addr, ∀ p ∈ (st.server i).localSegments.lookup a, awaiting i p st.log = false

instance (st : State) (i : Int) (addr : Option Nat) : Decidable (NotAwaited st i addr) :=
  inferInstanceAs (Decidable (∀ a ∈ addr, _))

/-- An id is allocated only while no server has a segment with it; a segment is
transferred only by its owner, who does not wait for it, to a server that does;
it is closed only by its owner; and no segment is deallocated that the server has
accepted and not received. -/
def Disciplined (n : Nat) (st : State) : Action → Prop
  | .allocate _ _ id _ _ =>
      ∀ j ∈ servers n, ∀ e ∈ (st.server j).localSegments.entries,
        ∀ memory ∈ (st.server j).heap[e.2]?, memory.applicationId ≠ id
  | .transfer s addr _ d =>
      ∀ r ∈ st.record s addr, r.2.owner = s ∧ awaiting s r.1 st.log = false ∧
        ∃ r' ∈ st.record d addr, awaiting d r'.1 st.log = true ∧
          r'.2.applicationId = r.2.applicationId
  | .close d addr _ _ _ => ∀ r ∈ st.record d addr, r.2.owner = d
  | .deallocate i id others => NotAwaited st i (recordedAddress ⟨st.zk, others, false⟩ id)
  | .pollForClose i _ others =>
      ∀ id ∈ closedId (st.server i), NotAwaited st i (recordedAddress ⟨st.zk, others, false⟩ id)
  | .prepare _ _ _ _ | .poll _ _ _ _ | .pollForAccept _ | .pollForTransfer _ => True

instance (n : Nat) (st : State) (act : Action) : Decidable (Disciplined n st act) := by
  cases act <;> (unfold Disciplined; infer_instance)

/-! ## The steps -/

structure Inv (n : Nat) (st : State) : Prop where
  ids : ∀ i, (st.server i).serverId = i
  board : Board.Inv n (board st)

theorem initial_inv (n : Nat) : Inv n (System.initial n) := by
  refine ⟨fun _ => rfl, ?_⟩
  have hboard : board (System.initial n) = Board.initial := by
    apply Board.ext
    · funext i addr
      simp [board, System.initial, Server.construct, roster, Board.initial]
    · rfl
    · rfl
    · rfl
  rw [hboard]
  exact Board.initial_inv n

section Steps

variable {paging : Bool} {n : Nat} {st st' : State} {i : Int} {s : Server}
  {reply : Option RdmaMessage}

theorem Inv.ids_of (h : Inv n st) (hid : (roster s).serverId = (roster (st.server i)).serverId) :
    ∀ j, ((st.setServer i s).server j).serverId = j := by
  intro j
  by_cases hj : j = i
  · subst hj
    simp only [State.setServer, update_self]
    exact hid.trans (h.ids j)
  · simp only [State.setServer, update_of_ne hj]
    exact h.ids j

variable {addr size : Nat} {others : List (Store → Store)} {d : Int}

theorem record_eq {p : Nat} {memory : RDMAMemory} :
    st.record i addr = some (p, memory) ↔
      (st.server i).localSegments.lookup addr = some p ∧ (st.server i).heap[p]? = some memory := by
  unfold State.record
  cases hlookup : (st.server i).localSegments.lookup addr with
  | none => simp
  | some q =>
      cases hheap : (st.server i).heap[q]? with
      | none =>
          simp only [Option.bind_some, hheap, Option.map_none, reduceCtorEq, false_iff, not_and]
          rintro heq
          cases heq
          simp [hheap]
      | some memory' =>
          simp only [Option.bind_some, hheap, Option.map_some, Option.some.injEq, Prod.mk.injEq]
          constructor
          · rintro ⟨rfl, rfl⟩
            exact ⟨rfl, hheap⟩
          · rintro ⟨rfl, hmemory⟩
            exact ⟨rfl, Option.some.inj (hheap.symm.trans hmemory)⟩

theorem Inv.same (h : Inv n st) (hserver : st'.server = (st.setServer i s).server)
    (hroster : roster s = roster (st.server i))
    (hflying : ∀ s d, transfers (st'.wire s d) = transfers (st.wire s d))
    (hlog : st'.log = st.log) : Inv n st' := by
  have hboard : Partitions.board st' = Partitions.board st := by
    apply Board.ext
    · funext j a
      rw [← congrFun (congrFun (table_same hroster) j) a]
      simp [Partitions.board, hserver]
    · funext j q
      rw [← congrFun (congrFun (card_same hroster) j) q]
      simp [Partitions.board, hserver]
    · funext s d
      exact hflying s d
    · exact hlog
  refine ⟨?_, hboard ▸ h.board⟩
  rw [hserver]
  exact h.ids_of (congrArg Roster.serverId hroster)

theorem transfers_post (hreply : ∀ m ∈ reply, m.messageType ≠ .transfer) :
    transfers reply.toList = [] := by
  cases reply with
  | none => rfl
  | some m => exact transfers_of_ne (hreply m rfl) []

theorem flying_post (wire : Int → Int → List RdmaMessage) {s d : Int}
    (hreply : ∀ m ∈ reply, m.messageType ≠ .transfer) (s' d' : Int) :
    transfers (update₂ wire s d (wire s d ++ reply.toList) s' d') = transfers (wire s' d') := by
  by_cases h : (s', d') = (s, d)
  · cases h
    rw [update₂_self, transfers_append, transfers_post hreply, List.append_nil]
  · rw [update₂_ne _ _ h]

theorem allocateStep_inv {id : Int} {mapped : Option Nat} (h : Inv n st) (hi : i ∈ servers n)
    (hfresh : MapsFresh (st.server i) size mapped)
    (hok : Disciplined n st (.allocate i size id mapped others))
    (hstep : allocateStep paging st i size id mapped others = some st') : Inv n st' := by
  obtain ⟨⟨⟨s, result⟩, t⟩, hcall, hret⟩ := Option.bind_eq_some_iff.mp hstep
  rcases allocate_roster (call_eq_some hcall) with ⟨rfl, hsame⟩ | ⟨res, rfl, hsome, henter⟩
  · cases hret
    exact h.same rfl hsame (fun _ _ => rfl) rfl
  · obtain ⟨addr, rfl⟩ := Option.isSome_iff_exists.mp hsome
    cases hret
    rw [h.ids i] at henter
    have hserverId : (roster s).serverId = (roster (st.server i)).serverId := by
      rw [henter]
      rfl
    refine ⟨h.ids_of hserverId, ?_⟩
    have hboard : board ({ st.setServer i s with zk := t.store }.note (some (.allocated i id))) =
        (board st).enter i res (roster (st.server i)).cards.length ⟨id, i, .clean⟩
          (.allocated i id) :=
      Board.ext (table_enter henter) (card_enter henter) rfl rfl
    have hid : ∀ j a q c, (board st).table j a = some q → (board st).card j q = some c →
        c.id ≠ id := by
      intro j a q c htable hcard
      obtain ⟨memory, hheap, rfl⟩ := heap_of_card hcard
      exact hok j (h.board.inside j a q htable) ⟨a, q⟩ (AList.mem_lookup_iff.mp htable) memory hheap
    have htable : (board st).table i res = none := (hfresh res rfl).2.2
    have hcard : (board st).card i (roster (st.server i)).cards.length = none := by simp [board]
    have hnew := h.board.allocate hi htable hcard hid
    rw [← hboard] at hnew
    exact hnew

theorem Inv.erased (h : Inv n st)
    (hserver : st'.server = (st.setServer i s).server) (hwire : st'.wire = st.wire)
    (hlog : st'.log = st.log) (herase : roster s = (roster (st.server i)).erase addr)
    (hsome : ((st.server i).localSegments.lookup addr).isSome)
    (hnot : NotAwaited st i (some addr)) : Inv n st' := by
  obtain ⟨p, hp⟩ := Option.isSome_iff_exists.mp hsome
  have hboard : Partitions.board st' = (Partitions.board st).erase i addr := by
    apply Board.ext
    · rw [Board.erase, ← table_erase herase]
      simp [Partitions.board, hserver]
    · funext j q
      have hcard : (Partitions.board (st.setServer i s)).card j q =
          (Partitions.board st).card j q := by
        by_cases hj : j = i
        · subst hj
          simp [Partitions.board, State.setServer, herase, Roster.erase]
        · simp [Partitions.board, State.setServer, hj]
      rw [Board.erase, ← hcard]
      simp [Partitions.board, hserver]
    · funext s d
      simp [Partitions.board, hwire, Board.erase]
    · exact hlog
  refine ⟨?_, ?_⟩
  · have hserverId : (roster s).serverId = (roster (st.server i)).serverId := by
      rw [herase]
      rfl
    rw [hserver]
    exact h.ids_of hserverId
  · rw [hboard]
    exact h.board.erase hp (hnot addr rfl p hp)

theorem deallocateStep_inv {id : Int} (h : Inv n st)
    (hok : Disciplined n st (.deallocate i id others))
    (hstep : deallocateStep st i id others = some st') : Inv n st' := by
  obtain ⟨⟨⟨s, removed⟩, t⟩, hcall, hret⟩ := Option.bind_eq_some_iff.mp hstep
  cases hret
  rcases deallocate_roster (call_eq_some hcall) with hsame | ⟨addr, hrecorded, hsome, herase⟩
  · exact h.same rfl hsame (fun _ _ => rfl) rfl
  · have hnot : NotAwaited st i (some addr) := hrecorded ▸ hok
    exact h.erased rfl rfl rfl herase hsome hnot

theorem pollForCloseStep_inv (h : Inv n st) (hok : Disciplined n st (.pollForClose i addr others))
    (hstep : pollForCloseStep st i addr others = some st') : Inv n st' := by
  obtain ⟨⟨⟨s, taken⟩, t⟩, hcall, hret⟩ := Option.bind_eq_some_iff.mp hstep
  have hafter : Inv n { st.setServer i s with zk := t.store } := by
    rcases pollForClose_roster (call_eq_some hcall) with
      hsame | ⟨id, a, hid, hrecorded, hsome, herase⟩
    · exact h.same rfl hsame (fun _ _ => rfl) rfl
    · have hnot : NotAwaited st i (some a) := hrecorded ▸ hok id hid
      exact h.erased rfl rfl rfl herase hsome hnot
  cases hret
  cases taken with
  | none => exact hafter
  | some r => exact ⟨hafter.ids, hafter.board.migrated⟩

theorem prepareStep_inv (h : Inv n st)
    (hstep : prepareStep paging st i addr size d = some st') : Inv n st' := by
  obtain ⟨⟨s, m⟩, hcall, hret⟩ := Option.bind_eq_some_iff.mp hstep
  cases hret
  obtain ⟨hsame, htype⟩ := prepare_roster (toOption_eq_some hcall)
  refine h.same rfl hsame (fun s' d' => ?_) rfl
  exact flying_post st.wire (by simp [htype]) s' d'

theorem closeStep_inv (h : Inv n st) (hok : Disciplined n st (.close i addr size d others))
    (hstep : closeStep paging st i addr size d others = some st') : Inv n st' := by
  obtain ⟨⟨⟨s, m⟩, t⟩, hcall, hret⟩ := Option.bind_eq_some_iff.mp hstep
  cases hret
  obtain ⟨p, hp, htype, hmodify⟩ := close_roster (call_eq_some hcall)
  obtain ⟨c, hc⟩ := Option.ne_none_iff_exists'.mp (h.board.points i addr p hp)
  obtain ⟨memory, hheap, rfl⟩ := heap_of_card hc
  have howner : (card memory).owner = i := hok (p, memory) (record_eq.mpr ⟨hp, hheap⟩)
  have hboard : board { (st.setServer i s).post i d (some m) with zk := t.store } =
      (board st).setCard i p { card memory with state := .clean } := by
    refine Board.ext (table_modify hmodify) (card_modify hmodify hc) ?_ rfl
    funext s' d'
    exact flying_post st.wire (by simp [htype]) s' d'
  have hserverId : (roster s).serverId = (roster (st.server i)).serverId := by
    rw [hmodify]
    rfl
  refine ⟨h.ids_of hserverId, ?_⟩
  rw [hboard]
  exact h.board.close hc howner

theorem transferStep_inv (h : Inv n st) (hid : i ≠ d)
    (hok : Disciplined n st (.transfer i addr size d))
    (hstep : transferStep paging st i addr size d = some st') : Inv n st' := by
  obtain ⟨⟨s, m⟩, hcall, hstep⟩ := Option.bind_eq_some_iff.mp hstep
  obtain ⟨⟨p, memory⟩, hrecord, hret⟩ := Option.bind_eq_some_iff.mp hstep
  cases hret
  obtain ⟨howner, hheld, ⟨q, memory'⟩, hrecord', hwaits, hsameId⟩ := hok (p, memory) hrecord
  obtain ⟨hp, hheap⟩ := record_eq.mp hrecord
  obtain ⟨hq, hheap'⟩ := record_eq.mp hrecord'
  obtain ⟨p', hp', htype, haddr, hmodify⟩ := transfer_roster (toOption_eq_some hcall)
  have hpp : p' = p := Option.some.inj (hp'.symm.trans hp)
  subst hpp
  have hc : (board st).card i p' = some (card memory) := card_of_heap hheap
  have hc' : (board st).card d q = some (card memory') := card_of_heap hheap'
  have hwaiting : ((st.server d).localSegments.lookup addr).getD (st.server d).heap.length = q := by
    rw [hq]
    rfl
  have hboard : board (((st.setServer i s).post i d (some m)).note (some (.transferred i
      memory.applicationId d (((st.server d).localSegments.lookup addr).getD
        (st.server d).heap.length)))) = (board st).give i d addr p' q (card memory) := by
    refine Board.ext (table_modify hmodify) (card_modify hmodify hc) ?_ ?_
    · funext s' d'
      by_cases hwire : (s', d') = (i, d)
      · cases hwire
        show transfers (update₂ st.wire i d (st.wire i d ++ [m]) i d) =
          update₂ (board st).flying i d ((board st).flying i d ++ [addr]) i d
        rw [update₂_self, update₂_self, transfers_append, transfers_cons htype, haddr]
        rfl
      · show transfers (update₂ st.wire i d (st.wire i d ++ [m]) s' d') =
          update₂ (board st).flying i d ((board st).flying i d ++ [addr]) s' d'
        rw [update₂_ne _ _ hwire, update₂_ne _ _ hwire]
        rfl
    · rw [hwaiting]
      rfl
  have hserverId : (roster s).serverId = (roster (st.server i)).serverId := by
    rw [hmodify]
    rfl
  refine ⟨h.ids_of hserverId, ?_⟩
  rw [hboard]
  exact h.board.give hid hp hc howner hheld hq hc' hwaits hsameId

theorem flying_poll (st : State) (rest : List RdmaMessage) (s d : Int)
    (hreply : ∀ m ∈ reply, m.messageType ≠ .transfer) :
    (fun s' d' => transfers (update₂ (update₂ st.wire s d rest) d s
      (update₂ st.wire s d rest d s ++ reply.toList) s' d')) =
      update₂ (board st).flying s d (transfers rest) := by
  funext s' d'
  rw [flying_post _ hreply]
  by_cases hwire : (s', d') = (s, d)
  · cases hwire
    rw [update₂_self, update₂_self]
  · rw [update₂_ne _ _ hwire, update₂_ne _ _ hwire]
    rfl

theorem pollStep_inv {mapped : Option Nat} (h : Inv n st)
    (hd : d ∈ servers n) (hstep : pollStep paging st d i mapped others = some st') : Inv n st' := by
  obtain ⟨m, rest, s, reply, t, hwire, hfresh, hhandle, rfl⟩ := pollStep_cases hstep
  obtain ⟨hreply, hcases⟩ := handle_roster hhandle
  have hflying := flying_poll st rest i d hreply
  have hrest : m.messageType ≠ .transfer →
      update₂ (board st).flying i d (transfers rest) = (board st).flying := by
    intro hm
    have hsame : transfers rest = (board st).flying i d := by
      show transfers rest = transfers (st.wire i d)
      rw [hwire, transfers_of_ne hm]
    rw [hsame, update₂_eq_self]
  rcases hcases with ⟨hprepare, haccept, res, rfl, henter⟩ | ⟨htransfer, q, hq, hmodify⟩ |
    ⟨hm, hsame, hdeclined⟩
  · have hnew : roster s = (roster (st.server d)).enter res ⟨atol (cStr m.data), d, .clean⟩ := by
      have hserver : (st.server d).serverId = d := h.ids d
      rw [henter]
      simp [Server.setConnection, hserver, roster]
    have hm : m.messageType ≠ .transfer := by
      intro heq
      rw [getMessageType_transfer.mpr heq] at hprepare
      cases hprepare
    have hlength : (st.server d).heap.length = (roster (st.server d)).cards.length := by
      simp [roster]
    have hevent : handledEvent st d m reply =
        some (.accepted d (roster (st.server d)).cards.length) := by
      simp only [handledEvent, hprepare]
      rw [if_pos haccept, hlength]
    have hserverId : (roster s).serverId = (roster (st.server d)).serverId := by
      rw [hnew]
      rfl
    rw [hevent]
    refine ⟨h.ids_of hserverId, ?_⟩
    have hcard : (board st).card d (roster (st.server d)).cards.length = none := by simp [board]
    have hboard : Board.Inv n ((board st).enter d res (roster (st.server d)).cards.length
        ⟨atol (cStr m.data), d, .clean⟩ (.accepted d (roster (st.server d)).cards.length)) :=
      h.board.accept hd (hfresh hprepare res rfl).2.2 hcard
    convert hboard using 1
    exact Board.ext (table_enter hnew) (card_enter hnew) (hflying.trans (hrest hm)) rfl
  · obtain ⟨c, hc⟩ := Option.ne_none_iff_exists'.mp (h.board.points d m.regionInfo.addr q hq)
    obtain ⟨memory, hheap, rfl⟩ := heap_of_card hc
    have hevent : handledEvent st d m reply = some (.received d memory.applicationId q) := by
      simp only [handledEvent, getMessageType_transfer.mpr htransfer]
      rw [record_eq.mpr ⟨hq, hheap⟩]
      rfl
    have hmodified : roster s = (roster (st.server d)).modify q fun c =>
        { c with state := receivedState paging } := hmodify
    have hserverId : (roster s).serverId = (roster (st.server d)).serverId := by
      rw [hmodified]
      rfl
    have hhead : (board st).flying i d = m.regionInfo.addr :: transfers rest := by
      show transfers (st.wire i d) = m.regionInfo.addr :: transfers rest
      rw [hwire, transfers_cons htransfer]
    rw [hevent]
    refine ⟨h.ids_of hserverId, ?_⟩
    have hboard : Board.Inv n ((board st).receive i d (transfers rest) q (card memory)
        (receivedState paging)) := h.board.receive hhead hq hc
    convert hboard using 1
    exact Board.ext (table_modify hmodified) (card_modify hmodified hc) hflying rfl
  · have hevent : handledEvent st d m reply = none := by
      unfold handledEvent
      split
      · rename_i hprepare
        exact if_neg (hdeclined hprepare)
      · rename_i htransfer
        exact absurd (getMessageType_transfer.mp htransfer) hm
      · rfl
    rw [hevent]
    refine h.same rfl hsame (fun s' d' => ?_) rfl
    have hwires := congrFun (congrFun hflying s') d'
    rw [hrest hm] at hwires
    exact hwires

theorem step_inv {act : Action} (h : Inv n st) (hok : Disciplined n st act)
    (hstep : step paging n st act = some st') : Inv n st' := by
  cases act with
  | allocate i size id mapped others =>
      obtain ⟨⟨hi, hfresh⟩, hstep⟩ := Option.ite_none_right_eq_some.mp hstep
      exact allocateStep_inv h hi hfresh hok hstep
  | deallocate i id others =>
      exact deallocateStep_inv h hok (Option.ite_none_right_eq_some.mp hstep).2
  | prepare s addr size d => exact prepareStep_inv h (Option.ite_none_right_eq_some.mp hstep).2
  | transfer s addr size d =>
      obtain ⟨⟨-, -, hsd⟩, hstep⟩ := Option.ite_none_right_eq_some.mp hstep
      exact transferStep_inv h hsd hok hstep
  | close d addr size s others =>
      exact closeStep_inv h hok (Option.ite_none_right_eq_some.mp hstep).2
  | poll d s mapped others =>
      obtain ⟨⟨hd, -⟩, hstep⟩ := Option.ite_none_right_eq_some.mp hstep
      exact pollStep_inv h hd hstep
  | pollForAccept i =>
      obtain ⟨⟨s, p⟩, hpoll, hret⟩ := Option.bind_eq_some_iff.mp hstep
      cases hret
      unfold Server.pollForAccept at hpoll
      split at hpoll <;> cases hpoll
      exact h.same rfl rfl (fun _ _ => rfl) rfl
  | pollForTransfer i =>
      obtain ⟨⟨s, p⟩, hpoll, hret⟩ := Option.bind_eq_some_iff.mp hstep
      cases hret
      unfold Server.pollForTransfer at hpoll
      split at hpoll <;> cases hpoll
      exact h.same rfl rfl (fun _ _ => rfl) rfl
  | pollForClose i addr others =>
      exact pollForCloseStep_inv h hok (Option.ite_none_right_eq_some.mp hstep).2

end Steps

/-! ## Reports -/

def NoneAwaited (st : State) (i : Int) : Prop :=
  ∀ e ∈ (st.server i).localSegments.entries, awaiting i e.2 st.log = false

instance (st : State) (i : Int) : Decidable (NoneAwaited st i) :=
  inferInstanceAs (Decidable (∀ e ∈ _, _))

theorem mem_getLocalSegmentsList {s : Server} {id : Int} (h : id ∈ getLocalSegmentsList s) :
    ∃ e ∈ s.localSegments.entries, ∃ memory, s.heap[e.2]? = some memory ∧
      memory.state = .clean ∧ memory.applicationId = id := by
  obtain ⟨e, he, hid⟩ := List.mem_filterMap.mp h
  obtain ⟨memory, hheap, hid⟩ := Option.bind_eq_some_iff.mp hid
  obtain ⟨hclean, heq⟩ := Option.ite_none_right_eq_some.mp hid
  exact ⟨e, he, memory, hheap, hclean, Option.some.inj heq⟩

/-- A reported segment that the server does not wait for is one it has the claim
to. -/
theorem Inv.reported {n : Nat} {st : State} {i id : Int} (h : Inv n st) (hnone : NoneAwaited st i)
    (hid : id ∈ getLocalSegmentsList (st.server i)) :
    holds i id st.log = true ∧ ∃ p, (Partitions.board st).Claim i p id := by
  obtain ⟨⟨addr, p⟩, he, memory, hheap, hclean, rfl⟩ := mem_getLocalSegmentsList hid
  have htable : (Partitions.board st).table i addr = some p := AList.mem_lookup_iff.mpr he
  have hcard : (Partitions.board st).card i p = some (card memory) := card_of_heap hheap
  have howner : (card memory).owner = i := h.board.clean i p _ hcard hclean
  have hnot : awaiting i p st.log = false := hnone ⟨addr, p⟩ he
  exact ⟨h.board.legit i addr p _ htable hcard hnot howner,
    p, ⟨addr, htable⟩, card memory, hcard, rfl, .inl ⟨hnot, howner⟩⟩

/-- Servers that wait for no segment report only what they hold, no two of them
the same id, and answer `MSG_GET_PARTITIONS` with what they report. -/
theorem reported_segments_held {paging : Bool} {n : Nat} {st : State}
    (hreach : Reaches (step paging n) (Disciplined n) (System.initial n) st) :
    (∀ i id, NoneAwaited st i → id ∈ getLocalSegmentsList (st.server i) →
      holds i id st.log = true) ∧
    (∀ i j id, NoneAwaited st i → NoneAwaited st j →
      id ∈ getLocalSegmentsList (st.server i) → id ∈ getLocalSegmentsList (st.server j) → i = j) ∧
    ∀ i remote m source mapped z, m.messageType = .getPartitions →
      ∃ reply, handle paging (st.server i) remote m source mapped z =
          .ok ((st.server i, some reply), z) ∧
        ((∀ id ∈ getLocalSegmentsList (st.server i), -2 ^ 63 ≤ id ∧ id < 2 ^ 63) →
          zsToProcessList reply.data = some (getLocalSegmentsList (st.server i))) := by
  have hinv : Inv n st := hreach.invariant (fun _ _ _ h hok => step_inv h hok) (initial_inv n)
  refine ⟨?_, ?_, ?_⟩
  · intro i id hnone hid
    exact (hinv.reported hnone hid).1
  · intro i j id hi hj hidi hidj
    obtain ⟨-, p, hp⟩ := hinv.reported hi hidi
    obtain ⟨-, q, hq⟩ := hinv.reported hj hidj
    exact (hinv.board.unique i j p q id hp hq).1
  · intro i remote m source mapped z hm
    refine ⟨partitionsReply (st.server i), ?_, zsToProcessList_processListToZs⟩
    simp only [handle, hm, getMessageType]
    rfl

/-- A whole migration but for the source's `PollForClose`. -/
theorem reported_segments_held_after_migration :
    ∃ st, Reaches (step false 2) (Disciplined 2) (System.initial 2) st ∧ NoneAwaited st 1 ∧
      getLocalSegmentsList (st.server 1) = [7] ∧ holds 1 7 st.log = true := by
  have hrun : (checkedRun (step false 2) (Disciplined 2) (System.initial 2)
      oneMigration.dropLast).map (fun st =>
        (decide (NoneAwaited st 1), getLocalSegmentsList (st.server 1))) = some (true, [7]) := by
    decide +kernel
  obtain ⟨st, hreach, hpair⟩ := reaches_of_map_checkedRun hrun
  simp only [Prod.mk.injEq, decide_eq_true_eq] at hpair
  obtain ⟨hnone, hlist⟩ := hpair
  have hmem : 7 ∈ getLocalSegmentsList (st.server 1) := by simp [hlist]
  exact ⟨st, hreach, hnone, hlist, (reported_segments_held hreach).1 1 7 hnone hmem⟩

/-- As soon as the destination has accepted a segment both servers report it,
although nothing has been transferred. -/
theorem accepted_segment_reported_by_both :
    ∃ st, Reaches (step false 2) (Disciplined 2) (System.initial 2) st ∧
      getLocalSegmentsList (st.server 0) = [7] ∧ getLocalSegmentsList (st.server 1) = [7] ∧
      holds 0 7 st.log = true ∧ holds 1 7 st.log = false := by
  have hrun : (checkedRun (step false 2) (Disciplined 2) (System.initial 2)
      (oneMigration.take 3)).map (fun st => (getLocalSegmentsList (st.server 0),
        getLocalSegmentsList (st.server 1), holds 0 7 st.log, holds 1 7 st.log)) =
      some ([7], [7], true, false) := by
    decide +kernel
  obtain ⟨st, hreach, hresult⟩ := reaches_of_map_checkedRun hrun
  simp only [Prod.mk.injEq] at hresult
  exact ⟨st, hreach, hresult⟩

end RdmaMigration.FaultTolerant.Partitions
