import RdmaMigration.Coordinator.Record
import RdmaMigration.FaultTolerant.Course
import RdmaMigration.Lib.Run

/-! # The process list of one server

The user threads of a server allocate and deallocate while its poller accepts, each
a request at a time, and other servers change every node but the list. A write of
the list fails when another thread has written it since it was read, and `accept`
and `deallocate` do not look at the result.
-/

namespace RdmaMigration.FaultTolerant.ProcessList

open Lib Function Network Manager Coordinator

structure Crew (κ : Type) where
  world : World
  thread : κ → Option (Steps Unit)
  phase : κ → Phase

inductive Action (κ : Type) where
  | start (k : κ) (op : Op)
  | serve (k : κ)
  | finish (k : κ)
  | others (zk : Store)

def records (s : Server) : List (Nat × Int) :=
  s.localSegments.entries.filterMap fun e =>
    (s.heap[e.2]?).map fun memory => (e.1, memory.applicationId)

def localIds (s : Server) : List Int :=
  s.localSegments.entries.filterMap fun e => (s.heap[e.2]?).map RDMAMemory.applicationId

namespace Crew

variable {κ : Type} [Fintype κ] [DecidableEq κ] (paging : Bool) (me : Int)

def initial (numServers : Nat) (zk : Store) : Crew κ :=
  { world := ⟨Server.construct numServers me, update zk (.process me) (some ⟨[], 0⟩)⟩
    thread := fun _ => none
    phase := fun _ => .free }

def goOn (st : Crew κ) (k : κ) (w : World) (next : Option (Steps Unit)) (φ : Phase) : Crew κ :=
  { world := w
    thread := update st.thread k next
    phase := update st.phase k φ }

/-- ZooKeeper answers every request, and refuses a write only for its version. -/
def step (st : Crew κ) : Action κ → Option (Crew κ)
  | .start k op =>
      match st.thread k with
      | none => some (st.goOn k st.world (some (op.script me)) op.phase)
      | some _ => none
  | .serve k =>
      match st.thread k with
      | some (Script.ask r next) =>
          let (answer, w) := FaultTolerant.serve paging .answered st.world r
          some (st.goOn k w (some (next answer)) (((st.phase k).after me r answer).getD .free))
      | _ => none
  | .finish k =>
      match st.thread k with
      | some (Script.ret _) | some (Script.throw _) => some (st.goOn k st.world none .free)
      | _ => none
  | .others zk =>
      if zk (.process me) = st.world.zk (.process me) then
        some { st with world := { st.world with zk := zk } }
      else none

def Current (st : Crew κ) (version : Option Nat) : Prop :=
  version ≠ none ∧ (st.world.zk (.process me)).map ZNode.version = version

instance (st : Crew κ) (version : Option Nat) : Decidable (st.Current me version) :=
  inferInstanceAs (Decidable (_ ∧ _))

/-- The id is not in the list, and the list with it fits into the buffer. -/
def Addable (st : Crew κ) (id : Int64) (data : List Char) : Prop :=
  id.toInt ∉ processList st.world.zk me ∧ data.length ≤ bufLen

instance (st : Crew κ) (id : Int64) (data : List Char) : Decidable (st.Addable me id data) :=
  inferInstanceAs (Decidable (_ ∧ _))

/-- The condition on a write of the list. A failed write of `allocate` is undone. -/
def OrderlyWrite (st : Crew κ) (data : List Char) (version : Option Nat) : Phase → Prop
  | .adding id _ => st.Current me version → st.Addable me id data
  | .listing id _ => st.Current me version ∧ st.Addable me id data
  | .removing _ id _ => st.Current me version ∧ id ∈ processList st.world.zk me
  | _ => True

def OrderlyMake (st : Crew κ) (addr size : Nat) (id : Int) : Phase → Prop
  | .entering _ => (RDMAMemory.construct st.world.server.serverId addr size id).isSome = true
  | _ => True

def OrderlyRequest (st : Crew κ) (k : κ) : Request → Prop
  | .enter addr size id =>
      st.world.server.localSegments.lookup addr = none ∧ st.OrderlyMake addr size id (st.phase k)
  | .set p data version => p = .process me → st.OrderlyWrite me data version (st.phase k)
  | .find addr => ∀ j, j ≠ k → (st.phase j).held ≠ some addr
  | _ => True

/-- Calls that do not get into each other's way: `accept` maps something, a record is
entered at an address that has none and, by `allocate`, with a constructor that does
not throw, `accept` and `deallocate` write the list under its current version, an id
is added to the list when it is not there and taken out when it is, the list fits
into the buffer, and no two calls deallocate one address. -/
def Orderly (st : Crew κ) : Action κ → Prop
  | .start _ (.accept _ _ _ _ mapped) => mapped ≠ none
  | .serve k =>
      match st.thread k with
      | some (Script.ask r _) => st.OrderlyRequest me k r
      | _ => True
  | _ => True

instance (st : Crew κ) (data : List Char) (version : Option Nat) (φ : Phase) :
    Decidable (st.OrderlyWrite me data version φ) := by
  unfold OrderlyWrite
  split <;> infer_instance

instance (st : Crew κ) (addr size : Nat) (id : Int) (φ : Phase) :
    Decidable (st.OrderlyMake addr size id φ) := by
  unfold OrderlyMake
  split <;> infer_instance

instance (st : Crew κ) (k : κ) (r : Request) : Decidable (st.OrderlyRequest me k r) := by
  unfold OrderlyRequest
  split <;> infer_instance

instance (st : Crew κ) (act : Action κ) : Decidable (st.Orderly me act) := by
  unfold Orderly
  split
  · infer_instance
  · split <;> infer_instance
  · infer_instance

end Crew

/-! ## What the requests do to the books -/

/-- The list holds `ids`, and `local_segments` points to records. -/
structure Sound (me : Int) (w : World) (n : ZNode) (ids : List Int) : Prop where
  node : w.zk (.process me) = some n
  text : n.data = processListToZs ids
  short : n.data.length ≤ bufLen
  range : ∀ id ∈ ids, -2 ^ 63 ≤ id ∧ id < 2 ^ 63
  pointers : ∀ e ∈ w.server.localSegments.entries, e.2 < w.server.heap.length

variable {paging : Bool} {me : Int} {w w' : World} {n : ZNode} {ids : List Int}

theorem processListToZs_null (ids : List Int) : ∀ c ∈ processListToZs ids, c ≠ Char.ofNat 0 := by
  rintro c hc rfl
  exact absurd (toNat_of_mem_processListToZs hc).1 (by decide)

theorem Sound.get (h : Sound me w n ids) : w.zk.get (.process me) = some n :=
  Store.get_of_short h.node h.short (h.text ▸ processListToZs_null ids)

theorem Sound.decoded (h : Sound me w n ids) : zsToProcessList n.data = some ids := by
  rw [h.text]
  exact zsToProcessList_processListToZs h.range

theorem Sound.processList (h : Sound me w n ids) : processList w.zk me = ids := by
  simp [Coordinator.processList, h.get, h.decoded]

structure Untouched (me : Int) (w w' : World) : Prop where
  node : w'.zk (.process me) = w.zk (.process me)
  table : w'.server.localSegments = w.server.localSegments
  heap : w'.server.heap.map RDMAMemory.applicationId = w.server.heap.map RDMAMemory.applicationId

theorem records_eq (s : Server) :
    records s = s.localSegments.entries.filterMap fun e =>
      ((s.heap.map RDMAMemory.applicationId)[e.2]?).map fun id => (e.1, id) := by
  refine List.filterMap_congr fun e _ => ?_
  rw [List.getElem?_map, Option.map_map]
  rfl

theorem Untouched.records (h : Untouched me w w') : records w'.server = records w.server := by
  rw [records_eq, records_eq, h.table, h.heap]

theorem Untouched.sound (h : Untouched me w w') (hs : Sound me w n ids) : Sound me w' n ids := by
  refine ⟨h.node.trans hs.node, hs.text, hs.short, hs.range, ?_⟩
  have hlength : w'.server.heap.length = w.server.heap.length := by
    simpa using congrArg List.length h.heap
  rw [h.table, hlength]
  exact hs.pointers

theorem untouched_attempt {write : Option Store} {fate : Fate}
    (h : ∀ z, write = some z → z (.process me) = w.zk (.process me)) :
    Untouched me w (w.attempt write fate).2 := by
  refine ⟨?_, rfl, rfl⟩
  rcases w.zk.attempt_cases write fate with hlost | ⟨z, ok, hwrite, -, hdone⟩
  · rw [World.attempt, hlost]
  · rw [World.attempt, hdone]
    exact h z hwrite

theorem untouched_reply (addr size : Nat) (source : Int) (mem : Option Nat) :
    Untouched me w (FaultTolerant.serve paging .answered w (.reply addr size source mem)).2 := by
  cases mem with
  | none => exact ⟨rfl, rfl, rfl⟩
  | some mem =>
      have hpair : (w.server.updatePair (build paging) mem source).localSegments =
          w.server.localSegments ∧
          (w.server.updatePair (build paging) mem source).heap.map RDMAMemory.applicationId =
            w.server.heap.map RDMAMemory.applicationId := by
        unfold Server.updatePair Server.updateRecord
        split
        · exact ⟨rfl, map_modify_eq (f := fun r : RDMAMemory => { r with pair := source })
            (fun _ => rfl) _ _⟩
        · exact ⟨rfl, rfl⟩
      exact ⟨rfl, hpair.1, hpair.2⟩

theorem serve_aside {r : Request} (h : Aside me r) :
    Untouched me w (FaultTolerant.serve paging .answered w r).2 := by
  cases r with
  | get p => exact ⟨rfl, rfl, rfl⟩
  | create p data =>
      refine untouched_attempt fun z hz => ?_
      rw [(Store.create_eq_some hz).2, update_of_ne (Ne.symm h)]
  | set p data version =>
      refine untouched_attempt fun z hz => ?_
      obtain ⟨v, -, hset⟩ := Option.bind_eq_some_iff.mp hz
      obtain ⟨n, -, -, rfl⟩ := Store.set_eq_some hset
      rw [update_of_ne (Ne.symm h)]
  | remove p version =>
      refine untouched_attempt fun z hz => ?_
      obtain ⟨v, -, hremove⟩ := Option.bind_eq_some_iff.mp hz
      obtain ⟨n, -, -, rfl⟩ := Store.remove_eq_some hremove
      rw [update_of_ne (Ne.symm h)]
  | mmap => exact ⟨rfl, rfl, rfl⟩
  | munmap => exact ⟨rfl, rfl, rfl⟩
  | reply addr size source mem => exact untouched_reply addr size source mem
  | enter => cases h
  | find => cases h
  | erase => cases h

/-! ## Records -/

theorem mem_records {s : Server} {addr : Nat} {id : Int} :
    (addr, id) ∈ records s ↔ findRecord s addr = some (some id) := by
  unfold records findRecord
  rw [List.mem_filterMap]
  constructor
  · rintro ⟨e, he, hid⟩
    obtain ⟨memory, hmemory, heq⟩ := Option.map_eq_some_iff.mp hid
    simp only [Prod.mk.injEq] at heq
    obtain ⟨rfl, rfl⟩ := heq
    have hlookup : s.localSegments.lookup e.1 = some e.2 := AList.mem_lookup_iff.mpr he
    simp [hlookup, hmemory]
  · intro hfound
    obtain ⟨p, hp, hmemory⟩ := Option.map_eq_some_iff.mp hfound
    refine ⟨⟨addr, p⟩, AList.mem_lookup_iff.mp hp, ?_⟩
    obtain ⟨memory, hm, hid⟩ := Option.map_eq_some_iff.mp hmemory
    simp [hm, hid]

theorem Sound.found (h : Sound me w n ids) {addr : Nat} (hfound : findRecord w.server addr ≠ none) :
    ∃ id, (addr, id) ∈ records w.server := by
  obtain ⟨record, hrecord⟩ := Option.ne_none_iff_exists'.mp hfound
  obtain ⟨p, hp, hmemory⟩ := Option.map_eq_some_iff.mp hrecord
  have hlt := h.pointers ⟨addr, p⟩ (AList.mem_lookup_iff.mp hp)
  refine ⟨(w.server.heap[p]).applicationId, mem_records.mpr ?_⟩
  simp [findRecord, hp, List.getElem?_eq_getElem hlt]

theorem not_mem_of_lookup {s : Server} {addr : Nat} (h : s.localSegments.lookup addr = none) :
    addr ∉ (records s).map Prod.fst := by
  intro hmem
  obtain ⟨⟨a, id⟩, hr, rfl⟩ := List.mem_map.mp hmem
  have hfound := mem_records.mp hr
  simp [findRecord, h] at hfound

theorem enter_records {s : Server} {addr : Nat} {r : RDMAMemory}
    (h : s.localSegments.lookup addr = none)
    (hpointers : ∀ e ∈ s.localSegments.entries, e.2 < s.heap.length) :
    records (s.insertRecord (build paging) addr r) = (addr, r.applicationId) :: records s ∧
      ∀ e ∈ (s.insertRecord (build paging) addr r).localSegments.entries,
        e.2 < (s.insertRecord (build paging) addr r).heap.length := by
  have hentries : (s.insertRecord (build paging) addr r).localSegments.entries =
      ⟨addr, s.heap.length⟩ :: s.localSegments.entries :=
    AList.entries_insert_of_notMem (AList.lookup_eq_none.mp h)
  have hheap : (s.insertRecord (build paging) addr r).heap = s.heap ++ [r] := rfl
  constructor
  · unfold records
    rw [hentries, hheap, List.filterMap_cons_some (b := (addr, r.applicationId)) (by simp)]
    congr 1
    refine List.filterMap_congr fun e he => ?_
    rw [List.getElem?_append_left (hpointers e he)]
  · rw [hentries, hheap, List.length_append, List.length_singleton]
    intro e he
    rcases List.mem_cons.mp he with rfl | hold
    · exact Nat.lt_succ_self _
    · exact Nat.lt_succ_of_lt (hpointers e hold)

def eraseSegment (s : Server) (addr : Nat) : Server :=
  { s with localSegments := s.localSegments.erase addr }

theorem erase_records {s : Server} {addr : Nat} {id : Int} (h : (addr, id) ∈ records s) :
    (records s).Perm ((addr, id) :: records (eraseSegment s addr)) := by
  obtain ⟨p, hp, hmemory⟩ := Option.map_eq_some_iff.mp (mem_records.mp h)
  have hkey : addr ∈ s.localSegments.entries.keys :=
    List.mem_keys_of_mem (AList.mem_lookup_iff.mp hp)
  obtain ⟨q, front, back, -, hentries, hrest⟩ := List.exists_of_kerase hkey
  have hq : q = p := by
    have hmem : (⟨addr, q⟩ : Sigma fun _ : Nat => Nat) ∈ s.localSegments.entries := by
      rw [hentries]
      simp
    exact Option.some.inj ((AList.mem_lookup_iff.mpr hmem).symm.trans hp)
  subst hq
  have herased : (eraseSegment s addr).localSegments.entries = front ++ back := hrest
  unfold records
  rw [herased, hentries, List.filterMap_append, List.filterMap_append,
    List.filterMap_cons_some (b := (addr, id)) (by
      obtain ⟨memory, hm, hid⟩ := Option.map_eq_some_iff.mp hmemory
      simp [hm, hid])]
  exact List.perm_middle

theorem mem_erase_entries {s : Server} {addr : Nat} {e : Sigma fun _ : Nat => Nat}
    (h : e ∈ (eraseSegment s addr).localSegments.entries) : e ∈ s.localSegments.entries :=
  (List.kerase_sublist addr s.localSegments.entries).subset h

theorem localIds_eq (s : Server) : localIds s = (records s).map Prod.snd := by
  unfold localIds records
  rw [List.map_filterMap]
  refine List.filterMap_congr fun e _ => ?_
  rw [Option.map_map]
  rfl

/-! ## The list -/

theorem processListToZs_append (ids : List Int) (id : Int) :
    processListToZs (ids ++ [id]) = processListToZs ids ++ decimalInt id ++ [','] := by
  simp [processListToZs]

theorem length_processListToZs_filter (ids : List Int) (p : Int → Bool) :
    (processListToZs (ids.filter p)).length ≤ (processListToZs ids).length := by
  induction ids with
  | nil => exact le_rfl
  | cons id ids ih =>
      have hcons : processListToZs (id :: ids) = (decimalInt id ++ [',']) ++ processListToZs ids :=
        List.flatMap_cons
      rw [hcons, List.length_append, List.filter_cons]
      split
      · have hkept : processListToZs (id :: ids.filter p) =
            (decimalInt id ++ [',']) ++ processListToZs (ids.filter p) := List.flatMap_cons
        rw [hkept, List.length_append]
        omega
      · omega

def withList (me : Int) (w : World) (n : ZNode) : World :=
  { w with zk := update w.zk (.process me) (some n) }

theorem Sound.write (h : Sound me w n ids) {ids' : List Int}
    (hshort : (processListToZs ids').length ≤ bufLen)
    (hrange : ∀ id ∈ ids', -2 ^ 63 ≤ id ∧ id < 2 ^ 63) :
    FaultTolerant.serve paging .answered w
        (.set (.process me) (processListToZs ids') (some n.version)) =
      (true, withList me w ⟨processListToZs ids', n.version + 1⟩) ∧
    Sound me (withList me w ⟨processListToZs ids', n.version + 1⟩)
      ⟨processListToZs ids', n.version + 1⟩ ids' := by
  constructor
  · have hset : w.zk.set (.process me) (processListToZs ids') n.version =
        some (update w.zk (.process me) (some ⟨processListToZs ids', n.version + 1⟩)) := by
      simp [Store.set, h.node]
    simp only [FaultTolerant.serve, World.attempt, Option.bind_some, hset]
    rfl
  · exact ⟨update_self .., rfl, hshort, hrange, h.pointers⟩

theorem Sound.refused (h : Sound me w n ids) {data : List Char} {version : Nat}
    (hversion : n.version ≠ version) :
    FaultTolerant.serve paging .answered w (.set (.process me) data (some version)) =
      (false, w) := by
  have hset : w.zk.set (.process me) data version = none := by
    simp [Store.set, h.node, hversion]
  simp only [FaultTolerant.serve, World.attempt, Option.bind_some, hset]
  rfl

/-! ## The invariant -/

namespace Crew

variable {κ : Type} [Fintype κ] [DecidableEq κ] {st st' : Crew κ} {k : κ} {φ : Phase}

def books (st : Crew κ) (n : ZNode) (ids : List Int) : Books κ :=
  ⟨n, ids, records st.world.server, st.phase⟩

def Settles (me : Int) (st : Crew κ) (k : κ) (w : World) (φ : Phase) : Prop :=
  ∃ n ids, Sound me w n ids ∧
    (Books.mk n ids (records w.server) (update st.phase k φ)).Balanced

theorem aside_settles {r : Request} (hs : Sound me st.world n ids)
    (hb : (st.books n ids).Balanced) (hr : Aside me r) (hφ : (st.phase k).goOn = some φ) :
    Settles me st k (FaultTolerant.serve paging .answered st.world r).2 φ := by
  have hsame : st.phase k = φ := by
    cases hphase : st.phase k <;> rw [hphase] at hφ <;> cases hφ <;> rfl
  have htouch := @serve_aside paging me st.world r hr
  refine ⟨n, ids, htouch.sound hs, ?_⟩
  rw [htouch.records, ← hsame, update_eq_self]
  exact hb

theorem move_settles (hs : Sound me st.world n ids) (hb : (st.books n ids).Balanced)
    (hunlisted : φ.unlisted = (st.phase k).unlisted)
    (hunrecorded : φ.unrecorded = (st.phase k).unrecorded) (hread : ∀ m, φ.read = some m → m = n)
    (hheld : ∀ addr, φ.held = some addr → (st.phase k).held = some addr ∨
      (∃ id, (addr, id) ∈ records st.world.server) ∧
        ∀ j, j ≠ k → (st.phase j).held ≠ some addr)
    (hnamed : ∀ r, φ.named = some r → (st.phase k).named = some r ∨
      r ∈ records st.world.server) : Settles me st k st.world φ :=
  ⟨n, ids, hs, hb.move hunlisted hunrecorded hread hheld hnamed⟩

theorem drop_settles (hs : Sound me st.world n ids) (hb : (st.books n ids).Balanced)
    (hk : (st.phase k).settled) : Settles me st k st.world .free :=
  move_settles hs hb hk.1.symm hk.2.symm (by rintro m ⟨⟩) (by rintro a ⟨⟩) (by rintro r ⟨⟩)

theorem get_settles (hs : Sound me st.world n ids) (hb : (st.books n ids).Balanced)
    (hφ : (st.phase k).readList (some n) = some φ) : Settles me st k st.world φ := by
  have hmove : φ.unlisted = (st.phase k).unlisted → φ.unrecorded = (st.phase k).unrecorded →
      φ.read = some n → φ.held = (st.phase k).held → φ.named = (st.phase k).named →
      Settles me st k st.world φ := fun hunlisted hunrecorded hread hheld hnamed =>
    move_settles hs hb hunlisted hunrecorded
      (fun m hm => Option.some.inj (hm.symm.trans hread))
      (fun _ h => .inl (hheld ▸ h)) fun _ h => .inl (hnamed ▸ h)
  cases hphase : st.phase k <;> rw [hphase] at hφ hmove <;> cases hφ
  case allocating id => exact hmove rfl rfl rfl rfl rfl
  case entered id => exact hmove rfl rfl rfl rfl rfl
  case naming addr id => exact hmove rfl rfl rfl rfl rfl

omit [Fintype κ] [DecidableEq κ] in
theorem current_iff (hs : Sound me st.world n ids) {version : Option Nat} :
    st.Current me version ↔ version = some n.version := by
  unfold Current
  rw [hs.node, Option.map_some]
  constructor
  · rintro ⟨-, rfl⟩
    rfl
  · rintro rfl
    exact ⟨by simp, rfl⟩

theorem append_settles (hs : Sound me st.world n ids) (hb : (st.books n ids).Balanced)
    {id : Int64} {data : List Char} (hdata : data = n.data ++ decimalInt id.toInt ++ [','])
    (hadd : st.Addable me id data) (hread : φ.read = none) (hheld : φ.held = none)
    (hnamed : φ.named = none) (hdebts : φ.unrecorded + (st.phase k).unlisted =
      {id.toInt} + φ.unlisted + (st.phase k).unrecorded) :
    ∃ w, FaultTolerant.serve paging .answered st.world
        (.set (.process me) data (some n.version)) = (true, w) ∧ Settles me st k w φ := by
  have htext : data = processListToZs (ids ++ [id.toInt]) := by
    rw [processListToZs_append, ← hs.text, hdata]
  have hrange : ∀ i ∈ ids ++ [id.toInt], -2 ^ 63 ≤ i ∧ i < 2 ^ 63 := by
    intro i hi
    rcases List.mem_append.mp hi with hold | hnew
    · exact hs.range i hold
    · rw [List.mem_singleton.mp hnew]
      exact ⟨id.le_toInt, id.toInt_lt⟩
  have hnew : id.toInt ∉ ids := hs.processList ▸ hadd.1
  obtain ⟨hserve, hsound⟩ := @Sound.write paging me st.world n ids hs _ (htext ▸ hadd.2) hrange
  rw [htext]
  exact ⟨_, hserve, _, _, hsound, hb.append hnew hread hheld hnamed hdebts⟩

theorem set_settles {data : List Char} {version : Option Nat} (hs : Sound me st.world n ids)
    (hb : (st.books n ids).Balanced) (horderly : st.OrderlyWrite me data version (st.phase k))
    (hφ : (st.phase k).writeList data version (FaultTolerant.serve paging .answered st.world
      (.set (.process me) data version)).1 = some φ) :
    Settles me st k (FaultTolerant.serve paging .answered st.world
      (.set (.process me) data version)).2 φ := by
  have hreads : ∀ m, (st.phase k).read = some m → m.version = n.version → m = n :=
    fun m hm => (hb.reads k m hm).2
  cases hphase : st.phase k
  case adding id m =>
    rw [hphase] at hφ horderly hreads
    simp only [Phase.writeList, Option.ite_none_right_eq_some] at hφ
    obtain ⟨⟨hdata, rfl⟩, hφ⟩ := hφ
    by_cases hm : m.version = n.version
    · obtain rfl : m = n := hreads m rfl hm
      obtain ⟨w, hserve, hsettles⟩ := @append_settles paging me m ids κ _ _ st k (.entering id)
        hs hb id data hdata (horderly ((current_iff hs).mpr rfl)) rfl rfl rfl (by rw [hphase]; rfl)
      rw [hserve] at hφ ⊢
      cases hφ
      exact hsettles
    · rw [hs.refused (Ne.symm hm)] at hφ ⊢
      cases hφ
      exact drop_settles hs hb (by rw [hphase]; exact ⟨rfl, rfl⟩)
  case listing id m =>
    rw [hphase] at hφ horderly hreads
    simp only [Phase.writeList, Option.ite_none_right_eq_some] at hφ
    obtain ⟨⟨hdata, rfl⟩, hφ⟩ := hφ
    obtain rfl : m = n := hreads m rfl (Option.some.inj ((current_iff hs).mp horderly.1))
    obtain ⟨w, hserve, hsettles⟩ := @append_settles paging me m ids κ _ _ st k .free
      hs hb id data hdata horderly.2 rfl rfl rfl (by rw [hphase]; rfl)
    rw [hserve]
    cases hφ
    exact hsettles
  case removing addr id m =>
    rw [hphase] at hφ horderly hreads
    simp only [Phase.writeList, Option.ite_none_right_eq_some] at hφ
    obtain ⟨⟨hdata, rfl⟩, hφ⟩ := hφ
    cases hφ
    obtain ⟨m', rfl, hversion⟩ := Option.map_eq_some_iff.mp ((current_iff hs).mp horderly.1)
    obtain rfl : m' = n := hreads m' rfl hversion
    have htext : textOf (some m') = m'.data := rfl
    rw [htext, hs.decoded, Option.map_some, Option.some.injEq] at hdata
    subst hdata
    have hmem : id ∈ ids := hs.processList ▸ horderly.2
    obtain ⟨hserve, hsound⟩ := @Sound.write paging me st.world m' ids hs
      (ids.filter (· ≠ id)) ((length_processListToZs_filter ids _).trans (hs.text ▸ hs.short))
      fun i hi => hs.range i (List.mem_of_mem_filter hi)
    rw [Option.map_some, hserve]
    exact ⟨_, _, hsound, hb.strike hphase hmem⟩
  all_goals
    rw [hphase] at hφ
    cases hφ

theorem enter_settles {addr size : Nat} {id : Int} {s : Server} {made : Except Fault (Option Nat)}
    (hs : Sound me st.world n ids) (hb : (st.books n ids).Balanced)
    (hnew : st.world.server.localSegments.lookup addr = none)
    (hmake : st.OrderlyMake addr size id (st.phase k))
    (hmade : enterRecord paging st.world.server addr size id = (s, made))
    (hφ : (st.phase k).enter id made = some φ) : Settles me st k ⟨s, st.world.zk⟩ φ := by
  have hrecord : ∀ (r : RDMAMemory) (φ : Phase), r.applicationId = id → φ.read = none →
      φ.held = none → φ.named = none →
      φ.unlisted + (st.phase k).unrecorded = {id} + φ.unrecorded + (st.phase k).unlisted →
      Settles me st k ⟨st.world.server.insertRecord (build paging) addr r, st.world.zk⟩ φ := by
    rintro r φ rfl hread hheld hnamed hdebts
    obtain ⟨hrecords, hpointers⟩ := @enter_records paging st.world.server addr r hnew hs.pointers
    refine ⟨n, ids, ⟨hs.node, hs.text, hs.short, hs.range, hpointers⟩, ?_⟩
    rw [hrecords]
    exact hb.enter (not_mem_of_lookup hnew) hread hheld hnamed hdebts
  cases hphase : st.phase k
  case entering id' =>
    rw [hphase] at hφ hmake hrecord
    simp only [Phase.enter, Option.ite_none_right_eq_some] at hφ
    obtain ⟨rfl, hφ⟩ := hφ
    cases hφ
    obtain ⟨r, hr⟩ := Option.isSome_iff_exists.mp hmake
    rw [enterRecord, hr] at hmade
    cases hmade
    exact hrecord r .free (RDMAMemory.construct_eq hr).2.2.2.2.2 rfl rfl rfl rfl
  case accepting id' =>
    rw [hphase] at hφ hrecord
    simp only [Phase.enter, Option.ite_none_right_eq_some] at hφ
    obtain ⟨rfl, hφ⟩ := hφ
    rcases Server.enter_cases hmade with ⟨rfl, rfl⟩ | ⟨r, hr, rfl, rfl⟩
    · cases hφ
      exact drop_settles hs hb (by rw [hphase]; exact ⟨rfl, rfl⟩)
    · cases hφ
      exact hrecord r (.entered id') (RDMAMemory.construct_eq hr).2.2.2.2.2 rfl rfl rfl rfl
  all_goals
    rw [hphase] at hφ
    cases hφ

theorem find_settles {addr : Nat} (hs : Sound me st.world n ids) (hb : (st.books n ids).Balanced)
    (horderly : ∀ j, j ≠ k → (st.phase j).held ≠ some addr)
    (hφ : (st.phase k).find addr (findRecord st.world.server addr) = some φ) :
    Settles me st k st.world φ := by
  cases hphase : st.phase k
  case free =>
    rw [hphase] at hφ
    simp only [Phase.find] at hφ
    split at hφ <;> cases hφ
    · exact drop_settles hs hb (by rw [hphase]; exact ⟨rfl, rfl⟩)
    · refine move_settles hs hb (by rw [hphase]; rfl) (by rw [hphase]; rfl) (by rintro m ⟨⟩) ?_
        (by rintro r ⟨⟩)
      rintro a ⟨⟩
      exact .inr ⟨hs.found ‹_›, horderly⟩
  case holding addr' =>
    rw [hphase] at hφ
    simp only [Phase.find, Option.ite_none_right_eq_some] at hφ
    obtain ⟨rfl, hφ⟩ := hφ
    split at hφ <;> cases hφ
    · refine move_settles hs hb (by rw [hphase]; rfl) (by rw [hphase]; rfl) (by rintro m ⟨⟩) ?_ ?_
      · rw [hphase]
        exact fun a ha => .inl ha
      · rintro r ⟨⟩
        exact .inr (mem_records.mpr ‹_›)
    · exact drop_settles hs hb (by rw [hphase]; exact ⟨rfl, rfl⟩)
  all_goals
    rw [hphase] at hφ
    cases hφ

theorem erase_settles {addr : Nat} (hs : Sound me st.world n ids)
    (hb : (st.books n ids).Balanced) (hφ : (st.phase k).erase addr = some φ) :
    Settles me st k ⟨eraseSegment st.world.server addr, st.world.zk⟩ φ := by
  cases hphase : st.phase k
  case erasing addr' id =>
    rw [hphase] at hφ
    simp only [Phase.erase, Option.ite_none_right_eq_some] at hφ
    obtain ⟨rfl, hφ⟩ := hφ
    cases hφ
    have hnamed : (st.phase k).named = some (addr', id) := by rw [hphase]; rfl
    have hmem : (addr', id) ∈ records st.world.server := hb.names k (addr', id) hnamed
    exact ⟨n, ids, ⟨hs.node, hs.text, hs.short, hs.range,
      fun e he => hs.pointers e (mem_erase_entries he)⟩, hb.erase hphase (erase_records hmem)⟩
  all_goals
    rw [hphase] at hφ
    cases hφ

theorem request_settles {r : Request} (hs : Sound me st.world n ids)
    (hb : (st.books n ids).Balanced) (horderly : st.OrderlyRequest me k r)
    (hafter : (st.phase k).after me r (FaultTolerant.serve paging .answered st.world r).1 =
      some φ) : Settles me st k (FaultTolerant.serve paging .answered st.world r).2 φ := by
  have haside : Aside me r →
      Settles me st k (FaultTolerant.serve paging .answered st.world r).2 φ := fun hr =>
    aside_settles hs hb hr ((hr.after _ _).symm.trans hafter)
  cases r with
  | get p =>
      by_cases hp : p = .process me
      · subst hp
        have hread := (if_pos rfl).symm.trans hafter
        exact get_settles hs hb (hs.get ▸ hread)
      · exact haside hp
  | create p data =>
      by_cases hp : p = .process me
      · cases (if_pos hp).symm.trans hafter
      · exact haside hp
  | set p data version =>
      by_cases hp : p = .process me
      · subst hp
        exact set_settles hs hb (horderly rfl) ((if_pos rfl).symm.trans hafter)
      · exact haside hp
  | remove p version =>
      by_cases hp : p = .process me
      · cases (if_pos hp).symm.trans hafter
      · exact haside hp
  | mmap => exact haside trivial
  | munmap => exact haside trivial
  | enter addr size id =>
      rcases hmade : enterRecord paging st.world.server addr size id with ⟨s, made⟩
      rw [serve_enter hmade] at hafter ⊢
      exact enter_settles hs hb horderly.1 horderly.2 hmade hafter
  | find addr => exact find_settles hs hb horderly hafter
  | erase addr => exact erase_settles hs hb hafter
  | reply => exact haside trivial

structure Inv (me : Int) (st : Crew κ) : Prop where
  books : ∃ n ids, Sound me st.world n ids ∧ (st.books n ids).Balanced
  threads : ∀ k script, st.thread k = some script → Keeps me script (st.phase k)
  idle : ∀ k, st.thread k = none → st.phase k = .free

theorem Inv.goOn (h : Inv me st) {next : Option (Steps Unit)} (hw : Settles me st k w φ)
    (hnext : ∀ script, next = some script → Keeps me script φ) (hidle : next = none → φ = .free) :
    Inv me (st.goOn k w next φ) := by
  refine ⟨hw, ?_, ?_⟩
  · intro j script hj
    by_cases hjk : j = k
    · subst hjk
      simp only [Crew.goOn, update_self] at hj ⊢
      exact hnext script hj
    · simp only [Crew.goOn, update_of_ne hjk] at hj ⊢
      exact h.threads j script hj
  · intro j hj
    by_cases hjk : j = k
    · subst hjk
      simp only [Crew.goOn, update_self] at hj ⊢
      exact hidle hj
    · simp only [Crew.goOn, update_of_ne hjk] at hj ⊢
      exact h.idle j hj

omit [DecidableEq κ] in
theorem initial_inv (numServers : Nat) (zk : Store) :
    Inv me (initial me numServers zk : Crew κ) := by
  refine ⟨⟨⟨[], 0⟩, [], ⟨update_self .., rfl, by simp, by simp, ?_⟩, ?_⟩, ?_,
    fun _ _ => rfl⟩
  · intro e he
    cases he
  · refine ⟨.nil, .nil, ?_, ?_, ?_, ?_, ?_⟩
    · rintro k m ⟨⟩
    · rintro k m ⟨⟩
    · rintro k m ⟨⟩
    · rintro j k a ⟨⟩
    · simp [Crew.books, initial, records, Server.construct, Phase.unlisted, Phase.unrecorded]
  · rintro k script ⟨⟩

theorem start_inv (h : Inv me st) {op : Op} (hidle : st.thread k = none)
    (horderly : st.Orderly me (.start k op)) :
    Inv me (st.goOn k st.world (some (op.script me)) op.phase) := by
  obtain ⟨n, ids, hs, hb⟩ := h.books
  have hfree := h.idle k hidle
  have hkeeps : Keeps me (op.script me) op.phase := by
    cases op with
    | allocate size id mapped rounds => exact keeps_allocate size id mapped rounds
    | deallocate id => exact keeps_deallocate id
    | accept addr size source id mapped =>
        obtain ⟨res, rfl⟩ := Option.ne_none_iff_exists'.mp horderly
        exact keeps_accept addr size source id res
  refine h.goOn ?_ (fun script heq => Option.some.inj heq ▸ hkeeps) (by rintro ⟨⟩)
  cases op <;> exact move_settles hs hb (by rw [hfree]; rfl) (by rw [hfree]; rfl) (by rintro m ⟨⟩)
    (by rintro a ⟨⟩) (by rintro r ⟨⟩)

theorem serve_inv (h : Inv me st) {r : Request} {next : Answer r → Steps Unit}
    (hthread : st.thread k = some (Script.ask r next)) (horderly : st.OrderlyRequest me k r) :
    Inv me (st.goOn k (FaultTolerant.serve paging .answered st.world r).2
      (some (next (FaultTolerant.serve paging .answered st.world r).1))
      (((st.phase k).after me r (FaultTolerant.serve paging .answered st.world r).1).getD
        .free)) := by
  obtain ⟨n, ids, hs, hb⟩ := h.books
  obtain ⟨φ, hafter, hnext⟩ :=
    h.threads k _ hthread (FaultTolerant.serve paging .answered st.world r).1
  rw [hafter, Option.getD_some]
  exact h.goOn (request_settles hs hb horderly hafter)
    (fun script heq => Option.some.inj heq ▸ hnext) (by rintro ⟨⟩)

theorem finish_inv (h : Inv me st) (hk : (st.phase k).settled) :
    Inv me (st.goOn k st.world none .free) := by
  obtain ⟨n, ids, hs, hb⟩ := h.books
  exact h.goOn (drop_settles hs hb hk) (by rintro script ⟨⟩) fun _ => rfl

theorem Inv.step {act : Action κ} (h : Inv me st) (horderly : st.Orderly me act)
    (hstep : st.step paging me act = some st') : Inv me st' := by
  cases act with
  | start k op =>
      simp only [Crew.step] at hstep
      split at hstep <;> cases hstep
      exact start_inv h ‹_› horderly
  | serve k =>
      simp only [Crew.step] at hstep
      split at hstep
      · rename_i r next hthread
        cases hstep
        simp only [Orderly, hthread] at horderly
        exact serve_inv h hthread horderly
      · cases hstep
  | finish k =>
      simp only [Crew.step] at hstep
      split at hstep <;> cases hstep
      · rename_i hthread
        exact finish_inv h (h.threads k _ hthread)
      · rename_i hthread
        exact finish_inv h (h.threads k _ hthread)
  | others zk =>
      simp only [Crew.step, Option.ite_none_right_eq_some] at hstep
      obtain ⟨hsame, hstep⟩ := hstep
      cases hstep
      obtain ⟨n, ids, hs, hb⟩ := h.books
      exact ⟨⟨n, ids, ⟨hsame.trans hs.node, hs.text, hs.short, hs.range, hs.pointers⟩, hb⟩,
        h.threads, h.idle⟩

/-- Whenever no call is under way, the list has the ids of the local segments. -/
theorem process_list_agrees {numServers : Nat} {zk : Store}
    (hreach : Reaches (Crew.step paging me) (Orderly me) (initial me numServers zk : Crew κ) st)
    (hidle : ∀ k, st.thread k = none) :
    (processList st.world.zk me).Perm (localIds st.world.server) := by
  have hinv : Inv me st := hreach.invariant (fun _ _ _ h => h.step) (initial_inv numServers zk)
  obtain ⟨n, ids, hs, hb⟩ := hinv.books
  rw [hs.processList, localIds_eq]
  refine hb.agree fun k => ?_
  have hfree : (st.books n ids).phase k = .free := hinv.idle k (hidle k)
  rw [hfree]
  exact settled_free

def requests {κ : Type} (k : κ) (count : Nat) : List (Action κ) := List.replicate count (.serve k)

def onlyCounter : Store := fun p =>
  if p = .allocator then some ⟨decimal allocatableRangeStart, 0⟩ else none

def allocateSeven : Op := .allocate 4096 7 (some allocatableRangeStart) 1

def acceptEight : Op := .accept (2 ^ 45) 4096 1 8 (some (2 ^ 45))

/-- A user thread allocates segment 7 and deallocates it, while the poller enters
segment 8 before the list is written for 7 and lists it after that. -/
def turnsTaken : List (Action Bool) :=
  [.start false allocateSeven] ++ requests false 5 ++ [.start true acceptEight] ++
    requests true 2 ++ requests false 2 ++ requests true 3 ++
    [.finish true, .finish false, .start false (.deallocate 7)] ++ requests false 9 ++
    [.finish false]

theorem process_list_agrees_turns_taken :
    ∃ st : Crew Bool, Reaches (Crew.step false 0) (Orderly 0) (initial 0 2 onlyCounter) st ∧
      (∀ k, st.thread k = none) ∧ processList st.world.zk 0 = [8] ∧
      (processList st.world.zk 0).Perm (localIds st.world.server) := by
  have hrun : (checkedRun (Crew.step false 0) (Orderly 0) (initial 0 2 onlyCounter)
      turnsTaken).map (fun st => (processList st.world.zk 0,
        (st.thread false).isNone, (st.thread true).isNone)) = some ([8], true, true) := by
    decide +kernel
  obtain ⟨st, hreach, hview⟩ := reaches_of_map_checkedRun hrun
  simp only [Prod.mk.injEq, Option.isNone_iff_eq_none] at hview
  have hidle : ∀ k, st.thread k = none := by
    intro k
    cases k with
    | false => exact hview.2.1
    | true => exact hview.2.2
  exact ⟨st, hreach, hidle, hview.1, process_list_agrees hreach hidle⟩

/-- The poller reads the list in front of the write for segment 7 and writes it
afterwards. -/
def writesCrossed : List (Action Bool) :=
  [.start false allocateSeven] ++ requests false 5 ++ [.start true acceptEight] ++
    requests true 3 ++ requests false 2 ++ requests true 2 ++ [.finish true, .finish false]

/-- The refused write of `accept` goes unnoticed: segment 8 is local and not in the
list. -/
theorem accepted_segment_not_listed :
    ∃ st : Crew Bool, Reaches (Crew.step false 0) anyAction (initial 0 2 onlyCounter) st ∧
      (∀ k, st.thread k = none) ∧ processList st.world.zk 0 = [7] ∧
      localIds st.world.server = [7, 8] := by
  have hrun : (run (Crew.step false 0) (initial 0 2 onlyCounter) writesCrossed).map
      (fun st => (processList st.world.zk 0, localIds st.world.server,
        (st.thread false).isNone, (st.thread true).isNone)) =
          some ([7], [7, 8], true, true) := by
    decide +kernel
  obtain ⟨st, hreach, hview⟩ := reaches_of_map_run hrun
  simp only [Prod.mk.injEq, Option.isNone_iff_eq_none] at hview
  refine ⟨st, hreach, ?_, hview.1, hview.2.1⟩
  intro k
  cases k with
  | false => exact hview.2.2.1
  | true => exact hview.2.2.2

end Crew

end RdmaMigration.FaultTolerant.ProcessList
