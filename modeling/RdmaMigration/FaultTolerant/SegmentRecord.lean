import RdmaMigration.Coordinator.Record
import RdmaMigration.FaultTolerant.Steps
import RdmaMigration.Lib.Run

/-! # One segment record, many writers

Any number of threads on any servers create, update, clean and delete the record of
one segment, a request at a time. Every write names the version that the same call
read before, and a version does not tell a node from one that was created in its
place.
-/

namespace RdmaMigration.FaultTolerant.SegmentRecord

open Lib Function Manager Coordinator

inductive Call where
  | create (address size : Fin (2 ^ 64)) (source destination : Int32)
  | updateDestination (destination : Int32)
  | clean (serverId : Int32)
  | delete
  deriving DecidableEq

def Call.script (id : Int64) : Call → Steps Bool
  | .create address size source destination =>
      Steps.createMemorySegmentNode address size source.toInt destination.toInt id.toInt
  | .updateDestination destination => Steps.updateSegmentDestination id.toInt destination.toInt
  | .clean serverId => Steps.cleanMemorySegment serverId.toInt id.toInt
  | .delete => Steps.deleteMemorySegment id.toInt

def Call.fields : Call → Option (Nat × Nat)
  | .create address size _ _ => some (address, size)
  | .updateDestination _ | .clean _ | .delete => none

/-- `created` lists what each node was created with, the present or last one at the
end. `seen` is how many there were at the `get` of a thread's call, `returned` the number
of the node that the `get` returned, and `removals` lists the number of each removed node
and the one that the removing call had read. -/
structure Board where
  world : World
  thread : Nat → Option (Call × Steps Bool)
  created : List (Nat × Nat)
  seen : Nat → Nat
  returned : Nat → Option Nat
  removals : List (Nat × Option Nat)

/-- `unset` is the value of a `stat.version` that no `get` has filled in. -/
inductive Action where
  | start (k : Nat) (call : Call)
  | serve (k : Nat) (fate : Fate) (unset : Nat)
  | finish (k : Nat)
  deriving DecidableEq

namespace Board

variable (paging : Bool) (id : Int64)

def initial (w : World) : Board :=
  { world := { w with zk := update w.zk (.segment id.toInt) none }
    thread := fun _ => none
    created := []
    seen := fun _ => 0
    returned := fun _ => none
    removals := [] }

def serve (fate : Fate) (unset : Nat) (w : World) : (r : Request) → Answer r × World
  | .set p data version => w.attempt (w.zk.set p data (version.getD unset)) fate
  | .remove p version => w.attempt (w.zk.remove p (version.getD unset)) fate
  | r => FaultTolerant.serve paging fate w r

def note (st : Board) (k : Nat) (call : Call) (fate : Fate) (w : World) : Request → Board
  | .get p =>
      { st with
        world := w
        seen := update st.seen k st.created.length
        returned := update st.returned k
          (if fate ≠ .failed ∧ st.world.zk p ≠ none then some st.created.length else none) }
  | .create p _ =>
      { st with
        world := w
        created := st.created ++
          if st.world.zk p = none ∧ w.zk p ≠ none then call.fields.toList else [] }
  | .remove p _ =>
      { st with
        world := w
        removals := st.removals ++
          if st.world.zk p ≠ none ∧ w.zk p = none then [(st.created.length, st.returned k)]
          else [] }
  | _ => { st with world := w }

def goOn (st : Board) (k : Nat) (next : Option (Call × Steps Bool)) : Board :=
  { st with thread := update st.thread k next }

def step (st : Board) : Action → Option Board
  | .start k call =>
      match st.thread k with
      | none =>
          some { st.goOn k (some (call, call.script id)) with
            returned := update st.returned k none }
      | some _ => none
  | .serve k fate unset =>
      match st.thread k with
      | some (call, Script.ask r next) =>
          let (answer, w) := serve paging fate unset st.world r
          some ((st.note k call fate w r).goOn k (some (call, next answer)))
      | _ => none
  | .finish k =>
      match st.thread k with
      | some (_, Script.ret _) | some (_, Script.throw _) => some (st.goOn k none)
      | _ => none

def hits (unset : Nat) (z : Store) : Request → Bool
  | .set p _ version | .remove p version =>
      (z p).map ZNode.version == some (version.getD unset)
  | _ => false

def named : Request → Option Nat
  | .set _ _ version | .remove _ version => version
  | _ => none

/-- A write that finds the node at its version has this version from its `get`, and no
node has been created since. -/
def Own (st : Board) : Action → Prop
  | .start _ _ | .finish _ => True
  | .serve k _ unset =>
      match st.thread k with
      | some (_, Script.ask r _) =>
          hits unset st.world.zk r = true → named r ≠ none ∧ st.seen k = st.created.length
      | _ => True

instance (st : Board) (act : Action) : Decidable (Own st act) := by
  unfold Own
  split
  · infer_instance
  · infer_instance
  · split
    · infer_instance
    · infer_instance

/-! ## Texts of the record -/

/-- A text of the record of a segment created with these fields. -/
def Describes (data : List Char) (f : Nat × Nat) : Prop :=
  ∃ m, data = mapToZs m ∧ Tidy m ∧ m.lookup Key.address = some (decimal f.1) ∧
    m.lookup Key.size = some (decimal f.2) ∧ m.lookup Key.clientID = some (decimalInt id.toInt)

variable {paging id} {st st' : Board} {k : Nat} {call : Call}

theorem int32_length_le (i : Int32) : (decimalInt i.toInt).length ≤ 21 := by
  have hlow := i.le_toInt
  have hhigh := i.toInt_lt
  exact length_decimalInt_le (by omega) (by omega)

theorem int64_length_le (i : Int64) : (decimalInt i.toInt).length ≤ 21 :=
  length_decimalInt_le i.le_toInt i.toInt_lt

theorem fin_length_le (n : Fin (2 ^ 64)) : (decimal n).length ≤ 21 :=
  (length_decimal_le n.isLt).trans (by decide)

theorem describes_created (address size : Fin (2 ^ 64)) (source destination : Int32) :
    Describes id (mapToZs (segmentMap address size source.toInt destination.toInt id.toInt))
      (address, size) := by
  have hempty : Tidy ∅ := fun key val h => by simp at h
  refine ⟨_, rfl, ?_, ?_, ?_, ?_⟩
  · refine ((((hempty.insert ?_ (plain_decimal _) (fin_length_le address)).insert ?_
      (plain_decimal _) (fin_length_le size)).insert ?_ (plain_decimalInt _)
        (int32_length_le source)).insert ?_ (plain_decimalInt _)
          (int32_length_le destination)).insert ?_ (plain_decimalInt _) (int64_length_le id)
    all_goals decide
  · rw [segmentMap, AList.lookup_insert_ne (by decide), AList.lookup_insert_ne (by decide),
      AList.lookup_insert_ne (by decide), AList.lookup_insert_ne (by decide), AList.lookup_insert]
  · rw [segmentMap, AList.lookup_insert_ne (by decide), AList.lookup_insert_ne (by decide),
      AList.lookup_insert_ne (by decide), AList.lookup_insert]
  · rw [segmentMap, AList.lookup_insert]

variable {data : List Char} {f : Nat × Nat} {ok : Bool} {unset : Nat}

theorem Describes.read (h : Describes id data f) :
    ∃ m, zsToMap data = some m ∧ Tidy m ∧ m.lookup Key.address = some (decimal f.1) ∧
      m.lookup Key.size = some (decimal f.2) ∧
      m.lookup Key.clientID = some (decimalInt id.toInt) := by
  obtain ⟨m, rfl, htidy, haddress, hsize, hclient⟩ := h
  obtain ⟨m', hread, hsame⟩ := htidy.zsToMap_mapToZs
  exact ⟨m', hread, htidy.of_lookup hsame, (hsame _).trans haddress, (hsame _).trans hsize,
    (hsame _).trans hclient⟩

theorem Describes.get {z : Store} {p : Path} {n : ZNode} (hn : z p = some n)
    (h : Describes id n.data f) : z.get p = some n := by
  obtain ⟨m, hdata, htidy, -⟩ := h
  exact htidy.get hn hdata

theorem describes_insert {m : TextMap} {key val : List Char} (htidy : Tidy m)
    (haddress : m.lookup Key.address = some (decimal f.1))
    (hsize : m.lookup Key.size = some (decimal f.2))
    (hclient : m.lookup Key.clientID = some (decimalInt id.toInt))
    (hkey : key = Key.source ∨ key = Key.destination) (hplain : Plain val)
    (hlength : val.length ≤ 21) :
    Tidy (m.insert key val) ∧ (m.insert key val).lookup Key.address = some (decimal f.1) ∧
      (m.insert key val).lookup Key.size = some (decimal f.2) ∧
      (m.insert key val).lookup Key.clientID = some (decimalInt id.toInt) := by
  have hname : key ∈ fieldNames := by rcases hkey with rfl | rfl <;> decide
  have hne : Key.address ≠ key ∧ Key.size ≠ key ∧ Key.clientID ≠ key := by
    rcases hkey with rfl | rfl <;> decide
  rw [AList.lookup_insert_ne hne.1, AList.lookup_insert_ne hne.2.1, AList.lookup_insert_ne hne.2.2]
  exact ⟨htidy.insert hname hplain hlength, haddress, hsize, hclient⟩

def Call.change : Call → TextMap → TextMap
  | .updateDestination destination => fun map =>
      map.insert Key.destination (decimalInt destination.toInt)
  | .clean serverId => fun map =>
      (map.insert Key.source (decimalInt serverId.toInt)).insert Key.destination []
  | .create _ _ _ _ | .delete => fun map => map

theorem Describes.change {map : TextMap}
    (h : Describes id data f) (hmap : zsToMap data = some map) (call : Call) :
    Describes id (mapToZs (Call.change call map)) f := by
  obtain ⟨m, hread, htidy, haddress, hsize, hclient⟩ := h.read
  obtain rfl : m = map := Option.some.inj (hread.symm.trans hmap)
  cases call with
  | create => exact ⟨m, rfl, htidy, haddress, hsize, hclient⟩
  | delete => exact ⟨m, rfl, htidy, haddress, hsize, hclient⟩
  | updateDestination destination =>
      exact ⟨_, rfl, describes_insert htidy haddress hsize hclient (.inr rfl)
        (plain_decimalInt _) (int32_length_le destination)⟩
  | clean serverId =>
      obtain ⟨htidy, haddress, hsize, hclient⟩ := describes_insert htidy haddress hsize hclient
        (.inl rfl) (plain_decimalInt _) (int32_length_le serverId)
      exact ⟨_, rfl, describes_insert htidy haddress hsize hclient (.inr rfl) ⟨by simp, by simp⟩
        (by simp)⟩

/-! ## The invariant -/

/-- Where a call can be. What it is about to write describes the node it has read,
if that is still the last one created. -/
inductive At (id : Int64) (st : Board) (k : Nat) (call : Call) : Steps Bool → Prop
  | starting : At id st k call (call.script id)
  | writing {data : List Char} {version : Option Nat}
      (hnamed : version ≠ none → st.returned k = some (st.seen k))
      (hread : ∀ i, st.returned k = some i → i ≤ st.created.length ∧
        (i = st.created.length → ∃ f, st.created.getLast? = some f ∧ Describes id data f)) :
      At id st k call (Script.ask (.set (.segment id.toInt) data version) .ret)
  | removing {version : Option Nat}
      (hnamed : version ≠ none → st.returned k = some (st.seen k)) :
      At id st k call (Script.ask (.remove (.segment id.toInt) version) .ret)
  | returning {ok : Bool} : At id st k call (.ret ok)
  | throwing {e : Fault} : At id st k call (.throw e)

structure Inv (id : Int64) (st : Board) : Prop where
  node : ∀ n, st.world.zk (.segment id.toInt) = some n →
    ∃ f, st.created.getLast? = some f ∧ Describes id n.data f
  threads : ∀ k call script, st.thread k = some (call, script) → At id st k call script
  removals : ∀ r ∈ st.removals, r.2 = some r.1

theorem initial_inv (w : World) : Inv id (initial id w) := by
  refine ⟨?_, ?_, ?_⟩
  · intro n hn
    simp [initial] at hn
  · intro k call script h
    cases h
  · intro r hr
    cases hr

theorem At.mono {script : Steps Bool} (h : At id st k call script)
    (hcreated : st'.created = st.created ∨ ∃ f, st'.created = st.created ++ [f])
    (hseen : st'.seen k = st.seen k) (hreturned : st'.returned k = st.returned k) :
    At id st' k call script := by
  cases h with
  | starting => exact .starting
  | writing hnamed hread =>
      refine .writing (by rwa [hseen, hreturned]) fun i hi => ?_
      rw [hreturned] at hi
      obtain ⟨hle, hdata⟩ := hread i hi
      rcases hcreated with heq | ⟨f, heq⟩
      · rw [heq]
        exact ⟨hle, hdata⟩
      · rw [heq, List.length_append, List.length_singleton]
        exact ⟨by omega, fun hi => by omega⟩
  | removing hnamed => exact .removing (by rwa [hseen, hreturned])
  | returning => exact .returning
  | throwing => exact .throwing

theorem Inv.goOn {next : Option (Call × Steps Bool)} (h : Inv id st)
    (hthread : st'.thread = st.thread)
    (hcreated : st'.created = st.created ∨ ∃ f, st'.created = st.created ++ [f])
    (hread : ∀ j, j ≠ k → st'.seen j = st.seen j ∧ st'.returned j = st.returned j)
    (hnode : ∀ n, st'.world.zk (.segment id.toInt) = some n →
      ∃ f, st'.created.getLast? = some f ∧ Describes id n.data f)
    (hremovals : ∀ r ∈ st'.removals, r.2 = some r.1)
    (hat : ∀ call script, next = some (call, script) → At id st' k call script) :
    Inv id (st'.goOn k next) := by
  refine ⟨hnode, ?_, hremovals⟩
  intro j call script hj
  by_cases hjk : j = k
  · subst hjk
    simp only [Board.goOn, update_self] at hj
    exact (hat call script hj).mono (.inl rfl) rfl rfl
  · simp only [Board.goOn, update_of_ne hjk, hthread] at hj
    exact (h.threads j call script hj).mono hcreated (hread j hjk).1 (hread j hjk).2

/-! ## One request -/

theorem attempt_cases (w : World) (write : Option Store) (fate : Fate) :
    (w.attempt write fate).2 = w ∨
      ∃ z, write = some z ∧ (w.attempt write fate).2 = { w with zk := z } := by
  rcases w.zk.attempt_cases write fate with hlost | ⟨z, ok, hwrite, -, hdone⟩
  · left
    rw [World.attempt, hlost]
  · right
    refine ⟨z, hwrite, ?_⟩
    rw [World.attempt, hdone]

theorem at_returned (call' : Call) (script : Steps Bool)
    (h : some (call, (Script.ret ok : Steps Bool)) = some (call', script)) :
    At id st k call' script := by
  cases h
  exact .returning

theorem Inv.create (h : Inv id st)
    (hfields : call.fields = some f) (hdata : Describes id data f) (fate : Fate) :
    Inv id ((st.note k call fate
      (st.world.attempt (st.world.zk.create (.segment id.toInt) data) fate).2
        (.create (.segment id.toInt) data)).goOn k (some (call, .ret ok))) := by
  rcases attempt_cases st.world (st.world.zk.create (.segment id.toInt) data) fate with
    hlost | ⟨z, hcreate, hdone⟩
  · rw [hlost]
    refine h.goOn rfl (.inl (by simp [note])) (fun _ _ => ⟨rfl, rfl⟩) ?_ h.removals at_returned
    intro n hn
    simpa [note] using h.node n hn
  · obtain ⟨habsent, rfl⟩ := Store.create_eq_some hcreate
    have hcreated : (st.note k call fate { st.world with
        zk := update st.world.zk (.segment id.toInt) (some ⟨data, 0⟩) }
          (.create (.segment id.toInt) data)).created = st.created ++ [f] := by
      simp [note, habsent, hfields]
    rw [hdone]
    refine h.goOn rfl (.inr ⟨f, hcreated⟩) (fun _ _ => ⟨rfl, rfl⟩) ?_ h.removals at_returned
    intro n hn
    simp only [note, update_self, Option.some.injEq] at hn
    subst hn
    exact ⟨f, by rw [hcreated, List.getLast?_concat], hdata⟩

theorem Inv.set {version : Option Nat}
    (h : Inv id st) (hnamed : version ≠ none → st.returned k = some (st.seen k))
    (hread : ∀ i, st.returned k = some i → i ≤ st.created.length ∧
      (i = st.created.length → ∃ f, st.created.getLast? = some f ∧ Describes id data f))
    (hown : hits unset st.world.zk (.set (.segment id.toInt) data version) = true →
      version ≠ none ∧ st.seen k = st.created.length) (fate : Fate) :
    Inv id ((st.note k call fate (st.world.attempt
      (st.world.zk.set (.segment id.toInt) data (version.getD unset)) fate).2
        (.set (.segment id.toInt) data version)).goOn k (some (call, .ret ok))) := by
  rcases attempt_cases st.world (st.world.zk.set (.segment id.toInt) data (version.getD unset))
    fate with hlost | ⟨z, hset, hdone⟩
  · rw [hlost]
    exact h.goOn rfl (.inl rfl) (fun _ _ => ⟨rfl, rfl⟩) h.node h.removals at_returned
  · obtain ⟨n, hn, hversion, rfl⟩ := Store.set_eq_some hset
    rw [hdone]
    refine h.goOn rfl (.inl rfl) (fun _ _ => ⟨rfl, rfl⟩) ?_ h.removals at_returned
    intro m hm
    simp only [note, update_self, Option.some.injEq] at hm
    subst hm
    obtain ⟨hsome, hseen⟩ := hown (by simp [hits, hn, hversion])
    exact (hread _ (hnamed hsome)).2 hseen

theorem Inv.remove {version : Option Nat} (h : Inv id st)
    (hnamed : version ≠ none → st.returned k = some (st.seen k))
    (hown : hits unset st.world.zk (.remove (.segment id.toInt) version) = true →
      version ≠ none ∧ st.seen k = st.created.length) (fate : Fate) :
    Inv id ((st.note k call fate (st.world.attempt
      (st.world.zk.remove (.segment id.toInt) (version.getD unset)) fate).2
        (.remove (.segment id.toInt) version)).goOn k (some (call, .ret ok))) := by
  rcases attempt_cases st.world (st.world.zk.remove (.segment id.toInt) (version.getD unset))
    fate with hlost | ⟨z, hremove, hdone⟩
  · rw [hlost]
    refine h.goOn rfl (.inl rfl) (fun _ _ => ⟨rfl, rfl⟩) h.node ?_ at_returned
    simpa [note] using h.removals
  · obtain ⟨n, hn, hversion, rfl⟩ := Store.remove_eq_some hremove
    obtain ⟨hsome, hseen⟩ := hown (by simp [hits, hn, hversion])
    have hreturned : st.returned k = some st.created.length := hseen ▸ hnamed hsome
    rw [hdone]
    refine h.goOn rfl (.inl rfl) (fun _ _ => ⟨rfl, rfl⟩) ?_ ?_ at_returned
    · intro m hm
      simp [note] at hm
    · intro r hr
      simp only [note, hn, update_self, ne_eq, reduceCtorEq, not_false_eq_true,
        and_self, if_true, List.mem_append, List.mem_singleton] at hr
      rcases hr with hold | rfl
      · exact h.removals r hold
      · exact hreturned

/-- What a `get` returns of the record describes the node that is there. -/
theorem Inv.get {script : Option ZNode → Steps Bool} (h : Inv id st) (fate : Fate)
    (hat : ∀ st' n, (n ≠ none → st'.returned k = some (st'.seen k)) →
      (∀ i, st'.returned k = some i → i = st'.created.length ∧
        ∃ m f, n = some m ∧ st'.created.getLast? = some f ∧ Describes id m.data f) →
        At id st' k call (script n)) :
    Inv id ((st.note k call fate st.world (.get (.segment id.toInt))).goOn k (some (call,
      script (if fate = .failed then none else st.world.zk.get (.segment id.toInt))))) := by
  refine h.goOn rfl (.inl rfl) (fun j hj =>
    ⟨update_of_ne hj _ _, update_of_ne hj _ _⟩) h.node h.removals ?_
  intro call' script' heq
  cases heq
  refine hat _ _ (fun hsome => ?_) fun i hi => ?_
  · obtain ⟨n, hn⟩ := Option.ne_none_iff_exists'.mp hsome
    obtain ⟨hfate, hn⟩ := Option.ite_none_left_eq_some.mp hn
    obtain ⟨m, hm, -⟩ := Option.map_eq_some_iff.mp hn
    have hthere : st.world.zk (.segment id.toInt) ≠ none := by simp [hm]
    simp only [note, update_self]
    exact if_pos ⟨hfate, hthere⟩
  simp only [note, update_self, Option.ite_none_right_eq_some] at hi
  obtain ⟨⟨hfate, hthere⟩, hi⟩ := hi
  obtain ⟨n, hn⟩ := Option.ne_none_iff_exists'.mp hthere
  obtain ⟨f, hf, hdata⟩ := h.node n hn
  refine ⟨(Option.some.inj hi).symm, n, f, ?_, hf, hdata⟩
  rw [if_neg hfate, hdata.get hn]

theorem rewriting_at {call : Call} (st' : Board) (n : Option ZNode)
    (hnamed : n ≠ none → st'.returned k = some (st'.seen k))
    (h : ∀ i, st'.returned k = some i → i = st'.created.length ∧
      ∃ m f, n = some m ∧ st'.created.getLast? = some f ∧ Describes id m.data f) :
    At id st' k call (Script.orThrow .outOfRange (zsToMap (textOf n)) >>= fun map =>
      Steps.ask (.set (.segment id.toInt) (mapToZs (Call.change call map))
        (n.map ZNode.version))) := by
  cases hmap : zsToMap (textOf n) with
  | none => exact .throwing
  | some map =>
      refine .writing (fun hsome => hnamed (by rintro rfl; exact hsome rfl)) fun i hi => ?_
      obtain ⟨hlast, m, f, rfl, hf, hdata⟩ := h i hi
      exact ⟨hlast.le, fun _ => ⟨f, hf, hdata.change hmap call⟩⟩

theorem removing_at {call : Call} (st' : Board) (n : Option ZNode)
    (hnamed : n ≠ none → st'.returned k = some (st'.seen k)) :
    At id st' k call (Script.orThrow .outOfRange (zsToMap (textOf n)) >>= fun _ =>
      Steps.ask (.remove (.segment id.toInt) (n.map ZNode.version))) := by
  cases zsToMap (textOf n) with
  | none => exact .throwing
  | some map => exact .removing fun hsome => hnamed (by rintro rfl; exact hsome rfl)

theorem Inv.serve {r : Request} {next : Answer r → Steps Bool} {fate : Fate}
    (h : Inv id st) (hthread : st.thread k = some (call, Script.ask r next))
    (hown : hits unset st.world.zk r = true →
      named r ≠ none ∧ st.seen k = st.created.length) :
    Inv id ((st.note k call fate (Board.serve paging fate unset st.world r).2 r).goOn k
      (some (call, next (Board.serve paging fate unset st.world r).1))) := by
  have hat := h.threads k call _ hthread
  generalize hscript : Script.ask r next = script at hat
  cases hat with
  | starting =>
      cases call with
      | create address size source destination =>
          cases hscript
          exact h.create rfl (describes_created address size source destination) fate
      | updateDestination destination =>
          cases hscript
          exact h.get fate fun st' n => rewriting_at st' n
      | clean serverId =>
          cases hscript
          exact h.get fate fun st' n => rewriting_at st' n
      | delete =>
          cases hscript
          exact h.get fate fun st' n hn _ => removing_at st' n hn
  | writing hnamed hread =>
      cases hscript
      exact h.set hnamed hread hown fate
  | removing hnamed =>
      cases hscript
      exact h.remove hnamed hown fate
  | returning => cases hscript
  | throwing => cases hscript

theorem Inv.step {act : Action} (h : Inv id st) (hown : Own st act)
    (hstep : Board.step paging id st act = some st') : Inv id st' := by
  cases act with
  | start k call =>
      simp only [Board.step] at hstep
      split at hstep
      · cases hstep
        show Inv id (Board.goOn { st with returned := update st.returned k none } k
          (some (call, call.script id)))
        refine h.goOn rfl (.inl rfl) (fun j hj => ⟨rfl, update_of_ne hj _ _⟩) h.node
          h.removals ?_
        intro call' script heq
        cases heq
        exact .starting
      · cases hstep
  | serve k fate unset =>
      simp only [Board.step] at hstep
      split at hstep
      · rename_i call r next hthread
        cases hstep
        simp only [Own, hthread] at hown
        exact h.serve hthread hown
      · cases hstep
  | finish k =>
      simp only [Board.step] at hstep
      split at hstep <;> cases hstep
      all_goals exact h.goOn rfl (.inl rfl) (fun _ _ => ⟨rfl, rfl⟩) h.node h.removals (by simp)

/-- As long as no node is created between the `get` of a call and its write, the record
keeps the address, the size and the id that its node was created with,
and a node is only removed by a call that has read it. -/
theorem record_kept {w : World} (hreach : Reaches (Board.step paging id) Own (initial id w) st) :
    (∀ n, st.world.zk.get (.segment id.toInt) = some n →
      ∃ f map, st.created.getLast? = some f ∧ zsToMap n.data = some map ∧
        map.field Key.address = decimal f.1 ∧ map.field Key.size = decimal f.2 ∧
        map.field Key.clientID = decimalInt id.toInt) ∧
    ∀ r ∈ st.removals, r.2 = some r.1 := by
  have hinv : Inv id st := hreach.invariant (fun _ _ _ h => h.step) (initial_inv w)
  refine ⟨fun n hn => ?_, hinv.removals⟩
  obtain ⟨m, hm, -⟩ := Option.map_eq_some_iff.mp hn
  obtain ⟨f, hf, hdata⟩ := hinv.node m hm
  obtain rfl : m = n := Option.some.inj ((hdata.get hm).symm.trans hn)
  obtain ⟨map, hmap, -, haddress, hsize, hclient⟩ := hdata.read
  refine ⟨f, map, hf, hmap, ?_, ?_, ?_⟩
  · simp [TextMap.field, haddress]
  · simp [TextMap.field, hsize]
  · simp [TextMap.field, hclient]

def whole (k : Nat) (call : Call) (requests : Nat) : List Action :=
  .start k call :: List.replicate requests (.serve k .answered 0) ++ [.finish k]

/-- Two nodes under one id, each updated and cleaned. -/
def createdTwice : List Action :=
  whole 0 (.create 17592186044416 4096 0 (-1)) 1 ++ whole 1 (.updateDestination 2) 2 ++
    whole 2 .delete 2 ++ whole 1 (.create 17592186052608 8192 1 (-1)) 1 ++ whole 2 (.clean 2) 2

def emptyWorld : World := ⟨Server.construct 2 0, fun _ => none⟩

def storedAddress (id : Int64) (st : Board) : Option (List Char) :=
  (st.world.zk.get (.segment id.toInt)).bind fun n =>
    (zsToMap n.data).map fun map => map.field Key.address

theorem record_kept_created_twice :
    ∃ st, Reaches (Board.step false 7) Own (initial 7 emptyWorld) st ∧
      st.created = [(17592186044416, 4096), (17592186052608, 8192)] ∧ st.removals = [(1, some 1)] ∧
      (∃ n, st.world.zk.get (.segment 7) = some n) ∧
      ∀ n, st.world.zk.get (.segment 7) = some n →
        ∃ f map, st.created.getLast? = some f ∧ zsToMap n.data = some map ∧
          map.field Key.address = decimal f.1 := by
  have hrun : (checkedRun (Board.step false 7) Own (initial 7 emptyWorld) createdTwice).map
      (fun st => (st.created, st.removals, (st.world.zk.get (.segment 7)).isSome)) =
        some ([(17592186044416, 4096), (17592186052608, 8192)], [(1, some 1)], true) := by
    decide +kernel
  obtain ⟨st, hreach, hview⟩ := reaches_of_map_checkedRun hrun
  simp only [Prod.mk.injEq] at hview
  refine ⟨st, hreach, hview.1, hview.2.1, Option.isSome_iff_exists.mp hview.2.2, ?_⟩
  intro n hn
  obtain ⟨f, map, hf, hmap, haddress, -⟩ := (record_kept hreach).1 n hn
  exact ⟨f, map, hf, hmap, haddress⟩

/-- A call reads the record, and before it writes the node is deleted and created
again. -/
def readBeforeDelete (k : Nat) (call : Call) : List Action :=
  whole 0 (.create 17592186044416 4096 0 (-1)) 1 ++ [.start k call, .serve k .answered 0] ++
    whole 1 .delete 2 ++ whole 0 (.create 17592186052608 8192 0 (-1)) 1 ++ [.serve k .answered 0]

/-- Both nodes have the version 0: an update brings the old address back, and a
delete removes a node that it has not read. -/
theorem record_of_deleted_node_written_back :
    (∃ st, Reaches (Board.step false 7) anyAction (initial 7 emptyWorld) st ∧
      st.created.getLast? = some (17592186052608, 8192) ∧
      storedAddress 7 st = some (decimal 17592186044416)) ∧
    ∃ st, Reaches (Board.step false 7) anyAction (initial 7 emptyWorld) st ∧
      (2, some 1) ∈ st.removals := by
  have hupdate : (run (Board.step false 7) (initial 7 emptyWorld)
      (readBeforeDelete 2 (.updateDestination 1))).map
        (fun st => (st.created.getLast?, storedAddress 7 st)) =
          some (some (17592186052608, 8192), some (decimal 17592186044416)) := by
    decide +kernel
  have hdelete : (run (Board.step false 7) (initial 7 emptyWorld)
      (readBeforeDelete 2 .delete)).map (fun st => st.removals) =
        some [(1, some 1), (2, some 1)] := by
    decide +kernel
  obtain ⟨st, hreach, hview⟩ := reaches_of_map_run hupdate
  obtain ⟨st', hreach', hremovals⟩ := reaches_of_map_run hdelete
  simp only [Prod.mk.injEq] at hview
  exact ⟨⟨st, hreach, hview⟩, st', hreach', by simp [hremovals]⟩

end Board

end RdmaMigration.FaultTolerant.SegmentRecord
