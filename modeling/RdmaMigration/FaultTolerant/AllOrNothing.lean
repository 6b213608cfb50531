import RdmaMigration.FaultTolerant.Steps

/-! # Calls that fail half-way

`allocate` and `deallocate` run alone while any of their requests to ZooKeeper may
fail, or be carried out and reported as failed. After a read that fails the write names
whatever version the stack holds. `allocate` does not take back the
node it created when the process list cannot be updated, and `deallocate` forgets
the segment locally before it knows whether the node can be removed.
-/

namespace RdmaMigration.FaultTolerant.AllOrNothing

open Lib Function Network Manager Coordinator

/-- What becomes of the requests to each node, in the order they are made; those
beyond the list are answered. `unset` is what `stat.version` holds before the read of
the call that writes to the node. -/
structure Trial where
  world : World
  fates : Path → List Fate
  unset : Path → Int

namespace Trial

def fateAt (t : Trial) (p : Path) (k : Nat) : Fate := ((t.fates p)[k]?).getD .answered

def put (t : Trial) (p : Path) (zk : Store) : Trial :=
  { t with
    world := { t.world with zk := zk }
    fates := update t.fates p (t.fates p).tail }

/-- `stat.version` after a read of `p` that has returned this version, or has failed. -/
def statVersion (t : Trial) (p : Path) (version : Option Nat) : Int :=
  version.elim (t.unset p) Int.ofNat

def write (t : Trial) (p : Path) (new : ZNode → Option ZNode) (version : Option Nat) :
    Bool × Trial :=
  let (zk, ok) := t.world.zk.attempt (replaceAt t.world.zk p new (t.statVersion p version))
    (t.fateAt p 0)
  (ok, t.put p zk)

def path? : Request → Option Path
  | .get p | .create p _ | .set p _ _ | .remove p _ => some p
  | .mmap _ _ | .munmap _ _ | .enter _ _ _ | .find _ | .erase _ | .reply _ _ _ _ => none

def serveOther (paging : Bool) (t : Trial) (r : Request) : Answer r × Trial :=
  let (answer, w) := FaultTolerant.serve paging
    ((path? r).elim .answered fun p => t.fateAt p 0) t.world r
  (answer, { t with
    world := w
    fates := (path? r).elim t.fates fun p => update t.fates p (t.fates p).tail })

def serve (paging : Bool) (t : Trial) : (r : Request) → Answer r × Trial
  | .set p data version => t.write p (fun n => some ⟨data, n.version + 1⟩) version
  | .remove p version => t.write p (fun _ => none) version
  | r => t.serveOther paging r

theorem serve_local (paging : Bool) (t : Trial) {r : Request} (h : path? r = none) :
    t.serve paging r = t.serveOther paging r := by
  cases r with
  | get | create | set | remove => cases h
  | mmap | munmap | enter | find | erase | reply => rfl

@[simp] theorem fateAt_put_self (t : Trial) (p : Path) (zk : Store) (k : Nat) :
    (t.put p zk).fateAt p k = t.fateAt p (k + 1) := by
  simp [fateAt, put]

theorem fateAt_put_of_ne (t : Trial) {p q : Path} (h : q ≠ p) (zk : Store) (k : Nat) :
    (t.put p zk).fateAt q k = t.fateAt q k := by
  simp [fateAt, put, update_of_ne h]

end Trial

variable {paging : Bool} {t t' : Trial} {id : Int}

def tried {α : Type} (paging : Bool) (script : Steps α) (t : Trial) : Except Fault α × Trial :=
  script.run (Trial.serve paging) t

variable {α : Type} {z : Store} {p : Path} {n : ZNode} {address addr size : Nat}

theorem tried_bind {γ : Type} {script : Steps α} {f : α → Steps γ} {a : α}
    (h : tried paging script t = (.ok a, t')) :
    tried paging (script >>= f) t = tried paging (f a) t' := by
  have hrun : script.run (Trial.serve paging) t = (.ok a, t') := h
  rw [tried, Script.run_bind, hrun]
  rfl

theorem tried_bind_ok {γ : Type} {script : Steps α} {f : α → Steps γ} {result : γ}
    (h : tried paging (script >>= f) t = (.ok result, t')) :
    ∃ a u, tried paging script t = (.ok a, u) ∧ tried paging (f a) u = (.ok result, t') := by
  rw [tried, Script.run_bind] at h
  rcases hrun : script.run (Trial.serve paging) t with ⟨_ | a, u⟩
  · simp [hrun] at h
  · rw [hrun] at h
    exact ⟨a, u, hrun, h⟩

theorem tried_orThrow (e : Fault) (a : α) :
    tried paging (Script.orThrow e (some a)) t = (.ok a, t) := rfl

theorem tried_orThrow_ok {e : Fault} {x : Option α} {a : α}
    (h : tried paging (Script.orThrow e x) t = (.ok a, t')) : x = some a ∧ t' = t := by
  cases x with
  | none => cases h
  | some b =>
      cases h
      exact ⟨rfl, rfl⟩

/-! ## Requests -/

theorem tried_get (p : Path) :
    tried paging (Steps.ask (.get p)) t =
      (.ok (if t.fateAt p 0 = .failed then none else t.world.zk.get p), t.put p t.world.zk) := rfl

theorem tried_local {r : Request} {a : Answer r} {w : World} (hpath : Trial.path? r = none)
    (h : FaultTolerant.serve paging .answered t.world r = (a, w)) :
    tried paging (Steps.ask r) t = (.ok a, { t with world := w }) := by
  have hserve : Trial.serve paging t r = (a, { t with world := w }) := by
    rw [Trial.serve_local paging t hpath]
    simp only [Trial.serveOther, hpath, Option.elim_none, h]
  show (Except.ok (Trial.serve paging t r).1, (Trial.serve paging t r).2) = _
  rw [hserve]

theorem tried_create (p : Path) (data : List Char) :
    tried paging (Steps.ask (.create p data)) t =
      (.ok (t.world.zk.attempt (t.world.zk.create p data) (t.fateAt p 0)).2,
        t.put p (t.world.zk.attempt (t.world.zk.create p data) (t.fateAt p 0)).1) := rfl

theorem tried_set (p : Path) (data : List Char) (version : Option Nat) :
    tried paging (Steps.ask (.set p data version)) t =
      (.ok (t.write p (fun n => some ⟨data, n.version + 1⟩) version).1,
        (t.write p (fun n => some ⟨data, n.version + 1⟩) version).2) := rfl

theorem tried_remove (p : Path) (version : Option Nat) :
    tried paging (Steps.ask (.remove p version)) t =
      (.ok (t.write p (fun _ => none) version).1, (t.write p (fun _ => none) version).2) := rfl

theorem attempt_none (z : Store) (fate : Fate) : z.attempt none fate = (z, false) := by
  cases fate <;> rfl

theorem create_of_some (h : z p = some n) (data : List Char) :
    z.create p data = none := by
  simp [Store.create, h]

theorem create_of_none (h : z p = none) (data : List Char) :
    z.create p data = some (update z p (some ⟨data, 0⟩)) := by
  simp [Store.create, h]

theorem write_of_matches {version : Option Nat} (hn : t.world.zk p = some n)
    (h : Matches (t.statVersion p version) n) (new : ZNode → Option ZNode) :
    t.write p new version =
      ((t.world.zk.attempt (some (update t.world.zk p (new n))) (t.fateAt p 0)).2,
        t.put p (t.world.zk.attempt (some (update t.world.zk p (new n)))
          (t.fateAt p 0)).1) := by
  rw [Trial.write, replaceAt_some hn h]

theorem write_of_not_matches {version : Option Nat}
    (hn : t.world.zk p = some n) (h : ¬ Matches (t.statVersion p version) n)
    (new : ZNode → Option ZNode) : t.write p new version = (false, t.put p t.world.zk) := by
  have hrefused : ∀ m, t.world.zk p = some m → ¬ Matches (t.statVersion p version) m := by
    intro m hm
    cases hn.symm.trans hm
    exact h
  rw [Trial.write, replaceAt_none hrefused, attempt_none]

/-! ## Calls that keep to one node -/

structure Beside (p : Path) (t t' : Trial) : Prop where
  server : t'.world.server = t.world.server
  node : ∀ q, q ≠ p → t'.world.zk q = t.world.zk q
  fates : ∀ q, q ≠ p → t'.fates q = t.fates q
  unset : t'.unset = t.unset

theorem Beside.put {zk : Store} (h : Beside p t t')
    (hzk : ∀ q, q ≠ p → zk q = t'.world.zk q) : Beside p t (t'.put p zk) :=
  ⟨h.server, fun q hq => (hzk q hq).trans (h.node q hq),
    fun q hq => (update_of_ne hq _ _).trans (h.fates q hq), h.unset⟩

theorem attempt_of_ne {write : Option Store} {q : Path}
    (h : ∀ z', write = some z' → z' q = z q) (fate : Fate) : (z.attempt write fate).1 q = z q := by
  rcases z.attempt_cases write fate with hlost | ⟨z', ok, hwrite, -, hdone⟩
  · rw [hlost]
  · rw [hdone]
    exact h z' hwrite

theorem Beside.write (h : Beside p t t') (new : ZNode → Option ZNode)
    (version : Option Nat) : Beside p t (t'.write p new version).2 := by
  refine h.put fun q hq => attempt_of_ne (fun z hz => ?_) _
  obtain ⟨n, -, rfl⟩ := replaceAt_eq_some hz
  exact update_of_ne hq _ _

theorem Beside.serve {r : Request} (h : Beside p t t')
    (hpath : Trial.path? r = some p) : Beside p t (Trial.serve paging t' r).2 := by
  cases r with
  | get q =>
      cases hpath
      exact h.put fun _ _ => rfl
  | create q data =>
      cases hpath
      refine h.put fun q hq => attempt_of_ne (fun z hz => ?_) _
      rw [(Store.create_eq_some hz).2, update_of_ne hq]
  | set q data version =>
      cases hpath
      exact h.write _ _
  | remove q version =>
      cases hpath
      exact h.write _ _
  | mmap => cases hpath
  | munmap => cases hpath
  | enter => cases hpath
  | find => cases hpath
  | erase => cases hpath
  | reply => cases hpath

theorem tried_beside {script : Steps α} {result : Except Fault α}
    (h : script.Only fun r => Trial.path? r = some p) (ht : tried paging script t = (result, t')) :
    Beside p t t' := by
  have hserve : ∀ u r, Trial.path? r = some p → Beside p t u →
      Beside p t (Trial.serve paging u r).2 := fun _ _ hr hu => hu.serve hr
  have hbeside := h.run_invariant hserve ⟨rfl, fun _ _ => rfl, fun _ _ => rfl, rfl⟩
  have hrun : script.run (Trial.serve paging) t = (result, t') := ht
  rwa [hrun] at hbeside

theorem Beside.fateAt {q : Path} (h : Beside p t t') (hq : q ≠ p) (k : Nat) :
    t'.fateAt q k = t.fateAt q k := by
  rw [Trial.fateAt, h.fates q hq, Trial.fateAt]

theorem getAllocationAddress_only (size rounds : Nat) :
    (Steps.getAllocationAddress size rounds).Only fun r => Trial.path? r = some .allocator := by
  induction rounds with
  | zero => trivial
  | succ rounds ih =>
      refine Script.Only.bind ⟨rfl, fun _ => trivial⟩ fun n => ?_
      refine Script.Only.bind (Script.only_orThrow _ _ _) fun res => ?_
      refine Script.Only.bind ⟨rfl, fun _ => trivial⟩ fun written => ?_
      cases written with
      | false => exact ih
      | true => trivial

theorem addToProcessList_only (serverId id : Int) :
    (Steps.addToProcessList serverId id).Only fun r =>
      Trial.path? r = some (.process serverId) := by
  refine Script.Only.bind ⟨rfl, fun _ => trivial⟩ fun n => ?_
  cases n with
  | none => trivial
  | some n => exact ⟨rfl, fun _ => trivial⟩

theorem removeFromProcessList_only (serverId id : Int) :
    (Steps.removeFromProcessList serverId id).Only fun r =>
      Trial.path? r = some (.process serverId) := by
  refine Script.Only.bind ⟨rfl, fun _ => trivial⟩ fun n => ?_
  refine Script.Only.bind (Script.only_orThrow _ _ _) fun ids => ?_
  exact Script.Only.bind ⟨rfl, fun _ => trivial⟩ fun _ => trivial

/-! ## `allocate` -/

def Refused (t : Trial) (id : Int) : Prop :=
  t.world.zk (.segment id) ≠ none ∨ t.fateAt (.segment id) 0 = .failed

structure Lists (t : Trial) (serverId : Int) : Prop where
  node : t.world.zk (.process serverId) ≠ none
  get : t.fateAt (.process serverId) 0 ≠ .failed
  set : t.fateAt (.process serverId) 1 = .answered

/-- Nothing is left behind by an `allocate` that gets no address, maps nothing, makes no
node, or has its node and its entry in the process list both acknowledged. -/
def AllocateMeets (paging : Bool) (t : Trial) (size : Nat) (id : Int) (mapped : Option Nat)
    (rounds : Nat) : Prop :=
  (∀ address t', tried paging (Steps.getAllocationAddress size rounds) t ≠ (.ok address, t')) ∨
    mapped = none ∨ Refused t id ∨
    t.fateAt (.segment id) 0 = .answered ∧ Lists t t.world.server.serverId

structure Kept (w w' : World) : Prop where
  segments : ∀ id, w'.zk (.segment id) = w.zk (.segment id)
  lists : ∀ server, w'.zk (.process server) = w.zk (.process server)
  localSegments : w'.server.localSegments = w.server.localSegments

theorem Kept.congr {w w₁ w₂ : World} (h : Kept w w₁) : Kept w₁ w₂ ↔ Kept w w₂ :=
  ⟨fun h' => ⟨fun id => (h'.segments id).trans (h.segments id),
      fun k => (h'.lists k).trans (h.lists k), h'.localSegments.trans h.localSegments⟩,
    fun h' => ⟨fun id => (h'.segments id).trans (h.segments id).symm,
      fun k => (h'.lists k).trans (h.lists k).symm,
      h'.localSegments.trans h.localSegments.symm⟩⟩

theorem create_refused {source destination : Int} (h : Refused t id) :
    tried paging (Steps.createMemorySegmentNode address size source destination id) t =
      (.ok false, t.put (.segment id) t.world.zk) := by
  rw [Steps.createMemorySegmentNode, tried_create]
  rcases h with hthere | hfate
  · obtain ⟨n, hn⟩ := Option.ne_none_iff_exists'.mp hthere
    rw [create_of_some hn, attempt_none]
  · rw [hfate]
    rfl

theorem create_made {source destination : Int} (h : ¬ Refused t id) :
    ∃ zk created, tried paging (Steps.createMemorySegmentNode address size source destination id)
        t = (.ok created, t.put (.segment id) zk) ∧ zk (.segment id) ≠ none ∧
      (∀ p, p ≠ .segment id → zk p = t.world.zk p) ∧
      (created = true ↔ t.fateAt (.segment id) 0 = .answered) := by
  rw [Refused, not_or, not_not] at h
  rw [Steps.createMemorySegmentNode, tried_create, create_of_none h.1]
  refine ⟨_, _, rfl, ?_, fun p hp => attempt_of_ne (fun z hz => ?_) _, ?_⟩
  · cases hfate : t.fateAt (.segment id) 0 with
    | failed => exact absurd hfate h.2
    | answered | unreported => simp [Store.attempt]
  · cases hz
    exact update_of_ne hp _ _
  · cases t.fateAt (.segment id) 0 <;> simp [Store.attempt]

/-- Nobody comes between the read and the write, so the version is the current
one. -/
theorem addToProcessList_returns (serverId : Int) :
    ∃ listed u, tried paging (Steps.addToProcessList serverId id) t = (.ok listed, u) ∧
      (listed = true ↔ Lists t serverId) := by
  have hgot := @tried_get paging t (.process serverId)
  have hlists : ∀ n, t.world.zk (.process serverId) = some n → (Lists t serverId ↔
      t.fateAt (.process serverId) 0 ≠ .failed ∧ t.fateAt (.process serverId) 1 = .answered) :=
    fun n hn => ⟨fun h => ⟨h.get, h.set⟩, fun h => ⟨by simp [hn], h.1, h.2⟩⟩
  by_cases hget : t.fateAt (.process serverId) 0 = .failed
  · rw [if_pos hget] at hgot
    exact ⟨false, _, tried_bind hgot, iff_of_false (by simp) fun h => h.get hget⟩
  · rw [if_neg hget] at hgot
    cases hn : t.world.zk (.process serverId) with
    | none =>
        have hread : t.world.zk.get (.process serverId) = none := by simp [Store.get, hn]
        rw [hread] at hgot
        exact ⟨false, _, tried_bind hgot, iff_of_false (by simp) fun h => h.node hn⟩
    | some n =>
        have hread : t.world.zk.get (.process serverId) =
            some { n with data := cStr (n.data.take bufLen) } := by
          simp [Store.get, hn]
        rw [hread] at hgot
        refine ⟨_, _, (tried_bind hgot).trans (tried_set ..), ?_⟩
        rw [write_of_matches (t := t.put (.process serverId) t.world.zk) (n := n) hn (.inr rfl),
          hlists n hn, Trial.fateAt_put_self]
        cases t.fateAt (.process serverId) 1 <;> simp [Store.attempt, hget]

theorem tried_enter (res size : Nat) :
    tried paging (Steps.ask (.enter res size id)) t =
      (.ok (enterRecord paging t.world.server res size id).2,
        { t with world := ⟨(enterRecord paging t.world.server res size id).1, t.world.zk⟩ }) :=
  tried_local rfl rfl

theorem tried_enter_ne_none (res size : Nat) :
    tried paging (Steps.enter res size id) t ≠ (.ok none, t') := by
  rw [Steps.enter, tried_bind (tried_enter res size), enterRecord]
  cases RDMAMemory.construct t.world.server.serverId res size id with
  | none =>
      intro h
      cases h
  | some r =>
      intro h
      cases h

theorem recordSegment_unlisted {serverId : Int} {res : Nat} {created : Bool} {u v : Trial}
    (hcreate : tried paging (Steps.createMemorySegmentNode address size serverId (-1) id) t =
      (.ok created, u))
    (hlist : tried paging (if created then Steps.addToProcessList serverId id else pure false) u =
      (.ok false, v)) :
    tried paging (Steps.recordSegment serverId address size id res) t =
      (.ok none, { v with
        world := { v.world with server := v.world.server.munmap res size } }) := by
  have hmunmap := tried_bind (f := fun _ => (pure none : Steps (Option Nat)))
    (@tried_local paging v (.munmap res size) _ _ rfl rfl)
  rw [Steps.recordSegment, tried_bind hcreate]
  cases created with
  | false =>
      cases hlist
      exact hmunmap
  | true => exact (tried_bind hlist).trans hmunmap

theorem recordSegment_iff {res : Nat} :
    (∀ t', tried paging (Steps.recordSegment t.world.server.serverId address size id res) t =
        (.ok none, t') → Kept t.world t'.world) ↔
      Refused t id ∨ t.fateAt (.segment id) 0 = .answered ∧ Lists t t.world.server.serverId := by
  by_cases hrefused : Refused t id
  · refine iff_of_true (fun t' h => ?_) (.inl hrefused)
    rw [recordSegment_unlisted (create_refused hrefused) rfl] at h
    cases h
    exact ⟨fun _ => rfl, fun _ => rfl, rfl⟩
  · obtain ⟨zk, created, hcreate, hleft, hbeside, hcreated⟩ := @create_made paging t id address size
      t.world.server.serverId (-1) hrefused
    obtain ⟨listed, u, hadd, hlisted⟩ := @addToProcessList_returns paging
      (t.put (.segment id) zk) id t.world.server.serverId
    have hlists : Lists (t.put (.segment id) zk) t.world.server.serverId ↔
        Lists t t.world.server.serverId := by
      have hfates := fun k => Trial.fateAt_put_of_ne t (p := .segment id)
        (q := .process t.world.server.serverId) (by simp) zk k
      have hnode := hbeside (.process t.world.server.serverId) (by simp)
      exact ⟨fun h => ⟨hnode ▸ h.node, hfates 0 ▸ h.get, hfates 1 ▸ h.set⟩,
        fun h => ⟨hnode.trans_ne h.node, (hfates 0).trans_ne h.get, (hfates 1).trans h.set⟩⟩
    have habsent : t.world.zk (.segment id) = none := not_not.mp fun hne => hrefused (.inl hne)
    rw [or_iff_right hrefused, ← hcreated, ← hlists, ← hlisted]
    cases created with
    | false =>
        -- the node is there, and nobody knows
        refine iff_of_false (fun h => ?_) (by simp)
        have hsame := (h _ (recordSegment_unlisted hcreate rfl)).segments id
        exact hleft (Eq.trans hsame habsent)
    | true =>
        cases listed with
        | false =>
            have hnode : u.world.zk (.segment id) = zk (.segment id) :=
              (tried_beside (addToProcessList_only _ _) hadd).node _ (by simp)
            refine iff_of_false (fun h => ?_) (by simp)
            have hsame := (h _ (recordSegment_unlisted hcreate hadd)).segments id
            exact hleft (hnode.symm.trans (Eq.trans hsame habsent))
        | true =>
            refine iff_of_true (fun t' h => ?_) ⟨rfl, rfl⟩
            rw [Steps.recordSegment, tried_bind hcreate, if_pos rfl, tried_bind hadd] at h
            exact absurd h (tried_enter_ne_none _ _)

theorem allocate_iff {rounds : Nat} {mapped : Option Nat} :
    AllocateMeets paging t size id mapped rounds ↔
      ∀ t', tried paging (Steps.allocate t.world.server.serverId size id mapped rounds) t =
        (.ok none, t') → Kept t.world t'.world := by
  by_cases haddress : ∃ address u,
      tried paging (Steps.getAllocationAddress size rounds) t = (.ok address, u)
  · obtain ⟨address, u, hu⟩ := haddress
    have hbeside := tried_beside (getAllocationAddress_only size rounds) hu
    have hkept : Kept t.world u.world :=
      ⟨fun _ => hbeside.node _ (by simp), fun _ => hbeside.node _ (by simp),
        congrArg Server.localSegments hbeside.server⟩
    rw [AllocateMeets, or_iff_right fun h => h address u hu, Steps.allocate, tried_bind hu]
    cases mapped with
    | none =>
        refine iff_of_true (.inl rfl) fun t' h => ?_
        cases h
        exact hkept
    | some res =>
        let v : Trial := { u with world := { u.world with server := u.world.server.mmap size res } }
        have hmmap : tried paging (Steps.ask (.mmap size res)) u = (.ok (), v) :=
          tried_local rfl rfl
        have hkeptv : Kept t.world v.world := ⟨hkept.segments, hkept.lists, hkept.localSegments⟩
        have hserver : v.world.server.serverId = t.world.server.serverId := by
          show u.world.server.serverId = _
          rw [hbeside.server]
        rw [or_iff_right (by simp)]
        simp only [tried_bind hmmap, ← hkeptv.congr]
        rw [← hserver, recordSegment_iff, hserver]
        have hsegment : v.fateAt (.segment id) 0 = t.fateAt (.segment id) 0 :=
          hbeside.fateAt (by simp) 0
        have hlist := fun k => hbeside.fateAt (q := .process t.world.server.serverId) (by simp) k
        have hnode := hkept.lists t.world.server.serverId
        refine or_congr ?_ (and_congr (by rw [hsegment]) ?_)
        · rw [Refused, Refused, hsegment, hkeptv.segments]
        · exact ⟨fun h => ⟨hnode.trans_ne h.node, (hlist 0).trans_ne h.get, (hlist 1).trans h.set⟩,
            fun h => ⟨hnode.symm.trans_ne h.node, (hlist 0).symm.trans_ne h.get,
              (hlist 1).symm.trans h.set⟩⟩
  · refine iff_of_true (.inl fun address u hu => haddress ⟨address, u, hu⟩) fun t' h => ?_
    obtain ⟨address, u, hu, -⟩ := tried_bind_ok h
    exact absurd ⟨address, u, hu⟩ haddress

/-! ## `deallocate` -/

/-- The record of the segment can be read, and says where it is. -/
structure Readable (z : Store) (id : Int) (addr size : Nat) : Prop where
  record : ∃ n map, z.get (.segment id) = some n ∧ zsToMap n.data = some map ∧
    stoul (map.field Key.address) = some addr ∧ stoull (map.field Key.size) = some size

/-- The local part of `deallocate` goes through: the record is there, and the
process list can be decoded if it is read at all. -/
structure Forgettable (t : Trial) (addr : Nat) : Prop where
  record : ∃ p memory, t.world.server.localSegments.lookup addr = some p ∧
    t.world.server.heap[p]? = some memory
  list : t.fateAt (.process t.world.server.serverId) 0 = .failed ∨
    (zsToProcessList (textOf (t.world.zk.get (.process t.world.server.serverId)))).isSome

/-- `deleteMemorySegment`, whose read is the `k`-th request for the segment, names the
version of the node: the read does not fail, or what the stack holds is taken for it. -/
def Hits (t : Trial) (id : Int) (k : Nat) : Prop :=
  t.fateAt (.segment id) k = .failed →
    ∃ n, t.world.zk (.segment id) = some n ∧ Matches (t.unset (.segment id)) n

/-- The failures under which `deallocate` keeps its word: it can read the record,
and then either the segment is not local and the removal is not carried out
without being reported, or the local part goes through and the removal after it
succeeds. -/
def DeallocateMeets (t : Trial) (id : Int) : Prop :=
  ∃ addr size, Readable t.world.zk id addr size ∧ t.fateAt (.segment id) 0 ≠ .failed ∧
    (t.world.server.localSegments.lookup addr = none ∧
        ¬ (Hits t id 1 ∧ t.fateAt (.segment id) 2 = .unreported) ∨
      Forgettable t addr ∧ Hits t id 1 ∧ t.fateAt (.segment id) 2 = .answered)

structure Unchanged (id : Int) (w w' : World) : Prop where
  segment : w'.zk (.segment id) = w.zk (.segment id)
  list : w'.zk (.process w.server.serverId) = w.zk (.process w.server.serverId)
  localSegments : w'.server.localSegments = w.server.localSegments
  mapped : w'.server.mapped = w.server.mapped

theorem Readable.node (h : Readable z id addr size) :
    ∃ n map, z (.segment id) = some n ∧
      z.get (.segment id) = some { n with data := cStr (n.data.take bufLen) } ∧
      zsToMap (cStr (n.data.take bufLen)) = some map := by
  obtain ⟨m, map, hm, hmap, -⟩ := h.record
  obtain ⟨n, hn, rfl⟩ := Option.map_eq_some_iff.mp hm
  exact ⟨n, map, hn, hm, hmap⟩

/-- `deleteMemorySegment` on a record that is there. A failed read leaves an empty text,
which is an empty record. -/
theorem deleteMemorySegment_returns (hrecord : Readable t.world.zk id addr size) :
    ∃ removed t', tried paging (Steps.deleteMemorySegment id) t = (.ok removed, t') ∧
      (removed = true ↔ Hits t id 0 ∧ t.fateAt (.segment id) 1 = .answered) ∧
      (Hits t id 0 ∧ t.fateAt (.segment id) 1 = .unreported → t'.world.zk (.segment id) = none) ∧
      (removed = false → ¬ (Hits t id 0 ∧ t.fateAt (.segment id) 1 = .unreported) →
        t'.world = t.world) ∧ t'.world.server = t.world.server := by
  obtain ⟨n, map, hn, hgetn, hmap⟩ := hrecord.node
  have hnext := Trial.fateAt_put_self t (.segment id) t.world.zk 0
  -- the version that the removal names
  obtain ⟨version, hrun, hhits⟩ : ∃ version : Option Nat,
      tried paging (Steps.deleteMemorySegment id) t =
        tried paging (Steps.ask (.remove (.segment id) version)) (t.put (.segment id) t.world.zk) ∧
      (Hits t id 0 ↔ Matches (t.statVersion (.segment id) version) n) := by
    have hgot := @tried_get paging t (.segment id)
    by_cases hget : t.fateAt (.segment id) 0 = .failed
    · rw [if_pos hget] at hgot
      refine ⟨none, ?_, ?_⟩
      · have hempty : zsToMap (textOf none) = some ∅ := rfl
        rw [Steps.deleteMemorySegment, tried_bind hgot, hempty, tried_bind (tried_orThrow ..),
          Option.map_none]
      · refine ⟨fun h => ?_, fun h _ => ⟨n, hn, h⟩⟩
        obtain ⟨m, hm, hmatch⟩ := h hget
        cases hn.symm.trans hm
        exact hmatch
    · rw [if_neg hget, hgetn] at hgot
      refine ⟨some n.version, ?_, iff_of_true (fun hfailed => absurd hfailed hget) (.inr rfl)⟩
      have htext : zsToMap (textOf (some { n with data := cStr (n.data.take bufLen) })) =
        some map := hmap
      rw [Steps.deleteMemorySegment, tried_bind hgot, htext, tried_bind (tried_orThrow ..),
        Option.map_some]
  rw [hrun, hhits, tried_remove]
  by_cases hmatch : Matches (t.statVersion (.segment id) version) n
  · rw [write_of_matches (t := t.put (.segment id) t.world.zk) (n := n) hn hmatch, hnext]
    refine ⟨_, _, rfl, ?_⟩
    cases t.fateAt (.segment id) 1 <;> simp [Store.attempt, hmatch, Trial.put]
  · rw [write_of_not_matches (t := t.put (.segment id) t.world.zk) (n := n) hn hmatch]
    exact ⟨_, _, rfl, by simp [hmatch], fun h => absurd h.1 hmatch, fun _ _ => rfl, rfl⟩

theorem removeFromProcessList_returns_iff {serverId : Int} :
    (∃ ok t', tried paging (Steps.removeFromProcessList serverId id) t = (.ok ok, t')) ↔
      t.fateAt (.process serverId) 0 = .failed ∨
        (zsToProcessList (textOf (t.world.zk.get (.process serverId)))).isSome := by
  have hgot := @tried_get paging t (.process serverId)
  rw [Steps.removeFromProcessList, tried_bind hgot]
  by_cases hget : t.fateAt (.process serverId) 0 = .failed
  · rw [if_pos hget]
    have hempty : zsToProcessList (textOf none) = some [] := rfl
    rw [hempty, tried_bind (tried_orThrow ..)]
    exact iff_of_true ⟨_, _, tried_bind (tried_set ..)⟩ (.inl hget)
  · rw [if_neg hget, or_iff_right hget]
    cases hids : zsToProcessList (textOf (t.world.zk.get (.process serverId))) with
    | none =>
        refine iff_of_false ?_ (by simp)
        rintro ⟨ok, t', h⟩
        cases h
    | some ids =>
        rw [tried_bind (tried_orThrow ..)]
        exact iff_of_true ⟨_, _, tried_bind (tried_set ..)⟩ rfl

theorem tried_forget {p : Nat} (hlookup : t.world.server.localSegments.lookup addr = some p) :
    tried paging (Steps.forget t.world.server.serverId addr size) t =
      tried paging (do
        let id ← Script.orThrow .nullPointer
          ((t.world.server.heap[p]?).map RDMAMemory.applicationId)
        let _ ← Steps.removeFromProcessList t.world.server.serverId id
        Steps.ask (.erase addr))
        { t with world := { t.world with server := t.world.server.munmap addr size } } := by
  have hfind : ∀ u : Trial, u.world.server.localSegments = t.world.server.localSegments →
      u.world.server.heap = t.world.server.heap → tried paging (Steps.ask (.find addr)) u =
        (.ok (some ((t.world.server.heap[p]?).map RDMAMemory.applicationId)), u) := by
    intro u hsegments hheap
    have hfound : findRecord u.world.server addr =
        some ((t.world.server.heap[p]?).map RDMAMemory.applicationId) := by
      simp [findRecord, hsegments, hheap, hlookup]
    exact hfound ▸ tried_local rfl rfl
  rw [Steps.forget, tried_bind (hfind t rfl rfl)]
  refine (tried_bind (tried_local (r := .munmap addr size) rfl rfl)).trans ?_
  refine (tried_bind (hfind { t with
    world := { t.world with server := t.world.server.munmap addr size } } rfl rfl)).trans ?_
  rw [tried_bind (tried_orThrow ..)]

theorem forget_returns (h : Forgettable t addr) :
    ∃ t', tried paging (Steps.forget t.world.server.serverId addr size) t = (.ok (), t') ∧
      t'.world.zk (.segment id) = t.world.zk (.segment id) ∧
      t'.fates (.segment id) = t.fates (.segment id) ∧ t'.unset = t.unset ∧
      t'.world.server.localSegments ≠ t.world.server.localSegments := by
  obtain ⟨p, memory, hlookup, hmemory⟩ := h.record
  obtain ⟨ok, v, hremove⟩ := (@removeFromProcessList_returns_iff paging
    { t with world := { t.world with server := t.world.server.munmap addr size } }
    memory.applicationId t.world.server.serverId).mpr h.list
  have hbeside := tried_beside (removeFromProcessList_only _ _) hremove
  refine ⟨{ v with world := { v.world with server := { v.world.server with
      localSegments := v.world.server.localSegments.erase addr } } }, ?_,
    hbeside.node _ (by simp), hbeside.fates _ (by simp), hbeside.unset, ?_⟩
  · rw [tried_forget hlookup, hmemory, Option.map_some, tried_bind (tried_orThrow ..),
      tried_bind hremove]
    exact tried_local rfl rfl
  · intro heq
    have hgone := congrArg (AList.lookup addr) heq
    rw [AList.lookup_erase, hlookup] at hgone
    cases hgone

theorem forgettable_of_forget {p : Nat} {t' : Trial}
    (hlookup : t.world.server.localSegments.lookup addr = some p)
    (h : tried paging (Steps.forget t.world.server.serverId addr size) t = (.ok (), t')) :
    Forgettable t addr := by
  rw [tried_forget hlookup] at h
  obtain ⟨id, u, hthrow, h⟩ := tried_bind_ok h
  obtain ⟨hid, rfl⟩ := tried_orThrow_ok hthrow
  obtain ⟨memory, hmemory, -⟩ := Option.map_eq_some_iff.mp hid
  obtain ⟨ok, v, hremove, -⟩ := tried_bind_ok h
  have hlist := removeFromProcessList_returns_iff.mp ⟨ok, v, hremove⟩
  exact ⟨⟨p, memory, hlookup, hmemory⟩, hlist⟩

theorem forget_nothing (hlookup : t.world.server.localSegments.lookup addr = none) :
    tried paging (Steps.forget t.world.server.serverId addr size) t = (.ok (), t) := by
  have hfind : tried paging (Steps.ask (.find addr)) t = (.ok none, t) := by
    have hfound : findRecord t.world.server addr = none := by simp [findRecord, hlookup]
    exact hfound ▸ tried_local rfl rfl
  rw [Steps.forget, tried_bind hfind]
  rfl

theorem getMemorySegment_returns (hrecord : Readable t.world.zk id addr size)
    (hget : t.fateAt (.segment id) 0 ≠ .failed) :
    tried paging (Steps.deallocate t.world.server.serverId id) t =
      tried paging (Steps.forget t.world.server.serverId addr size >>= fun _ =>
        Steps.deleteMemorySegment id) (t.put (.segment id) t.world.zk) := by
  obtain ⟨n, map, hn, hmap, haddr, hsize⟩ := hrecord.record
  have hgot := @tried_get paging t (.segment id)
  rw [if_neg hget, hn] at hgot
  have hread : tried paging (Steps.getMemorySegment id) t =
      (.ok map, t.put (.segment id) t.world.zk) := by
    have htext : zsToMap (textOf (some n)) = some map := hmap
    rw [Steps.getMemorySegment, tried_bind hgot, htext]
    rfl
  rw [Steps.deallocate, tried_bind hread, haddr, tried_bind (tried_orThrow ..), hsize,
    tried_bind (tried_orThrow ..)]

/-- The empty record of a failed read has no address. -/
theorem readable_of_deallocate {removed : Bool} {t' : Trial}
    (h : tried paging (Steps.deallocate t.world.server.serverId id) t = (.ok removed, t')) :
    ∃ addr size, Readable t.world.zk id addr size ∧ t.fateAt (.segment id) 0 ≠ .failed := by
  obtain ⟨map, u₁, hget₁, h⟩ := tried_bind_ok h
  rw [Steps.getMemorySegment, tried_bind (tried_get _)] at hget₁
  obtain ⟨hmap, -⟩ := tried_orThrow_ok hget₁
  obtain ⟨addr, u₂, hthrow₁, h⟩ := tried_bind_ok h
  obtain ⟨haddr, -⟩ := tried_orThrow_ok hthrow₁
  obtain ⟨size, u₃, hthrow₂, -⟩ := tried_bind_ok h
  obtain ⟨hsize, -⟩ := tried_orThrow_ok hthrow₂
  have hempty : zsToMap (textOf none) ≠ some map := by
    intro heq
    have hnone : stoul ((∅ : TextMap).field Key.address) = none := rfl
    cases (Option.some.inj heq).symm
    cases hnone.symm.trans haddr
  by_cases hget : t.fateAt (.segment id) 0 = .failed
  · rw [if_pos hget] at hmap
    exact absurd hmap hempty
  · rw [if_neg hget] at hmap
    cases hn : t.world.zk.get (.segment id) with
    | none =>
        rw [hn] at hmap
        exact absurd hmap hempty
    | some n =>
        rw [hn] at hmap
        exact ⟨addr, size, ⟨n, map, hn, hmap, haddr, hsize⟩, hget⟩

theorem Readable.of_node {z' : Store} (h : Readable z id addr size)
    (heq : z' (.segment id) = z (.segment id)) : Readable z' id addr size := by
  obtain ⟨n, map, hn, hrest⟩ := h.record
  have hget : z'.get (.segment id) = z.get (.segment id) := by simp [Store.get, heq]
  exact ⟨n, map, hget.trans hn, hrest⟩

theorem hits_congr {k : Nat} (hnode : t'.world.zk (.segment id) = t.world.zk (.segment id))
    (hfates : t'.fateAt (.segment id) k = t.fateAt (.segment id) (k + 1))
    (hunset : t'.unset = t.unset) : Hits t' id k ↔ Hits t id (k + 1) := by
  rw [Hits, Hits, hnode, hfates, hunset]

theorem deallocate_iff_of_readable (hrecord : Readable t.world.zk id addr size)
    (hget : t.fateAt (.segment id) 0 ≠ .failed) :
    (t.world.server.localSegments.lookup addr = none ∧
        ¬ (Hits t id 1 ∧ t.fateAt (.segment id) 2 = .unreported) ∨
      Forgettable t addr ∧ Hits t id 1 ∧ t.fateAt (.segment id) 2 = .answered) ↔
    ∃ removed t', tried paging (Steps.deallocate t.world.server.serverId id) t =
      (.ok removed, t') ∧ (removed = false → Unchanged id t.world t'.world) := by
  rw [getMemorySegment_returns hrecord hget]
  have hfates := Trial.fateAt_put_self t (.segment id) t.world.zk
  cases hlookup : t.world.server.localSegments.lookup addr with
  | none =>
      have hforgettable : ¬ Forgettable t addr := by
        rintro ⟨⟨p, memory, hp, -⟩, -⟩
        cases hlookup.symm.trans hp
      have hforget := @forget_nothing paging (t.put (.segment id) t.world.zk) addr size hlookup
      obtain ⟨removed, t', hdelete, hremoved, hlost, hkept, -⟩ :=
        @deleteMemorySegment_returns paging (t.put (.segment id) t.world.zk) id addr size hrecord
      rw [tried_bind (by exact hforget), hdelete]
      have hhits : Hits (t.put (.segment id) t.world.zk) id 0 ↔ Hits t id 1 :=
        hits_congr rfl (hfates 0) rfl
      rw [hhits, hfates 1] at hremoved hlost hkept
      simp only [hforgettable, false_and, or_false, true_and]
      constructor
      · intro hreported
        refine ⟨removed, t', rfl, fun hfalse => ?_⟩
        rw [hkept hfalse hreported]
        exact ⟨rfl, rfl, rfl, rfl⟩
      · rintro ⟨removed', t'', heq, hunchanged⟩ hunreported
        cases heq
        obtain ⟨n, map, hn, -⟩ := hrecord.node
        have hfalse : removed = false := by
          rw [← Bool.not_eq_true, hremoved, hunreported.2]
          simp
        have hsame := (hunchanged hfalse).segment
        rw [hlost hunreported, hn] at hsame
        cases hsame
  | some p =>
      simp only [reduceCtorEq, false_and, false_or]
      have hpending : Forgettable (t.put (.segment id) t.world.zk) addr ↔ Forgettable t addr := by
        have hlist := Trial.fateAt_put_of_ne t (p := .segment id)
          (q := .process t.world.server.serverId) (by simp) t.world.zk 0
        exact ⟨fun h => ⟨h.record, hlist ▸ h.list⟩, fun h => ⟨h.record, hlist.symm ▸ h.list⟩⟩
      by_cases hforgettable : Forgettable t addr
      · obtain ⟨u, hu, hnode, hleft, hunset, hgone⟩ := @forget_returns paging _ id addr size
          (hpending.mpr hforgettable)
        have hafter : ∀ k, u.fateAt (.segment id) k = t.fateAt (.segment id) (k + 1) := by
          intro k
          rw [← hfates, Trial.fateAt, hleft]
          rfl
        obtain ⟨removed, t', hdelete, hremoved, -, -, hserver⟩ :=
          @deleteMemorySegment_returns paging u id addr size (hrecord.of_node hnode)
        rw [tried_bind (by exact hu), hdelete]
        have hhits : Hits u id 0 ↔ Hits t id 1 := hits_congr hnode (hafter 0) hunset
        rw [hhits, hafter 1] at hremoved
        rw [and_iff_right hforgettable, ← hremoved]
        constructor
        · rintro rfl
          exact ⟨true, t', rfl, by simp⟩
        · rintro ⟨removed', t'', heq, hunchanged⟩
          cases heq
          by_contra hfalse
          exact hgone (hserver ▸ (hunchanged (by simpa using hfalse)).localSegments)
      · refine iff_of_false (fun h => hforgettable h.1) ?_
        rintro ⟨removed, t', h, -⟩
        obtain ⟨_, u, hforget, -⟩ := tried_bind_ok h
        exact hforgettable (hpending.mp (forgettable_of_forget hlookup hforget))

theorem deallocate_iff :
    DeallocateMeets t id ↔
      ∃ removed t', tried paging (Steps.deallocate t.world.server.serverId id) t =
        (.ok removed, t') ∧ (removed = false → Unchanged id t.world t'.world) := by
  constructor
  · rintro ⟨addr, size, hrecord, hget, hcase⟩
    exact (deallocate_iff_of_readable hrecord hget).mp hcase
  · intro h
    obtain ⟨removed, t', htried, hunchanged⟩ := h
    obtain ⟨addr, size, hrecord, hget⟩ := readable_of_deallocate htried
    exact ⟨addr, size, hrecord, hget,
      (deallocate_iff_of_readable hrecord hget).mpr ⟨removed, t', htried, hunchanged⟩⟩

/-- The failures under which an `allocate` that returns a null pointer leaves no trace,
and under which `deallocate` returns, with everything as it was when it returns -1. -/
theorem allocate_deallocate_all_or_nothing (paging : Bool) (t : Trial) (id : Int) :
    (∀ size mapped rounds, AllocateMeets paging t size id mapped rounds ↔
      ∀ t', tried paging (Steps.allocate t.world.server.serverId size id mapped rounds) t =
        (.ok none, t') → Kept t.world t'.world) ∧
    (DeallocateMeets t id ↔
      ∃ removed t', tried paging (Steps.deallocate t.world.server.serverId id) t =
          (.ok removed, t') ∧ (removed = false → Unchanged id t.world t'.world)) :=
  ⟨fun _ _ _ => allocate_iff, deallocate_iff⟩

def newWorld : World :=
  { server := Server.construct 2 0
    zk := fun p =>
      match p with
      | .allocator => some ⟨decimal allocatableRangeStart, 0⟩
      | .process _ => some ⟨[], 0⟩
      | .segment _ => none }

def listUnreadable : Trial :=
  { world := newWorld
    fates := fun p => if p = .process 0 then [.failed] else []
    unset := fun _ => 0 }

/-- The node of segment 7 stays behind when the process list cannot be read, and
`deallocate` of a segment that does not exist throws. -/
theorem node_left_and_exception :
    (∃ t', tried false (Steps.allocate 0 4096 7 (some allocatableRangeStart) 1) listUnreadable =
        (.ok none, t') ∧
      listUnreadable.world.zk (.segment 7) = none ∧ t'.world.zk (.segment 7) ≠ none) ∧
    ∃ t', tried false (Steps.deallocate 0 7) listUnreadable = (.error .invalidArgument, t') := by
  have hnull : (tried false (Steps.allocate 0 4096 7 (some allocatableRangeStart) 1)
      listUnreadable).1 = .ok none := by decide +kernel
  have hleft : ((tried false (Steps.allocate 0 4096 7 (some allocatableRangeStart) 1)
      listUnreadable).2.world.zk (.segment 7)).isSome = true := by decide +kernel
  have hthrows : (tried false (Steps.deallocate 0 7) listUnreadable).1 =
      .error .invalidArgument := by decide +kernel
  exact ⟨⟨_, Prod.ext hnull rfl, rfl, Option.isSome_iff_ne_none.mp hleft⟩, _, Prod.ext hthrows rfl⟩

def oneLocalSegment : Trial :=
  { world := (tried false (Steps.allocate 0 4096 7 (some allocatableRangeStart) 1)
      ⟨newWorld, fun _ => [], fun _ => 0⟩).2.world
    fates := fun p => if p = .segment 8 then [.failed] else []
    unset := fun _ => 0 }

theorem oneLocalSegment_readable :
    Readable oneLocalSegment.world.zk 7 allocatableRangeStart 4096 := by
  refine ⟨_, _, rfl, rfl, ?_, ?_⟩
  · decide +kernel
  · decide +kernel

theorem oneLocalSegment_forgettable : Forgettable oneLocalSegment allocatableRangeStart := by
  have hlookup : oneLocalSegment.world.server.localSegments.lookup allocatableRangeStart =
      some 0 := by decide +kernel
  have hheap : (oneLocalSegment.world.server.heap[0]?).isSome = true := by decide +kernel
  obtain ⟨memory, hmemory⟩ := Option.isSome_iff_exists.mp hheap
  exact ⟨⟨0, memory, hlookup, hmemory⟩, .inr (by decide +kernel)⟩

theorem allocate_deallocate_one_segment :
    (∃ t', tried false (Steps.allocate 0 4096 8 (some (allocatableRangeStart + 4096)) 1)
        oneLocalSegment = (.ok none, t') ∧ Kept oneLocalSegment.world t'.world) ∧
    ∃ removed t', tried false (Steps.deallocate 0 7) oneLocalSegment = (.ok removed, t') ∧
      (removed = false → Unchanged 7 oneLocalSegment.world t'.world) := by
  have hnull : (tried false (Steps.allocate 0 4096 8 (some (allocatableRangeStart + 4096)) 1)
      oneLocalSegment).1 = .ok none := by decide +kernel
  have hfails : AllocateMeets false oneLocalSegment 4096 8
      (some (allocatableRangeStart + 4096)) 1 :=
    .inr (.inr (.inl (.inr (by decide +kernel))))
  have hread : oneLocalSegment.fateAt (.segment 7) 1 ≠ .failed := by decide +kernel
  have hmeets : DeallocateMeets oneLocalSegment 7 :=
    ⟨_, _, oneLocalSegment_readable, by decide +kernel,
      .inr ⟨oneLocalSegment_forgettable, fun hfailed => absurd hfailed hread, by decide +kernel⟩⟩
  have hid : oneLocalSegment.world.server.serverId = 0 := by decide +kernel
  have hallocate :=
    ((allocate_deallocate_all_or_nothing false oneLocalSegment 8).1 4096 _ 1).mp hfails
  have hdeallocate := (allocate_deallocate_all_or_nothing false oneLocalSegment 7).2.mp hmeets
  rw [hid] at hallocate hdeallocate
  exact ⟨⟨_, Prod.ext hnull rfl, hallocate _ (Prod.ext hnull rfl)⟩, hdeallocate⟩

end RdmaMigration.FaultTolerant.AllOrNothing
