import RdmaMigration.Cluster.Migrate
import RdmaMigration.Lib.Buckets
import RdmaMigration.Lib.Run

/-! # Who may hand out an address

A cluster without fault tolerance in which servers allocate, deallocate what they
hold, and migrate segments from end to end. Every server starts with its own part
of the address range, but a migration leaves a record of the block on the free
list of the source while the destination holds it. The field that tells the two
apart is the record's `owner`, which `Transfer` sets and `allocate` never reads.
-/

namespace RdmaMigration.Cluster.Ownership

open Lib Function Network Manager Containers

/-! ## The cluster -/

/-- `held i p` says that the application of server `i` holds the block of its
record `p`: allocated or received, and neither given away nor deallocated. -/
structure State where
  server : Int → Server
  held : Int → Nat → Bool

def initial (n : Nat) : State := ⟨fun i => .construct n i, fun _ _ => false⟩

inductive Action where
  | allocate (i : Int) (size : Nat) (reuse fresh : Option Nat)
  | deallocate (i : Int) (p : Nat)
  | migrate (s d : Int) (p : Nat)
  deriving DecidableEq, Repr

def State.setServer (st : State) (i : Int) (s : Server) : State :=
  { st with server := update st.server i s }

def State.setHeld (st : State) (i : Int) (p : Nat) (value : Bool) : State :=
  { st with held := update st.held i (update (st.held i) p value) }

def IsServer (n : Nat) (i : Int) : Prop := 0 ≤ i ∧ i < n

instance (n : Nat) (i : Int) : Decidable (IsServer n i) := inferInstanceAs (Decidable (_ ∧ _))

def allocateStep (st : State) (i : Int) (size : Nat) (reuse fresh : Option Nat) : State :=
  match (st.server i).allocate size reuse fresh with
  | (s, .ok (some addr)) =>
      match s.memoryMap.lookup addr with
      | some p => (st.setServer i s).setHeld i p true
      | none => st.setServer i s
  | (s, _) => st.setServer i s

def deallocateStep (st : State) (i : Int) (p : Nat) : Option State := do
  let memory ← (st.server i).heap[p]?
  let s ← ((st.server i).deallocate memory.vaddr).toOption
  return (st.setServer i s).setHeld i p false

def migrateStep (b : Build) (st : State) (s d : Int) (p : Nat) : Option State := do
  let memory ← (st.server s).heap[p]?
  if ¬ (st.server d).MapsAt memory.size memory.vaddr then none else
  let (source, destination, q) ←
    migrate b (st.server s) (st.server d) ⟨memory.vaddr, memory.size, none⟩
  return (((st.setServer s source).setServer d destination).setHeld s p false).setHeld d q true

/-- `mmap` answers with a place it may use, and a server only gives away or
deallocates what it holds. -/
def step (b : Build) (n : Nat) (st : State) : Action → Option State
  | .allocate i size reuse fresh =>
      if IsServer n i ∧ (∀ res ∈ reuse, (st.server i).MapsAt size res) ∧
          (∀ res ∈ fresh, (st.server i).MapsAt size res) then
        some (allocateStep st i size reuse fresh)
      else none
  | .deallocate i p =>
      if IsServer n i ∧ st.held i p = true then deallocateStep st i p else none
  | .migrate s d p =>
      if IsServer n s ∧ IsServer n d ∧ s ≠ d ∧ st.held s p = true then migrateStep b st s d p
      else none

def firstFree (s : Server) (size : Nat) : Option Nat := (s.freeMap.lookup size).bind List.head?

/-- The runs in which every mapping is made where `allocate` asked for it, and no
server reuses a record of which it is no longer the owner. -/
def OwnBlocks (st : State) : Action → Prop
  | .allocate i size reuse fresh =>
      (∀ res ∈ fresh, res = (st.server i).allocAddress) ∧
      ∀ p ∈ firstFree (st.server i) size, ∀ memory ∈ (st.server i).heap[p]?, ∀ res ∈ reuse,
        res = memory.vaddr ∧ memory.owner = i
  | .deallocate _ _ | .migrate _ _ _ => True

instance (st : State) (act : Action) : Decidable (OwnBlocks st act) :=
  match act with
  | .allocate _ _ _ _ => inferInstanceAs (Decidable (_ ∧ _))
  | .deallocate _ _ | .migrate _ _ _ => .isTrue trivial

/-! ## The part of the address range that belongs to a server -/

theorem startAddress_bound {n : Nat} {i : Int} (hi : IsServer n i) :
    startAddress n i + perServer n ≤ allocatableRangeEnd := by
  have hlt : i.toNat + 1 ≤ n := by
    unfold IsServer at hi
    omega
  have hmul : (i.toNat + 1) * perServer n ≤ n * perServer n := Nat.mul_le_mul_right _ hlt
  have hdiv : n * perServer n ≤ allocatableRangeEnd - allocatableRangeStart :=
    Nat.mul_div_le _ _
  have hle : allocatableRangeStart ≤ allocatableRangeEnd := by decide
  rw [Nat.add_mul] at hmul
  unfold startAddress
  omega

theorem startAddress_apart {n : Nat} {i j : Int} (hi : IsServer n i) (hj : IsServer n j)
    (hij : i ≠ j) : startAddress n i + perServer n ≤ startAddress n j ∨
      startAddress n j + perServer n ≤ startAddress n i := by
  have hbelow : ∀ {a c : Nat}, a < c → a * perServer n + perServer n ≤ c * perServer n := by
    intro a c hac
    calc a * perServer n + perServer n = (a + 1) * perServer n := by rw [Nat.add_mul, Nat.one_mul]
      _ ≤ c * perServer n := Nat.mul_le_mul_right _ hac
  unfold IsServer at hi hj
  unfold startAddress
  rcases Nat.lt_or_gt_of_ne (show i.toNat ≠ j.toNat by omega) with hlt | hlt
  · have := hbelow hlt
    omega
  · have := hbelow hlt
    omega

/-! ## The invariant -/

def Free (l : Ledger) (p : Nat) : Prop :=
  ∃ size list, l.freeMap.lookup size = some list ∧ p ∈ list

/-- The block of record `p` is one that server `i` holds or may hand out again. -/
def Live (st : State) (i : Int) (p : Nat) (k : Block) : Prop :=
  (st.server i).ledger.blocks[p]? = some k ∧
    (st.held i p = true ∨ (Free (st.server i).ledger p ∧ k.owner = i))

structure ServerInv (n : Nat) (held : Nat → Bool) (i : Int) (l : Ledger) : Prop where
  serverId : l.serverId = i
  endAddress : l.endAddress = startAddress n i + perServer n
  lower : startAddress n i ≤ l.allocAddress
  upper : l.allocAddress ≤ l.endAddress
  queues : l.accepts = [] ∧ l.dones = [] ∧ l.transfers = []
  free : ∀ size list, l.freeMap.lookup size = some list →
    list.Nodup ∧ ∀ p ∈ list, held p = false ∧ ∃ k, l.blocks[p]? = some k ∧ k.size = size
  held : ∀ p, held p = true → ∃ k, l.blocks[p]? = some k ∧ l.memoryMap.lookup k.vaddr = some p

structure Inv (n : Nat) (st : State) : Prop where
  server : ∀ i, IsServer n i → ServerInv n (st.held i) i (st.server i).ledger
  member : ∀ i p k, Live st i p k → IsServer n i
  inside : ∀ i p k, Live st i p k → 0 < k.size ∧ ∃ j, IsServer n j ∧
    startAddress n j ≤ k.vaddr ∧ k.vaddr + k.size ≤ (st.server j).allocAddress
  apart : ∀ i p k j q k', Live st i p k → Live st j q k' → (i, p) ≠ (j, q) →
    ¬ Overlap (k.vaddr, k.size) (k'.vaddr, k'.size)

theorem initial_inv (n : Nat) : Inv n (initial n) := by
  have hdead : ∀ i p k, ¬ Live (initial n) i p k := by
    intro i p k h
    simp [Live, initial, Server.construct, Server.ledger] at h
  refine ⟨?_, fun i p k h => absurd h (hdead i p k), fun i p k h => absurd h (hdead i p k),
    fun i p k j q k' h => absurd h (hdead i p k)⟩
  intro i hi
  refine ⟨rfl, rfl, Nat.le_refl _, Nat.le_add_right _ _, ⟨rfl, rfl, rfl⟩, ?_, ?_⟩
  · intro size list h
    simp [initial, Server.construct, Server.ledger] at h
  · intro p h
    simp [initial] at h

theorem Inv.of_moved {n : Nat} {st st' : State} (hi : Inv n st) (origin : Int × Nat → Int × Nat)
    (hserver : ∀ i, IsServer n i → ServerInv n (st'.held i) i (st'.server i).ledger)
    (hmember : ∀ i p k, Live st' i p k → IsServer n i)
    (hlive : ∀ i p k, Live st' i p k → ∃ k₀, Live st (origin (i, p)).1 (origin (i, p)).2 k₀ ∧
      k₀.vaddr = k.vaddr ∧ k₀.size = k.size)
    (hinj : ∀ i p k j q k', Live st' i p k → Live st' j q k' → (i, p) ≠ (j, q) →
      origin (i, p) ≠ origin (j, q))
    (halloc : ∀ j, (st.server j).allocAddress ≤ (st'.server j).allocAddress) : Inv n st' := by
  refine ⟨hserver, hmember, ?_, ?_⟩
  · intro i p k h
    obtain ⟨k₀, hk₀, hv, hs⟩ := hlive i p k h
    obtain ⟨hpos, j, hj, hlo, hhi⟩ := hi.inside _ _ _ hk₀
    have hle := halloc j
    exact ⟨by omega, j, hj, by omega, by omega⟩
  · intro i p k j q k' h h' hne
    obtain ⟨k₀, hk₀, hv, hs⟩ := hlive i p k h
    obtain ⟨k₁, hk₁, hv', hs'⟩ := hlive j q k' h'
    rw [← hv, ← hs, ← hv', ← hs']
    exact hi.apart _ _ _ _ _ _ hk₀ hk₁ (hinj i p k j q k' h h' hne)

theorem Inv.vaddr_ne {n : Nat} {st : State} (hi : Inv n st) {i : Int} {p q : Nat} {k k' : Block}
    (h : Live st i p k) (h' : Live st i q k') (hpq : p ≠ q) : k.vaddr ≠ k'.vaddr := by
  intro heq
  have hpos := (hi.inside _ _ _ h).1
  have hpos' := (hi.inside _ _ _ h').1
  refine hi.apart _ _ _ _ _ _ h h' (by simp [hpq]) ?_
  unfold Overlap
  omega

/-! ## The books of one server -/

section Books

variable {n : Nat} {held : Nat → Bool} {i : Int} {l : Ledger}

theorem ServerInv.takeShared (h : ServerInv n held i l) {a : Nat} (hlo : l.allocAddress ≤ a)
    (hhi : a ≤ l.endAddress) : ServerInv n held i { l with allocAddress := a } :=
  { h with lower := Nat.le_trans h.lower hlo, upper := hhi }

theorem ServerInv.append (h : ServerInv n held i l) {k : Block}
    (hne : ∀ (p : Nat) k', held p = true → l.blocks[p]? = some k' → k'.vaddr ≠ k.vaddr) :
    ServerInv n (update held l.blocks.length true) i
      { l with
        blocks := l.blocks ++ [k]
        memoryMap := l.memoryMap.insert k.vaddr l.blocks.length } := by
  have hkeep : ∀ {p : Nat} {k'}, l.blocks[p]? = some k' → (l.blocks ++ [k])[p]? = some k' :=
    fun hk' => getElem?_append_of_some hk'
  refine { h with free := ?_, held := ?_ }
  · intro size list hlist
    obtain ⟨hnodup, hall⟩ := h.free size list hlist
    refine ⟨hnodup, ?_⟩
    intro p hp
    obtain ⟨hfalse, k', hk', hsize⟩ := hall p hp
    have hlt := (List.getElem?_eq_some_iff.mp hk').1
    exact ⟨by simp [Nat.ne_of_lt hlt, hfalse], k', hkeep hk', hsize⟩
  · intro p hp
    by_cases hpn : p = l.blocks.length
    · subst hpn
      exact ⟨k, by simp, AList.lookup_insert _⟩
    · obtain ⟨k', hk', hmap⟩ := h.held p (by simpa [hpn] using hp)
      have hv := hne p k' (by simpa [hpn] using hp) hk'
      exact ⟨k', hkeep hk', by simpa [AList.lookup_insert_ne hv] using hmap⟩

theorem ServerInv.reuse (h : ServerInv n held i l) {size p : Nat} {rest : List Nat} {k : Block}
    {free : AList fun _ : Nat => List Nat}
    (hfree : l.freeMap.lookup size = some (p :: rest)) (hk : l.blocks[p]? = some k)
    (hsub : ∀ sz list, free.lookup sz = some list →
      (sz = size ∧ list = rest) ∨ (sz ≠ size ∧ l.freeMap.lookup sz = some list))
    (hne : ∀ (q : Nat) k', held q = true → l.blocks[q]? = some k' → k'.vaddr ≠ k.vaddr) :
    ServerInv n (update held p true) i
      { l with freeMap := free, memoryMap := l.memoryMap.insert k.vaddr p } := by
  obtain ⟨hnodup, hall⟩ := h.free size _ hfree
  have hpk : k.size = size := by
    obtain ⟨-, k', hk', hsize⟩ := hall p List.mem_cons_self
    rw [hk, Option.some.injEq] at hk'
    rw [hk']
    exact hsize
  refine { h with free := ?_, held := ?_ }
  · intro sz list hlist
    rcases hsub sz list hlist with ⟨rfl, rfl⟩ | ⟨hsz, hold⟩
    · refine ⟨(List.nodup_cons.mp hnodup).2, ?_⟩
      intro q hq
      have hqp : q ≠ p := fun heq => (List.nodup_cons.mp hnodup).1 (heq ▸ hq)
      simpa [hqp] using hall q (List.mem_cons_of_mem _ hq)
    · obtain ⟨hnodup', hall'⟩ := h.free sz list hold
      refine ⟨hnodup', ?_⟩
      intro q hq
      obtain ⟨hfalse, k', hk', hsize⟩ := hall' q hq
      have hqp : q ≠ p := by
        intro heq
        rw [heq, hk, Option.some.injEq] at hk'
        rw [← hk', hpk] at hsize
        exact hsz hsize.symm
      exact ⟨by simpa [hqp] using hfalse, k', hk', hsize⟩
  · intro q hq
    by_cases hqp : q = p
    · subst hqp
      exact ⟨k, hk, AList.lookup_insert _⟩
    · have hheld : held q = true := by simpa [hqp] using hq
      obtain ⟨k', hk', hmap⟩ := h.held q hheld
      exact ⟨k', hk', by simpa [AList.lookup_insert_ne (hne q k' hheld hk')] using hmap⟩

theorem ServerInv.release (h : ServerInv n held i l) {p : Nat} {k : Block}
    {f : Block → Block} (hf : ∀ k, (f k).vaddr = k.vaddr ∧ (f k).size = k.size)
    (hp : held p = true) (hk : l.blocks[p]? = some k) :
    ServerInv n (update held p false) i
      { l with
        blocks := l.blocks.modify p f
        freeMap := l.freeMap.insert k.size ((l.freeMap.lookup k.size).getD [] ++ [p]) } := by
  have hmod : ∀ {q : Nat} {k'}, l.blocks[q]? = some k' →
      ∃ k'', (l.blocks.modify p f)[q]? = some k'' ∧
      k''.vaddr = k'.vaddr ∧ k''.size = k'.size := by
    intro q k' hk'
    rw [List.getElem?_modify, hk']
    by_cases hqp : p = q
    · exact ⟨f k', by simp [hqp], hf k'⟩
    · exact ⟨k', by simp [hqp], rfl, rfl⟩
  have hold : ∀ sz list, l.freeMap.lookup sz = some list → list.Nodup ∧ p ∉ list ∧
      ∀ q ∈ list, update held p false q = false ∧
        ∃ k'', (l.blocks.modify p f)[q]? = some k'' ∧ k''.size = sz := by
    intro sz list hlist
    obtain ⟨hnodup, hall⟩ := h.free sz list hlist
    have hnot : p ∉ list := by
      intro hmem
      have := (hall p hmem).1
      rw [hp] at this
      simp at this
    refine ⟨hnodup, hnot, ?_⟩
    intro q hq
    obtain ⟨hfalse, k', hk', hsize⟩ := hall q hq
    obtain ⟨k'', hk'', -, hs⟩ := hmod hk'
    have hqp : q ≠ p := fun heq => hnot (heq ▸ hq)
    exact ⟨by simpa [hqp] using hfalse, k'', hk'', by rw [hs]; exact hsize⟩
  refine { h with free := ?_, held := ?_ }
  · intro sz list hlist
    by_cases hsz : sz = k.size
    · subst hsz
      rw [AList.lookup_insert, Option.some.injEq] at hlist
      subst hlist
      obtain ⟨kp, hkp, -, hkps⟩ := hmod hk
      cases hlook : l.freeMap.lookup k.size with
      | none =>
          refine ⟨by simp, ?_⟩
          intro q hq
          rw [Option.getD_none, List.nil_append, List.mem_singleton] at hq
          subst hq
          exact ⟨by simp, kp, hkp, hkps⟩
      | some list =>
          obtain ⟨hnodup, hnot, hall⟩ := hold k.size list hlook
          refine ⟨?_, ?_⟩
          · rw [Option.getD_some, List.nodup_append]
            refine ⟨hnodup, by simp, ?_⟩
            intro a ha c hc
            rw [List.mem_singleton] at hc
            exact fun heq => hnot (hc ▸ heq ▸ ha)
          · intro q hq
            rw [Option.getD_some, List.mem_append, List.mem_singleton] at hq
            rcases hq with hq | rfl
            · exact hall q hq
            · exact ⟨by simp, kp, hkp, hkps⟩
    · rw [AList.lookup_insert_ne hsz] at hlist
      obtain ⟨hnodup, -, hall⟩ := hold sz list hlist
      exact ⟨hnodup, hall⟩
  · intro q hq
    by_cases hqp : q = p
    · subst hqp
      simp at hq
    · obtain ⟨k', hk', hmap⟩ := h.held q (by simpa [hqp] using hq)
      obtain ⟨k'', hk'', hv, -⟩ := hmod hk'
      exact ⟨k'', hk'', by rw [hv]; exact hmap⟩

end Books

/-! ## One step -/

section Step

variable {n : Nat} {st : State} {i : Int} {s : Server} {p q : Nat} {value : Bool} {k : Block}

theorem live_set_ne {j : Int} (hj : j ≠ i) :
    Live ((st.setServer i s).setHeld i p value) j q k ↔ Live st j q k := by
  simp [Live, State.setServer, State.setHeld, hj]

theorem live_set_self : Live ((st.setServer i s).setHeld i p value) i q k ↔
    s.ledger.blocks[q]? = some k ∧
      (update (st.held i) p value q = true ∨ (Free s.ledger q ∧ k.owner = i)) := by
  simp [Live, State.setServer, State.setHeld]

theorem server_set (hi : Inv n st)
    (hs : IsServer n i → ServerInv n (update (st.held i) p value) i s.ledger)
    (j : Int) (hj : IsServer n j) :
    ServerInv n (((st.setServer i s).setHeld i p value).held j) j
      (((st.setServer i s).setHeld i p value).server j).ledger := by
  by_cases hji : j = i
  · subst hji
    simpa [State.setServer, State.setHeld] using hs hj
  · simpa [State.setServer, State.setHeld, hji] using hi.server j hj

theorem alloc_set (hs : (st.server i).allocAddress ≤ s.allocAddress) (j : Int) :
    (st.server j).allocAddress ≤
      (((st.setServer i s).setHeld i p value).server j).allocAddress := by
  by_cases hji : j = i
  · subst hji
    simpa [State.setServer, State.setHeld] using hs
  · simp [State.setServer, State.setHeld, hji]

theorem setServer_self (st : State) (i : Int) : st.setServer i (st.server i) = st := by
  simp [State.setServer]

theorem Inv.reuse (hi : Inv n st) (hvalid : IsServer n i) {size res : Nat} {rest : List Nat}
    {memory : RDMAMemory} (hfree : (st.server i).freeMap.lookup size = some (p :: rest))
    (hmemory : (st.server i).heap[p]? = some memory) (howner : memory.owner = i) :
    Inv n ((st.setServer i { (st.server i).mmap size res with
      freeMap := (st.server i).popFree size rest
      memoryMap := (st.server i).memoryMap.insert memory.vaddr p }).setHeld i p true) := by
  have hblock : (st.server i).ledger.blocks[p]? = some memory.block := by
    simp [Server.ledger, hmemory]
  have hlive : Live st i p memory.block :=
    ⟨hblock, .inr ⟨⟨size, p :: rest, hfree, List.mem_cons_self⟩, howner⟩⟩
  have hnotHeld : st.held i p = false :=
    (((hi.server i hvalid).free size _ hfree).2 p List.mem_cons_self).1
  have hold : ∀ j q k, Live ((st.setServer i { (st.server i).mmap size res with
      freeMap := (st.server i).popFree size rest
      memoryMap := (st.server i).memoryMap.insert memory.vaddr p }).setHeld i p true) j q k →
      Live st j q k := by
    intro j q k h
    by_cases hji : j = i
    · subst hji
      obtain ⟨hk, hwhy⟩ := live_set_self.mp h
      by_cases hqp : q = p
      · subst hqp
        have hkeq : k = memory.block := Option.some.inj (hk.symm.trans hblock)
        rw [hkeq]
        exact hlive
      · refine ⟨hk, ?_⟩
        rcases hwhy with hheld | ⟨⟨sz, list, hlist, hmem⟩, hown⟩
        · exact .inl (by simpa [hqp] using hheld)
        · rcases Server.lookup_popFree hfree hlist with ⟨rfl, rfl⟩ | ⟨-, hlist⟩
          · exact .inr ⟨⟨sz, _, hfree, List.mem_cons_of_mem _ hmem⟩, hown⟩
          · exact .inr ⟨⟨sz, list, hlist, hmem⟩, hown⟩
    · exact (live_set_ne hji).mp h
  refine hi.of_moved id ?_ ?_ ?_ ?_ ?_
  · refine server_set hi fun _ => (hi.server i hvalid).reuse hfree hblock ?_ ?_
    · intro sz list hlist
      exact Server.lookup_popFree hfree hlist
    · intro q k' hq hk'
      have hqp : q ≠ p := by
        intro heq
        rw [heq, hnotHeld] at hq
        simp at hq
      exact hi.vaddr_ne ⟨hk', .inl hq⟩ hlive hqp
  · intro j q k h
    exact hi.member j q k (hold j q k h)
  · intro j q k h
    exact ⟨k, hold j q k h, rfl, rfl⟩
  · intro j q k j' q' k' _ _ hne
    exact hne
  · exact alloc_set (Nat.le_refl _)

theorem Inv.append (hi : Inv n st) (hvalid : IsServer n i) {a : Nat}
    (hledger : s.ledger = { (st.server i).ledger with
      allocAddress := a
      blocks := (st.server i).ledger.blocks ++ [k]
      memoryMap := (st.server i).memoryMap.insert k.vaddr (st.server i).ledger.blocks.length })
    (hlo : (st.server i).allocAddress ≤ a) (hhi : a ≤ (st.server i).endAddress) (hpos : 0 < k.size)
    (hfar : ∀ j q k', Live st j q k' → ¬ Overlap (k'.vaddr, k'.size) (k.vaddr, k.size))
    (hin : ∃ j, IsServer n j ∧ startAddress n j ≤ k.vaddr ∧
      k.vaddr + k.size ≤ ((st.setServer i s).server j).allocAddress) :
    Inv n ((st.setServer i s).setHeld i (st.server i).heap.length true) := by
  have hlen : (st.server i).heap.length = (st.server i).ledger.blocks.length := by
    simp [Server.ledger]
  have halloc : s.allocAddress = a := congrArg Ledger.allocAddress hledger
  rw [hlen]
  have hcases : ∀ j q k', Live ((st.setServer i s).setHeld i
      (st.server i).ledger.blocks.length true) j q k' →
      Live st j q k' ∨ (j = i ∧ q = (st.server i).ledger.blocks.length ∧ k' = k) := by
    intro j q k' h
    by_cases hji : j = i
    · subst hji
      obtain ⟨hk, hwhy⟩ := live_set_self.mp h
      rw [hledger] at hk hwhy
      rcases getElem?_snoc_cases hk with hold | ⟨hq, hnew⟩
      · left
        have hq : q ≠ (st.server j).ledger.blocks.length :=
          Nat.ne_of_lt (List.getElem?_eq_some_iff.mp hold).1
        refine ⟨hold, ?_⟩
        rcases hwhy with hheld | hfree
        · exact .inl (by simpa [hq] using hheld)
        · exact .inr hfree
      · exact .inr ⟨rfl, hq, hnew⟩
    · exact .inl ((live_set_ne hji).mp h)
  refine ⟨?_, ?_, ?_, ?_⟩
  · refine server_set hi fun _ => ?_
    rw [hledger]
    refine ((hi.server i hvalid).append (k := k) ?_).takeShared hlo hhi
    intro q k' hq hk' heq
    have hlive : Live st i q k' := ⟨hk', .inl hq⟩
    have hpos' := (hi.inside i q k' hlive).1
    refine hfar i q k' hlive ?_
    unfold Overlap
    dsimp only
    omega
  · intro j q k' h
    rcases hcases j q k' h with hold | ⟨rfl, -, -⟩
    · exact hi.member j q k' hold
    · exact hvalid
  · intro j q k' h
    rcases hcases j q k' h with hold | ⟨rfl, -, rfl⟩
    · obtain ⟨hpos', m, hm, hlow, hhigh⟩ := hi.inside j q k' hold
      exact ⟨hpos', m, hm, hlow, Nat.le_trans hhigh (alloc_set (by omega) m)⟩
    · exact ⟨hpos, hin⟩
  · intro j q k₁ j' q' k₂ h h' hne
    rcases hcases j q k₁ h with hold | ⟨rfl, rfl, rfl⟩
    · rcases hcases j' q' k₂ h' with hold' | ⟨rfl, rfl, rfl⟩
      · exact hi.apart _ _ _ _ _ _ hold hold' hne
      · exact hfar j q k₁ hold
    · rcases hcases j' q' k₂ h' with hold' | ⟨rfl, rfl, rfl⟩
      · exact fun hov => hfar j' q' k₂ hold' hov.symm
      · exact absurd rfl hne

theorem Inv.fresh (hi : Inv n st) (hvalid : IsServer n i) {size : Nat} {r : RDMAMemory}
    (hr : RDMAMemory.construct (st.server i).serverId (st.server i).allocAddress size 0 = some r)
    (hpos : 0 < size) (hend : (st.server i).allocAddress + size ≤ (st.server i).endAddress)
    (hsum : wrap64 ((st.server i).allocAddress + size) = (st.server i).allocAddress + size) :
    Inv n ((st.setServer i (((st.server i).takeShared size (st.server i).allocAddress).insertRecord
      ⟨false, false⟩ (st.server i).allocAddress r)).setHeld i (st.server i).heap.length true) := by
  obtain ⟨hv, hs, -⟩ := RDMAMemory.construct_eq hr
  have hv' : r.block.vaddr = (st.server i).allocAddress := hv
  have hs' : r.block.size = size := hs
  have hsi := hi.server i hvalid
  have hlower : startAddress n i ≤ (st.server i).allocAddress := hsi.lower
  have hlen : (st.server i).ledger.blocks.length = (st.server i).heap.length := by
    simp [Server.ledger]
  have hledger : (((st.server i).takeShared size (st.server i).allocAddress).insertRecord
      ⟨false, false⟩ (st.server i).allocAddress r).ledger =
      { (st.server i).ledger with
        allocAddress := (st.server i).allocAddress + size
        blocks := (st.server i).ledger.blocks ++ [r.block]
        memoryMap := (st.server i).memoryMap.insert r.block.vaddr
          (st.server i).ledger.blocks.length } := by
    rw [Server.ledger_insertRecord rfl, Server.ledger_takeShared, hsum, hlen, hv']
    rfl
  refine hi.append hvalid hledger (Nat.le_add_right _ _) hend (by omega) ?_ ?_
  · intro j q k h
    obtain ⟨-, m, hm, hlo, hhi⟩ := hi.inside j q k h
    have hrange : (st.server i).endAddress = startAddress n i + perServer n := hsi.endAddress
    rw [hv', hs']
    unfold Overlap
    dsimp only
    by_cases hmi : m = i
    · subst hmi
      omega
    · have hupper : (st.server m).allocAddress ≤ (st.server m).endAddress := (hi.server m hm).upper
      have hrange' : (st.server m).endAddress = startAddress n m + perServer n :=
        (hi.server m hm).endAddress
      rcases startAddress_apart hm hvalid hmi with h | h <;> omega
  · refine ⟨i, hvalid, by omega, ?_⟩
    have halloc := congrArg Ledger.allocAddress hledger
    rw [hv', hs']
    simp only [State.setServer, update_self]
    exact Nat.le_of_eq halloc.symm

theorem Inv.release (hi : Inv n st) (hvalid : IsServer n i) {f : Block → Block}
    (hf : ∀ k, (f k).vaddr = k.vaddr ∧ (f k).size = k.size)
    (hheld : st.held i p = true) (hk : (st.server i).ledger.blocks[p]? = some k)
    (hledger : s.ledger = { (st.server i).ledger with
      blocks := (st.server i).ledger.blocks.modify p f
      freeMap := (st.server i).freeMap.insert k.size
        (((st.server i).freeMap.lookup k.size).getD [] ++ [p]) }) :
    Inv n ((st.setServer i s).setHeld i p false) ∧
      ∀ j q k', Live ((st.setServer i s).setHeld i p false) j q k' →
        ((j, q) ≠ (i, p) ∧ Live st j q k') ∨ (j = i ∧ q = p ∧ k' = f k ∧ (f k).owner = i) := by
  have hcases : ∀ j q k', Live ((st.setServer i s).setHeld i p false) j q k' →
      ((j, q) ≠ (i, p) ∧ Live st j q k') ∨
        (j = i ∧ q = p ∧ k' = f k ∧ (f k).owner = i) := by
    intro j q k' h
    by_cases hji : j = i
    · subst hji
      obtain ⟨hk', hwhy⟩ := live_set_self.mp h
      rw [hledger] at hk' hwhy
      dsimp only at hk'
      rw [List.getElem?_modify] at hk'
      by_cases hqp : q = p
      · subst hqp
        have hk'' : k' = f k := by simpa [hk] using hk'.symm
        rcases hwhy with hfalse | ⟨-, hown⟩
        · simp at hfalse
        · exact .inr ⟨rfl, rfl, hk'', by rw [← hk'']; exact hown⟩
      · left
        have hold : (st.server j).ledger.blocks[q]? = some k' := by
          simpa [Ne.symm hqp] using hk'
        refine ⟨by simp [hqp], hold, ?_⟩
        rcases hwhy with htrue | ⟨⟨sz, list, hlist, hmem⟩, hown⟩
        · exact .inl (by simpa [hqp] using htrue)
        · refine .inr ⟨?_, hown⟩
          rcases mem_of_lookup_append hlist hmem with ⟨-, heq⟩ | ⟨old, hlook, hmem⟩
          · exact absurd heq hqp
          · exact ⟨sz, old, hlook, hmem⟩
    · exact .inl ⟨by simp [hji], (live_set_ne hji).mp h⟩
  refine ⟨hi.of_moved id ?_ ?_ ?_ (fun _ _ _ _ _ _ _ _ hne => hne) ?_, hcases⟩
  · refine server_set hi fun _ => ?_
    rw [hledger]
    exact (hi.server i hvalid).release hf hheld hk
  · intro j q k' h
    rcases hcases j q k' h with ⟨-, hold⟩ | ⟨rfl, -⟩
    · exact hi.member j q k' hold
    · exact hvalid
  · intro j q k' h
    rcases hcases j q k' h with ⟨-, hold⟩ | ⟨rfl, rfl, rfl, -⟩
    · exact ⟨k', hold, rfl, rfl⟩
    · exact ⟨k, ⟨hk, .inl hheld⟩, (hf k).1.symm, (hf k).2.symm⟩
  · exact alloc_set (Nat.le_of_eq (congrArg Ledger.allocAddress hledger).symm)

theorem allocateStep_inv (hi : Inv n st) (hvalid : IsServer n i) {size : Nat}
    {reuse fresh : Option Nat} (hmaps : ∀ res ∈ fresh, (st.server i).MapsAt size res)
    (hown : OwnBlocks st (.allocate i size reuse fresh)) :
    Inv n (allocateStep st i size reuse fresh) := by
  have hsi := hi.server i hvalid
  have hbound := startAddress_bound hvalid
  have hend : (st.server i).endAddress = startAddress n i + perServer n := hsi.endAddress
  have hupper : (st.server i).allocAddress ≤ (st.server i).endAddress := hsi.upper
  have hsum : ∀ res ∈ fresh, 0 < size ∧
      wrap64 ((st.server i).allocAddress + size) = (st.server i).allocAddress + size := by
    intro res hres
    obtain ⟨hpos, -, hspace, -⟩ := hmaps res hres
    have hpage : size ≤ Server.pageUp size := by
      unfold Server.pageUp
      omega
    have hrange : allocatableRangeEnd < 2 ^ 47 := by decide
    exact ⟨hpos, wrap64_of_lt (by omega)⟩
  unfold allocateStep
  generalize hcall : (st.server i).allocate size reuse fresh = call
  obtain ⟨s', result⟩ := call
  rcases Server.allocate_cases hcall with hshared | ⟨hs', e, hresult⟩ |
    ⟨p, rest, res, memory, hfree, hreuse, hmemory, hresult, hs'⟩
  · rcases Server.allocateShared_cases hshared with ⟨hs', hresult⟩ |
      ⟨res, hres, hle, ⟨hs', hresult⟩ | ⟨r, hr, hs', hresult⟩⟩
    · rw [hs', hresult]
      simpa only [setServer_self] using hi
    · obtain ⟨-, hnowrap⟩ := hsum res (by simp [hres])
      rw [hs', hresult]
      dsimp only
      have hkeep : st.setServer i ((st.server i).takeShared size res) =
          (st.setServer i ((st.server i).takeShared size res)).setHeld i 0 (st.held i 0) := by
        simp [State.setServer, State.setHeld]
      rw [hkeep]
      refine hi.of_moved id (server_set hi fun _ => ?_) ?_ ?_ (fun _ _ _ _ _ _ _ _ hne => hne)
        (alloc_set (by
          rw [show ((st.server i).takeShared size res).allocAddress = _ from hnowrap]
          omega))
      · rw [update_eq_self, Server.ledger_takeShared, hnowrap]
        exact hsi.takeShared (Nat.le_add_right _ _) (by rw [← hnowrap]; exact hle)
      · intro j q k h
        by_cases hji : j = i
        · rw [hji]
          exact hvalid
        · exact hi.member j q k ((live_set_ne hji).mp h)
      · intro j q k h
        refine ⟨k, ?_, rfl, rfl⟩
        by_cases hji : j = i
        · subst hji
          obtain ⟨hk, hwhy⟩ := live_set_self.mp h
          rw [update_eq_self] at hwhy
          exact ⟨hk, hwhy⟩
        · exact (live_set_ne hji).mp h
    · obtain ⟨hpos, hnowrap⟩ := hsum res (by simp [hres])
      have hresAlloc : res = (st.server i).allocAddress := hown.1 res hres
      subst hresAlloc
      have hlookup : s'.memoryMap.lookup r.vaddr = some (st.server i).heap.length := by
        rw [hs', Server.insertRecord_of_memoryMap rfl, (RDMAMemory.construct_eq hr).1]
        exact AList.lookup_insert _
      rw [hresult]
      dsimp only
      rw [hlookup, hs']
      exact hi.fresh hvalid hr hpos (by rw [← hnowrap]; exact hle) hnowrap
  · rw [hs', hresult]
    simpa only [setServer_self] using hi
  · obtain ⟨-, howner⟩ := hown.2 p (by simp [firstFree, hfree]) memory hmemory res hreuse
    have hlookup : s'.memoryMap.lookup memory.vaddr = some p := by
      rw [hs']
      exact AList.lookup_insert _
    rw [hresult]
    dsimp only
    rw [hlookup, hs']
    exact hi.reuse hvalid hfree hmemory howner

theorem Inv.lookup_held (hi : Inv n st) (hvalid : IsServer n i) (hheld : st.held i p = true)
    {memory : RDMAMemory} (hmemory : (st.server i).heap[p]? = some memory) :
    (st.server i).ledger.blocks[p]? = some memory.block ∧
      (st.server i).memoryMap.lookup memory.vaddr = some p := by
  have hblock : (st.server i).ledger.blocks[p]? = some memory.block := by
    simp [Server.ledger, hmemory]
  obtain ⟨k, hk, hlookup⟩ := (hi.server i hvalid).held p hheld
  have hkeq : k = memory.block := Option.some.inj (hk.symm.trans hblock)
  rw [hkeq] at hlookup
  exact ⟨hblock, hlookup⟩

theorem deallocateStep_inv (hi : Inv n st) (hvalid : IsServer n i) (hheld : st.held i p = true)
    {st' : State} (h : deallocateStep st i p = some st') : Inv n st' := by
  simp only [deallocateStep, Option.bind_eq_bind, Option.bind_eq_some_iff] at h
  obtain ⟨memory, hmemory, s, hs, hret⟩ := h
  cases hret
  obtain ⟨hblock, hlookup⟩ := hi.lookup_held hvalid hheld hmemory
  obtain ⟨p', k, hp', hk, hledger⟩ := Server.deallocate_ledger (toOption_eq_some hs)
  have hpp : p' = p := Option.some.inj (hp'.symm.trans hlookup)
  subst hpp
  refine (hi.release (f := id) hvalid (fun _ => ⟨rfl, rfl⟩) hheld hk ?_).1
  rw [hledger, List.modify_id]

theorem migrateStep_inv {b : Build} (hb : b.faultTolerant = false) (hi : Inv n st) {d : Int}
    (hsource : IsServer n i) (hdestination : IsServer n d) (hne : i ≠ d)
    (hheld : st.held i p = true) {st' : State} (h : migrateStep b st i d p = some st') :
    Inv n st' := by
  simp only [migrateStep, Option.bind_eq_bind, Option.bind_eq_some_iff] at h
  obtain ⟨memory, hmemory, h⟩ := h
  split at h
  · simp at h
  simp only [Option.bind_eq_some_iff, Prod.exists] at h
  obtain ⟨source, destination, q, hmigrate, hret⟩ := h
  cases hret
  obtain ⟨hblock, hlookup⟩ := hi.lookup_held hsource hheld hmemory
  have hsi := hi.server i hsource
  have hdi := hi.server d hdestination
  have hid : (st.server d).serverId = d := hdi.serverId
  obtain ⟨hq, hs, hd⟩ := migrate_ledger hb hmigrate hsi.queues.1 hsi.queues.2.1 hdi.queues.2.2
    hlookup hblock rfl
  obtain ⟨hmid, hcases⟩ := hi.release (i := i) (s := source)
    (f := fun k => { k with owner := (st.server d).serverId }) hsource (fun _ => ⟨rfl, rfl⟩) hheld
    hblock hs
  have hlive : Live st i p memory.block := ⟨hblock, .inl hheld⟩
  have hsame : ((st.setServer i source).setHeld i p false).server d = st.server d := by
    simp [State.setServer, State.setHeld, Ne.symm hne]
  have hlen : (st.server d).ledger.blocks.length = (st.server d).heap.length := by
    simp [Server.ledger]
  have hfinal := hmid.append (i := d) (s := destination) (a := (st.server d).allocAddress)
    (k := ⟨memory.vaddr, memory.size, (st.server d).serverId⟩) hdestination
    (by rw [hsame, hd, hlen]; rfl) (by rw [hsame]) (by rw [hsame]; exact hdi.upper)
    (hi.inside i p _ hlive).1 ?_ ?_
  · rw [hsame, ← hq] at hfinal
    exact hfinal
  · intro j r k' h'
    rcases hcases j r k' h' with ⟨hfar, hold⟩ | ⟨rfl, -, -, howner⟩
    · exact hi.apart j r k' i p memory.block hold hlive hfar
    · dsimp only at howner
      rw [hid] at howner
      exact absurd howner.symm hne
  · obtain ⟨-, j, hj, hlo, hhi⟩ := hi.inside i p _ hlive
    refine ⟨j, hj, hlo, Nat.le_trans hhi ?_⟩
    have hsourceAlloc : source.allocAddress = (st.server i).allocAddress :=
      congrArg Ledger.allocAddress hs
    have hdestAlloc : destination.allocAddress = (st.server d).allocAddress :=
      congrArg Ledger.allocAddress hd
    by_cases hjd : j = d
    · subst hjd
      simp [State.setServer, State.setHeld, hdestAlloc]
    · by_cases hji : j = i
      · subst hji
        simp [State.setServer, State.setHeld, hjd, hsourceAlloc]
      · simp [State.setServer, State.setHeld, hjd, hji]

end Step

theorem step_inv {b : Build} (hb : b.faultTolerant = false) {n : Nat} {st st' : State}
    {act : Action} (hi : Inv n st) (hok : OwnBlocks st act) (h : step b n st act = some st') :
    Inv n st' := by
  cases act with
  | allocate i size reuse fresh =>
      simp only [step, Option.ite_none_right_eq_some, Option.some.injEq] at h
      obtain ⟨⟨hvalid, -, hmaps⟩, rfl⟩ := h
      exact allocateStep_inv hi hvalid hmaps hok
  | deallocate i p =>
      simp only [step, Option.ite_none_right_eq_some] at h
      obtain ⟨⟨hvalid, hheld⟩, h⟩ := h
      exact deallocateStep_inv hi hvalid hheld h
  | migrate s d p =>
      simp only [step, Option.ite_none_right_eq_some] at h
      obtain ⟨⟨hsource, hdestination, hne, hheld⟩, h⟩ := h
      exact migrateStep_inv hb hi hsource hdestination hne hheld h

/-- While no server reuses a block it has given away, no two servers hold
overlapping blocks. -/
theorem held_blocks_apart {b : Build} (hb : b.faultTolerant = false) {n : Nat} {st : State}
    (h : Reaches (step b n) OwnBlocks (initial n) st) {i j : Int} (hij : i ≠ j) {p q : Nat}
    (hp : st.held i p = true) (hq : st.held j q = true) (hi : IsServer n i) (hj : IsServer n j) :
    ∃ r r', (st.server i).heap[p]? = some r ∧ (st.server j).heap[q]? = some r' ∧
      ¬ Overlap (r.vaddr, r.size) (r'.vaddr, r'.size) := by
  have hinv : Inv n st := h.invariant (fun _ _ _ hi hok hstep => step_inv hb hi hok hstep)
    (initial_inv n)
  have hrecord : ∀ {i p}, IsServer n i → st.held i p = true →
      ∃ r, (st.server i).heap[p]? = some r ∧ Live st i p r.block := by
    intro i p hvalid hheld
    obtain ⟨k, hk, -⟩ := (hinv.server i hvalid).held p hheld
    have hk' := hk
    simp only [Server.ledger, List.getElem?_map, Option.map_eq_some_iff] at hk'
    obtain ⟨r, hr, rfl⟩ := hk'
    exact ⟨r, hr, hk, .inl hheld⟩
  obtain ⟨r, hr, hlive⟩ := hrecord hi hp
  obtain ⟨r', hr', hlive'⟩ := hrecord hj hq
  exact ⟨r, r', hr, hr', hinv.apart i p _ j q _ hlive hlive' (by simp [hij])⟩

/-- Two servers: one block is migrated, and its old owner takes the next block of
its own range. -/
theorem held_blocks_apart_after_migration : ∃ st, Reaches (step ⟨false, false⟩ 2) OwnBlocks
    (initial 2) st ∧ st.held 0 1 = true ∧ st.held 1 0 = true ∧
    ∃ r r', (st.server 0).heap[1]? = some r ∧ (st.server 1).heap[0]? = some r' ∧
      ¬ Overlap (r.vaddr, r.size) (r'.vaddr, r'.size) := by
  have hrun : (checkedRun (step ⟨false, false⟩ 2) OwnBlocks (initial 2)
      [.allocate 0 4096 none (some (2 ^ 44)), .migrate 0 1 0,
        .allocate 0 4096 none (some (2 ^ 44 + 4096))]).map
      (fun st => (st.held 0 1, st.held 1 0)) = some (true, true) := by
    decide +kernel
  obtain ⟨st, hreach, hheld⟩ := reaches_of_map_checkedRun hrun
  obtain ⟨h0, h1⟩ := Prod.mk.inj hheld
  exact ⟨st, hreach, h0, h1,
    held_blocks_apart rfl hreach (by decide) h0 h1 (by decide) (by decide)⟩

/-- After the migration the source allocates again and gets the block that the
destination holds. -/
theorem migrated_block_allocated_again : ∃ st r r', run (step ⟨false, false⟩ 2) (initial 2)
      [.allocate 0 4096 none (some (2 ^ 44)), .migrate 0 1 0,
        .allocate 0 4096 (some (2 ^ 44)) none] = some st ∧
    st.held 0 0 = true ∧ st.held 1 0 = true ∧
    (st.server 0).heap[0]? = some r ∧ (st.server 1).heap[0]? = some r' ∧
    Overlap (r.vaddr, r.size) (r'.vaddr, r'.size) := by
  have hrun : (run (step ⟨false, false⟩ 2) (initial 2)
      [.allocate 0 4096 none (some (2 ^ 44)), .migrate 0 1 0,
        .allocate 0 4096 (some (2 ^ 44)) none]).map
      (fun st => (st.held 0 0, st.held 1 0, ((st.server 0).heap[0]?).map fun r => (r.vaddr, r.size),
        ((st.server 1).heap[0]?).map fun r => (r.vaddr, r.size))) =
      some (true, true, some (2 ^ 44, 4096), some (2 ^ 44, 4096)) := by
    decide +kernel
  obtain ⟨st, hst, hview⟩ := Option.map_eq_some_iff.mp hrun
  rw [Prod.mk.injEq, Prod.mk.injEq, Prod.mk.injEq] at hview
  obtain ⟨h0, h1, hsource, hdestination⟩ := hview
  obtain ⟨r, hr, hrange⟩ := Option.map_eq_some_iff.mp hsource
  obtain ⟨r', hr', hrange'⟩ := Option.map_eq_some_iff.mp hdestination
  refine ⟨st, r, r', hst, h0, h1, hr, hr', ?_⟩
  rw [hrange, hrange']
  decide

end RdmaMigration.Cluster.Ownership
