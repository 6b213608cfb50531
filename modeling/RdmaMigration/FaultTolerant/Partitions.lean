import RdmaMigration.FaultTolerant.Roster

/-! # Who holds a segment

An abstract view of the cluster: each server's table of segments, what is known
of each record, the transfers on their way, and the log. A segment is handed on
like a token. Whoever has allocated or received it, or has been promised it by a
transfer that is still on its way, has the claim to its id, and there is never a
second claim.
-/

namespace RdmaMigration.FaultTolerant.Partitions

open Lib Manager FaultTolerant.System

/-! ## What the log says -/

/-- Record `p` of server `i` was accepted and its `MSG_TRANSFER` has not been
processed since. -/
def awaiting (i : Int) (p : Nat) : List Event → Bool
  | [] => false
  | .accepted j q :: log => decide (j = i ∧ q = p) || awaiting i p log
  | .received j _ q :: log => !decide (j = i ∧ q = p) && awaiting i p log
  | .allocated _ _ :: log => awaiting i p log
  | .transferred _ _ _ _ :: log => awaiting i p log
  | .migrated _ _ _ _ :: log => awaiting i p log

/-- A `MSG_TRANSFER` for record `p` of server `i` has been sent and not been
processed since. -/
def promised (i : Int) (p : Nat) : List Event → Bool
  | [] => false
  | .transferred _ _ d q :: log => decide (d = i ∧ q = p) || promised i p log
  | .received j _ q :: log => !decide (j = i ∧ q = p) && promised i p log
  | .allocated _ _ :: log => promised i p log
  | .accepted _ _ :: log => promised i p log
  | .migrated _ _ _ _ :: log => promised i p log

/-- Server `i` has allocated segment `id` or processed its `MSG_TRANSFER`, and has
not called `Transfer` for it since. -/
def holds (i id : Int) : List Event → Bool
  | [] => false
  | .allocated j k :: log => decide (j = i ∧ k = id) || holds i id log
  | .received j k _ :: log => decide (j = i ∧ k = id) || holds i id log
  | .transferred j k _ _ :: log => !decide (j = i ∧ k = id) && holds i id log
  | .accepted _ _ :: log => holds i id log
  | .migrated _ _ _ _ :: log => holds i id log

/-! ## The board -/

@[ext] structure Board where
  table : Int → Nat → Option Nat
  card : Int → Nat → Option Card
  flying : Int → Int → List Nat
  log : List Event

namespace Board

def enter (b : Board) (i : Int) (addr p : Nat) (c : Card) (e : Event) : Board :=
  { b with
    table := update₂ b.table i addr (some p)
    card := update₂ b.card i p (some c)
    log := e :: b.log }

def setCard (b : Board) (i : Int) (p : Nat) (c : Card) : Board :=
  { b with card := update₂ b.card i p (some c) }

def give (b : Board) (s d : Int) (addr p q : Nat) (c : Card) : Board :=
  { b.setCard s p { c with owner := d, state := .shared } with
    flying := update₂ b.flying s d (b.flying s d ++ [addr])
    log := .transferred s c.id d q :: b.log }

def receive (b : Board) (s d : Int) (rest : List Nat) (q : Nat) (c : Card) (state : SegmentState) :
    Board :=
  { b.setCard d q { c with state := state } with
    flying := update₂ b.flying s d rest
    log := .received d c.id q :: b.log }

def erase (b : Board) (i : Int) (addr : Nat) : Board :=
  { b with table := update₂ b.table i addr none }

def Claim (b : Board) (i : Int) (p : Nat) (id : Int) : Prop :=
  (∃ addr, b.table i addr = some p) ∧ ∃ c, b.card i p = some c ∧ c.id = id ∧
    ((awaiting i p b.log = false ∧ c.owner = i) ∨ promised i p b.log = true)

structure Inv (n : Nat) (b : Board) : Prop where
  inside : ∀ i addr p, b.table i addr = some p → i ∈ servers n
  points : ∀ i addr p, b.table i addr = some p → b.card i p ≠ none
  single : ∀ i addr addr' p, b.table i addr = some p → b.table i addr' = some p → addr = addr'
  fresh : ∀ i p, b.card i p = none → awaiting i p b.log = false ∧ promised i p b.log = false
  clean : ∀ i p c, b.card i p = some c → c.state = .clean → c.owner = i
  awaited : ∀ i p c, b.card i p = some c → awaiting i p b.log = true → c.owner = i
  promise : ∀ i p, promised i p b.log = true → awaiting i p b.log = true
  legit : ∀ i addr p c, b.table i addr = some p → b.card i p = some c →
    awaiting i p b.log = false → c.owner = i → holds i c.id b.log = true
  unique : ∀ i j p q id, b.Claim i p id → b.Claim j q id → i = j ∧ p = q
  flies : ∀ s d addr, addr ∈ b.flying s d →
    ∃ q, b.table d addr = some q ∧ promised d q b.log = true
  once : ∀ s d, (b.flying s d).Nodup
  apart : ∀ s s' d addr, addr ∈ b.flying s d → addr ∈ b.flying s' d → s = s'

def initial : Board := ⟨fun _ _ => none, fun _ _ => none, fun _ _ => [], []⟩

theorem initial_inv (n : Nat) : Inv n initial := by
  constructor <;> simp [initial, awaiting, promised, Claim]

/-! ## The moves -/

section Moves

variable {n : Nat} {b b' : Board} {i id : Int} {addr p : Nat}

theorem Inv.unique_of_claims (h : Inv n b) (hclaim : ∀ j q k, b'.Claim j q k → b.Claim j q k) :
    ∀ i j p q id, b'.Claim i p id → b'.Claim j q id → i = j ∧ p = q :=
  fun _ _ _ _ _ hp hq => h.unique _ _ _ _ _ (hclaim _ _ _ hp) (hclaim _ _ _ hq)

theorem Inv.unique_of_new (h : Inv n b) (hclaim : ∀ j q k, b'.Claim j q k →
      (b.Claim j q k ∧ k ≠ id) ∨ (j = i ∧ q = p ∧ k = id)) :
    ∀ i j p q id, b'.Claim i p id → b'.Claim j q id → i = j ∧ p = q := by
  intro j j' q q' k hq hq'
  rcases hclaim _ _ _ hq with ⟨hold, hne⟩ | ⟨rfl, rfl, rfl⟩
  · rcases hclaim _ _ _ hq' with ⟨hold', -⟩ | ⟨-, -, heq⟩
    · exact h.unique _ _ _ _ _ hold hold'
    · exact absurd heq hne
  · rcases hclaim _ _ _ hq' with ⟨-, hne⟩ | ⟨rfl, rfl, -⟩
    · exact absurd rfl hne
    · exact ⟨rfl, rfl⟩

theorem Inv.accept (h : Inv n b) (hi : i ∈ servers n) (htable : b.table i addr = none)
    (hcard : b.card i p = none) :
    Inv n (b.enter i addr p ⟨id, i, .clean⟩ (.accepted i p)) := by
  have hclaim : ∀ j q k, (b.enter i addr p ⟨id, i, .clean⟩ (.accepted i p)).Claim j q k →
      b.Claim j q k := by
    have hfresh := h.fresh
    simp only [Claim, enter, update₂, awaiting, promised]
    grind
  have hunique := h.unique_of_claims hclaim
  obtain ⟨inside, points, single, fresh, clean, awaited, promise, legit, -, flies, once, apart⟩ := h
  constructor <;> simp only [enter, update₂, awaiting, promised, holds]
  case unique => exact hunique
  case once => exact once
  case apart => exact apart
  all_goals grind

theorem Inv.allocate (h : Inv n b) (hi : i ∈ servers n) (htable : b.table i addr = none)
    (hcard : b.card i p = none)
    (hid : ∀ j a q c, b.table j a = some q → b.card j q = some c → c.id ≠ id) :
    Inv n (b.enter i addr p ⟨id, i, .clean⟩ (.allocated i id)) := by
  have hclaim : ∀ j q k, (b.enter i addr p ⟨id, i, .clean⟩ (.allocated i id)).Claim j q k →
      (b.Claim j q k ∧ k ≠ id) ∨ (j = i ∧ q = p ∧ k = id) := by
    have hpoints := h.points
    simp only [Claim, enter, update₂, awaiting, promised]
    grind
  have hunique := h.unique_of_new hclaim
  obtain ⟨inside, points, single, fresh, clean, awaited, promise, legit, -, flies, once, apart⟩ := h
  constructor <;> simp only [enter, update₂, awaiting, promised, holds]
  case unique => exact hunique
  case once => exact once
  case apart => exact apart
  all_goals grind

theorem Inv.close {c : Card} (h : Inv n b) (hcard : b.card i p = some c) (howner : c.owner = i) :
    Inv n (b.setCard i p { c with state := .clean }) := by
  have hclaim : ∀ j q k, (b.setCard i p { c with state := .clean }).Claim j q k →
      b.Claim j q k := by
    simp only [Claim, setCard, update₂]
    grind
  have hunique := h.unique_of_claims hclaim
  obtain ⟨inside, points, single, fresh, clean, awaited, promise, legit, -, flies, once, apart⟩ := h
  constructor <;> simp only [setCard, update₂]
  case unique => exact hunique
  case once => exact once
  case apart => exact apart
  all_goals grind

theorem Inv.erase (h : Inv n b) (htable : b.table i addr = some p)
    (hawaiting : awaiting i p b.log = false) : Inv n (b.erase i addr) := by
  have hclaim : ∀ j q k, (b.erase i addr).Claim j q k → b.Claim j q k := by
    simp only [Claim, Board.erase, update₂]
    grind
  have hunique := h.unique_of_claims hclaim
  obtain ⟨inside, points, single, fresh, clean, awaited, promise, legit, -, flies, once, apart⟩ := h
  constructor <;> simp only [Board.erase, update₂]
  case unique => exact hunique
  case once => exact once
  case apart => exact apart
  all_goals grind

theorem Inv.give {s d : Int} {q : Nat} {c c' : Card} (h : Inv n b) (hsd : s ≠ d)
    (htable : b.table s addr = some p) (hcard : b.card s p = some c) (howner : c.owner = s)
    (hheld : awaiting s p b.log = false) (htable' : b.table d addr = some q)
    (hcard' : b.card d q = some c') (hwaits : awaiting d q b.log = true) (hid : c'.id = c.id) :
    Inv n (b.give s d addr p q c) := by
  have hsource : b.Claim s p c.id := ⟨⟨addr, htable⟩, c, hcard, rfl, .inl ⟨hheld, howner⟩⟩
  have honly : ∀ j r, b.Claim j r c.id → j = s ∧ r = p := fun j r hclaim =>
    h.unique _ _ _ _ _ hclaim hsource
  have hunpromised : promised d q b.log = false := by
    by_contra hpromised
    have hclaim : b.Claim d q c.id :=
      ⟨⟨addr, htable'⟩, c', hcard', hid, .inr (by simpa using hpromised)⟩
    exact hsd (honly d q hclaim).1.symm
  have hgrounded : ∀ s', addr ∉ b.flying s' d := by
    intro s' hmem
    obtain ⟨q', hq', hpromised⟩ := h.flies s' d addr hmem
    rw [htable', Option.some.injEq] at hq'
    rw [← hq', hunpromised] at hpromised
    cases hpromised
  have hother : ∀ a r c₁, b.table s a = some r → b.card s r = some c₁ →
      awaiting s r b.log = false → c₁.owner = s → c₁.id = c.id → r = p := by
    intro a r c₁ hr hc₁ hnot hown heq
    exact (honly s r ⟨⟨a, hr⟩, c₁, hc₁, heq, .inl ⟨hnot, hown⟩⟩).2
  have hmoved : ∀ j r k, (b.give s d addr p q c).Claim j r k →
      (b.Claim j r k ∧ ¬ (j = s ∧ r = p)) ∨ (j = d ∧ r = q ∧ k = c.id) := by
    have hpromise := h.promise
    simp only [Claim, Board.give, setCard, update₂, awaiting, promised]
    grind
  have hclaim : ∀ j r k, (b.give s d addr p q c).Claim j r k →
      (b.Claim j r k ∧ k ≠ c.id) ∨ (j = d ∧ r = q ∧ k = c.id) := by
    intro j r k hjr
    rcases hmoved j r k hjr with ⟨hold, hne⟩ | hnew
    · refine .inl ⟨hold, ?_⟩
      rintro rfl
      exact hne (honly j r hold)
    · exact .inr hnew
  have hunique := h.unique_of_new hclaim
  obtain ⟨inside, points, single, fresh, clean, awaited, promise, legit, -, flies, once, apart⟩ := h
  constructor <;> simp only [Board.give, setCard, update₂, awaiting, promised, holds]
  case unique => exact hunique
  all_goals grind

theorem Inv.receive {s d : Int} {q : Nat} {rest : List Nat} {c : Card} {state : SegmentState}
    (h : Inv n b) (hflying : b.flying s d = addr :: rest) (htable : b.table d addr = some q)
    (hcard : b.card d q = some c) : Inv n (b.receive s d rest q c state) := by
  have hpromised : promised d q b.log = true := by
    obtain ⟨q', hq', hpromised⟩ := h.flies s d addr (by simp [hflying])
    rw [htable, Option.some.injEq] at hq'
    rwa [hq']
  have howner : c.owner = d := h.awaited d q c hcard (h.promise d q hpromised)
  have honce : (addr :: rest).Nodup := hflying ▸ h.once s d
  have hclaim : ∀ j r k, (b.receive s d rest q c state).Claim j r k → b.Claim j r k := by
    simp only [Claim, Board.receive, setCard, update₂, awaiting, promised]
    grind
  have hunique := h.unique_of_claims hclaim
  obtain ⟨inside, points, single, fresh, clean, awaited, promise, legit, -, flies, once, apart⟩ := h
  constructor <;> simp only [Board.receive, setCard, update₂, awaiting, promised, holds]
  case unique => exact hunique
  all_goals grind

theorem Inv.migrated {memory : RDMAMemory} {store : Coordinator.Store} {answered : Bool}
    (h : Inv n b) : Inv n { b with log := .migrated i memory store answered :: b.log } :=
  ⟨h.inside, h.points, h.single, h.fresh, h.clean, h.awaited, h.promise, h.legit, h.unique, h.flies,
    h.once, h.apart⟩

end Moves

end Board

end RdmaMigration.FaultTolerant.Partitions
