import Mathlib.Algebra.Order.Group.Multiset
import Mathlib.Tactic.Abel
import RdmaMigration.Coordinator.ZooKeeper
import RdmaMigration.Lib.Update

/-! # The process list and the local segments as two books

An id that enters or leaves a server is written into two books one after the other:
the process list in ZooKeeper and the table of local segments. While a call is
between the two, one book is ahead of the other by that id; apart from the calls
that are under way the books agree.
-/

namespace RdmaMigration.FaultTolerant

open Lib Function Coordinator

/-- How far a call has got with the two books. `adding`, `listing` and `removing`
keep what the call has read of the list. -/
inductive Phase where
  | free
  | allocating (id : Int64)
  | adding (id : Int64) (n : ZNode)
  | entering (id : Int64)
  | accepting (id : Int64)
  | entered (id : Int64)
  | listing (id : Int64) (n : ZNode)
  | holding (addr : Nat)
  | naming (addr : Nat) (id : Int)
  | removing (addr : Nat) (id : Int) (n : Option ZNode)
  | erasing (addr : Nat) (id : Int)
  deriving DecidableEq, Repr

namespace Phase

/-- The ids that the local segments have and the list does not have. -/
def unlisted : Phase → Multiset Int
  | .entered id | .listing id _ => {id.toInt}
  | .erasing _ id => {id}
  | _ => 0

/-- The ids that the list has and the local segments do not have. -/
def unrecorded : Phase → Multiset Int
  | .entering id => {id.toInt}
  | _ => 0

def held : Phase → Option Nat
  | .holding addr | .naming addr _ | .removing addr _ _ | .erasing addr _ => some addr
  | _ => none

def named : Phase → Option (Nat × Int)
  | .naming addr id | .removing addr id _ | .erasing addr id => some (addr, id)
  | _ => none

def read : Phase → Option ZNode
  | .adding _ n | .listing _ n => some n
  | .removing _ _ n => n
  | _ => none

def settled (φ : Phase) : Prop := φ.unlisted = 0 ∧ φ.unrecorded = 0

theorem named_held {φ : Phase} {addr : Nat} {id : Int} (h : φ.named = some (addr, id)) :
    φ.held = some addr := by
  cases φ <;> simp_all [named, held]

end Phase

/-- The node of the list, what it says, and the address and id of each local
segment. -/
structure Books (κ : Type) where
  node : ZNode
  list : List Int
  records : List (Nat × Int)
  phase : κ → Phase

namespace Books

variable {κ : Type} [Fintype κ] [DecidableEq κ]

structure Balanced (b : Books κ) : Prop where
  nodup : b.list.Nodup
  addresses : (b.records.map Prod.fst).Nodup
  reads : ∀ k n, (b.phase k).read = some n →
    n.version ≤ b.node.version ∧ (n.version = b.node.version → n = b.node)
  holds : ∀ k addr, (b.phase k).held = some addr → ∃ id, (addr, id) ∈ b.records
  names : ∀ k r, (b.phase k).named = some r → r ∈ b.records
  alone : ∀ j k addr, (b.phase j).held = some addr → (b.phase k).held = some addr → j = k
  balance : (b.list : Multiset Int) + ∑ k, (b.phase k).unlisted =
    (b.records.map Prod.snd : Multiset Int) + ∑ k, (b.phase k).unrecorded

/-- Two totals that agree go on to agree when what one side gains and loses is
gained and lost on the other. -/
theorem exchange {M : Type} [AddCancelCommMonoid M] {l l' r r' s s' t t' u u' v v' : M}
    (h : l + s = r + t) (hs : s' + u = s + u') (ht : t' + v = t + v')
    (hstep : l' + u' + v + r = r' + v' + u + l) : l' + s' = r' + t' := by
  refine add_right_cancel (b := u + v + r) ?_
  calc l' + s' + (u + v + r) = l' + (s' + u) + v + r := by abel
    _ = (l' + u' + v + r) + s := by rw [hs]; abel
    _ = r' + v' + u + (l + s) := by rw [hstep]; abel
    _ = r' + (t + v') + u + r := by rw [h]; abel
    _ = r' + t' + (u + v + r) := by rw [← ht]; abel

def turn (b : Books κ) (k : κ) (φ : Phase) (node : ZNode) (list : List Int)
    (records : List (Nat × Int)) : Books κ :=
  ⟨node, list, records, update b.phase k φ⟩

/-- What a step has to see to: that its own phase is in order, that it does not take
a record from another call, and that its two entries match. -/
theorem Balanced.turn {b : Books κ} (h : b.Balanced) {k : κ} {φ : Phase} {node : ZNode}
    {list : List Int} {records : List (Nat × Int)} (hnodup : list.Nodup)
    (haddresses : (records.map Prod.fst).Nodup)
    (hnode : node = b.node ∨ b.node.version < node.version) (hread : ∀ n, φ.read = some n →
      n.version ≤ node.version ∧ (n.version = node.version → n = node))
    (hkept : ∀ j, j ≠ k → ∀ addr id, (b.phase j).held = some addr → (addr, id) ∈ b.records →
      (addr, id) ∈ records) (hheld : ∀ addr, φ.held = some addr → ∃ id, (addr, id) ∈ records)
    (hnamed : ∀ r, φ.named = some r → r ∈ records)
    (halone : ∀ j addr, j ≠ k → φ.held = some addr → (b.phase j).held ≠ some addr)
    (hbalance : (list : Multiset Int) + φ.unlisted + (b.phase k).unrecorded +
        (b.records.map Prod.snd : Multiset Int) =
      (records.map Prod.snd : Multiset Int) + φ.unrecorded + (b.phase k).unlisted + b.list) :
    (b.turn k φ node list records).Balanced := by
  refine ⟨hnodup, haddresses, ?_, ?_, ?_, ?_, ?_⟩
  · intro j n hn
    by_cases hj : j = k
    · subst hj
      simp only [Books.turn, update_self] at hn
      exact hread n hn
    · simp only [Books.turn, update_of_ne hj] at hn
      obtain ⟨hle, heq⟩ := h.reads j n hn
      rcases hnode with rfl | hlt
      · exact ⟨hle, heq⟩
      · exact ⟨hle.trans hlt.le, fun hv => absurd (hv ▸ hlt) (by simpa [Books.turn] using hle)⟩
  · intro j addr hj
    by_cases hjk : j = k
    · subst hjk
      simp only [Books.turn, update_self] at hj
      exact hheld addr hj
    · simp only [Books.turn, update_of_ne hjk] at hj
      obtain ⟨id, hid⟩ := h.holds j addr hj
      exact ⟨id, hkept j hjk addr id hj hid⟩
  · intro j r hj
    by_cases hjk : j = k
    · subst hjk
      simp only [Books.turn, update_self] at hj
      exact hnamed r hj
    · simp only [Books.turn, update_of_ne hjk] at hj
      exact hkept j hjk r.1 r.2 (Phase.named_held hj) (h.names j r hj)
  · intro i j addr hi hj
    by_cases hik : i = k
    · by_cases hjk : j = k
      · exact hik.trans hjk.symm
      · subst hik
        simp only [Books.turn, update_self, update_of_ne hjk] at hi hj
        exact absurd hj (halone j addr hjk hi)
    · by_cases hjk : j = k
      · subst hjk
        simp only [Books.turn, update_self, update_of_ne hik] at hi hj
        exact absurd hi (halone i addr hik hj)
      · simp only [Books.turn, update_of_ne hik, update_of_ne hjk] at hi hj
        exact h.alone i j addr hi hj
  · have hunlisted := sum_update_add Phase.unlisted b.phase k φ
    have hunrecorded := sum_update_add Phase.unrecorded b.phase k φ
    exact exchange h.balance hunlisted hunrecorded hbalance

section Entries

variable {b : Books κ} {k : κ} {φ : Phase}

theorem Balanced.move (h : b.Balanced) (hunlisted : φ.unlisted = (b.phase k).unlisted)
    (hunrecorded : φ.unrecorded = (b.phase k).unrecorded)
    (hread : ∀ n, φ.read = some n → n = b.node)
    (hheld : ∀ addr, φ.held = some addr → (b.phase k).held = some addr ∨
      (∃ id, (addr, id) ∈ b.records) ∧ ∀ j, j ≠ k → (b.phase j).held ≠ some addr)
    (hnamed : ∀ r, φ.named = some r → (b.phase k).named = some r ∨ r ∈ b.records) :
    (b.turn k φ b.node b.list b.records).Balanced := by
  refine h.turn h.nodup h.addresses (.inl rfl) ?_ (fun _ _ _ _ _ hmem => hmem) ?_ ?_ ?_ ?_
  · rintro n hn
    rw [hread n hn]
    exact ⟨le_rfl, fun _ => rfl⟩
  · intro addr haddr
    rcases hheld addr haddr with hold | ⟨hnew, -⟩
    · exact h.holds k addr hold
    · exact hnew
  · intro r hr
    rcases hnamed r hr with hold | hnew
    · exact h.names k r hold
    · exact hnew
  · intro j addr hj haddr hother
    rcases hheld addr haddr with hold | ⟨-, hnew⟩
    · exact hj (h.alone j k addr hother hold)
    · exact hnew j hj hother
  · rw [hunlisted, hunrecorded]
    abel

theorem Balanced.append (h : b.Balanced) {id : Int} {data : List Char} (hnew : id ∉ b.list)
    (hread : φ.read = none) (hheld : φ.held = none) (hnamed : φ.named = none)
    (hdebts : φ.unrecorded + (b.phase k).unlisted =
      {id} + φ.unlisted + (b.phase k).unrecorded) :
    (b.turn k φ ⟨data, b.node.version + 1⟩ (b.list ++ [id]) b.records).Balanced := by
  refine h.turn ?_ h.addresses (.inr (Nat.lt_succ_self _)) ?_ (fun _ _ _ _ _ hmem => hmem)
    ?_ ?_ ?_ ?_
  · exact List.nodup_append.mpr ⟨h.nodup, List.nodup_singleton _, by
      rintro a ha b hb rfl
      exact hnew (List.mem_singleton.mp hb ▸ ha)⟩
  · simp [hread]
  · simp [hheld]
  · simp [hnamed]
  · simp [hheld]
  · have happend : ((b.list ++ [id] : List Int) : Multiset Int) =
        (b.list : Multiset Int) + {id} := by
      rw [← Multiset.coe_add, Multiset.coe_singleton]
    calc ((b.list ++ [id] : List Int) : Multiset Int) + φ.unlisted + (b.phase k).unrecorded +
          (b.records.map Prod.snd : Multiset Int)
        = (b.records.map Prod.snd : Multiset Int) +
            ({id} + φ.unlisted + (b.phase k).unrecorded) + b.list := by rw [happend]; abel
      _ = _ := by rw [← hdebts]; abel

theorem Balanced.enter (h : b.Balanced) {addr : Nat} {id : Int}
    (hnew : addr ∉ b.records.map Prod.fst) (hread : φ.read = none) (hheld : φ.held = none)
    (hnamed : φ.named = none) (hdebts : φ.unlisted + (b.phase k).unrecorded =
      {id} + φ.unrecorded + (b.phase k).unlisted) :
    (b.turn k φ b.node b.list ((addr, id) :: b.records)).Balanced := by
  refine h.turn h.nodup ?_ (.inl rfl) ?_ (fun _ _ _ _ _ hmem => List.mem_cons_of_mem _ hmem)
    ?_ ?_ ?_ ?_
  · exact List.nodup_cons.mpr ⟨hnew, h.addresses⟩
  · simp [hread]
  · simp [hheld]
  · simp [hnamed]
  · simp [hheld]
  · have hcons : (((addr, id) :: b.records).map Prod.snd : Multiset Int) =
        (b.records.map Prod.snd : Multiset Int) + {id} := by
      rw [List.map_cons, ← Multiset.cons_coe, ← Multiset.singleton_add, add_comm]
    calc (b.list : Multiset Int) + φ.unlisted + (b.phase k).unrecorded +
          (b.records.map Prod.snd : Multiset Int)
        = (b.list : Multiset Int) + (φ.unlisted + (b.phase k).unrecorded) +
            (b.records.map Prod.snd : Multiset Int) := by abel
      _ = _ := by rw [hdebts, hcons]; abel

theorem Balanced.strike (h : b.Balanced) {addr : Nat} {id : Int} {n : Option ZNode}
    {data : List Char} (hphase : b.phase k = .removing addr id n) (hmem : id ∈ b.list) :
    (b.turn k (.erasing addr id) ⟨data, b.node.version + 1⟩ (b.list.filter (· ≠ id))
      b.records).Balanced := by
  have hheld : (b.phase k).held = some addr := by rw [hphase]; rfl
  have hnamed : (b.phase k).named = some (addr, id) := by rw [hphase]; rfl
  refine h.turn (h.nodup.filter _) h.addresses (.inr (Nat.lt_succ_self _)) ?_
    (fun _ _ _ _ _ hmem => hmem) ?_ ?_ ?_ ?_
  · rintro n ⟨⟩
  · rintro a ⟨⟩
    exact h.holds k addr hheld
  · rintro r ⟨⟩
    exact h.names k _ hnamed
  · rintro j a hj ⟨⟩ hother
    exact hj (h.alone j k addr hother hheld)
  · have hfilter : b.list.filter (· ≠ id) = b.list.erase id := by
      rw [h.nodup.erase_eq_filter]
      exact List.filter_congr fun x _ => by by_cases hx : x = id <;> simp [hx]
    have hlist : (b.list : Multiset Int) =
        ((b.list.filter (· ≠ id) : List Int) : Multiset Int) + {id} := by
      rw [hfilter, ← Multiset.coe_erase, add_comm, Multiset.singleton_add,
        Multiset.cons_erase (Multiset.mem_coe.mpr hmem)]
    simp only [hphase, Phase.unlisted, Phase.unrecorded, hlist]
    abel

theorem Balanced.erase (h : b.Balanced) {addr : Nat} {id : Int} {records : List (Nat × Int)}
    (hphase : b.phase k = .erasing addr id) (hperm : b.records.Perm ((addr, id) :: records)) :
    (b.turn k .free b.node b.list records).Balanced := by
  have hheld : (b.phase k).held = some addr := by rw [hphase]; rfl
  refine h.turn h.nodup ?_ (.inl rfl) ?_ ?_ ?_ ?_ ?_ ?_
  · have hnodup := (hperm.map Prod.fst).nodup_iff.mp h.addresses
    exact (List.nodup_cons.mp hnodup).2
  · rintro n ⟨⟩
  · intro j hj a i hother hmem
    rcases List.mem_cons.mp (hperm.mem_iff.mp hmem) with heq | hrest
    · cases heq
      exact absurd (h.alone j k addr hother hheld) hj
    · exact hrest
  · rintro a ⟨⟩
  · rintro r ⟨⟩
  · rintro j a hj ⟨⟩
  · have hids : (b.records.map Prod.snd : Multiset Int) =
        {id} + (records.map Prod.snd : Multiset Int) := by
      rw [Multiset.singleton_add, Multiset.cons_coe]
      exact Multiset.coe_eq_coe.mpr (hperm.map Prod.snd)
    simp only [hphase, Phase.unlisted, Phase.unrecorded, hids]
    abel

end Entries

omit [DecidableEq κ] in
theorem Balanced.agree {b : Books κ} (h : b.Balanced) (hsettled : ∀ k, (b.phase k).settled) :
    b.list.Perm (b.records.map Prod.snd) := by
  have hunlisted : ∑ k, (b.phase k).unlisted = 0 := Finset.sum_eq_zero fun k _ => (hsettled k).1
  have hunrecorded : ∑ k, (b.phase k).unrecorded = 0 :=
    Finset.sum_eq_zero fun k _ => (hsettled k).2
  have hbalance := h.balance
  rw [hunlisted, hunrecorded, add_zero, add_zero] at hbalance
  exact Multiset.coe_eq_coe.mp hbalance

end Books

end RdmaMigration.FaultTolerant
