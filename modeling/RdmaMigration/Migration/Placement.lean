import RdmaMigration.Lib.Buckets
import RdmaMigration.Manager.Face
import RdmaMigration.Migration.Handover

/-! # Where a server's segments lie

Every segment that a server holds, has given away or has accepted has a record
of its size in the table and memory of its own. Records of other addresses stay
in the table, and the free lists only promise the size of their records.
-/

namespace RdmaMigration.Migration

open Lib Function Manager
open Manager.Server (pageUp)

def span {ι : Type} (addr : Nat) (stage : Stage ι) : Nat × Nat := (addr, pageUp stage.size)

structure Placed {ι : Type} (stage : Nat → Stage ι) (l : Layout) : Prop where
  table : ∀ addr p, l.memoryMap.lookup addr = some p → ∃ n, l.extents[p]? = some (addr, n)
  free : ∀ size list p, l.freeMap.lookup size = some list → p ∈ list →
    ∃ addr, l.extents[p]? = some (addr, size)
  live : ∀ addr, stage addr ≠ .absent → ∃ p, l.memoryMap.lookup addr = some p ∧
    l.extents[p]? = some (addr, (stage addr).size)
  room : ∀ addr, stage addr ≠ .absent → 0 < (stage addr).size ∧
    addr + pageUp (stage addr).size ≤ 2 ^ 47
  mapped : ∀ addr, stage addr ≠ .absent → ∀ a, Covers (span addr (stage addr)) a →
    Covered l.mapped a
  apart : ∀ addr addr', stage addr ≠ .absent → stage addr' ≠ .absent → addr ≠ addr' →
    ¬ Overlap (span addr (stage addr)) (span addr' (stage addr'))

section Placed

variable {ι : Type} {stage : Nat → Stage ι} {l : Layout} {addr size : Nat}

theorem Placed.covers_span {a : Nat} (ha : Covers (addr, (stage addr).size) a) :
    Covers (span addr (stage addr)) a := by
  have hle := Server.le_pageUp (stage addr).size
  unfold Covers span at *
  omega

theorem Placed.not_covers (h : Placed stage l) {addr' a : Nat} (hlive : stage addr ≠ .absent)
    (hlive' : stage addr' ≠ .absent) (hne : addr ≠ addr')
    (ha : Covers (span addr (stage addr)) a) : ¬ Covers (span addr' (stage addr')) a :=
  fun ha' => h.apart addr addr' hlive hlive' hne ((overlap_iff _ _).mpr ⟨a, ha, ha'⟩)

theorem Placed.not_overlap (h : Placed stage l) {r : Nat × Nat}
    (hfree : ∀ q ∈ l.mapped, ¬ Overlap r q) (hlive : stage addr ≠ .absent) :
    ¬ Overlap r (span addr (stage addr)) := by
  intro ho
  obtain ⟨a, har, ha⟩ := (overlap_iff _ _).mp ho
  obtain ⟨q, hq, haq⟩ := h.mapped addr hlive a ha
  exact hfree q hq ((overlap_iff _ _).mpr ⟨a, har, haq⟩)

theorem Placed.restage (h : Placed stage l) {v : Stage ι} (hlive : stage addr ≠ .absent)
    (hv : v.size = (stage addr).size) : Placed (update stage addr v) l := by
  have hback : ∀ x, update stage addr v x ≠ .absent → stage x ≠ .absent := by
    intro x hx
    by_cases heq : x = addr
    · rw [heq]
      exact hlive
    · rwa [update_of_ne heq] at hx
  have hsize : ∀ x, (update stage addr v x).size = (stage x).size := by
    intro x
    by_cases heq : x = addr
    · rw [heq, update_self, hv]
    · rw [update_of_ne heq]
  refine { h with live := ?_, room := ?_, mapped := ?_, apart := ?_ }
  · intro x hx
    rw [hsize]
    exact h.live x (hback x hx)
  · intro x hx
    rw [hsize]
    exact h.room x (hback x hx)
  · intro x hx
    rw [span, hsize]
    exact h.mapped x (hback x hx)
  · intro x y hx hy hne
    rw [span, span, hsize, hsize]
    exact h.apart x y (hback x hx) (hback y hy) hne

theorem Placed.map (h : Placed stage l) (r : Nat × Nat) :
    Placed stage { l with mapped := r :: l.mapped } := by
  refine { h with mapped := ?_ }
  intro x hx a ha
  obtain ⟨q, hq, haq⟩ := h.mapped x hx a ha
  exact ⟨q, List.mem_cons_of_mem _ hq, haq⟩

/-- A segment gets memory at an address where nothing was mapped, and a record
that is new or comes from a free list. -/
theorem Placed.place (h : Placed stage l) {l' : Layout} {v : Stage ι} {p : Nat}
    (hmapped : l'.mapped = (addr, pageUp size) :: l.mapped)
    (hmap : l'.memoryMap = l.memoryMap.insert addr p) (hp : l'.extents[p]? = some (addr, size))
    (hextents : ∀ (q : Nat) x, l.extents[q]? = some x → l'.extents[q]? = some x)
    (hfree : ∀ size list p, l'.freeMap.lookup size = some list → p ∈ list →
      ∃ addr, l'.extents[p]? = some (addr, size))
    (hpos : 0 < size) (hend : addr + pageUp size ≤ 2 ^ 47)
    (hroom : ∀ q ∈ l.mapped, ¬ Overlap (addr, pageUp size) q) (hv : v.size = size) :
    Placed (update stage addr v) l' := by
  have hnew : span addr (update stage addr v addr) = (addr, pageUp size) := by
    rw [update_self, span, hv]
  have hcase : ∀ {x}, update stage addr v x ≠ .absent → x ≠ addr →
      update stage addr v x = stage x ∧ stage x ≠ .absent := by
    intro x hx hne
    rw [update_of_ne hne] at hx ⊢
    exact ⟨rfl, hx⟩
  refine ⟨?_, hfree, ?_, ?_, ?_, ?_⟩
  · intro x q hq
    rw [hmap] at hq
    by_cases heq : x = addr
    · rw [heq, AList.lookup_insert, Option.some.injEq] at hq
      rw [← hq, heq]
      exact ⟨size, hp⟩
    · rw [AList.lookup_insert_ne heq] at hq
      obtain ⟨n, hn⟩ := h.table x q hq
      exact ⟨n, hextents q _ hn⟩
  · intro x hx
    by_cases heq : x = addr
    · rw [heq, hmap, AList.lookup_insert, update_self, hv]
      exact ⟨p, rfl, hp⟩
    · obtain ⟨hsame, hlive⟩ := hcase hx heq
      obtain ⟨q, hq, hext⟩ := h.live x hlive
      rw [hsame, hmap, AList.lookup_insert_ne heq]
      exact ⟨q, hq, hextents q _ hext⟩
  · intro x hx
    by_cases heq : x = addr
    · rw [heq, update_self, hv]
      exact ⟨hpos, hend⟩
    · obtain ⟨hsame, hlive⟩ := hcase hx heq
      rw [hsame]
      exact h.room x hlive
  · intro x hx a ha
    rw [hmapped]
    by_cases heq : x = addr
    · rw [heq, hnew] at ha
      exact ⟨_, List.mem_cons_self, ha⟩
    · obtain ⟨hsame, hlive⟩ := hcase hx heq
      rw [hsame] at ha
      obtain ⟨q, hq, haq⟩ := h.mapped x hlive a ha
      exact ⟨q, List.mem_cons_of_mem _ hq, haq⟩
  · intro x y hx hy hne
    by_cases hxa : x = addr
    · obtain ⟨hsame, hlive⟩ := hcase hy fun hya => hne (hxa.trans hya.symm)
      rw [hxa, hnew, hsame]
      exact h.not_overlap hroom hlive
    · obtain ⟨hsame, hlive⟩ := hcase hx hxa
      rw [hsame]
      by_cases hya : y = addr
      · rw [hya, hnew]
        exact fun ho => h.not_overlap hroom hlive ho.symm
      · obtain ⟨hsame', hlive'⟩ := hcase hy hya
        rw [hsame']
        exact h.apart x y hlive hlive' hne

theorem Placed.release (h : Placed stage l) {p : Nat} (hlive : stage addr ≠ .absent)
    (hp : l.extents[p]? = some (addr, (stage addr).size)) :
    Placed (update stage addr .absent) { l with
      mapped := cut (span addr (stage addr)) l.mapped
      freeMap := l.freeMap.insert (stage addr).size
        ((l.freeMap.lookup (stage addr).size).getD [] ++ [p]) } := by
  have hcase : ∀ {x}, update stage addr .absent x ≠ .absent →
      x ≠ addr ∧ update stage addr .absent x = stage x ∧ stage x ≠ .absent := by
    intro x hx
    have hne : x ≠ addr := by
      rintro rfl
      simp at hx
    rw [update_of_ne hne] at hx ⊢
    exact ⟨hne, rfl, hx⟩
  refine ⟨h.table, ?_, ?_, ?_, ?_, ?_⟩
  · intro size list q hlist hq
    rcases mem_of_lookup_append hlist hq with ⟨rfl, rfl⟩ | ⟨old, hold, hmem⟩
    · exact ⟨addr, hp⟩
    · exact h.free size old q hold hmem
  · intro x hx
    obtain ⟨-, hsame, hlive'⟩ := hcase hx
    rw [hsame]
    exact h.live x hlive'
  · intro x hx
    obtain ⟨-, hsame, hlive'⟩ := hcase hx
    rw [hsame]
    exact h.room x hlive'
  · intro x hx a ha
    obtain ⟨hne, hsame, hlive'⟩ := hcase hx
    rw [hsame] at ha
    exact (covered_cut _ _ _).mpr ⟨h.mapped x hlive' a ha, h.not_covers hlive' hlive hne ha⟩
  · intro x y hx hy hne
    obtain ⟨-, hsame, hlive'⟩ := hcase hx
    obtain ⟨-, hsame', hlive''⟩ := hcase hy
    rw [hsame, hsame']
    exact h.apart x y hlive' hlive'' hne

end Placed

end RdmaMigration.Migration
