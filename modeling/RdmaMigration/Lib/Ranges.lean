import Mathlib.Data.List.Basic

/-! # Ranges of addresses

A range is a start and a length. A list of ranges stands for the addresses they
cover together, as a process's mappings do.
-/

namespace RdmaMigration.Lib

def Covers (r : Nat × Nat) (a : Nat) : Prop := r.1 ≤ a ∧ a < r.1 + r.2

instance (r : Nat × Nat) (a : Nat) : Decidable (Covers r a) :=
  inferInstanceAs (Decidable (_ ∧ _))

def Overlap (q r : Nat × Nat) : Prop := max q.1 r.1 < min (q.1 + q.2) (r.1 + r.2)

instance (q r : Nat × Nat) : Decidable (Overlap q r) := inferInstanceAs (Decidable (_ < _))

theorem overlap_iff (q r : Nat × Nat) : Overlap q r ↔ ∃ a, Covers q a ∧ Covers r a := by
  unfold Overlap Covers
  constructor
  · intro h
    exact ⟨max q.1 r.1, by omega, by omega⟩
  · rintro ⟨a, hq, hr⟩
    omega

theorem Overlap.symm {q r : Nat × Nat} (h : Overlap q r) : Overlap r q := by
  unfold Overlap at *
  omega

def Covered (m : List (Nat × Nat)) (a : Nat) : Prop := ∃ r ∈ m, Covers r a

def cut (r : Nat × Nat) (m : List (Nat × Nat)) : List (Nat × Nat) :=
  m.flatMap fun q =>
    [(q.1, min (q.1 + q.2) r.1 - q.1),
      (max q.1 (r.1 + r.2), q.1 + q.2 - max q.1 (r.1 + r.2))]

theorem covered_cut (r : Nat × Nat) (m : List (Nat × Nat)) (a : Nat) :
    Covered (cut r m) a ↔ Covered m a ∧ ¬ Covers r a := by
  unfold Covered cut
  simp only [List.mem_flatMap, List.mem_cons, List.not_mem_nil, or_false]
  constructor
  · rintro ⟨piece, ⟨q, hq, rfl | rfl⟩, ha⟩
    · refine ⟨⟨q, hq, ?_⟩, ?_⟩ <;> unfold Covers at * <;> omega
    · refine ⟨⟨q, hq, ?_⟩, ?_⟩ <;> unfold Covers at * <;> omega
  · rintro ⟨⟨q, hq, ha⟩, hr⟩
    by_cases hlo : a < r.1
    · refine ⟨_, ⟨q, hq, .inl rfl⟩, ?_⟩
      unfold Covers at *
      omega
    · refine ⟨_, ⟨q, hq, .inr rfl⟩, ?_⟩
      unfold Covers at *
      omega

/-! ## Ranges side by side -/

def Tiles : Nat → List (Nat × Nat) → Nat → Prop
  | lo, [], hi => lo = hi
  | lo, r :: rest, hi => r.1 = lo ∧ Tiles (lo + r.2) rest hi

variable {lo hi : Nat} {l : List (Nat × Nat)}

theorem Tiles.snoc {mid size : Nat} (h : Tiles lo l mid) :
    Tiles lo (l ++ [(mid, size)]) (mid + size) := by
  induction l generalizing lo with
  | nil =>
      cases h
      exact ⟨rfl, rfl⟩
  | cons r rest ih => exact ⟨h.1, ih h.2⟩

theorem tiles_map_range (edge : Nat → Nat) {range : Nat → Nat × Nat} {n : Nat}
    (h : ∀ i < n, (range i).1 = edge i ∧ edge i + (range i).2 = edge (i + 1)) :
    Tiles (edge 0) ((List.range n).map range) (edge n) := by
  induction n with
  | zero => rfl
  | succ n ih =>
      obtain ⟨hlow, hhigh⟩ := h n (Nat.lt_succ_self n)
      have hrange : range n = (edge n, (range n).2) := Prod.ext hlow rfl
      rw [List.range_succ, List.map_append, List.map_singleton, hrange, ← hhigh]
      exact (ih fun i hi => h i (Nat.lt_succ_of_lt hi)).snoc

theorem Tiles.le (h : Tiles lo l hi) : lo ≤ hi := by
  induction l generalizing lo with
  | nil => exact Nat.le_of_eq h
  | cons r rest ih => exact Nat.le_trans (Nat.le_add_right lo r.2) (ih h.2)

theorem Tiles.bounds (h : Tiles lo l hi) {r : Nat × Nat}
    (hr : r ∈ l) : lo ≤ r.1 ∧ r.1 + r.2 ≤ hi := by
  induction l generalizing lo with
  | nil => cases hr
  | cons q rest ih =>
      obtain ⟨rfl, hrest⟩ := h
      rcases List.mem_cons.mp hr with rfl | hmem
      · exact ⟨Nat.le_refl _, hrest.le⟩
      · obtain ⟨hlow, hhigh⟩ := ih hrest hmem
        exact ⟨Nat.le_trans (Nat.le_add_right q.1 q.2) hlow, hhigh⟩

theorem Tiles.covered (h : Tiles lo l hi) (a : Nat) :
    Covered l a ↔ lo ≤ a ∧ a < hi := by
  induction l generalizing lo with
  | nil =>
      cases h
      constructor
      · rintro ⟨r, hr, -⟩
        cases hr
      · omega
  | cons q rest ih =>
      obtain ⟨rfl, hrest⟩ := h
      have hle := hrest.le
      have hcons : Covered (q :: rest) a ↔ Covers q a ∨ Covered rest a := by
        simp [Covered]
      rw [hcons, ih hrest]
      unfold Covers
      omega

theorem Tiles.ordered (h : Tiles lo l hi) :
    l.Pairwise fun q r => q.1 + q.2 ≤ r.1 := by
  induction l generalizing lo with
  | nil => exact .nil
  | cons q rest ih =>
      obtain ⟨rfl, hrest⟩ := h
      exact .cons (fun r hr => (hrest.bounds hr).1) (ih hrest)

theorem Tiles.apart (h : Tiles lo l hi) :
    l.Pairwise fun q r => ¬ Overlap q r := by
  refine h.ordered.imp fun hle hover => ?_
  unfold Overlap at hover
  omega

theorem Tiles.starts_nodup (h : Tiles lo l hi)
    (hpos : ∀ r ∈ l, 0 < r.2) : (l.map Prod.fst).Nodup := by
  refine List.pairwise_map.mpr (h.ordered.imp_of_mem fun {q r} hq _ hle heq => ?_)
  have := hpos q hq
  omega

end RdmaMigration.Lib
