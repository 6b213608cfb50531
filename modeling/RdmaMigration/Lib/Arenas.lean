import Mathlib.Logic.Function.Basic
import RdmaMigration.Lib.Ranges

/-! # Blocks carved from several arenas

Every arena is a range of its own with a mark up to which it is used, and a block
is carved from an arena by moving its mark. Blocks are never given back, so any
two blocks ever carved are apart, whichever arenas they come from.
-/

namespace RdmaMigration.Lib

open Function

variable {ι : Type*} {valid : ι → Prop} {lo hi mark : ι → Nat} {blocks : List (Nat × Nat)}

structure Carved (valid : ι → Prop) (lo hi mark : ι → Nat) (blocks : List (Nat × Nat)) :
    Prop where
  bounds : ∀ i, valid i → lo i ≤ mark i ∧ mark i ≤ hi i
  inside : ∀ r ∈ blocks, 0 < r.2 ∧ ∃ i, valid i ∧ lo i ≤ r.1 ∧ r.1 + r.2 ≤ mark i
  apart : ∀ q ∈ blocks, ∀ r ∈ blocks, q ≠ r → ¬ Overlap q r

theorem Carved.empty (h : ∀ i, valid i → lo i ≤ hi i) : Carved valid lo hi lo [] := by
  constructor
  · intro i hi
    exact ⟨Nat.le_refl _, h i hi⟩
  · simp
  · simp

theorem Carved.unique (h : Carved valid lo hi mark blocks) {q r : Nat × Nat} {a : Nat}
    (hq : q ∈ blocks) (hr : r ∈ blocks) (hqa : Covers q a) (hra : Covers r a) : q = r := by
  by_contra hne
  exact h.apart q hq r hr hne ((overlap_iff q r).mpr ⟨a, hqa, hra⟩)

theorem Carved.same_size (h : Carved valid lo hi mark blocks) {start size size' : Nat}
    (hr : (start, size) ∈ blocks) (hr' : (start, size') ∈ blocks) : size = size' := by
  have hpos := (h.inside _ hr).1
  have hpos' := (h.inside _ hr').1
  have heq := h.unique hr hr' (a := start) ⟨Nat.le_refl _, by dsimp only at *; omega⟩
    ⟨Nat.le_refl _, by dsimp only at *; omega⟩
  exact congrArg Prod.snd heq

section Carve

variable [DecidableEq ι] {i : ι} {size : Nat}

theorem Carved.not_overlap (h : Carved valid lo hi mark blocks)
    (hdisjoint : ∀ i j, valid i → valid j → i ≠ j → hi i ≤ lo j ∨ hi j ≤ lo i) (hi' : valid i)
    (hfit : mark i + size ≤ hi i) {r : Nat × Nat} (hr : r ∈ blocks) :
    ¬ Overlap (mark i, size) r := by
  obtain ⟨-, j, hj, hlo, hmark⟩ := h.inside r hr
  have hboundi := h.bounds i hi'
  have hboundj := h.bounds j hj
  unfold Overlap
  by_cases hij : i = j
  · subst hij
    omega
  · have hapart := hdisjoint i j hi' hj hij
    omega

theorem Carved.carve (h : Carved valid lo hi mark blocks)
    (hdisjoint : ∀ i j, valid i → valid j → i ≠ j → hi i ≤ lo j ∨ hi j ≤ lo i) (hi' : valid i)
    (hpos : 0 < size) (hfit : mark i + size ≤ hi i) :
    Carved valid lo hi (update mark i (mark i + size)) ((mark i, size) :: blocks) := by
  have hle : ∀ j, mark j ≤ update mark i (mark i + size) j := by
    intro j
    by_cases hj : j = i
    · subst hj
      simp
    · simp [hj]
  have hnew := fun {r} (hr : r ∈ blocks) => h.not_overlap hdisjoint hi' hfit hr
  refine ⟨?_, ?_, ?_⟩
  · intro j hj
    have hbound := h.bounds j hj
    by_cases hji : j = i
    · subst hji
      simp only [update_self]
      omega
    · simpa [hji] using hbound
  · intro r hr
    rcases List.mem_cons.mp hr with rfl | hr
    · exact ⟨hpos, i, hi', (h.bounds i hi').1, by simp⟩
    · obtain ⟨hsize, j, hj, hlo, hmark⟩ := h.inside r hr
      exact ⟨hsize, j, hj, hlo, Nat.le_trans hmark (hle j)⟩
  · intro q hq r hr hne
    rcases List.mem_cons.mp hq with rfl | hq
    · rcases List.mem_cons.mp hr with rfl | hr
      · exact absurd rfl hne
      · exact hnew hr
    · rcases List.mem_cons.mp hr with rfl | hr
      · exact fun ho => hnew hq ho.symm
      · exact h.apart q hq r hr hne

end Carve

end RdmaMigration.Lib
