import Mathlib.Algebra.Ring.Nat
import Mathlib.Data.Nat.Basic
import RdmaMigration.Lib.Ranges

/-! # Blocks from a bump pointer

A bump pointer hands out one block behind the other. Its address wraps at `limit`, the
lengths of the blocks do not.
-/

namespace RdmaMigration.Lib

def bump (limit : Nat) : Nat → List Nat → List (Nat × Nat)
  | _, [] => []
  | a, n :: ns => (a % limit, n) :: bump limit (a + n) ns

variable {limit : Nat}

@[simp] theorem bump_nil (limit a : Nat) : bump limit a [] = [] := rfl

theorem bump_cons (limit a n : Nat) (ns : List Nat) :
    bump limit a (n :: ns) = (a % limit, n) :: bump limit (a + n) ns := rfl

theorem bump_append (limit a : Nat) (ns ms : List Nat) :
    bump limit a (ns ++ ms) = bump limit a ns ++ bump limit (a + ns.sum) ms := by
  induction ns generalizing a with
  | nil => simp
  | cons n ns ih =>
      rw [List.cons_append, bump_cons, bump_cons, ih, List.sum_cons, Nat.add_assoc,
        List.cons_append]

theorem getElem?_bump (limit a : Nat) (ns : List Nat) (k : Nat) :
    (bump limit a ns)[k]? = ns[k]?.map fun n => ((a + (ns.take k).sum) % limit, n) := by
  induction ns generalizing a k with
  | nil => simp
  | cons n ns ih =>
      cases k with
      | zero => simp [bump_cons]
      | succ k =>
          rw [bump_cons, List.getElem?_cons_succ, List.getElem?_cons_succ, ih, List.take_succ_cons,
            List.sum_cons, Nat.add_assoc]

theorem bump_tiles {a : Nat} {ns : List Nat} (h : a + ns.sum < limit) :
    Tiles a (bump limit a ns) (a + ns.sum) := by
  induction ns generalizing a with
  | nil => rfl
  | cons n ns ih =>
      rw [List.sum_cons] at h ⊢
      rw [bump_cons, Nat.mod_eq_of_lt (by omega), ← Nat.add_assoc]
      exact ⟨rfl, ih (by omega)⟩

theorem bump_le_iff {a hi : Nat} {ns : List Nat} (ha : a < limit) (hhi : hi < limit) :
    (∀ b ∈ bump limit a ns, b.1 + b.2 ≤ hi) ↔ ns = [] ∨ a + ns.sum ≤ hi := by
  constructor
  · intro h
    induction ns generalizing a with
    | nil => exact .inl rfl
    | cons n ns ih =>
        right
        rw [bump_cons, Nat.mod_eq_of_lt ha] at h
        have hfirst : a + n ≤ hi := h (a, n) (List.mem_cons_self ..)
        have hrest := ih (show a + n < limit by omega) fun b hb => h b (List.mem_cons_of_mem _ hb)
        rw [List.sum_cons, ← Nat.add_assoc]
        rcases hrest with rfl | hrest
        · exact hfirst
        · exact hrest
  · rintro (rfl | hsum) b hb
    · cases hb
    · exact Nat.le_trans ((bump_tiles (by omega)).bounds hb).2 hsum

end RdmaMigration.Lib
