import Mathlib.Data.List.Basic

/-! # Counting the members of a list that is updated in place

The members of a list that satisfy a test, when one member is replaced. The law is
stated without subtraction, so that it can be used with linear arithmetic.
-/

namespace RdmaMigration.Lib

variable {α : Type*}

def tally (test : Bool) : Nat := if test then 1 else 0

@[simp] theorem tally_true : tally true = 1 := rfl

@[simp] theorem tally_false : tally false = 0 := rfl

theorem countP_set_add (test : α → Bool) {l : List α} {i : Nat} {a : α} (h : l[i]? = some a)
    (b : α) : (l.set i b).countP test + tally (test a) = l.countP test + tally (test b) := by
  induction l generalizing i with
  | nil => simp at h
  | cons x l ih =>
      cases i with
      | zero =>
          obtain rfl : x = a := by simpa using h
          rw [List.set_cons_zero, List.countP_cons, List.countP_cons]
          unfold tally
          omega
      | succ i =>
          rw [List.getElem?_cons_succ] at h
          have hrest := ih h
          rw [List.set_cons_succ, List.countP_cons, List.countP_cons]
          omega

theorem countP_set_same (test : α → Bool) {l : List α} {i : Nat} {a b : α} (h : l[i]? = some a)
    (hab : test b = test a) : (l.set i b).countP test = l.countP test := by
  have hadd := countP_set_add test h b
  rw [hab] at hadd
  omega

theorem countP_concat (test : α → Bool) (l : List α) (a : α) :
    (l ++ [a]).countP test = l.countP test + tally (test a) := by
  rw [List.countP_append, List.countP_singleton]
  rfl

theorem tally_le_countP (test : α → Bool) {l : List α} {i : Nat} {a : α} (h : l[i]? = some a) :
    tally (test a) ≤ l.countP test := by
  have hmem : a ∈ l := List.mem_of_getElem? h
  cases htest : test a with
  | false => exact Nat.zero_le _
  | true => exact List.countP_pos_iff.mpr ⟨a, hmem, htest⟩

theorem all_of_length_le_countP {test : α → Bool} {l : List α} (h : l.length ≤ l.countP test)
    {a : α} (ha : a ∈ l) : test a = true :=
  List.countP_eq_length.mp (Nat.le_antisymm List.countP_le_length h) a ha

end RdmaMigration.Lib
