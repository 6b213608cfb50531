import Mathlib.Algebra.Ring.Parity
import Mathlib.Data.List.Count

/-! # Fields that end with a separator

A text of fields, each followed by the separator, and what is left behind the last
separator. Every text has this form.
-/

namespace RdmaMigration.Lib

variable {α : Type*} {sep : α}

def terminated (sep : α) (fields : List (List α)) : List α := fields.flatMap (· ++ [sep])

@[simp] theorem terminated_nil (sep : α) : terminated sep [] = [] := rfl

theorem terminated_cons (sep : α) (field : List α) (fields : List (List α)) :
    terminated sep (field :: fields) = field ++ sep :: terminated sep fields := by
  simp [terminated]

theorem terminated_append (sep : α) (fields fields' : List (List α)) :
    terminated sep (fields ++ fields') = terminated sep fields ++ terminated sep fields' :=
  List.flatMap_append

theorem exists_fields [DecidableEq α] (sep : α) (s : List α) :
    ∃ fields tail, (∀ field ∈ fields, sep ∉ field) ∧ sep ∉ tail ∧
      s = terminated sep fields ++ tail := by
  induction s with
  | nil => exact ⟨[], [], by simp, by simp, rfl⟩
  | cons c s ih =>
      obtain ⟨fields, tail, hfields, htail, rfl⟩ := ih
      by_cases hc : c = sep
      · subst hc
        refine ⟨[] :: fields, tail, ?_, htail, by rw [terminated_cons]; rfl⟩
        simpa using hfields
      · -- the character belongs to the first field, or to what is behind the last one
        cases fields with
        | nil => exact ⟨[], c :: tail, by simp, by simp [Ne.symm hc, htail], rfl⟩
        | cons field fields =>
            refine ⟨(c :: field) :: fields, tail, ?_, htail, ?_⟩
            · obtain ⟨hfield, hrest⟩ := List.forall_mem_cons.mp hfields
              exact List.forall_mem_cons.mpr ⟨by simp [Ne.symm hc, hfield], hrest⟩
            · rw [terminated_cons, terminated_cons]
              rfl

theorem count_fields [DecidableEq α] {fields : List (List α)} {tail : List α}
    (hfields : ∀ field ∈ fields, sep ∉ field) (htail : sep ∉ tail) :
    (terminated sep fields ++ tail).count sep = fields.length := by
  induction fields with
  | nil => exact List.count_eq_zero_of_not_mem htail
  | cons field fields ih =>
      obtain ⟨hfield, hrest⟩ := List.forall_mem_cons.mp hfields
      have hzero : field.count sep = 0 := List.count_eq_zero_of_not_mem hfield
      rw [terminated_cons, List.append_assoc, List.count_append, List.cons_append,
        List.count_cons_self, ih hrest, hzero, Nat.zero_add, List.length_cons]

theorem ends_with_sep_iff {fields : List (List α)} {tail : List α} (htail : sep ∉ tail) :
    terminated sep fields ++ tail = [] ∨ (terminated sep fields ++ tail).getLast? = some sep ↔
      tail = [] := by
  constructor
  · rintro (hempty | hlast)
    · exact (List.append_eq_nil_iff.mp hempty).2
    · by_contra hne
      rw [List.getLast?_append, List.getLast?_eq_some_getLast hne, Option.some_or,
        Option.some.injEq] at hlast
      exact htail (hlast ▸ List.getLast_mem hne)
  · rintro rfl
    rw [List.append_nil]
    rcases List.eq_nil_or_concat fields with rfl | ⟨front, last, rfl⟩
    · exact .inl rfl
    · right
      rw [List.concat_eq_append, terminated_append, terminated_cons, terminated_nil]
      simp

theorem exists_pairs : ∀ fields : List α,
    ∃ (pairs : List (α × α)) (left : List α), left.length < 2 ∧
      fields = pairs.flatMap (fun p => [p.1, p.2]) ++ left
  | [] => ⟨[], [], Nat.zero_lt_two, rfl⟩
  | [a] => ⟨[], [a], Nat.one_lt_two, rfl⟩
  | a :: b :: fields => by
      obtain ⟨pairs, left, hleft, hfields⟩ := exists_pairs fields
      exact ⟨(a, b) :: pairs, left, hleft, by simp [hfields]⟩

theorem length_pairs (pairs : List (α × α)) (left : List α) :
    (pairs.flatMap (fun p => [p.1, p.2]) ++ left).length = 2 * pairs.length + left.length := by
  induction pairs with
  | nil => simp
  | cons p pairs ih =>
      rw [List.flatMap_cons, List.append_assoc, List.length_append, ih]
      simp only [List.length_cons, List.length_nil]
      omega

end RdmaMigration.Lib
