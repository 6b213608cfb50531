import Mathlib.Algebra.BigOperators.Group.Finset.Basic
import Mathlib.Data.List.AList
import Mathlib.Logic.Function.Basic

/-! # Changes of one entry

In a table with two indices, in a list that grows or is seen through a
projection, in a map, and in a family that is summed up.
-/

namespace RdmaMigration.Lib

open Function

theorem map_modify {α β : Type*} {f : α → α} {g : α → β} {h : β → β}
    (hfg : ∀ a, g (f a) = h (g a)) (l : List α) (p : Nat) :
    (l.modify p f).map g = (l.map g).modify p h := by
  induction l generalizing p with
  | nil => simp
  | cons a l ih =>
      cases p with
      | zero => simp [hfg]
      | succ p => simp [ih]

theorem map_modify_eq {α β : Type*} {f : α → α} {g : α → β} (hfg : ∀ a, g (f a) = g a)
    (l : List α) (p : Nat) : (l.modify p f).map g = l.map g := by
  have hid : ∀ a, g (f a) = id (g a) := hfg
  rw [map_modify hid, List.modify_id]

theorem modify_snoc {α : Type*} (l : List α) (a : α) (f : α → α) :
    (l ++ [a]).modify l.length f = l ++ [f a] := by
  induction l with
  | nil => rfl
  | cons b l ih => exact congrArg (b :: ·) ih

theorem getElem?_append_of_some {α : Type*} {l l' : List α} {p : Nat} {x : α}
    (h : l[p]? = some x) : (l ++ l')[p]? = some x := by
  rw [List.getElem?_append_left (List.getElem?_eq_some_iff.mp h).1, h]

theorem getElem?_snoc_cases {α : Type*} {l : List α} {p : Nat} {x y : α}
    (h : (l ++ [y])[p]? = some x) : l[p]? = some x ∨ (p = l.length ∧ x = y) := by
  by_cases hp : p < l.length
  · rw [List.getElem?_append_left hp] at h
    exact .inl h
  · have hlt := (List.getElem?_eq_some_iff.mp h).1
    rw [List.length_append, List.length_singleton] at hlt
    have hlast : p = l.length := by omega
    subst hlast
    rw [List.getElem?_concat_length, Option.some.injEq] at h
    exact .inr ⟨rfl, h.symm⟩

theorem keys_length_insert {κ ν : Type*} [DecidableEq κ] {m : AList fun _ : κ => ν} {k : κ}
    (h : k ∉ m) (v : ν) : (m.insert k v).keys.length = m.keys.length + 1 := by
  rw [AList.keys_insert, List.erase_of_not_mem (mt AList.mem_keys.mpr h), List.length_cons]

theorem ne_of_lookup {κ ν : Type*} [DecidableEq κ] {m : AList fun _ : κ => ν} {k k' : κ}
    {v : ν} (h : k ∉ m) (hk : m.lookup k' = some v) : k' ≠ k := by
  rintro rfl
  exact h (AList.lookup_isSome.mp (by rw [hk]; rfl))

theorem lookup_insert_cases {κ ν : Type*} [DecidableEq κ] {m : AList fun _ : κ => ν} {k c : κ}
    {v e : ν} (h : (m.insert k v).lookup c = some e) : (c = k ∧ e = v) ∨ m.lookup c = some e := by
  by_cases hc : c = k
  · subst hc
    rw [AList.lookup_insert, Option.some.injEq] at h
    exact .inl ⟨rfl, h.symm⟩
  · rw [AList.lookup_insert_ne hc] at h
    exact .inr h

theorem update_cases {κ α : Type*} [DecidableEq κ] {f g : κ → α} {k : κ} {a : α}
    (h : g = update f k a) (x : κ) : x = k ∧ g x = a ∨ x ≠ k ∧ g x = f x := by
  by_cases hx : x = k
  · exact .inl ⟨hx, by rw [h, hx, update_self]⟩
  · exact .inr ⟨hx, by rw [h, update_of_ne hx]⟩

theorem update_kept {κ α β : Type*} [DecidableEq κ] {f g : κ → α} {k : κ} {a : α}
    (h : g = update f k a) (q : α → β) (hq : q a = q (f k)) (x : κ) :
    q (g x) = q (f x) := by
  rcases update_cases h x with ⟨hx, heq⟩ | ⟨-, heq⟩
  · rw [heq, hq, hx]
  · rw [heq]

theorem sum_update_add_of_mem {κ α M : Type*} [DecidableEq κ] [AddCommMonoid M] {s : Finset κ}
    {k : κ} (hk : k ∈ s) (f : α → M) (g : κ → α) (a : α) :
    ∑ j ∈ s, f (update g k a j) + f (g k) = ∑ j ∈ s, f (g j) + f a := by
  rw [← Finset.add_sum_erase _ (fun j => f (g j)) hk,
    ← Finset.add_sum_erase _ (fun j => f (update g k a j)) hk]
  have hrest : ∑ j ∈ s.erase k, f (update g k a j) = ∑ j ∈ s.erase k, f (g j) := by
    refine Finset.sum_congr rfl fun j hj => ?_
    rw [update_of_ne (Finset.ne_of_mem_erase hj)]
  rw [hrest, update_self, add_comm (f a), add_comm (f (g k)), add_right_comm]

theorem sum_update_add {κ α M : Type*} [Fintype κ] [DecidableEq κ] [AddCommMonoid M]
    (f : α → M) (g : κ → α) (k : κ) (a : α) :
    ∑ j, f (update g k a j) + f (g k) = ∑ j, f (g j) + f a :=
  sum_update_add_of_mem (Finset.mem_univ k) f g a

variable {α β γ : Type*} [DecidableEq α] [DecidableEq β]

def update₂ (f : α → β → γ) (a : α) (b : β) (v : γ) : α → β → γ :=
  fun x y => if x = a ∧ y = b then v else f x y

@[simp] theorem update₂_self (f : α → β → γ) (a : α) (b : β) (v : γ) :
    update₂ f a b v a b = v := by
  simp [update₂]

theorem update₂_ne (f : α → β → γ) {a x : α} {b y : β} (v : γ) (h : (x, y) ≠ (a, b)) :
    update₂ f a b v x y = f x y := by
  simp only [ne_eq, Prod.mk.injEq] at h
  simp [update₂, h]

@[simp] theorem update₂_eq_self (f : α → β → γ) (a : α) (b : β) : update₂ f a b (f a b) = f := by
  funext x y
  by_cases h : (x, y) = (a, b)
  · simp only [Prod.mk.injEq] at h
    rw [h.1, h.2, update₂_self]
  · exact update₂_ne f _ h

theorem update₂_row (f : α → β → γ) (a : α) (b : β) (v : γ) :
    update₂ f a b v a = update (f a) b v := by
  funext y
  by_cases h : y = b
  · simp [update₂, h]
  · simp [update₂, h]

theorem update₂_row_ne (f : α → β → γ) {a x : α} (b : β) (v : γ) (h : x ≠ a) :
    update₂ f a b v x = f x := by
  funext y
  simp [update₂, h]

end RdmaMigration.Lib
