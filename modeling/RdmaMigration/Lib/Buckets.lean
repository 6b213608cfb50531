import Mathlib.Data.List.AList

/-! # Maps from keys to lists

A free list kept by size is a map whose values are lists. `pooled` is everything
such a map holds; changing the list of one key changes it by that list alone.
-/

namespace RdmaMigration.Lib

variable {κ α : Type*} [DecidableEq κ]

/-- The members of all lists of the map. -/
def pooled (m : AList fun _ : κ => List α) : List α := m.entries.flatMap fun e => e.2

theorem mem_pooled {m : AList fun _ : κ => List α} {a : α} :
    a ∈ pooled m ↔ ∃ k l, m.lookup k = some l ∧ a ∈ l := by
  simp only [pooled, List.mem_flatMap]
  constructor
  · rintro ⟨⟨k, l⟩, he, ha⟩
    exact ⟨k, l, AList.mem_lookup_iff.mpr he, ha⟩
  · rintro ⟨k, l, hl, ha⟩
    exact ⟨⟨k, l⟩, AList.mem_lookup_iff.mp hl, ha⟩

theorem pooled_insert (m : AList fun _ : κ => List α) (k : κ) (l : List α) :
    pooled (m.insert k l) = l ++ pooled (m.erase k) := by
  simp only [pooled, AList.entries_insert, List.flatMap_cons]
  rfl

theorem pooled_erase_of_lookup {m : AList fun _ : κ => List α} {k : κ} {l : List α}
    (h : m.lookup k = some l) : (pooled m).Perm (l ++ pooled (m.erase k)) := by
  have hkey : k ∈ m.entries.keys := AList.lookup_isSome.mp (by rw [h]; rfl)
  obtain ⟨b, pre, post, -, hentries, herase⟩ := List.exists_of_kerase hkey
  -- The entry that `kerase` drops is the one that the lookup finds.
  have hb : b = l := by
    have hmem : (⟨k, b⟩ : Sigma fun _ : κ => List α) ∈ m.entries := by simp [hentries]
    have hlook : m.lookup k = some b := AList.mem_lookup_iff.mpr hmem
    rw [h, Option.some.injEq] at hlook
    exact hlook.symm
  have hrest : (m.erase k).entries = pre ++ post := herase
  simp only [pooled, hentries, hrest, List.flatMap_append, List.flatMap_cons, hb]
  exact List.perm_append_comm_assoc _ _ _

theorem pooled_erase_of_notMem {m : AList fun _ : κ => List α} {k : κ}
    (h : m.lookup k = none) : pooled (m.erase k) = pooled m := by
  have hkey : k ∉ m.entries.keys := AList.lookup_eq_none.mp h
  have herase : (m.erase k).entries = m.entries := List.kerase_of_notMem_keys hkey
  rw [pooled, herase, pooled]

theorem mem_of_lookup_append {m : AList fun _ : κ => List α} {k c : κ} {a x : α} {l : List α}
    (h : (m.insert k ((m.lookup k).getD [] ++ [a])).lookup c = some l) (hx : x ∈ l) :
    (c = k ∧ x = a) ∨ ∃ old, m.lookup c = some old ∧ x ∈ old := by
  by_cases hc : c = k
  · subst hc
    rw [AList.lookup_insert, Option.some.injEq] at h
    rw [← h, List.mem_append, List.mem_singleton] at hx
    cases hold : m.lookup c with
    | none =>
        rw [hold, Option.getD_none] at hx
        rcases hx with hnil | hnew
        · cases hnil
        · exact .inl ⟨rfl, hnew⟩
    | some old =>
        rw [hold, Option.getD_some] at hx
        rcases hx with hmem | hnew
        · exact .inr ⟨old, rfl, hmem⟩
        · exact .inl ⟨rfl, hnew⟩
  · rw [AList.lookup_insert_ne hc] at h
    exact .inr ⟨l, h, hx⟩

theorem pooled_insert_append (m : AList fun _ : κ => List α) (k : κ) (a : α) :
    (pooled (m.insert k ((m.lookup k).getD [] ++ [a]))).Perm (a :: pooled m) := by
  rw [pooled_insert]
  cases h : m.lookup k with
  | none => simp [pooled_erase_of_notMem h]
  | some l =>
      calc ((some l).getD [] ++ [a] ++ pooled (m.erase k)).Perm
            (a :: (l ++ pooled (m.erase k))) := by
            simp
        List.Perm _ (a :: pooled m) := (pooled_erase_of_lookup h).symm.cons a

end RdmaMigration.Lib
