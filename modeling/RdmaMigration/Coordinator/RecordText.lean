import RdmaMigration.Coordinator.Indices

/-! # Which texts are records

`ZStoMAP` checks nothing but the bounds of the text. What it accepts is nevertheless the
format that `MAPtoZS` writes: fields that end with a comma, an even number of them.
-/

namespace RdmaMigration.Coordinator

open Lib

/-- Every field is ended by a comma, and every name has a value. -/
def Accepts (s : List Char) : Prop := (s = [] ∨ s.getLast? = some ',') ∧ Even (s.count ',')

instance (s : List Char) : Decidable (Accepts s) :=
  inferInstanceAs (Decidable ((s = [] ∨ s.getLast? = some ',') ∧ Even (s.count ',')))

theorem terminated_pairs (pairs : List (List Char × List Char)) :
    terminated ',' (pairs.flatMap fun p => [p.1, p.2]) =
      (pairs.map fun p => (⟨p.1, p.2⟩ : Sigma fun _ : List Char => List Char)).flatMap
        entryText := by
  induction pairs with
  | nil => rfl
  | cons p pairs ih =>
      rw [List.flatMap_cons, terminated_append, ih, List.map_cons, List.flatMap_cons]
      simp [terminated_cons, entryText]

/-- Every text is a number of entries and a rest with at most one comma, and the rest is what
keeps it from being accepted. -/
theorem exists_entries (s : List Char) :
    ∃ l rest, CommaFree l ∧ rest.count ',' < 2 ∧ s = l.flatMap entryText ++ rest ∧
      (Accepts s ↔ rest = []) := by
  obtain ⟨fields, tail, hfields, htail, hs⟩ := exists_fields ',' s
  obtain ⟨pairs, left, hleft, rfl⟩ := exists_pairs fields
  have hpairs : CommaFree (pairs.map fun p => ⟨p.1, p.2⟩) := by
    intro e he
    obtain ⟨p, hp, rfl⟩ := List.mem_map.mp he
    have hmem : ∀ f ∈ [p.1, p.2], ',' ∉ f := fun f hf =>
      hfields f (List.mem_append_left _ (List.mem_flatMap.mpr ⟨p, hp, hf⟩))
    exact ⟨hmem p.1 (by simp), hmem p.2 (by simp)⟩
  have hfree : ∀ field ∈ left, ',' ∉ field := fun field hf =>
    hfields field (List.mem_append_right _ hf)
  have hcount : s.count ',' = 2 * pairs.length + left.length := by
    rw [hs, count_fields hfields htail, length_pairs]
  refine ⟨pairs.map fun p => ⟨p.1, p.2⟩, terminated ',' left ++ tail, hpairs, ?_, ?_, ?_⟩
  · rwa [count_fields hfree htail]
  · rw [hs, terminated_append, terminated_pairs, List.append_assoc]
  · have hends : (s = [] ∨ s.getLast? = some ',') ↔ tail = [] := by
      rw [hs]
      exact ends_with_sep_iff htail
    have heven : Even (s.count ',') ↔ left = [] := by
      rw [hcount, Nat.even_iff, ← List.length_eq_zero_iff]
      omega
    rw [Accepts, hends, heven, List.append_eq_nil_iff, and_comm]
    refine and_congr_left fun _ => ⟨fun h => by rw [h]; rfl, fun h => ?_⟩
    cases left with
    | nil => rfl
    | cons field left => simp [terminated_cons] at h

theorem zsToMapLoop_rest {rest : List Char} (hfew : rest.count ',' < 2) (hne : rest ≠ [])
    (rounds : Nat) (res : TextMap) : zsToMapLoop (rounds + 1) rest res = none := by
  rw [zsToMapLoop.eq_3 _ _ _ hne]
  cases hkey : untilComma rest with
  | none => rfl
  | some r =>
      obtain ⟨key, rest'⟩ := r
      obtain ⟨-, hrest⟩ := untilComma_eq_some hkey
      have hnone : untilComma rest' = none := by
        rw [hrest, List.count_append, List.count_cons_self] at hfew
        rw [untilComma_eq_none_iff, ← List.count_eq_zero]
        omega
      simp [hnone]

theorem zsToMap_rest {l : List (Sigma fun _ : List Char => List Char)} (h : CommaFree l)
    {rest : List Char} (hfew : rest.count ',' < 2) (hne : rest ≠ []) :
    zsToMap (l.flatMap entryText ++ rest) = none := by
  have hpos : 0 < rest.length := List.length_pos_iff.mpr hne
  have hle := length_le_entries l
  obtain ⟨rounds, hrounds⟩ : ∃ rounds,
      (l.flatMap entryText ++ rest).length = l.length + (rounds + 1) := by
    rw [List.length_append]
    exact ⟨(l.flatMap entryText).length + rest.length - l.length - 1, by omega⟩
  rw [zsToMap, hrounds, zsToMapLoop_entries h, zsToMapLoop_rest hfew hne]

/-- What a parser of the format does with a text. -/
structure ParsesExactly (s : List Char) : Prop where
  accepted : Accepts s → ∃ l m, CommaFree l ∧ s = l.flatMap entryText ∧
    zsToMapByIndex s = .returned m ∧ ∀ key, m.lookup key = l.reverse.dlookup key
  refused : ¬ Accepts s → zsToMapByIndex s = .threw

theorem parsesExactly {s : List Char} (hshort : s.length < 2 ^ 31) : ParsesExactly s := by
  obtain ⟨l, rest, hfree, hfew, hs, haccepts⟩ := exists_entries s
  constructor
  · intro h
    rw [haccepts.mp h, List.append_nil] at hs
    refine ⟨l, l.foldl (fun m e => m.insert e.1 e.2) ∅, hfree, hs, ?_, fun key => ?_⟩
    · rw [zsToMapByIndex_eq hshort, hs, zsToMap_entries hfree]
      rfl
    · rw [lookup_foldl_insert, AList.lookup_empty, Option.or_none]
  · intro h
    have hne : rest ≠ [] := fun hempty => h (haccepts.mpr hempty)
    rw [zsToMapByIndex_eq hshort, hs, zsToMap_rest hfree hfew hne]
    rfl

/-! ## The way there and back -/

theorem zsToMapByIndex_front {l : List (Sigma fun _ : List Char => List Char)} (h : CommaFree l)
    {m : TextMap} (hparse : zsToMapByIndex (l.flatMap entryText) = .returned m) :
    ∃ front back, l = front ++ back ∧ (front.flatMap entryText).length < 2 ^ 31 ∧
      m = front.foldl (fun m e => m.insert e.1 e.2) ∅ := by
  refine fieldLoop_front (l := l) ?_ ?_ hparse
  · intro front e back res t hl hfront hround
    obtain ⟨hkey, hval⟩ := h e (by simp [hl])
    rw [hl, List.flatMap_append, List.flatMap_cons] at hround
    obtain ⟨hnext, ht⟩ := zsToMapRound_entry hkey hval hfront hround
    rw [List.flatMap_append, List.flatMap_singleton]
    exact ⟨hnext, ht⟩
  · intro hshort res
    simp only [zsToMapRound, nextField_end hshort, Option.bind_eq_bind, Option.bind_none]

theorem record_text_survives {m : TextMap} (hm : PlainMap m) :
    ((∃ m', zsToMapByIndex (mapToZs m) = .returned m' ∧ ∀ key, m'.lookup key = m.lookup key) ↔
      (mapToZs m).length < 2 ^ 31) ∧
    ∀ s : List Char, s.length < 2 ^ 31 → ParsesExactly s := by
  refine ⟨⟨?_, ?_⟩, fun s hshort => parsesExactly hshort⟩
  · rintro ⟨m', hparse, hsame⟩
    rw [hm.mapToZs_eq] at hparse ⊢
    obtain ⟨front, back, hsorted, hshort, rfl⟩ := zsToMapByIndex_front hm.commaFree hparse
    have hnodup := sorted_nodupKeys m
    rw [hsorted] at hnodup ⊢
    cases back with
    | nil => rwa [List.append_nil]
    | cons e back =>
        -- the first entry that was not read is missing
        have hentry : m.lookup e.1 = some e.2 :=
          AList.mem_lookup_iff.mpr ((sorted_perm m).mem_iff.mp (by simp [hsorted]))
        obtain ⟨hkeys, hothers⟩ := List.nodupKeys_cons.mp (List.nodupKeys_middle.mp hnodup)
        have hfront : front.NodupKeys := hothers.sublist (List.sublist_append_left front back)
        have hmissing : front.dlookup e.1 = none := List.dlookup_eq_none.mpr fun hmem =>
          hkeys (by simp [List.keys_append, hmem])
        have hfound := hsame e.1
        rw [lookup_foldl_insert_of_nodup hfront, hmissing, hentry] at hfound
        cases hfound
  · intro hshort
    obtain ⟨m', hparse, hsame⟩ := hm.zsToMap_mapToZs
    exact ⟨m', by rw [zsToMapByIndex_eq hshort, hparse]; rfl, hsame⟩

theorem record_text_survives_two : ∃ m : TextMap, m.entries.length = 2 ∧
    ∃ m', zsToMapByIndex (mapToZs m) = .returned m' ∧ ∀ key, m'.lookup key = m.lookup key := by
  let m : TextMap := ((∅ : TextMap).insert ['k'] []).insert [] ['v', 'w']
  have hplain : (m.entries.all fun e =>
      (e.1.all fun c => decide (c ≠ ',' ∧ c ≠ Char.ofNat 0)) &&
        e.2.all fun c => decide (c ≠ ',' ∧ c ≠ Char.ofNat 0)) = true := by
    decide
  have hm : PlainMap m := by
    intro e he
    have hboth := List.all_eq_true.mp hplain e he
    rw [Bool.and_eq_true] at hboth
    exact ⟨plain_of_all hboth.1, plain_of_all hboth.2⟩
  exact ⟨m, by decide, (record_text_survives hm).1.mpr (by decide)⟩

def longValue (n : Nat) : TextMap := AList.singleton [] (List.replicate n 'a')

theorem longValue_plain (n : Nat) : PlainMap (longValue n) := by
  intro e he
  cases List.mem_singleton.mp he
  refine ⟨⟨List.not_mem_nil, fun c hc => absurd hc List.not_mem_nil⟩, fun hmem => ?_,
    fun c hc => ?_⟩
  · exact absurd (List.eq_of_mem_replicate hmem) (by decide)
  · rw [List.eq_of_mem_replicate hc]
    decide

theorem lookup_longValue (n : Nat) :
    (longValue n).lookup [] = some (List.replicate n 'a') := rfl

theorem length_longValue (n : Nat) : (mapToZs (longValue n)).length = n + 2 := by
  have hsorted : sorted (longValue n) = [⟨[], List.replicate n 'a'⟩] := rfl
  rw [(longValue_plain n).mapToZs_eq, hsorted, List.flatMap_singleton, entryText]
  simp

/-- With a value of `2 ^ 31 - 2` letters the length of the text is negative as an `int`, so
nothing of it is read. -/
theorem long_value_lost : ∃ m : TextMap, PlainMap m ∧ (m.lookup []).isSome = true ∧
    zsToMapByIndex (mapToZs m) = .returned ∅ := by
  have hlength : (mapToZs (longValue (2 ^ 31 - 2))).length = 2 ^ 31 := length_longValue _
  refine ⟨longValue (2 ^ 31 - 2), longValue_plain _, ?_, fieldLoop_negative _ ?_⟩
  · rw [lookup_longValue]
    rfl
  · rw [hlength]
    decide

end RdmaMigration.Coordinator
