import RdmaMigration.Coordinator.Node

/-! # Segment records survive their text

A record written with `MAPtoZS` is read back by `ZStoMAP` with the same fields, as
long as no name or value holds a comma or a null byte and the text fits into the
buffer of `ZooKeeper::get`. The records that the coordinator writes are of this
kind.
-/

namespace RdmaMigration.Coordinator

open Lib

structure Plain (s : List Char) : Prop where
  comma : ',' ∉ s
  null : ∀ c ∈ s, c ≠ Char.ofNat 0

theorem Plain.cStr {s : List Char} (h : Plain s) : cStr s = s :=
  List.takeWhile_eq_self_iff.mpr fun c hc => by simpa using h.null c hc

theorem plain_of_all {s : List Char}
    (h : (s.all fun c => decide (c ≠ ',' ∧ c ≠ Char.ofNat 0)) = true) : Plain s := by
  simp only [List.all_eq_true, decide_eq_true_eq] at h
  exact ⟨fun hcomma => (h _ hcomma).1 rfl, fun c hc => (h c hc).2⟩

theorem plain_decimal (n : Nat) : Plain (decimal n) := by
  constructor
  · intro hmem
    exact absurd (isDigit_of_mem_decimal hmem) (by decide)
  · rintro c hc rfl
    exact absurd (isDigit_of_mem_decimal hc) (by decide)

theorem plain_decimalInt (i : Int) : Plain (decimalInt i) := by
  refine ⟨comma_not_mem_decimalInt i, ?_⟩
  cases i with
  | ofNat n => exact (plain_decimal n).null
  | negSucc n =>
      intro c hc
      rcases List.mem_cons.mp hc with rfl | hrest
      · decide
      · exact (plain_decimal (n + 1)).null c hrest

theorem length_decimalInt_le {i : Int} (hlow : -2 ^ 63 ≤ i) (hhigh : i < 2 ^ 63) :
    (decimalInt i).length ≤ 21 := by
  cases i with
  | ofNat n =>
      have hn : n < 2 ^ 64 := by
        have : (n : Int) < 2 ^ 63 := hhigh
        omega
      exact (length_decimal_le hn).trans (by decide)
  | negSucc n =>
      have hn : n + 1 < 2 ^ 64 := by omega
      exact Nat.succ_le_succ (length_decimal_le hn)

/-! ## One entry after the other -/

def entryText (e : Sigma fun _ : List Char => List Char) : List Char :=
  e.1 ++ ',' :: (e.2 ++ [','])

def CommaFree (l : List (Sigma fun _ : List Char => List Char)) : Prop :=
  ∀ e ∈ l, ',' ∉ e.1 ∧ ',' ∉ e.2

theorem zsToMapLoop_entry {e : Sigma fun _ : List Char => List Char} (hkey : ',' ∉ e.1)
    (hval : ',' ∉ e.2) (rounds : Nat) (rest : List Char) (res : TextMap) :
    zsToMapLoop (rounds + 1) (entryText e ++ rest) res =
      zsToMapLoop rounds rest (res.insert e.1 e.2) := by
  have htext : entryText e ++ rest = e.1 ++ ',' :: (e.2 ++ ',' :: rest) := by simp [entryText]
  have hne : e.1 ++ ',' :: (e.2 ++ ',' :: rest) ≠ [] := by simp
  rw [htext, zsToMapLoop.eq_3 _ _ _ hne, untilComma_append hkey]
  simp [untilComma_append hval]

theorem zsToMapLoop_entries {l : List (Sigma fun _ : List Char => List Char)} (h : CommaFree l)
    (rounds : Nat) (rest : List Char) (res : TextMap) :
    zsToMapLoop (l.length + rounds) (l.flatMap entryText ++ rest) res =
      zsToMapLoop rounds rest (l.foldl (fun m e => m.insert e.1 e.2) res) := by
  induction l generalizing res with
  | nil => rw [List.length_nil, Nat.zero_add]; rfl
  | cons e l ih =>
      obtain ⟨hkey, hval⟩ := h e List.mem_cons_self
      rw [List.length_cons, Nat.add_right_comm, List.flatMap_cons, List.append_assoc,
        zsToMapLoop_entry hkey hval, List.foldl_cons]
      exact ih (fun e he => h e (List.mem_cons_of_mem _ he)) _

theorem length_le_entries (l : List (Sigma fun _ : List Char => List Char)) :
    l.length ≤ (l.flatMap entryText).length := by
  induction l with
  | nil => exact Nat.le_refl 0
  | cons e l ih =>
      rw [List.flatMap_cons, List.length_append, List.length_cons]
      simp only [entryText, List.length_append, List.length_cons]
      omega

theorem zsToMap_entries {l : List (Sigma fun _ : List Char => List Char)} (h : CommaFree l) :
    zsToMap (l.flatMap entryText) = some (l.foldl (fun m e => m.insert e.1 e.2) ∅) := by
  obtain ⟨rounds, hrounds⟩ := Nat.exists_eq_add_of_le (length_le_entries l)
  have hloop := zsToMapLoop_entries h rounds [] ∅
  rw [List.append_nil, ← hrounds] at hloop
  rw [zsToMap, hloop]
  cases rounds <;> rfl

theorem lookup_foldl_insert (l : List (Sigma fun _ : List Char => List Char)) (res : TextMap)
    (key : List Char) :
    (l.foldl (fun m e => m.insert e.1 e.2) res).lookup key =
      (l.reverse.dlookup key).or (res.lookup key) := by
  induction l generalizing res with
  | nil => simp
  | cons e l ih =>
      rw [List.foldl_cons, ih, List.reverse_cons, List.dlookup_append, Option.or_assoc]
      obtain ⟨k, v⟩ := e
      by_cases hk : key = k
      · subst hk
        simp
      · have hother : List.dlookup key [(⟨k, v⟩ : Sigma fun _ : List Char => List Char)] = none :=
          List.dlookup_eq_none.mpr (by simp [hk])
        rw [AList.lookup_insert_ne hk, hother, Option.none_or]

theorem lookup_foldl_insert_of_nodup {l : List (Sigma fun _ : List Char => List Char)}
    (hnodup : l.NodupKeys) (key : List Char) :
    (l.foldl (fun m e => m.insert e.1 e.2) (∅ : TextMap)).lookup key = l.dlookup key := by
  rw [lookup_foldl_insert, AList.lookup_empty, Option.or_none]
  exact List.perm_dlookup key ((List.perm_nodupKeys (List.reverse_perm l)).mpr hnodup)
    (List.reverse_perm l)

/-! ## The fields of a record -/

def fieldNames : List (List Char) :=
  [Key.address, Key.size, Key.source, Key.destination, Key.clientID]

def Tidy (m : TextMap) : Prop :=
  ∀ key val, m.lookup key = some val → key ∈ fieldNames ∧ Plain val ∧ val.length ≤ 21

theorem plain_of_mem_fieldNames {key : List Char} (h : key ∈ fieldNames) :
    Plain key ∧ key.length ≤ 11 := by
  have hall : (fieldNames.all fun key =>
      (key.all fun c => decide (c ≠ ',' ∧ c ≠ Char.ofNat 0)) && decide (key.length ≤ 11)) = true := by
    decide
  have hkey := List.all_eq_true.mp hall key h
  rw [Bool.and_eq_true] at hkey
  exact ⟨plain_of_all hkey.1, of_decide_eq_true hkey.2⟩

variable {m : TextMap}

theorem Tidy.insert (h : Tidy m) {key val : List Char} (hkey : key ∈ fieldNames)
    (hplain : Plain val) (hlength : val.length ≤ 21) : Tidy (m.insert key val) := by
  intro k v hlookup
  by_cases hk : k = key
  · subst hk
    rw [AList.lookup_insert, Option.some.injEq] at hlookup
    exact hlookup ▸ ⟨hkey, hplain, hlength⟩
  · rw [AList.lookup_insert_ne hk] at hlookup
    exact h k v hlookup

theorem Tidy.of_lookup {m' : TextMap} (h : Tidy m) (heq : ∀ key, m'.lookup key = m.lookup key) :
    Tidy m' := by
  intro key val hlookup
  exact h key val ((heq key).symm.trans hlookup)

theorem Tidy.of_mem (h : Tidy m) {e : Sigma fun _ : List Char => List Char} (he : e ∈ m.entries) :
    (Plain e.1 ∧ e.1.length ≤ 11) ∧ Plain e.2 ∧ e.2.length ≤ 21 := by
  obtain ⟨hname, hval⟩ := h e.1 e.2 (AList.mem_lookup_iff.mpr he)
  exact ⟨plain_of_mem_fieldNames hname, hval⟩

def sorted (m : TextMap) : List (Sigma fun _ : List Char => List Char) :=
  m.entries.insertionSort fun x y => x.1 ≤ y.1

theorem sorted_perm (m : TextMap) : (sorted m).Perm m.entries := List.perm_insertionSort _ _

theorem sorted_nodupKeys (m : TextMap) : (sorted m).NodupKeys :=
  (List.perm_nodupKeys (sorted_perm m)).mpr m.nodupKeys

def PlainMap (m : TextMap) : Prop := ∀ e ∈ m.entries, Plain e.1 ∧ Plain e.2

theorem PlainMap.mapToZs_eq (h : PlainMap m) :
    mapToZs m = (sorted m).flatMap entryText := by
  refine List.flatMap_congr fun e he => ?_
  obtain ⟨hkey, hval⟩ := h e ((sorted_perm m).mem_iff.mp he)
  simp [entryText, hkey.cStr, hval.cStr]

theorem PlainMap.commaFree (h : PlainMap m) : CommaFree (sorted m) := by
  intro e he
  obtain ⟨hkey, hval⟩ := h e ((sorted_perm m).mem_iff.mp he)
  exact ⟨hkey.comma, hval.comma⟩

theorem PlainMap.zsToMap_mapToZs (h : PlainMap m) :
    ∃ m', zsToMap (mapToZs m) = some m' ∧ ∀ key, m'.lookup key = m.lookup key := by
  rw [h.mapToZs_eq]
  refine ⟨_, zsToMap_entries h.commaFree, fun key => ?_⟩
  rw [lookup_foldl_insert_of_nodup (sorted_nodupKeys m)]
  exact List.perm_dlookup key (sorted_nodupKeys m) (sorted_perm m)

theorem Tidy.plainMap (h : Tidy m) : PlainMap m := by
  intro e he
  obtain ⟨⟨hkey, -⟩, hval, -⟩ := h.of_mem he
  exact ⟨hkey, hval⟩

theorem Tidy.length_entries (h : Tidy m) : m.entries.length ≤ 5 := by
  have hsub : m.keys ⊆ fieldNames := by
    intro key hkey
    obtain ⟨e, he, rfl⟩ := List.mem_map.mp hkey
    exact (h e.1 e.2 (AList.mem_lookup_iff.mpr he)).1
  have hle : m.keys.length ≤ fieldNames.length :=
    (List.subperm_of_subset m.keys_nodup hsub).length_le
  have hlength : m.keys.length = m.entries.length := by simp [AList.keys, List.keys]
  exact hlength ▸ hle

theorem length_flatMap_le {α β : Type} {f : α → List β} {l : List α} {k : Nat}
    (h : ∀ a ∈ l, (f a).length ≤ k) : (l.flatMap f).length ≤ l.length * k := by
  induction l with
  | nil => simp
  | cons a l ih =>
      have hrest := ih fun b hb => h b (List.mem_cons_of_mem _ hb)
      have hhead := h a List.mem_cons_self
      rw [List.flatMap_cons, List.length_append, List.length_cons, Nat.succ_mul]
      omega

theorem Tidy.length_le (h : Tidy m) : (mapToZs m).length ≤ bufLen := by
  rw [h.plainMap.mapToZs_eq]
  have hentry : ∀ e ∈ sorted m, (entryText e).length ≤ 34 := by
    intro e he
    obtain ⟨⟨-, hkey⟩, -, hval⟩ := h.of_mem ((sorted_perm m).mem_iff.mp he)
    simp only [entryText, List.length_append, List.length_cons, List.length_nil]
    omega
  have hcount : (sorted m).length ≤ 5 := (sorted_perm m).length_eq.trans_le h.length_entries
  have htotal := length_flatMap_le hentry
  have : (sorted m).length * 34 ≤ 5 * 34 := Nat.mul_le_mul_right _ hcount
  unfold bufLen
  omega

theorem Tidy.null (h : Tidy m) : ∀ c ∈ mapToZs m, c ≠ Char.ofNat 0 := by
  rw [h.plainMap.mapToZs_eq]
  intro c hc
  obtain ⟨e, he, hmem⟩ := List.mem_flatMap.mp hc
  obtain ⟨⟨hkey, -⟩, hval, -⟩ := h.of_mem ((sorted_perm m).mem_iff.mp he)
  simp only [entryText, List.mem_append, List.mem_cons, List.not_mem_nil, or_false] at hmem
  rcases hmem with hmem | rfl | hmem | rfl
  · exact hkey.null c hmem
  · decide
  · exact hval.null c hmem
  · decide

theorem Tidy.zsToMap_mapToZs (h : Tidy m) :
    ∃ m', zsToMap (mapToZs m) = some m' ∧ ∀ key, m'.lookup key = m.lookup key :=
  h.plainMap.zsToMap_mapToZs

theorem Tidy.get (h : Tidy m) {z : Store} {p : Path} {n : ZNode}
    (hn : z p = some n) (hdata : n.data = mapToZs m) : z.get p = some n :=
  Store.get_of_short hn (hdata ▸ h.length_le) (hdata ▸ h.null)

end RdmaMigration.Coordinator
