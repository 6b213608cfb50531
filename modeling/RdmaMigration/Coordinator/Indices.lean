import RdmaMigration.Coordinator.Record
import RdmaMigration.Lib.Fields
import RdmaMigration.Lib.Loop

/-! # The parsers by index

`ZStoMAP` and `ZStoProcessList` keep the length of the text and their place in it as `int`s.
For texts shorter than `2 ^ 31` characters they do what the parsers on the rest of the text
do. The length of a longer text is taken modulo `2 ^ 32`, and what is read of it, if
anything is returned at all, is the front.
-/

namespace RdmaMigration.Coordinator

open Lib

/-! ## The loops -/

/-- `while(input.at(i) != ',') i++`, on the characters from index `i` on. An index that
overflows is negative, and `at` throws for it as it does behind the end. -/
def scanComma : List Char → Int → Option Int
  | [], _ => none
  | c :: rest, i =>
      if c = ',' then some i else if i + 1 < 2 ^ 31 then scanComma rest (i + 1) else none

def nextField (input : List Char) (i : Int) : Option (List Char × Int) := do
  let stop ← scanComma (input.drop (toSizeT i)) i
  if stop + 1 < 2 ^ 31 then
    some ((input.drop (toSizeT i)).take (toSizeT (stop - i)), stop + 1)
  else none

def beforeEnd {σ : Type} (input : List Char) (s : Int × σ) : Bool :=
  decide (s.1 < toInt32 input.length)

/-- The outer loop. Every round takes a comma, so the length of the text bounds the rounds. -/
def fieldLoop {σ : Type} (round : Int × σ → Option (Int × σ)) (input : List Char) (start : σ) :
    LoopResult σ :=
  (loop (beforeEnd input) round (input.length + 1) (0, start)).map Prod.snd

def zsToMapRound (input : List Char) (s : Int × TextMap) : Option (Int × TextMap) := do
  let (key, i) ← nextField input s.1
  let (val, i) ← nextField input i
  return (i, s.2.insert key val)

def zsToMapByIndex (input : List Char) : LoopResult TextMap :=
  fieldLoop (zsToMapRound input) input ∅

def zsToProcessListRound (input : List Char) (s : Int × List Int) : Option (Int × List Int) := do
  let (id, i) ← nextField input s.1
  return (i, s.2 ++ [atol (cStr id)])

def zsToProcessListByIndex (input : List Char) : LoopResult (List Int) :=
  fieldLoop (zsToProcessListRound input) input []

/-! ## One field -/

theorem untilComma_eq_none_iff {s : List Char} : untilComma s = none ↔ ',' ∉ s := by
  induction s with
  | nil => simp [untilComma]
  | cons c s ih =>
      by_cases hc : c = ','
      · simp [untilComma, hc]
      · simp [untilComma, hc, ih, Ne.symm hc]

theorem untilComma_eq_some {s front rest : List Char} (h : untilComma s = some (front, rest)) :
    ',' ∉ front ∧ s = front ++ ',' :: rest := by
  induction s generalizing front with
  | nil => cases h
  | cons c s ih =>
      rw [untilComma] at h
      split at h
      next hc =>
        cases h
        exact ⟨by simp, by rw [hc]; rfl⟩
      next hc =>
        obtain ⟨⟨front', rest'⟩, htail, heq⟩ := Option.map_eq_some_iff.mp h
        cases heq
        obtain ⟨hfree, hs⟩ := ih htail
        exact ⟨by simp [Ne.symm hc, hfree], by rw [hs]; rfl⟩

theorem scanComma_eq (s : List Char) {i : Nat} (hi : i < 2 ^ 31) :
    scanComma s i = (untilComma s).bind fun r =>
      if i + r.1.length < 2 ^ 31 then some ((i + r.1.length : Nat) : Int) else none := by
  induction s generalizing i with
  | nil => rfl
  | cons c s ih =>
      rw [scanComma, untilComma]
      by_cases hc : c = ','
      · rw [if_pos hc, if_pos hc, Option.bind_some, List.length_nil, Nat.add_zero, if_pos hi]
      · rw [if_neg hc, if_neg hc]
        by_cases hnext : i + 1 < 2 ^ 31
        · rw [if_pos (by exact_mod_cast hnext), ← Nat.cast_succ, ih hnext]
          cases untilComma s with
          | none => rfl
          | some r =>
              simp only [Option.bind_some, Option.map_some, List.length_cons]
              rw [Nat.succ_add_eq_add_succ]
        · rw [if_neg (by exact_mod_cast hnext)]
          cases untilComma s with
          | none => rfl
          | some r =>
              simp only [Option.bind_some, Option.map_some, List.length_cons]
              rw [if_neg (by omega)]

theorem nextField_eq (input : List Char) {i : Nat} (hi : i < 2 ^ 31) :
    nextField input i = (untilComma (input.drop i)).bind fun r =>
      if i + r.1.length + 1 < 2 ^ 31 then some (r.1, ((i + r.1.length + 1 : Nat) : Int))
      else none := by
  unfold nextField
  rw [toSizeT_natCast (by omega), scanComma_eq _ hi]
  cases hfield : untilComma (input.drop i) with
  | none => rfl
  | some r =>
      obtain ⟨front, rest⟩ := r
      obtain ⟨-, hdrop⟩ := untilComma_eq_some hfield
      simp only [Option.bind_some, Option.bind_eq_bind]
      by_cases hlast : i + front.length + 1 < 2 ^ 31
      · have hlength : ((i + front.length : Nat) : Int) - i = (front.length : Nat) := by omega
        rw [if_pos (show i + front.length < 2 ^ 31 by omega), if_pos hlast, Option.bind_some,
          if_pos (by exact_mod_cast hlast), hlength, toSizeT_natCast (by omega), hdrop,
          List.take_left]
        rfl
      · rw [if_neg hlast]
        by_cases hstop : i + front.length < 2 ^ 31
        · rw [if_pos hstop, Option.bind_some, if_neg (by exact_mod_cast hlast)]
        · rw [if_neg hstop]
          rfl

theorem nextField_append {pre field post : List Char} (hfield : ',' ∉ field)
    (hpre : pre.length < 2 ^ 31) :
    nextField (pre ++ (field ++ ',' :: post)) pre.length =
      if pre.length + field.length + 1 < 2 ^ 31 then
        some (field, ((pre.length + field.length + 1 : Nat) : Int))
      else none := by
  rw [nextField_eq _ hpre, List.drop_left, untilComma_append hfield, Option.bind_some]

theorem nextField_end {input : List Char} (h : input.length < 2 ^ 31) :
    nextField input input.length = none := by
  rw [nextField_eq _ h, List.drop_length]
  rfl

theorem nextField_cases {input : List Char} (hshort : input.length < 2 ^ 31) {i : Nat}
    (hi : i ≤ input.length) :
    (untilComma (input.drop i) = none ∧ nextField input i = none) ∨
      ∃ field next, i < next ∧ next ≤ input.length ∧
        untilComma (input.drop i) = some (field, input.drop next) ∧
        nextField input i = some (field, (next : Int)) := by
  rw [nextField_eq _ (by omega)]
  cases hfield : untilComma (input.drop i) with
  | none => exact .inl ⟨rfl, rfl⟩
  | some r =>
      obtain ⟨field, rest⟩ := r
      obtain ⟨-, hdrop⟩ := untilComma_eq_some hfield
      have hlength : input.length - i = field.length + (rest.length + 1) := by
        rw [← List.length_drop, hdrop, List.length_append, List.length_cons]
      have hrest : input.drop (i + field.length + 1) = rest := by
        rw [Nat.add_assoc, ← List.drop_drop, hdrop]
        simp
      refine .inr ⟨field, i + field.length + 1, by omega, by omega, by rw [hrest], ?_⟩
      rw [Option.bind_some, if_pos (show i + field.length + 1 < 2 ^ 31 by omega)]

/-! ## Short texts -/

section Short

variable {σ : Type} {input : List Char} {round : Int × σ → Option (Int × σ)}
  {parse : Nat → List Char → σ → Option σ}

theorem beforeEnd_eq (hshort : input.length < 2 ^ 31) (i : Nat) (a : σ) :
    beforeEnd input ((i : Int), a) = decide (i < input.length) := by
  rw [beforeEnd, toInt32_of_lt hshort]
  exact decide_eq_decide.mpr Int.ofNat_lt

theorem loop_eq_parse (hshort : input.length < 2 ^ 31)
    (hnil : ∀ rounds a, parse rounds [] a = some a) (hround : ∀ i a, i < input.length →
      (round ((i : Int), a) = none ∧ ∀ rounds, parse (rounds + 1) (input.drop i) a = none) ∨
        ∃ next b, i < next ∧ next ≤ input.length ∧ round ((i : Int), a) = some ((next : Int), b) ∧
          ∀ rounds, parse (rounds + 1) (input.drop i) a = parse rounds (input.drop next) b)
    {rounds i : Nat} (hi : i ≤ input.length) (hrounds : input.length - i ≤ rounds) (a : σ) :
    (loop (beforeEnd input) round (rounds + 1) ((i : Int), a)).map Prod.snd =
      .ofOption (parse rounds (input.drop i) a) := by
  induction rounds generalizing i a with
  | zero =>
      have hend : i = input.length := by omega
      rw [loop_of_stop (by rw [beforeEnd_eq hshort]; simp [hend]), hend, List.drop_length, hnil]
      rfl
  | succ rounds ih =>
      by_cases hend : i = input.length
      · rw [loop_of_stop (by rw [beforeEnd_eq hshort]; simp [hend]), hend, List.drop_length, hnil]
        rfl
      · have hlt : i < input.length := by omega
        have hgo : beforeEnd input ((i : Int), a) = true := by
          rw [beforeEnd_eq hshort]
          exact decide_eq_true hlt
        rcases hround i a hlt with ⟨hthrow, hnone⟩ | ⟨next, b, hnext, hle, hsome, hrest⟩
        · rw [loop_of_throw hgo hthrow, hnone]
          rfl
        · rw [loop_of_step hgo hsome, hrest]
          exact ih hle (by omega) b

end Short

theorem zsToMapLoop_nil (rounds : Nat) (res : TextMap) : zsToMapLoop rounds [] res = some res := by
  cases rounds <;> rfl

theorem zsToProcessListLoop_nil (rounds : Nat) : zsToProcessListLoop rounds [] = some [] := by
  cases rounds <;> rfl

theorem drop_ne_nil {input : List Char} {i : Nat} (hi : i < input.length) : input.drop i ≠ [] := by
  rw [Ne, List.drop_eq_nil_iff]
  omega

theorem zsToMapByIndex_eq {input : List Char} (hshort : input.length < 2 ^ 31) :
    zsToMapByIndex input = .ofOption (zsToMap input) := by
  have hloop := @loop_eq_parse _ input (zsToMapRound input) zsToMapLoop hshort zsToMapLoop_nil ?_
    input.length 0 (Nat.zero_le _) (Nat.le_refl _) ∅
  · rw [List.drop_zero] at hloop
    exact hloop
  · intro i res hi
    have hne := drop_ne_nil hi
    rcases nextField_cases hshort (Nat.le_of_lt hi) with
      ⟨hcomma, hfield⟩ | ⟨key, mid, hmid, hmidle, hcomma, hfield⟩
    · refine .inl ⟨by simp [zsToMapRound, hfield], fun rounds => ?_⟩
      rw [zsToMapLoop.eq_3 _ _ _ hne, hcomma]
      rfl
    · rcases nextField_cases hshort hmidle with
        ⟨hcomma', hfield'⟩ | ⟨val, next, hnext, hnextle, hcomma', hfield'⟩
      · refine .inl ⟨by simp [zsToMapRound, hfield, hfield'], fun rounds => ?_⟩
        rw [zsToMapLoop.eq_3 _ _ _ hne, hcomma]
        simp [hcomma']
      · refine .inr ⟨next, res.insert key val, by omega, hnextle,
          by simp [zsToMapRound, hfield, hfield'], fun rounds => ?_⟩
        rw [zsToMapLoop.eq_3 _ _ _ hne, hcomma]
        simp [hcomma']

theorem zsToProcessListByIndex_eq {input : List Char} (hshort : input.length < 2 ^ 31) :
    zsToProcessListByIndex input = .ofOption (zsToProcessList input) := by
  have hloop := @loop_eq_parse _ input (zsToProcessListRound input)
    (fun rounds s ids => (zsToProcessListLoop rounds s).map (ids ++ ·)) hshort
    (fun rounds ids => by simp [zsToProcessListLoop_nil]) ?_ input.length 0 (Nat.zero_le _)
    (Nat.le_refl _) []
  · rw [List.drop_zero] at hloop
    refine hloop.trans ?_
    rw [zsToProcessList]
    cases zsToProcessListLoop input.length input <;> rfl
  · intro i ids hi
    have hne := drop_ne_nil hi
    rcases nextField_cases hshort (Nat.le_of_lt hi) with
      ⟨hcomma, hfield⟩ | ⟨id, next, hnext, hnextle, hcomma, hfield⟩
    · refine .inl ⟨by simp [zsToProcessListRound, hfield], fun rounds => ?_⟩
      rw [zsToProcessListLoop.eq_3 _ _ hne, hcomma]
      rfl
    · refine .inr ⟨next, ids ++ [atol (cStr id)], hnext, hnextle,
        by simp [zsToProcessListRound, hfield], fun rounds => ?_⟩
      rw [zsToProcessListLoop.eq_3 _ _ hne, hcomma]
      cases hrest : zsToProcessListLoop rounds (input.drop next) with
      | none => simp [hrest]
      | some rest => simp [hrest]

/-! ## Texts of any length -/

theorem fieldLoop_negative {σ : Type} (round : Int × σ → Option (Int × σ)) {input : List Char}
    {start : σ} (h : toInt32 input.length ≤ 0) :
    fieldLoop round input start = .returned start := by
  have hstop : beforeEnd input ((0 : Int), start) = false := decide_eq_false (Int.not_lt.mpr h)
  rw [fieldLoop, loop_of_stop hstop]
  rfl

section Long

variable {α σ : Type} {text : α → List Char} {use : σ → α → σ} {l : List α} {input : List Char}
  {round : Int × σ → Option (Int × σ)}

def Behind (text : α → List Char) (use : σ → α → σ) (l : List α) (start : σ) (s : Int × σ) :
    Prop :=
  ∃ front back, l = front ++ back ∧ (front.flatMap text).length < 2 ^ 31 ∧
    s = (((front.flatMap text).length : Int), front.foldl use start)

/-- Rounds that each read the text of one item, as far as the index goes. What such a loop
returns is made of items at the front whose text is short. -/
theorem fieldLoop_front
    (hround : ∀ front a back s t, l = front ++ a :: back → (front.flatMap text).length < 2 ^ 31 →
      round (((front.flatMap text).length : Int), s) = some t →
        ((front ++ [a]).flatMap text).length < 2 ^ 31 ∧
          t = ((((front ++ [a]).flatMap text).length : Int), use s a))
    (hend : (l.flatMap text).length < 2 ^ 31 →
      ∀ s, round (((l.flatMap text).length : Int), s) = none)
    {start result : σ} (h : fieldLoop round input start = .returned result) :
    ∃ front back, l = front ++ back ∧ (front.flatMap text).length < 2 ^ 31 ∧
      result = front.foldl use start := by
  obtain ⟨s, hloop, rfl⟩ := LoopResult.map_eq_returned h
  have hstart : Behind text use l start (0, start) := ⟨[], l, rfl, by simp, by simp⟩
  have hbehind : Behind text use l start s := by
    refine loop_invariant ?_ hstart hloop
    rintro _ t ⟨front, back, hl, hshort, rfl⟩ _ hbody
    cases back with
    | nil =>
        rw [List.append_nil] at hl
        subst hl
        rw [hend hshort] at hbody
        cases hbody
    | cons a back =>
        obtain ⟨hnext, rfl⟩ := hround front a back _ t hl hshort hbody
        refine ⟨front ++ [a], back, by rw [hl, List.append_assoc]; rfl, hnext, ?_⟩
        rw [List.foldl_append]
        rfl
  obtain ⟨front, back, hl, hshort, hs⟩ := hbehind
  exact ⟨front, back, hl, hshort, by rw [hs]⟩

end Long

theorem zsToMapRound_entry {pre post : List Char} {e : Sigma fun _ : List Char => List Char}
    (hkey : ',' ∉ e.1) (hval : ',' ∉ e.2) (hpre : pre.length < 2 ^ 31) {res : TextMap}
    {t : Int × TextMap}
    (h : zsToMapRound (pre ++ (entryText e ++ post)) ((pre.length : Int), res) = some t) :
    (pre ++ entryText e).length < 2 ^ 31 ∧
      t = (((pre ++ entryText e).length : Int), res.insert e.1 e.2) := by
  have htext : pre ++ (entryText e ++ post) = pre ++ (e.1 ++ ',' :: (e.2 ++ ',' :: post)) := by
    simp [entryText]
  have hsplit : pre ++ (e.1 ++ ',' :: (e.2 ++ ',' :: post)) =
      (pre ++ e.1 ++ [',']) ++ (e.2 ++ ',' :: post) := by
    simp
  have hmid : pre.length + e.1.length + 1 = (pre ++ e.1 ++ [',']).length := by
    rw [List.length_append, List.length_append]
    rfl
  have hlast : (pre ++ e.1 ++ [',']).length + e.2.length + 1 = (pre ++ entryText e).length := by
    simp only [entryText, List.length_append, List.length_cons, List.length_nil]
    omega
  rw [zsToMapRound, htext] at h
  rw [nextField_append hkey hpre, hsplit] at h
  by_cases hfits : pre.length + e.1.length + 1 < 2 ^ 31
  · rw [if_pos hfits] at h
    simp only [Option.bind_eq_bind, Option.bind_some] at h
    rw [hmid] at h hfits
    rw [nextField_append hval hfits, hlast] at h
    by_cases hfits' : (pre ++ entryText e).length < 2 ^ 31
    · rw [if_pos hfits'] at h
      cases h
      exact ⟨hfits', rfl⟩
    · rw [if_neg hfits'] at h
      cases h
  · rw [if_neg hfits] at h
    cases h

theorem zsToProcessListRound_entry {pre field post : List Char} (hfield : ',' ∉ field)
    (hpre : pre.length < 2 ^ 31) {ids : List Int} {t : Int × List Int}
    (h : zsToProcessListRound (pre ++ (field ++ ',' :: post)) ((pre.length : Int), ids) = some t) :
    pre.length + field.length + 1 < 2 ^ 31 ∧
      t = (((pre.length + field.length + 1 : Nat) : Int), ids ++ [atol (cStr field)]) := by
  rw [zsToProcessListRound, nextField_append hfield hpre] at h
  by_cases hfits : pre.length + field.length + 1 < 2 ^ 31
  · rw [if_pos hfits] at h
    cases h
    exact ⟨hfits, rfl⟩
  · rw [if_neg hfits] at h
    cases h

end RdmaMigration.Coordinator
