import Mathlib.Data.Char
import Mathlib.Data.List.AList
import Mathlib.Data.List.Lex
import Mathlib.Data.List.Sort
import Mathlib.Data.List.TakeWhile
import RdmaMigration.Lib.MachineInt

/-! # What the nodes of ZooKeeper hold

Numbers are stored in decimal, segment records as keys and values each followed
by a comma, and process lists as ids each followed by a comma. Every parser stops
at the end of the text with the exception of `at` when it still expects a comma.
-/

namespace RdmaMigration.Coordinator

open Lib

/-! ## Numbers -/

def decimal (n : Nat) : List Char := Nat.toDigits 10 n

def decimalInt : Int → List Char
  | .ofNat n => decimal n
  | .negSucc n => '-' :: decimal (n + 1)

def digitValue (c : Char) : Nat :=
  if c.isDigit then c.toNat - '0'.toNat
  else if 'a' ≤ c ∧ c ≤ 'z' then c.toNat - 'a'.toNat + 10
  else if 'A' ≤ c ∧ c ≤ 'Z' then c.toNat - 'A'.toNat + 10
  else 36

/-- The number that the digits at the front of the text make up. The exceptions
are `invalid_argument` without a digit and `out_of_range` beyond 64 bits. -/
def readDigits (base : Nat) (s : List Char) : Option Nat :=
  let digits := s.takeWhile fun c => digitValue c < base
  if digits = [] then none
  else
    let n := digits.foldl (fun sofar c => base * sofar + digitValue c) 0
    if n < 2 ^ 64 then some n else none

/-- `std::stoul(text, &sz, 0)` on a text without blanks or a sign in front; a
leading `0x` or `0` chooses the base. -/
def stoul : List Char → Option Nat
  | '0' :: x :: c :: rest =>
      if (x = 'x' ∨ x = 'X') ∧ digitValue c < 16 then readDigits 16 (c :: rest)
      else readDigits 8 ('0' :: x :: c :: rest)
  | '0' :: rest => readDigits 8 ('0' :: rest)
  | s => readDigits 10 s

def stoull (s : List Char) : Option Nat := readDigits 10 s

/-- `atol` on a text without blanks in front. It stops at the ends of `long`. -/
def atol : List Char → Int
  | '-' :: s => max (-2 ^ 63) (-(Nat.ofDigitChars 10 (s.takeWhile Char.isDigit) 0 : Int))
  | '+' :: s => min (2 ^ 63 - 1) (Nat.ofDigitChars 10 (s.takeWhile Char.isDigit) 0 : Int)
  | s => min (2 ^ 63 - 1) (Nat.ofDigitChars 10 (s.takeWhile Char.isDigit) 0 : Int)

/-! ## Records and lists -/

def cStr (s : List Char) : List Char := s.takeWhile (· ≠ Char.ofNat 0)

def untilComma : List Char → Option (List Char × List Char)
  | [] => none
  | c :: rest =>
      if c = ',' then some ([], rest)
      else (untilComma rest).map fun (front, rest) => (c :: front, rest)

abbrev TextMap := AList fun _ : List Char => List Char

/-- The loop of `ZStoMAP`; every round takes characters, so the length of the text
bounds the rounds. -/
def zsToMapLoop : Nat → List Char → TextMap → Option TextMap
  | 0, _, res => some res
  | _ + 1, [], res => some res
  | rounds + 1, s, res => do
      let (key, s) ← untilComma s
      let (val, s) ← untilComma s
      zsToMapLoop rounds s (res.insert key val)

def zsToMap (s : List Char) : Option TextMap := zsToMapLoop s.length s ∅

def mapToZs (m : TextMap) : List Char :=
  (m.entries.insertionSort fun x y => x.1 ≤ y.1).flatMap fun e =>
    cStr e.1 ++ [','] ++ cStr e.2 ++ [',']

def zsToProcessListLoop : Nat → List Char → Option (List Int)
  | 0, _ => some []
  | _ + 1, [] => some []
  | rounds + 1, s => do
      let (id, s) ← untilComma s
      let ids ← zsToProcessListLoop rounds s
      return atol (cStr id) :: ids

def zsToProcessList (s : List Char) : Option (List Int) := zsToProcessListLoop s.length s

def processListToZs (ids : List Int) : List Char := ids.flatMap fun id => decimalInt id ++ [',']

/-! ## Numbers survive their text -/

theorem digitValue_of_isDigit {c : Char} (h : c.isDigit = true) :
    digitValue c = c.toNat - '0'.toNat ∧ digitValue c < 10 := by
  have hval : digitValue c = c.toNat - '0'.toNat := by simp [digitValue, h]
  refine ⟨hval, ?_⟩
  rw [hval]
  simp only [Char.isDigit, Bool.and_eq_true, decide_eq_true_eq] at h
  have hle : c.toNat ≤ 57 := by
    have := h.2
    exact UInt32.le_iff_toNat_le.mp this
  have hzero : '0'.toNat = 48 := rfl
  omega

theorem isDigit_of_mem_decimal {n : Nat} {c : Char} (h : c ∈ decimal n) : c.isDigit = true :=
  Nat.isDigit_of_mem_toDigits (by decide) (by decide) h

theorem readDigits_decimal {n : Nat} (h : n < 2 ^ 64) : readDigits 10 (decimal n) = some n := by
  have hall : ∀ c ∈ decimal n, (decide (digitValue c < 10)) = true := fun c hc => by
    simpa using (digitValue_of_isDigit (isDigit_of_mem_decimal hc)).2
  have htake : (decimal n).takeWhile (fun c => digitValue c < 10) = decimal n :=
    List.takeWhile_eq_self_iff.mpr hall
  have hfold : (decimal n).foldl (fun sofar c => 10 * sofar + digitValue c) 0 = n := by
    have hsame : (decimal n).foldl (fun sofar c => 10 * sofar + digitValue c) 0 =
        Nat.ofDigitChars 10 (decimal n) 0 := by
      rw [Nat.ofDigitChars]
      refine List.foldl_ext _ _ _ fun sofar c hc => ?_
      rw [(digitValue_of_isDigit (isDigit_of_mem_decimal hc)).1]
    rw [hsame, decimal, Nat.ofDigitChars_ten_toDigits]
  simp only [readDigits, htake, hfold]
  have hne : decimal n ≠ [] := Nat.toDigits_ne_nil
  rw [if_neg hne, if_pos h]

theorem decimal_head_ne_zero {n : Nat} (h : 0 < n) : ∀ rest, decimal n ≠ '0' :: rest := by
  induction n using Nat.strong_induction_on with
  | _ n ih =>
      intro rest heq
      rw [decimal, Nat.toDigits_eq_if (by decide)] at heq
      split at heq
      · have hdigit : n.digitChar = '0' := (List.cons.inj heq).1
        have hnat := Nat.toNat_digitChar_of_lt_ten (n := n) ‹_›
        rw [hdigit] at hnat
        have hzero : '0'.toNat = 48 := rfl
        omega
      · have hdiv : 0 < n / 10 := by omega
        cases hfront : Nat.toDigits 10 (n / 10) with
        | nil => exact Nat.toDigits_ne_nil hfront
        | cons c front =>
            rw [hfront, List.cons_append] at heq
            refine ih (n / 10) (by omega) hdiv front ?_
            rw [decimal, hfront, (List.cons.inj heq).1]

theorem stoul_decimal {n : Nat} (hpos : 0 < n) (h : n < 2 ^ 64) : stoul (decimal n) = some n := by
  have hhead := decimal_head_ne_zero hpos
  have hten : stoul (decimal n) = readDigits 10 (decimal n) := by
    unfold stoul
    split
    · exact absurd ‹_› (hhead _)
    · exact absurd ‹_› (hhead _)
    · rfl
  rw [hten, readDigits_decimal h]

theorem length_decimal_le {n : Nat} (h : n < 2 ^ 64) : (decimal n).length ≤ 20 :=
  (Nat.length_toDigits_le_iff (by decide) (by decide)).mpr (by omega)

/-! ## Process lists survive their text -/

theorem comma_not_mem_decimalInt (id : Int) : ',' ∉ decimalInt id := by
  have hdigits : ∀ n, ',' ∉ decimal n := fun n hmem =>
    absurd (isDigit_of_mem_decimal hmem) (by decide)
  cases id with
  | ofNat n => exact hdigits n
  | negSucc n =>
      intro hmem
      rcases List.mem_cons.mp hmem with heq | hrest
      · exact absurd heq (by decide)
      · exact hdigits (n + 1) hrest

theorem mem_decimalInt {id : Int} {c : Char} (h : c ∈ decimalInt id) :
    c.isDigit = true ∨ c = '-' := by
  cases id with
  | ofNat n => exact .inl (isDigit_of_mem_decimal h)
  | negSucc n =>
      rcases List.mem_cons.mp h with rfl | hrest
      · exact .inr rfl
      · exact .inl (isDigit_of_mem_decimal hrest)

theorem toNat_of_mem_processListToZs {ids : List Int} {c : Char} (h : c ∈ processListToZs ids) :
    0 < c.toNat ∧ c.toNat < 256 := by
  obtain ⟨id, -, hmem⟩ := List.mem_flatMap.mp h
  rcases List.mem_append.mp hmem with hmem | hcomma
  · rcases mem_decimalInt hmem with hdigit | rfl
    · simp only [Char.isDigit, Bool.and_eq_true, decide_eq_true_eq] at hdigit
      have hlow : 48 ≤ c.toNat := UInt32.le_iff_toNat_le.mp hdigit.1
      have hhigh : c.toNat ≤ 57 := UInt32.le_iff_toNat_le.mp hdigit.2
      omega
    · decide
  · rw [List.mem_singleton.mp hcomma]
    decide

theorem untilComma_append {front rest : List Char} (h : ',' ∉ front) :
    untilComma (front ++ ',' :: rest) = some (front, rest) := by
  induction front with
  | nil => rfl
  | cons c front ih =>
      have hc : c ≠ ',' := fun heq => h (heq ▸ List.mem_cons_self ..)
      have hfront : ',' ∉ front := fun hmem => h (List.mem_cons_of_mem _ hmem)
      simp [untilComma, hc, ih hfront]

theorem cStr_decimalInt (id : Int) : cStr (decimalInt id) = decimalInt id := by
  have hdigits : ∀ n, ∀ c ∈ decimal n, c ≠ Char.ofNat 0 := by
    rintro n c hc rfl
    exact absurd (isDigit_of_mem_decimal hc) (by decide)
  refine List.takeWhile_eq_self_iff.mpr ?_
  intro c hc
  cases id with
  | ofNat n => simpa using hdigits n c hc
  | negSucc n =>
      rcases List.mem_cons.mp hc with rfl | hrest
      · decide
      · simpa using hdigits (n + 1) c hrest

theorem ofDigitChars_takeWhile_decimal (n : Nat) :
    Nat.ofDigitChars 10 ((decimal n).takeWhile Char.isDigit) 0 = n := by
  have htake : (decimal n).takeWhile Char.isDigit = decimal n :=
    List.takeWhile_eq_self_iff.mpr fun c hc => isDigit_of_mem_decimal hc
  rw [htake, decimal, Nat.ofDigitChars_ten_toDigits]

theorem atol_decimalInt {id : Int} (hlow : -2 ^ 63 ≤ id) (hhigh : id < 2 ^ 63) :
    atol (decimalInt id) = id := by
  cases id with
  | ofNat n =>
      have hdigits : ∀ c rest, decimal n = c :: rest → c.isDigit = true := fun c rest heq =>
        isDigit_of_mem_decimal (heq ▸ List.mem_cons_self ..)
      have hplain : atol (decimal n) =
          min (2 ^ 63 - 1) (Nat.ofDigitChars 10 ((decimal n).takeWhile Char.isDigit) 0 : Int) := by
        unfold atol
        split
        · exact absurd (hdigits _ _ ‹_›) (by decide)
        · exact absurd (hdigits _ _ ‹_›) (by decide)
        · rfl
      have hfits : (n : Int) < 2 ^ 63 := hhigh
      rw [decimalInt, hplain, ofDigitChars_takeWhile_decimal]
      show min (2 ^ 63 - 1) (n : Int) = (n : Int)
      omega
  | negSucc n =>
      rw [decimalInt, atol, ofDigitChars_takeWhile_decimal]
      omega

theorem zsToProcessListLoop_processListToZs {ids : List Int}
    (h : ∀ id ∈ ids, -2 ^ 63 ≤ id ∧ id < 2 ^ 63) {rounds : Nat}
    (hrounds : (processListToZs ids).length ≤ rounds) :
    zsToProcessListLoop rounds (processListToZs ids) = some ids := by
  induction ids generalizing rounds with
  | nil => cases rounds <;> rfl
  | cons id ids ih =>
      have htext : processListToZs (id :: ids) = decimalInt id ++ ',' :: processListToZs ids := by
        simp [processListToZs]
      rw [htext] at hrounds ⊢
      rw [List.length_append, List.length_cons] at hrounds
      cases rounds with
      | zero => omega
      | succ rounds =>
          have hne : decimalInt id ++ ',' :: processListToZs ids ≠ [] := by simp
          have hrest : zsToProcessListLoop rounds (processListToZs ids) = some ids :=
            ih (fun k hk => h k (List.mem_cons_of_mem _ hk)) (by omega)
          have hid := h id (List.mem_cons_self ..)
          rw [zsToProcessListLoop.eq_3 _ _ hne, untilComma_append (comma_not_mem_decimalInt id)]
          simp [hrest, cStr_decimalInt, atol_decimalInt hid.1 hid.2]

theorem zsToProcessList_processListToZs {ids : List Int}
    (h : ∀ id ∈ ids, -2 ^ 63 ≤ id ∧ id < 2 ^ 63) :
    zsToProcessList (processListToZs ids) = some ids :=
  zsToProcessListLoop_processListToZs h le_rfl

end RdmaMigration.Coordinator
