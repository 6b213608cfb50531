import Mathlib.Data.Nat.Bitwise
import Mathlib.Data.Nat.Size
import Mathlib.Tactic.Ring

/-! # Fixed-width integers over `Nat` and `Int`

The sizes and addresses of a 64-bit program are natural numbers below `2 ^ 64`;
the conversions below are the ones the language performs where a value is
narrowed to a 32-bit `int`, widened back, or computed modulo the word size.
-/

namespace RdmaMigration.Lib

/-- Reduction of a sum or product to 64 bits. -/
def wrap64 (n : Nat) : Nat := n % 2 ^ 64

def sub64 (a b : Nat) : Nat := (a + 2 ^ 64 - b) % 2 ^ 64

def not64 (n : Nat) : Nat := 2 ^ 64 - 1 - n

/-- Conversion of an unsigned value to a 32-bit `int`. -/
def toInt32 (n : Nat) : Int := (n : Int).bmod (2 ^ 32)

/-- Conversion of an `int` to a 64-bit unsigned value. -/
def toSizeT (i : Int) : Nat := (i % 2 ^ 64).toNat

theorem wrap64_of_lt {n : Nat} (h : n < 2 ^ 64) : wrap64 n = n := Nat.mod_eq_of_lt h

theorem wrap64_lt (n : Nat) : wrap64 n < 2 ^ 64 := Nat.mod_lt _ (by decide)

theorem sub64_of_le {a b : Nat} (hb : b ≤ a) (ha : a < 2 ^ 64) : sub64 a b = a - b := by
  unfold sub64
  omega

theorem toInt32_of_lt {n : Nat} (h : n < 2 ^ 31) : toInt32 n = n := by
  unfold toInt32
  rw [Int.bmod_def]
  omega

theorem toInt32_lt (n : Nat) : toInt32 n < 2 ^ 31 := by
  unfold toInt32
  rw [Int.bmod_def]
  omega

theorem toSizeT_natCast {n : Nat} (h : n < 2 ^ 64) : toSizeT (n : Int) = n := by
  unfold toSizeT
  omega

theorem toSizeT_toInt32_eq_iff {n : Nat} (h : n < 2 ^ 47) :
    toSizeT (toInt32 n) = n ↔ n < 2 ^ 31 := by
  unfold toSizeT toInt32
  rw [Int.bmod_def]
  omega

/-! ## Masks -/

theorem two_pow_dvd_iff_testBit {k a : Nat} : 2 ^ k ∣ a ↔ ∀ i < k, a.testBit i = false := by
  rw [Nat.dvd_iff_mod_eq_zero]
  constructor
  · intro hmod i hi
    have hbit := Nat.testBit_mod_two_pow a k i
    rw [hmod, Nat.zero_testBit, decide_eq_true hi, Bool.true_and] at hbit
    exact hbit.symm
  · intro hbits
    apply Nat.eq_of_testBit_eq
    intro i
    rw [Nat.testBit_mod_two_pow, Nat.zero_testBit]
    by_cases hi : i < k
    · rw [hbits i hi, Bool.and_false]
    · rw [decide_eq_false hi, Bool.false_and]

theorem two_pow_dvd_succ_iff_testBit {k m : Nat} :
    2 ^ k ∣ m + 1 ↔ ∀ i < k, m.testBit i = true := by
  have hpos : 0 < 2 ^ k := Nat.two_pow_pos k
  constructor
  · rintro ⟨c, hc⟩ i hi
    obtain ⟨c, rfl⟩ := Nat.exists_eq_succ_of_ne_zero (show c ≠ 0 by rintro rfl; omega)
    have hsplit : m = 2 ^ k * c + (2 ^ k - 1) := by
      rw [Nat.mul_succ] at hc
      omega
    rw [hsplit, Nat.testBit_two_pow_mul_add c (by omega), if_pos hi, Nat.testBit_two_pow_sub_one,
      decide_eq_true hi]
  · intro hbits
    have hmod : m % 2 ^ k = 2 ^ k - 1 := by
      apply Nat.eq_of_testBit_eq
      intro i
      rw [Nat.testBit_mod_two_pow, Nat.testBit_two_pow_sub_one]
      by_cases hi : i < k
      · rw [hbits i hi, Bool.and_true]
      · rw [decide_eq_false hi, Bool.false_and]
    have hdiv := Nat.div_add_mod m (2 ^ k)
    refine ⟨m / 2 ^ k + 1, ?_⟩
    rw [Nat.mul_succ]
    omega

theorem testBit_land_not64 {a m : Nat} (ha : a < 2 ^ 64) (hm : m < 2 ^ 64) (i : Nat) :
    (a &&& not64 m).testBit i = (a.testBit i && !m.testBit i) := by
  have hmask : not64 m = 2 ^ 64 - (m + 1) := by
    unfold not64
    omega
  rw [hmask, Nat.testBit_and, Nat.testBit_two_pow_sub_succ hm]
  by_cases hi : i < 64
  · rw [decide_eq_true hi, Bool.true_and]
  · have hbit : a.testBit i = false :=
      Nat.testBit_lt_two_pow (Nat.lt_of_lt_of_le ha (Nat.pow_le_pow_right (by decide) (by omega)))
    rw [hbit, Bool.false_and, Bool.false_and]

theorem land_not64_add {a m : Nat} (ha : a < 2 ^ 64) (hm : m < 2 ^ 64) :
    (a &&& not64 m) + (a &&& m) = a := by
  have hlo : a &&& m < 2 ^ 64 := Nat.lt_of_le_of_lt Nat.and_le_left ha
  have hhi : a &&& not64 m < 2 ^ 64 := Nat.lt_of_le_of_lt Nat.and_le_left ha
  have happart : BitVec.ofNat 64 (a &&& not64 m) &&& BitVec.ofNat 64 (a &&& m) = 0#64 := by
    refine BitVec.eq_of_getLsbD_eq fun i hi => ?_
    rw [BitVec.getLsbD_and, BitVec.getLsbD_ofNat, BitVec.getLsbD_ofNat, testBit_land_not64 ha hm,
      Nat.testBit_and, BitVec.getLsbD_zero]
    cases a.testBit i <;> cases m.testBit i <;> simp
  have hsum := BitVec.toNat_add_of_and_eq_zero happart
  rw [BitVec.add_eq_or_of_and_eq_zero _ _ happart, BitVec.toNat_or, BitVec.toNat_ofNat,
    BitVec.toNat_ofNat, Nat.mod_eq_of_lt hhi, Nat.mod_eq_of_lt hlo] at hsum
  rw [← hsum]
  refine Nat.eq_of_testBit_eq fun i => ?_
  rw [Nat.testBit_or, testBit_land_not64 ha hm, Nat.testBit_and]
  cases a.testBit i <;> cases m.testBit i <;> rfl

theorem land_eq_zero_of_land_not64 {a m : Nat} (ha : a < 2 ^ 64) (hm : m < 2 ^ 64)
    (h : a &&& not64 m = a) : a &&& m = 0 := by
  apply Nat.eq_of_testBit_eq
  intro i
  have hbit := testBit_land_not64 ha hm i
  rw [Nat.testBit_and, Nat.zero_testBit]
  rw [h] at hbit
  revert hbit
  cases a.testBit i <;> cases m.testBit i <;> decide

/-- Clearing the low bits of an address rounds it down to a multiple of the power of two. -/
theorem land_not64_low (a k : Nat) (ha : a < 2 ^ 64) (hk : k ≤ 64) :
    a &&& not64 (2 ^ k - 1) = 2 ^ k * (a / 2 ^ k) := by
  have hpos : 0 < 2 ^ k := Nat.two_pow_pos k
  have hle : 2 ^ k ≤ 2 ^ 64 := Nat.pow_le_pow_right (by decide) hk
  apply Nat.eq_of_testBit_eq
  intro i
  have hshift : 2 ^ k * (a / 2 ^ k) = (a >>> k) <<< k := by
    rw [Nat.shiftLeft_eq, Nat.shiftRight_eq_div_pow, Nat.mul_comm]
  rw [hshift, testBit_land_not64 ha (by omega), Nat.testBit_two_pow_sub_one, Nat.testBit_shiftLeft,
    Nat.testBit_shiftRight]
  by_cases hik : i < k
  · simp [hik, Nat.not_le.mpr hik]
  · simp [hik, Nat.le_of_not_lt hik]

/-- Adding `2 ^ i` flips bit `i`, so a mask that undoes the addition has that bit. -/
theorem testBit_of_land_not64 {a m i : Nat} (hm : m < 2 ^ 64) (ha : a + 2 ^ i < 2 ^ 64)
    (h : (a + 2 ^ i) &&& not64 m = a) : m.testBit i = true := by
  have hbit := testBit_land_not64 ha hm i
  rw [h, Nat.add_comm, Nat.testBit_two_pow_add_eq] at hbit
  revert hbit
  cases a.testBit i <;> cases m.testBit i <;> decide

/-- A mask sends the `n` values from `a` on to `a` just if its low bits, enough for these
values, are ones, those of `a` are zeros, and the mask clears no other bit of `a`. -/
theorem land_not64_block_iff {a m n : Nat} (hm : m < 2 ^ 64) (hn : 0 < n)
    (hbound : a + n ≤ 2 ^ 64) :
    (∀ t < n, (a + t) &&& not64 m = a) ↔
      ∃ k, n ≤ 2 ^ k ∧ 2 ^ k ∣ a ∧ 2 ^ k ∣ m + 1 ∧ a &&& m = 0 := by
  constructor
  · intro hblock
    have hclear : a &&& m = 0 := land_eq_zero_of_land_not64 (by omega) hm (hblock 0 hn)
    have hones : ∀ i < (n - 1).size, m.testBit i = true := by
      intro i hi
      have hlt : 2 ^ i < n := by
        have hle := Nat.lt_size.mp hi
        omega
      exact testBit_of_land_not64 hm (by omega) (hblock _ hlt)
    refine ⟨(n - 1).size, ?_, two_pow_dvd_iff_testBit.mpr fun i hi => ?_,
      two_pow_dvd_succ_iff_testBit.mpr hones, hclear⟩
    · have hlt := Nat.lt_size_self (n - 1)
      omega
    · have hbit := Nat.testBit_and a m i
      rwa [hclear, Nat.zero_testBit, hones i hi, Bool.and_true, eq_comm] at hbit
  · rintro ⟨k, hle, ⟨c, rfl⟩, hones, hclear⟩ t ht
    apply Nat.eq_of_testBit_eq
    intro i
    rw [testBit_land_not64 (by omega) hm, Nat.testBit_two_pow_mul_add c (by omega),
      Nat.testBit_two_pow_mul]
    by_cases hi : i < k
    · rw [two_pow_dvd_succ_iff_testBit.mp hones i hi]
      simp [Nat.not_le.mpr hi]
    · have hbit := Nat.testBit_and (2 ^ k * c) m i
      rw [hclear, Nat.zero_testBit, Nat.testBit_two_pow_mul] at hbit
      rw [if_neg hi]
      revert hbit
      simp only [ge_iff_le, Nat.le_of_not_lt hi, decide_true, Bool.true_and]
      cases c.testBit (i - k) <;> cases m.testBit i <;> decide

end RdmaMigration.Lib
