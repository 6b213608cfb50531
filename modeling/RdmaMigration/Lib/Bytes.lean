import Mathlib.Algebra.Group.Nat.Defs
import Mathlib.Data.Nat.Basic
import RdmaMigration.Lib.Ranges

/-! # Values in a byte memory

Little-endian values of any width and strings, read from and written to a memory of
bytes. A value that is read depends on its own bytes only.
-/

namespace RdmaMigration.Lib

abbrev Memory := Nat → UInt8

def readLE (m : Memory) : Nat → Nat → Nat
  | _, 0 => 0
  | a, w + 1 => (m a).toNat + 256 * readLE m (a + 1) w

def writeLE (m : Memory) (a w v : Nat) : Memory := fun x =>
  if Covers (a, w) x then UInt8.ofNat (v / 256 ^ (x - a)) else m x

/-- The bytes of one range from `m`, all others from `m'`. -/
def overlay (m m' : Memory) (r : Nat × Nat) : Memory := fun x => if Covers r x then m x else m' x

variable {m : Memory} {a w x : Nat} {bytes : List UInt8}

theorem writeLE_outside {v : Nat} (h : ¬ Covers (a, w) x) :
    writeLE m a w v x = m x := if_neg h

theorem overlay_inside {m' : Memory} {r : Nat × Nat} (h : Covers r x) :
    overlay m m' r x = m x := if_pos h

theorem readLE_congr {m' : Memory} (h : ∀ x, Covers (a, w) x → m x = m' x) :
    readLE m a w = readLE m' a w := by
  induction w generalizing a with
  | zero => rfl
  | succ w ih =>
      have hhead : m a = m' a := h a ⟨Nat.le_refl a, by dsimp only; omega⟩
      have htail : readLE m (a + 1) w = readLE m' (a + 1) w := by
        refine ih fun x hx => h x ?_
        unfold Covers at hx ⊢
        dsimp only at hx ⊢
        omega
      rw [readLE, readLE, hhead, htail]

theorem readLE_writeLE (m : Memory) (a w v : Nat) :
    readLE (writeLE m a w v) a w = v % 256 ^ w := by
  induction w generalizing a v with
  | zero => simp [readLE, Nat.mod_one]
  | succ w ih =>
      have hhead : (writeLE m a (w + 1) v a).toNat = v % 256 := by
        have hin : Covers (a, w + 1) a := ⟨Nat.le_refl a, by dsimp only; omega⟩
        simp [writeLE, hin]
      -- Past the first byte it is the memory that holds the rest of the value.
      have htail : readLE (writeLE m a (w + 1) v) (a + 1) w =
          readLE (writeLE m (a + 1) w (v / 256)) (a + 1) w := by
        refine readLE_congr fun x hx => ?_
        have hlong : Covers (a, w + 1) x := by
          unfold Covers at hx ⊢
          dsimp only at hx ⊢
          omega
        have hpow : x - a = x - (a + 1) + 1 := by
          have := hx.1
          dsimp only at this
          omega
        simp only [writeLE, hx, hlong, if_true]
        rw [hpow, Nat.pow_succ', Nat.div_div_eq_div_mul]
      rw [readLE, hhead, htail, ih, Nat.pow_succ', Nat.mod_mul]

theorem readLE_writeLE_apart {b k v : Nat} (h : a + w ≤ b ∨ b + k ≤ a) :
    readLE (writeLE m b k v) a w = readLE m a w := by
  refine readLE_congr fun x hx => writeLE_outside fun hcover => ?_
  unfold Covers at hx hcover
  dsimp only at hx hcover
  omega

theorem readLE_zero (a w : Nat) : readLE (fun _ => 0) a w = 0 := by
  induction w generalizing a with
  | zero => rfl
  | succ w ih => rw [readLE, ih]; rfl

/-! ## Strings of bytes -/

def writeBytes (m : Memory) (a : Nat) (bytes : List UInt8) : Memory := fun x =>
  if a ≤ x then (bytes[x - a]?).getD (m x) else m x

theorem writeBytes_outside (h : ¬ Covers (a, bytes.length) x) : writeBytes m a bytes x = m x := by
  unfold writeBytes
  split
  next hle =>
    have hnone : bytes[x - a]? = none := by
      refine List.getElem?_eq_none ?_
      unfold Covers at h
      dsimp only at h
      omega
    rw [hnone, Option.getD_none]
  next => rfl

theorem writeBytes_inside {i : Nat} (h : i < bytes.length) :
    writeBytes m a bytes (a + i) = bytes[i] := by
  rw [writeBytes, if_pos (Nat.le_add_right a i), Nat.add_sub_cancel_left,
    List.getElem?_eq_getElem h, Option.getD_some]

theorem readLE_writeBytes_apart {b : Nat} (h : a + w ≤ b ∨ b + bytes.length ≤ a) :
    readLE (writeBytes m b bytes) a w = readLE m a w := by
  refine readLE_congr fun x hx => writeBytes_outside fun hcover => ?_
  unfold Covers at hx hcover
  dsimp only at hx hcover
  omega

/-- The bytes in front of the first null byte, if there is one among `n` bytes. -/
def cString (m : Memory) : Nat → Nat → Option (List UInt8)
  | _, 0 => none
  | a, n + 1 => if m a = 0 then some [] else (cString m (a + 1) n).map (m a :: ·)

theorem cString_eq {n : Nat} (hlt : bytes.length < n)
    (hbytes : ∀ i, (h : i < bytes.length) → m (a + i) = bytes[i])
    (hnonzero : ∀ b ∈ bytes, b ≠ 0) (hend : m (a + bytes.length) = 0) :
    cString m a n = some bytes := by
  induction bytes generalizing a n with
  | nil =>
      obtain ⟨n, rfl⟩ := Nat.exists_eq_add_of_lt hlt
      have hzero : m a = 0 := hend
      rw [cString, if_pos hzero]
  | cons b bytes ih =>
      cases n with
      | zero => exact absurd hlt (Nat.not_lt_zero _)
      | succ n =>
          have hhead : m a = b := hbytes 0 (Nat.zero_lt_succ _)
          have htail : cString m (a + 1) n = some bytes := by
            refine ih (Nat.lt_of_succ_lt_succ hlt) ?_ ?_ ?_
            · intro i hi
              have hnext := hbytes (i + 1) (Nat.succ_lt_succ hi)
              rwa [List.getElem_cons_succ, Nat.add_comm i 1, ← Nat.add_assoc] at hnext
            · exact fun c hc => hnonzero c (List.mem_cons_of_mem _ hc)
            · rwa [List.length_cons, Nat.add_comm bytes.length 1, ← Nat.add_assoc] at hend
          rw [cString, hhead, if_neg (hnonzero b List.mem_cons_self), htail, Option.map_some]

end RdmaMigration.Lib
