import Mathlib.Data.Nat.Basic
import Mathlib.Tactic.Ring

/-! Rounding an address up to a power of two with the mask idiom
`(x + a - 1) & ~(a - 1)`, in modular arithmetic of any width. -/

namespace Ketone.Library.Align

theorem toNat_pred {w : Nat} {a : BitVec w} (nonzero : a ≠ 0) : (a - 1).toNat = a.toNat - 1 := by
  have bound := a.isLt
  have positive : 0 < a.toNat := BitVec.toNat_pos_of_ne_zero nonzero
  by_cases width : w = 0
  · subst width; omega
  · have one : (1 : BitVec w).toNat = 1 := by simp [Nat.mod_eq_of_lt (Nat.one_lt_two_pow width)]
    rw [BitVec.toNat_sub_of_le (by rw [BitVec.le_def, one]; omega), one]

theorem and_pred_eq_zero {w : Nat} (a : BitVec w) (nonzero : a ≠ 0) :
    a &&& (a - 1) = 0 ↔ ∃ k, a.toNat = 2 ^ k := by
  have positive : 0 < a.toNat := BitVec.toNat_pos_of_ne_zero nonzero
  rw [← BitVec.toNat_inj, BitVec.toNat_and, toNat_pred nonzero]
  simpa [Nat.isPowerOfTwo] using Nat.and_sub_one_eq_zero_iff_isPowerOfTwo positive.ne'

/-- The alignment in force where callers write zero for none. -/
def orOne {w : Nat} (a : BitVec w) : BitVec w := if a = 0 then 1 else a

theorem power_of_orOne {w : Nat} (width : 0 < w) {a : BitVec w}
    (test : orOne a &&& (orOne a - 1) = 0) : ∃ k, (orOne a).toNat = 2 ^ k := by
  apply (and_pred_eq_zero _ ?_).mp test
  unfold orOne
  split
  · intro same
    have one := congrArg BitVec.toNat same
    simp [Nat.mod_eq_of_lt (Nat.one_lt_two_pow (show w ≠ 0 by omega))] at one
  · assumption

section
variable {w k : Nat} {a : BitVec w}

theorem ne_zero_of_power (power : a.toNat = 2 ^ k) : a ≠ 0 := by
  rintro rfl
  have positive := Nat.two_pow_pos k
  simp only [BitVec.ofNat_eq_ofNat, BitVec.toNat_zero] at power
  omega

theorem power_le {word : BitVec 64} (power : word.toNat = 2 ^ k) : 2 ^ k ≤ 2 ^ 63 := by
  have bound := word.isLt
  rw [power] at bound
  have exponent := (Nat.pow_lt_pow_iff_right (by decide)).mp bound
  exact Nat.pow_le_pow_right (by decide) (by omega)

theorem toNat_and_pred (power : a.toNat = 2 ^ k) (x : BitVec w) :
    (x &&& (a - 1)).toNat = x.toNat % 2 ^ k := by
  rw [BitVec.toNat_and, toNat_pred (ne_zero_of_power power), power, Nat.and_two_pow_sub_one_eq_mod]

theorem and_pred_eq_zero_iff (power : a.toNat = 2 ^ k) (x : BitVec w) :
    x &&& (a - 1) = 0 ↔ 2 ^ k ∣ x.toNat := by
  rw [← BitVec.toNat_inj, toNat_and_pred power]
  simpa using (Nat.dvd_iff_mod_eq_zero).symm

/-- Clearing the low bits leaves the multiple below. -/
theorem toNat_and_not_pred (power : a.toNat = 2 ^ k) (x : BitVec w) :
    (x &&& ~~~(a - 1)).toNat = 2 ^ k * (x.toNat / 2 ^ k) := by
  apply Nat.eq_of_testBit_eq
  intro i
  have low : (a - 1).getLsbD i = decide (i < k) := by
    rw [← BitVec.testBit_toNat, toNat_pred (ne_zero_of_power power), power, Nat.testBit_two_pow_sub_one]
  rw [BitVec.testBit_toNat, BitVec.getLsbD_and, BitVec.getLsbD_not, low, Nat.testBit_two_pow_mul,
    Nat.testBit_div_two_pow, BitVec.testBit_toNat]
  by_cases above : k ≤ i
  · have back : i - k + k = i := by omega
    by_cases inside : i < w
    · simp [above, inside, back, Nat.not_lt.mpr above]
    · simp [inside, back, BitVec.getLsbD_of_ge x i (by omega)]
  · simp [above, Nat.lt_of_not_le above]

end

/-- The least multiple of `m` at or above `n`. -/
def roundUp (m n : Nat) : Nat := (n + (m - 1)) / m * m

section
variable {m n : Nat}

theorem le_roundUp (positive : 0 < m) : n ≤ roundUp m n := by
  have split := Nat.div_add_mod (n + (m - 1)) m
  have small := Nat.mod_lt (n + (m - 1)) positive
  have swap := Nat.mul_comm m ((n + (m - 1)) / m)
  unfold roundUp
  omega

theorem roundUp_lt (positive : 0 < m) : roundUp m n < n + m := by
  have le := Nat.div_mul_le_self (n + (m - 1)) m
  unfold roundUp
  omega

theorem dvd_roundUp : m ∣ roundUp m n := Nat.dvd_mul_left _ _

theorem roundUp_le {multiple : Nat} (divides : m ∣ multiple) (le : n ≤ multiple) : roundUp m n ≤ multiple := by
  by_contra above
  have near : roundUp m n < n + m := by
    apply roundUp_lt
    apply Nat.pos_of_ne_zero
    intro zero
    rw [zero, roundUp, Nat.mul_zero] at above
    omega
  have gap : m ∣ roundUp m n - multiple := Nat.dvd_sub dvd_roundUp divides
  have wide : m ≤ roundUp m n - multiple := Nat.le_of_dvd (by omega) gap
  omega

end

theorem toNat_mask_up {w k : Nat} {a : BitVec w} (power : a.toNat = 2 ^ k) (x : BitVec w) :
    ((x + a - 1) &&& ~~~(a - 1)).toNat = roundUp (2 ^ k) x.toNat % 2 ^ w := by
  have regroup : x + a - 1 = x + (a - 1) := by
    rw [BitVec.sub_eq_add_neg, BitVec.sub_eq_add_neg, BitVec.add_assoc]
  have width : k ≤ w := by
    have bound := a.isLt
    rw [power] at bound
    exact ((Nat.pow_lt_pow_iff_right (by decide)).mp bound).le
  have split : 2 ^ w = 2 ^ k * 2 ^ (w - k) := by rw [← pow_add, Nat.add_sub_cancel' width]
  rw [toNat_and_not_pred power, regroup, BitVec.toNat_add, toNat_pred (ne_zero_of_power power), power,
    roundUp, split, Nat.mod_mul_right_div_self, Nat.mul_comm (_ / _), Nat.mul_mod_mul_left]

theorem toNat_larger {w : Nat} (a b : BitVec w) : (if a > b then a else b).toNat = max a.toNat b.toNat := by
  by_cases above : a > b
  · rw [if_pos above, Nat.max_eq_left (BitVec.le_of_lt above)]
  · rw [if_neg above, Nat.max_eq_right (BitVec.not_lt.mp above)]

theorem toNat_smaller {w : Nat} (a b : BitVec w) : (if a > b then b else a).toNat = min a.toNat b.toNat := by
  by_cases above : a > b
  · rw [if_pos above, Nat.min_eq_right (BitVec.le_of_lt above)]
  · rw [if_neg above, Nat.min_eq_left (BitVec.not_lt.mp above)]

def pageUp (x : BitVec 64) : BitVec 64 := (x + 0xFFF) &&& ~~~0xFFF

theorem toNat_pageUp (x : BitVec 64) : (pageUp x).toNat = roundUp 4096 x.toNat % 2 ^ 64 := by
  have power : (0x1000 : BitVec 64).toNat = 2 ^ 12 := rfl
  have mask : x + 0x1000 - 1 = x + 0xFFF := by
    rw [BitVec.sub_eq_add_neg, BitVec.add_assoc]
    rfl
  calc
    (pageUp x).toNat = ((x + 0x1000 - 1) &&& ~~~((0x1000 : BitVec 64) - 1)).toNat := by rw [mask]; rfl
    _ = roundUp 4096 x.toNat % 2 ^ 64 := toNat_mask_up power x

end Ketone.Library.Align
