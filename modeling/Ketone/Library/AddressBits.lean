import Ketone.Library.Align

/-! The bits of a word from some place on, where an aligned address has all its ones, and words
made of two halves. -/

namespace Ketone.Library.AddressBits
open Align

def highBits (w k : Nat) : BitVec w := ~~~(BitVec.twoPow w k - 1)

section
variable {w k : Nat}

theorem getElem_highBits (inside : k < w) (i : Nat) (bound : i < w) : (highBits w k)[i] = decide (k ≤ i) := by
  have power : (BitVec.twoPow w k).toNat = 2 ^ k := BitVec.toNat_twoPow_of_lt inside
  have low : (BitVec.twoPow w k - 1)[i] = decide (i < k) := by
    rw [← BitVec.getLsbD_eq_getElem, ← BitVec.testBit_toNat, toNat_pred (ne_zero_of_power power), power,
      Nat.testBit_two_pow_sub_one]
  rw [highBits, BitVec.getElem_not, low]
  by_cases above : k ≤ i
  · simp [above, Nat.not_lt.mpr above]
  · simp [above, Nat.lt_of_not_le above]

theorem not_highBits : ~~~highBits w k + 1 = BitVec.twoPow w k := by
  rw [highBits, BitVec.not_not, BitVec.sub_add_cancel]

theorem highBits_ne_zero (inside : k < w) : highBits w k ≠ 0 := by
  intro zero
  have bit := congrArg (fun x : BitVec w => x.getLsbD (w - 1)) zero
  have last : w - 1 < w := by omega
  simp only [BitVec.getLsbD_eq_getElem last, getElem_highBits inside] at bit
  simp only [BitVec.ofNat_eq_ofNat, BitVec.getElem_zero, decide_eq_false_iff_not] at bit
  omega

theorem highBits_and {j : Nat} (le : j ≤ k) (inside : k < w) : highBits w k &&& highBits w j = highBits w k := by
  ext i bound
  rw [BitVec.getElem_and, getElem_highBits inside, getElem_highBits (by omega)]
  by_cases above : k ≤ i
  · simp [above, le.trans above]
  · simp [above]

theorem and_highBits {x : BitVec w} (inside : k < w) (aligned : 2 ^ k ∣ x.toNat) : x &&& highBits w k = x := by
  have power : (BitVec.twoPow w k).toNat = 2 ^ k := BitVec.toNat_twoPow_of_lt inside
  have clear := (and_pred_eq_zero_iff power x).mpr aligned
  ext i bound
  have bit := congrArg (fun y : BitVec w => y.getLsbD i) clear
  simp only [highBits, BitVec.getLsbD_eq_getElem bound, BitVec.getElem_and, BitVec.getElem_not,
    BitVec.ofNat_eq_ofNat, BitVec.getElem_zero] at bit ⊢
  cases set : x[i] with
  | false => rfl
  | true => simpa [set] using bit

/-- Bits that lie under the address bits are dropped with them, and the address is left. -/
theorem or_and_highBits {x flags : BitVec w} (inside : k < w) (aligned : 2 ^ k ∣ x.toNat) {j : Nat} (le : j ≤ k)
    (under : flags &&& highBits w j = 0) : (x ||| flags) &&& highBits w j = x := by
  have part : x &&& highBits w j = x := by
    have whole := and_highBits inside aligned
    calc
      _ = x &&& highBits w k &&& highBits w j := by rw [whole]
      _ = x &&& (highBits w k &&& highBits w j) := BitVec.and_assoc ..
      _ = x := by rw [highBits_and le inside, whole]
  ext i bound
  have bit := congrArg (fun y : BitVec w => y.getLsbD i) part
  have bit' := congrArg (fun y : BitVec w => y.getLsbD i) under
  simp only [BitVec.getLsbD_eq_getElem bound, BitVec.getElem_and, BitVec.ofNat_eq_ofNat,
    BitVec.getElem_zero] at bit bit'
  rw [BitVec.getElem_and, BitVec.getElem_or]
  cases set : (highBits w j)[i] with
  | false => simpa [set] using bit
  | true =>
    rw [set, Bool.and_true] at bit'
    rw [bit', Bool.or_false, Bool.and_true]

theorem or_readOnly {x flags : BitVec w} (inside : k < w) (aligned : 2 ^ k ∣ x.toNat) {j : Nat} (le : j ≤ k)
    (under : flags &&& highBits w j = 0) : (x ||| flags) &&& ~~~highBits w k &&& highBits w j = 0 := by
  have address := or_and_highBits inside aligned le under
  have whole := and_highBits inside aligned
  calc
    _ = (x ||| flags) &&& highBits w j &&& ~~~highBits w k := by
      rw [BitVec.and_assoc, BitVec.and_comm (~~~highBits w k), BitVec.and_assoc]
    _ = x &&& ~~~highBits w k := by rw [address]
    _ = x &&& highBits w k &&& ~~~highBits w k := by rw [whole]
    _ = x &&& 0 := by rw [BitVec.and_assoc, BitVec.and_not_self]
    _ = 0 := BitVec.and_zero

end

def lowHalf (x : BitVec 64) : BitVec 32 := x.setWidth 32

def highHalf (x : BitVec 64) : BitVec 32 := (x >>> 32).setWidth 32

def join (high low : BitVec 32) : BitVec 64 := (high.setWidth 64 <<< 32) ||| low.setWidth 64

theorem join_halves (x : BitVec 64) : join (highHalf x) (lowHalf x) = x := by
  ext i bound
  simp only [join, highHalf, lowHalf, BitVec.getElem_or, BitVec.getElem_shiftLeft, BitVec.getElem_setWidth,
    BitVec.getLsbD_setWidth, BitVec.getLsbD_ushiftRight]
  by_cases low : i < 32
  · simp [low, BitVec.getLsbD_eq_getElem bound]
  · have back : 32 + (i - 32) = i := by omega
    have near : i - 32 < 32 := by omega
    simp [low, back, near, BitVec.getLsbD_eq_getElem bound]

theorem halves_join (high low : BitVec 32) : highHalf (join high low) = high ∧ lowHalf (join high low) = low := by
  constructor
  · ext i bound
    have near : 32 + i < 64 := by omega
    have back : 32 + i - 32 = i := by omega
    simp [highHalf, join, BitVec.getLsbD_eq_getElem near, back, BitVec.getLsbD_eq_getElem bound]
  · ext i bound
    simp [lowHalf, join]

theorem lowHalf_and (x y : BitVec 64) : lowHalf x &&& lowHalf y = lowHalf (x &&& y) := BitVec.setWidth_and.symm

theorem highHalf_and (x y : BitVec 64) : highHalf x &&& highHalf y = highHalf (x &&& y) := by
  rw [highHalf, highHalf, highHalf, ← BitVec.setWidth_and, BitVec.ushiftRight_and_distrib]

end Ketone.Library.AddressBits
