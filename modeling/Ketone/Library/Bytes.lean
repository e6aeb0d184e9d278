import Mathlib.Data.Nat.Basic
import Mathlib.Tactic.Ring

/-! Strings, and the little-endian fields of a packed record in memory. -/

namespace Ketone.Library

/-- The bytes of a string, without the NUL that ends it. -/
abbrev Str := List (BitVec 8)

namespace Bytes

/-- The number held by `count` bytes from `offset` on, lowest byte first. -/
def littleEndian (bytes : Nat → BitVec 8) (offset : Nat) : Nat → Nat
  | 0 => 0
  | count + 1 => (bytes offset).toNat + 256 * littleEndian bytes (offset + 1) count

def field (width : Nat) (bytes : Nat → BitVec 8) (offset : Nat) : BitVec width :=
  BitVec.ofNat width (littleEndian bytes offset (width / 8))

section
variable (bytes : Nat → BitVec 8)

theorem littleEndian_lt (offset count : Nat) : littleEndian bytes offset count < 256 ^ count := by
  induction count generalizing offset with
  | zero => simp [littleEndian]
  | succ count ih =>
    have low := (bytes offset).isLt
    have high := ih (offset + 1)
    rw [littleEndian, pow_succ]
    omega

theorem littleEndian_add (offset low high : Nat) : littleEndian bytes offset (low + high) =
    littleEndian bytes offset low + 256 ^ low * littleEndian bytes (offset + low) high := by
  induction low generalizing offset with
  | zero => simp [littleEndian]
  | succ low ih =>
    have shift : offset + 1 + low = offset + (low + 1) := by omega
    calc
      _ = (bytes offset).toNat + 256 * littleEndian bytes (offset + 1) (low + high) := by
        rw [show low + 1 + high = low + high + 1 by omega, littleEndian]
      _ = _ := by
        rw [ih, shift, littleEndian]
        ring

theorem toNat_field (width offset : Nat) (whole : 8 * (width / 8) = width) :
    (field width bytes offset).toNat = littleEndian bytes offset (width / 8) := by
  have bound := littleEndian_lt bytes offset (width / 8)
  have power : 256 ^ (width / 8) = 2 ^ width := by
    rw [show (256 : Nat) = 2 ^ 8 by decide, ← pow_mul, whole]
  rw [field, BitVec.toNat_ofNat, Nat.mod_eq_of_lt (power ▸ bound)]

theorem littleEndian_word {w : Nat} (word : BitVec w) (offset count : Nat) :
    littleEndian (fun k => (word >>> (8 * k)).setWidth 8) offset count =
      word.toNat / 256 ^ offset % 256 ^ count := by
  induction count generalizing offset with
  | zero => simp [littleEndian, Nat.mod_one]
  | succ count ih =>
    have byte : ((word >>> (8 * offset)).setWidth 8).toNat = word.toNat / 256 ^ offset % 256 := by
      rw [BitVec.toNat_setWidth, BitVec.toNat_ushiftRight, Nat.shiftRight_eq_div_pow, Nat.pow_mul]
    rw [littleEndian, ih, byte, Nat.pow_succ, ← Nat.div_div_eq_div_mul, Nat.pow_succ, Nat.mul_comm (256 ^ count),
      Nat.mod_mul]

theorem littleEndian_congr {other : Nat → BitVec 8} {offset offset' : Nat} (count : Nat)
    (same : ∀ k < count, bytes (offset + k) = other (offset' + k)) :
    littleEndian bytes offset count = littleEndian other offset' count := by
  induction count generalizing offset offset' with
  | zero => rfl
  | succ count ih =>
    have first : bytes offset = other offset' := same 0 (Nat.succ_pos count)
    rw [littleEndian, littleEndian, first, ih]
    intro k below
    rw [Nat.add_right_comm, Nat.add_right_comm offset']
    exact same (k + 1) (by omega)

end

theorem toNat_or_byte {w : Nat} (low : BitVec w) (byte : BitVec 8) (k : Nat) (below : low.toNat < 2 ^ k)
    (room : k + 8 ≤ w) : (low ||| byte.setWidth w <<< k).toNat = low.toNat + 2 ^ k * byte.toNat := by
  have small := byte.isLt
  have fits : byte.toNat * 2 ^ k < 2 ^ w := by
    calc
      _ < 2 ^ 8 * 2 ^ k := Nat.mul_lt_mul_of_pos_right small (Nat.pow_pos (by decide))
      _ = 2 ^ (k + 8) := by rw [← pow_add, Nat.add_comm]
      _ ≤ _ := Nat.pow_le_pow_right (by decide) room
  have shifted : (byte.setWidth w <<< k).toNat = byte.toNat <<< k := by
    rw [BitVec.toNat_shiftLeft, BitVec.toNat_setWidth_of_le (by omega), Nat.shiftLeft_eq]
    exact Nat.mod_eq_of_lt fits
  rw [BitVec.toNat_or, shifted, Nat.or_comm, ← Nat.shiftLeft_add_eq_or_of_lt below, Nat.shiftLeft_eq]
  ring

theorem toNat_add_shift {w : Nat} (base part : BitVec w) (k : Nat)
    (small : base.toNat + part.toNat * 2 ^ k < 2 ^ w) :
    (base + (part <<< k)).toNat = base.toNat + part.toNat * 2 ^ k := by
  have shifted : (part <<< k).toNat = part.toNat * 2 ^ k := by
    rw [BitVec.toNat_shiftLeft, Nat.shiftLeft_eq]
    apply Nat.mod_eq_of_lt
    omega
  rw [BitVec.toNat_add, shifted]
  exact Nat.mod_eq_of_lt small

end Bytes

end Ketone.Library
