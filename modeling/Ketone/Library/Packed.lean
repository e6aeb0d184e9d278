import Ketone.Library.Ram

/-! Records of words that are packed without gaps: reading a record that was written, and writing a record
that was read. -/

namespace Ketone.Library.Packed
open Bytes Ram

inductive Words : List Nat → Type where
  | nil : Words []
  | cons {count : Nat} {counts : List Nat} (word : BitVec (8 * count)) (rest : Words counts) : Words (count :: counts)

def Words.bytes {counts : List Nat} : Words counts → List (BitVec 8)
  | .nil => []
  | .cons word rest => wordBytes word ++ rest.bytes

def readWords : (counts : List Nat) → (Nat → BitVec 8) → Nat → Words counts
  | [], _, _ => .nil
  | count :: counts, buffer, offset =>
      .cons (field (8 * count) buffer offset) (readWords counts buffer (offset + count))

section
variable {counts : List Nat} {buffer : Nat → BitVec 8} {offset : Nat}

theorem length_wordBytes_whole {count : Nat} (word : BitVec (8 * count)) : (wordBytes word).length = count := by
  rw [length_wordBytes, Nat.mul_div_cancel_left count (by decide)]

theorem Words.length_bytes (words : Words counts) : words.bytes.length = counts.sum := by
  induction words with
  | nil => rfl
  | cons word rest ih => rw [bytes, List.length_append, length_wordBytes_whole, ih, List.sum_cons]

theorem field_byte (buffer : Nat → BitVec 8) (offset : Nat) : field 8 buffer offset = buffer offset := by
  apply BitVec.eq_of_toNat_eq
  rw [toNat_field buffer 8 offset rfl]
  simp [littleEndian]

/-- A word is read from its bytes. -/
theorem field_wordBytes {count : Nat} (word : BitVec (8 * count))
    (here : ∀ p < count, buffer (offset + p) = (wordBytes word).getD p 0) : field (8 * count) buffer offset = word := by
  have whole : 8 * count / 8 = count := Nat.mul_div_cancel_left count (by decide)
  have bytes : littleEndian buffer offset count = littleEndian (fun k => (word >>> (8 * k)).setWidth 8) 0 count := by
    apply littleEndian_congr
    intro p below
    have inside : p < ((List.range (8 * count / 8)).map fun k => (word >>> (8 * k)).setWidth 8).length := by
      rw [List.length_map, List.length_range, whole]
      exact below
    rw [here p below, wordBytes, List.getD_eq_getElem _ _ inside, List.getElem_map, List.getElem_range, Nat.zero_add]
  have power : 256 ^ count = 2 ^ (8 * count) := by
    rw [show (256 : Nat) = 2 ^ 8 by decide, ← pow_mul]
  apply BitVec.eq_of_toNat_eq
  rw [toNat_field buffer _ offset (by rw [whole]), whole, bytes, littleEndian_word, pow_zero, Nat.div_one, power,
    Nat.mod_eq_of_lt word.isLt]

theorem wordBytes_field (count : Nat) (buffer : Nat → BitVec 8) (offset : Nat) :
    wordBytes (field (8 * count) buffer offset) = (List.range count).map fun p => buffer (offset + p) := by
  have whole : 8 * count / 8 = count := Nat.mul_div_cancel_left count (by decide)
  unfold wordBytes
  rw [whole]
  apply List.map_congr_left
  intro k member
  have below := List.mem_range.mp member
  apply BitVec.eq_of_toNat_eq
  have power : (2 : Nat) ^ (8 * k) = 256 ^ k := by
    rw [show (256 : Nat) = 2 ^ 8 by decide, ← pow_mul]
  obtain ⟨rest, split⟩ : ∃ rest, count = k + (rest + 1) := ⟨count - k - 1, by omega⟩
  have low := littleEndian_lt buffer offset k
  rw [BitVec.toNat_setWidth, BitVec.toNat_ushiftRight, Nat.shiftRight_eq_div_pow, toNat_field _ _ _ (by rw [whole]),
    whole, split, littleEndian_add, littleEndian, power, Nat.add_mul_div_left _ _ (Nat.pow_pos (by decide)),
    Nat.div_eq_of_lt low, Nat.zero_add, Nat.add_mul_mod_self_left]
  exact Nat.mod_eq_of_lt (buffer (offset + k)).isLt

theorem readWords_bytes (words : Words counts)
    (here : ∀ p < counts.sum, buffer (offset + p) = words.bytes.getD p 0) : readWords counts buffer offset = words := by
  induction words generalizing offset with
  | nil => rfl
  | @cons count counts word rest ih =>
    have length := length_wordBytes_whole word
    rw [List.sum_cons] at here
    rw [readWords, field_wordBytes word, ih]
    · intro p below
      rw [Nat.add_assoc, here (count + p) (by omega), Words.bytes, List.getD_append_right _ _ _ _ (by omega), length,
        Nat.add_sub_cancel_left]
    · intro p below
      rw [here p (by omega), Words.bytes, List.getD_append _ _ _ _ (by omega)]

theorem bytes_readWords (counts : List Nat) (buffer : Nat → BitVec 8) (offset : Nat) :
    (readWords counts buffer offset).bytes = (List.range counts.sum).map fun p => buffer (offset + p) := by
  induction counts generalizing offset with
  | nil => rfl
  | cons count counts ih =>
    rw [readWords, Words.bytes, wordBytes_field, ih, List.sum_cons, List.range_add, List.map_append, List.map_map]
    congr 1
    exact List.map_congr_left fun p _ => congrArg buffer (Nat.add_assoc offset count p)

end

section
variable {α : Type} {size : Nat} {bytes : α → List (BitVec 8)}

theorem length_records (whole : ∀ item, (bytes item).length = size) (items : List α) :
    (items.flatMap bytes).length = size * items.length := by
  induction items with
  | nil => rfl
  | cons first rest ih => rw [List.flatMap_cons, List.length_append, whole, ih, List.length_cons, Nat.mul_succ, Nat.add_comm]

theorem getD_records (whole : ∀ item, (bytes item).length = size) (items : List α) {i q : Nat} (below : q < size)
    (here : i < items.length) : (items.flatMap bytes).getD (size * i + q) 0 = (bytes items[i]).getD q 0 := by
  induction items generalizing i with
  | nil => exact absurd here (Nat.not_lt_zero i)
  | cons first rest ih =>
    have length := whole first
    rw [List.flatMap_cons]
    cases i with
    | zero =>
      rw [Nat.mul_zero, Nat.zero_add, List.getD_append _ _ _ _ (by omega)]
      rfl
    | succ i =>
      have behind : size * (i + 1) + q - (bytes first).length = size * i + q := by
        rw [length, Nat.mul_succ]
        omega
      rw [List.getD_append_right _ _ _ _ (by rw [length, Nat.mul_succ]; omega), behind,
        ih (Nat.lt_of_succ_lt_succ here)]
      rfl

end

end Ketone.Library.Packed
