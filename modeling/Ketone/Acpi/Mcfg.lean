import Ketone.Library.Bytes

/-! The MCFG table as its bytes, counted from the start of its header. -/

namespace Ketone.Acpi.Mcfg
open Library.Bytes

abbrev Table := Nat → BitVec 8

structure McfgEntry where
  baseAddress : BitVec 64
  segmentGroup : BitVec 16
  startBus : BitVec 8
  endBus : BitVec 8
  reserved : BitVec 32
deriving DecidableEq

def entrySize : Nat := 16

/-- The packed record that a pointer at `offset` reads. -/
def entryAt (table : Table) (offset : Nat) : McfgEntry where
  baseAddress := field 64 table offset
  segmentGroup := field 16 table (offset + 8)
  startBus := field 8 table (offset + 10)
  endBus := field 8 table (offset + 11)
  reserved := field 32 table (offset + 12)

def entriesAt (table : Table) (offset count : Nat) : List McfgEntry :=
  (List.range count).map fun i => entryAt table (offset + entrySize * i)

/-- The `length` field of the common table header. -/
def length (table : Table) : BitVec 32 := field 32 table 4

structure Window where
  base : BitVec 64
  stop : BitVec 64
deriving DecidableEq

def McfgEntry.window (entry : McfgEntry) : Window :=
  ⟨entry.baseAddress + (entry.startBus.setWidth 64 <<< 20),
    entry.baseAddress + ((entry.endBus.setWidth 64 + 1) <<< 20)⟩

/-- The eight bytes of an entry behind its base address, read as one word. -/
def McfgEntry.tail (entry : McfgEntry) : BitVec 64 :=
  entry.reserved ++ entry.endBus ++ entry.startBus ++ entry.segmentGroup

section
variable (table : Table)

theorem field_eight (offset : Nat) : field 8 table offset = table offset := by
  apply BitVec.eq_of_toNat_eq
  rw [toNat_field table 8 offset rfl]
  simp [littleEndian]

/-- A word read eight bytes into an entry is the entry's tail. -/
theorem field_tail (offset : Nat) : field 64 table (offset + 8) = (entryAt table offset).tail := by
  apply BitVec.eq_of_toNat_eq
  have split : littleEndian table (offset + 8) 8 = littleEndian table (offset + 8) 2 +
      2 ^ 16 * (littleEndian table (offset + 10) 1 +
        2 ^ 8 * (littleEndian table (offset + 11) 1 + 2 ^ 8 * littleEndian table (offset + 12) 4)) := by
    rw [littleEndian_add table (offset + 8) 2 6, littleEndian_add table (offset + 8 + 2) 1 5,
      littleEndian_add table (offset + 8 + 2 + 1) 1 4]
    norm_num [Nat.add_assoc]
  have segment := (field 16 table (offset + 8)).isLt
  have start := (field 8 table (offset + 10)).isLt
  have last := (field 8 table (offset + 11)).isLt
  rw [toNat_field table 64 _ rfl, split, McfgEntry.tail]
  simp only [entryAt, BitVec.toNat_append, toNat_field table 16 _ rfl, toNat_field table 8 _ rfl,
    toNat_field table 32 _ rfl] at segment start last ⊢
  rw [← Nat.shiftLeft_add_eq_or_of_lt last, ← Nat.shiftLeft_add_eq_or_of_lt start,
    ← Nat.shiftLeft_add_eq_or_of_lt segment]
  simp only [Nat.shiftLeft_eq]
  ring

/-- One byte inside a word is a slice of it. -/
theorem field_byte (offset i : Nat) (inside : i < 8) :
    table (offset + i) = (field 64 table offset).extractLsb' (8 * i) 8 := by
  apply BitVec.eq_of_toNat_eq
  have low := littleEndian_lt table offset i
  have split : littleEndian table offset 8 = littleEndian table offset i +
      256 ^ i * ((table (offset + i)).toNat + 256 * littleEndian table (offset + i + 1) (7 - i)) := by
    conv_lhs => rw [show 8 = i + (7 - i + 1) by omega]
    rw [littleEndian_add, littleEndian]
  have power : 2 ^ (8 * i) = 256 ^ i := by rw [pow_mul]; norm_num
  have byte := (table (offset + i)).isLt
  rw [BitVec.extractLsb'_toNat, toNat_field table 64 _ rfl, Nat.shiftRight_eq_div_pow, power]
  rw [show 64 / 8 = 8 by decide, split, Nat.add_mul_div_left _ _ (Nat.pow_pos (by decide)), Nat.div_eq_of_lt low]
  omega

end

end Ketone.Acpi.Mcfg
