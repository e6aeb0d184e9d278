import Ketone.Library.Ram

/-! The walk of a 64-bit processor from its root table to the page of an address. A table of level 3 is the root,
one of level 0 has pages of 4 KiB. -/

namespace Ketone.Library.PageWalk
open Bytes Ram

abbrev Entry := BitVec 64

def pageBits (level : Nat) : Nat := 12 + 9 * level

namespace Entry
variable (entry : Entry)

def present : Bool := entry.getLsbD 0
def writable : Bool := entry.getLsbD 1
def large : Bool := entry.getLsbD 7

def base (k : Nat) : BitVec 64 := (entry.extractLsb' k (52 - k)).setWidth 64 <<< k

/-- Between the attribute of the memory type and the address of a large page no bit may be set. -/
def reserved (level : Nat) : Bool := entry.extractLsb' 13 (pageBits level - 13) ≠ 0

end Entry

def entryAt (memory : Memory) (table va : BitVec 64) (level : Nat) : Entry :=
  loadWord 64 memory (table + (va.extractLsb' (pageBits level) 9).setWidth 64 <<< 3)

structure Mapping where
  physical : BitVec 64
  bits : Nat
  writable : Bool
deriving DecidableEq

def page (entry : Entry) (va : BitVec 64) (bits : Nat) (writable : Bool) : Mapping :=
  ⟨entry.base bits + (va.extractLsb' 0 bits).setWidth 64, bits, writable⟩

/-- A page may be written to if every entry on the way says so. -/
def walk (memory : Memory) (va : BitVec 64) : Nat → BitVec 64 → Bool → Option Mapping
  | 0, table, writable =>
      let entry := entryAt memory table va 0
      if entry.present then some (page entry va 12 (writable && entry.writable)) else none
  | level + 1, table, writable =>
      let entry := entryAt memory table va (level + 1)
      if !entry.present then none
      else if entry.large then
        -- the root has no pages of its own
        if level + 1 = 3 || entry.reserved (level + 1) then none
        else some (page entry va (pageBits (level + 1)) (writable && entry.writable))
      else walk memory va level (entry.base 12) (writable && entry.writable)

def translate (memory : Memory) (root va : BitVec 64) : Option Mapping := walk memory va 3 (Entry.base root 12) true

section
variable {memory : Memory} {table va : BitVec 64} {level : Nat} {writable : Bool} {entry : Entry}

theorem walk_table (found : entryAt memory table va (level + 1) = entry) (there : entry.present = true)
    (points : entry.large = false) :
    walk memory va (level + 1) table writable = walk memory va level (entry.base 12) (writable && entry.writable) := by
  simp only [walk, found, there, points, Bool.not_true, Bool.false_eq_true, if_false]

theorem walk_page (found : entryAt memory table va (level + 1) = entry) (there : entry.present = true)
    (large : entry.large = true) (inner : level + 1 ≠ 3) (clear : entry.reserved (level + 1) = false) :
    walk memory va (level + 1) table writable =
      some (page entry va (pageBits (level + 1)) (writable && entry.writable)) := by
  simp only [walk, found, there, large, inner, clear, Bool.not_true, Bool.false_eq_true, if_false, if_true,
    decide_false, Bool.or_false]

theorem bit_eq (entry : Entry) (i : Nat) : entry.getLsbD i = decide (entry.toNat / 2 ^ i % 2 = 1) := by
  rw [← BitVec.testBit_toNat, Nat.testBit_eq_decide_div_mod_eq]

theorem reserved_eq_false (clear : entry.toNat / 2 ^ 13 % 2 ^ (pageBits level - 13) = 0) : entry.reserved level = false := by
  apply decide_eq_false
  rw [not_not, ← BitVec.toNat_inj, BitVec.extractLsb'_toNat, Nat.shiftRight_eq_div_pow, clear]
  rfl

theorem toNat_index (va : BitVec 64) (level : Nat) :
    (va.extractLsb' (pageBits level) 9).toNat = va.toNat / 2 ^ pageBits level % 512 := by
  rw [BitVec.extractLsb'_toNat, Nat.shiftRight_eq_div_pow]

theorem toNat_base (entry : Entry) {k : Nat} (low : k ≤ 52) :
    (entry.base k).toNat = entry.toNat / 2 ^ k % 2 ^ (52 - k) * 2 ^ k := by
  have part : entry.toNat / 2 ^ k % 2 ^ (52 - k) < 2 ^ (52 - k) := Nat.mod_lt _ (Nat.pow_pos (by decide))
  have fits : entry.toNat / 2 ^ k % 2 ^ (52 - k) * 2 ^ k < 2 ^ 52 := by
    calc
      _ < 2 ^ (52 - k) * 2 ^ k := Nat.mul_lt_mul_of_pos_right part (Nat.pow_pos (by decide))
      _ = 2 ^ 52 := by rw [← pow_add, Nat.sub_add_cancel low]
  have wide : 52 - k ≤ 64 := by omega
  rw [Entry.base, BitVec.toNat_shiftLeft, BitVec.toNat_setWidth_of_le wide, BitVec.extractLsb'_toNat,
    Nat.shiftRight_eq_div_pow, Nat.shiftLeft_eq]
  exact Nat.mod_eq_of_lt (fits.trans (by decide))

theorem entryAt_eq (memory : Memory) {start index : Nat} (place : table.toNat = start)
    (same : va.toNat / 2 ^ pageBits level % 512 = index) :
    entryAt memory table va level = loadWord 64 memory (BitVec.ofNat 64 (start + 8 * index)) := by
  have offset : (va.extractLsb' (pageBits level) 9).setWidth 64 <<< 3 = BitVec.ofNat 64 (8 * index) := by
    have below : index < 512 := same ▸ Nat.mod_lt _ (by decide)
    apply BitVec.eq_of_toNat_eq
    rw [BitVec.toNat_shiftLeft, BitVec.toNat_setWidth_of_le (by decide), toNat_index, same, Nat.shiftLeft_eq,
      BitVec.toNat_ofNat, Nat.mul_comm]
  have start' : table = BitVec.ofNat 64 start := by
    rw [← place, BitVec.ofNat_toNat, BitVec.setWidth_eq]
  rw [entryAt, offset, start', ← BitVec.ofNat_add]

theorem page_identity {bits : Nat} (low : bits ≤ 52)
    (same : entry.toNat / 2 ^ bits % 2 ^ (52 - bits) = va.toNat / 2 ^ bits) :
    (page entry va bits writable).physical = va := by
  apply BitVec.eq_of_toNat_eq
  have offset : ((va.extractLsb' 0 bits).setWidth 64).toNat = va.toNat % 2 ^ bits := by
    rw [BitVec.toNat_setWidth_of_le (by omega), BitVec.extractLsb'_toNat, Nat.shiftRight_zero]
  have whole : va.toNat / 2 ^ bits * 2 ^ bits + va.toNat % 2 ^ bits = va.toNat := Nat.div_add_mod' _ _
  rw [page, BitVec.toNat_add, toNat_base _ low, offset, same, whole]
  exact Nat.mod_eq_of_lt va.isLt

end

end Ketone.Library.PageWalk
