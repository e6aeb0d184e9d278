import Ketone.Library.Ram

/-! Values that memory keeps in cells of a fixed width: words, records of cells, and tables of cells. -/

namespace Ketone.Library.Cells
open Bytes Ram

/-- How a value is kept in `width` bytes. -/
structure Cell (α : Type) where
  width : Nat
  load : Memory → BitVec 64 → α
  store : Memory → BitVec 64 → α → Memory
  narrow : width ≤ 2 ^ 64
  load_store : ∀ memory addr value, load (store memory addr value) addr = value
  store_other : ∀ memory addr value other, ¬ (⟨addr, width⟩ : Area).Has other → store memory addr value other = memory other
  load_copy : ∀ memory after addr place, (∀ k < width, after (place + BitVec.ofNat 64 k) = memory (addr + BitVec.ofNat 64 k)) →
    load after place = load memory addr

namespace Cell
variable {α β : Type}

def area (cell : Cell α) (addr : BitVec 64) : Area := ⟨addr, cell.width⟩

theorem load_same (cell : Cell α) (memory after : Memory) (addr : BitVec 64) (same : (cell.area addr).Same memory after) :
    cell.load after addr = cell.load memory addr :=
  cell.load_copy _ _ _ _ fun _ below => same _ (Area.has_offset (cell.area addr) below cell.narrow)

theorem store_same (cell : Cell α) {memory : Memory} {addr : BitVec 64} {value : α} {area : Area}
    (apart : Area.Apart area (cell.area addr)) : area.Same memory (cell.store memory addr value) :=
  fun other has => cell.store_other memory addr value other (apart other has)

theorem load_other (cell : Cell α) (stored : Cell β) {memory : Memory} {addr place : BitVec 64} {value : β}
    (apart : Area.Apart (cell.area addr) (stored.area place)) :
    cell.load (stored.store memory place value) addr = cell.load memory addr :=
  cell.load_same _ _ _ (stored.store_same apart)

def word (w : Nat) (whole : 8 * (w / 8) = w) (small : w / 8 ≤ 2 ^ 64) : Cell (BitVec w) where
  width := w / 8
  load := loadWord w
  store := storeWord
  narrow := small
  load_store := fun memory addr value => loadWord_store memory whole small addr value
  store_other := fun memory _ value _ outside => storeWord_other memory small value outside
  load_copy := by
    intro memory after addr place same
    unfold loadWord field
    congr 1
    apply littleEndian_congr
    intro k below
    rw [Nat.zero_add]
    exact same k below

/-- A truth value in one byte, of which every number but zero is true. -/
def flag : Cell Bool where
  width := 1
  load memory addr := decide (memory addr ≠ 0)
  store memory addr value := Ram.store memory addr (if value then 1 else 0)
  narrow := by decide
  load_store := by
    intro memory addr value
    rw [Ram.store, if_pos rfl]
    cases value <;> decide
  store_other := by
    intro memory addr value other outside
    apply if_neg
    rintro rfl
    exact outside (show (other - other).toNat < 1 by rw [BitVec.sub_self]; decide)
  load_copy := by
    intro memory after addr place same
    have byte := same 0 (by decide)
    rw [BitVec.add_zero, BitVec.add_zero] at byte
    rw [byte]

/-- Two cells, the second one `offset` bytes behind the start of the first. -/
def beside (first : Cell α) (offset : Nat) (second : Cell β) (behind : first.width ≤ offset)
    (small : offset + second.width ≤ 2 ^ 64) : Cell (α × β) where
  width := offset + second.width
  load memory addr := (first.load memory addr, second.load memory (addr + BitVec.ofNat 64 offset))
  store memory addr value := second.store (first.store memory addr value.1) (addr + BitVec.ofNat 64 offset) value.2
  narrow := small
  load_store := by
    intro memory addr value
    have apart := @Area.parts_apart addr 0 offset first.width second.width (by omega) small
    rw [BitVec.add_zero] at apart
    rw [first.load_other second apart, first.load_store, second.load_store]
  store_other := by
    intro memory addr value other outside
    have within := @Area.part_within ⟨addr, offset + second.width⟩ offset second.width le_rfl small
    rw [second.store_other _ _ _ _ fun has => outside (within other has)]
    apply first.store_other
    intro has
    exact outside (show _ < _ from lt_of_lt_of_le has (by dsimp only; omega))
  load_copy := by
    intro memory after addr place same
    have back : ∀ k < second.width, after (place + BitVec.ofNat 64 offset + BitVec.ofNat 64 k) =
        memory (addr + BitVec.ofNat 64 offset + BitVec.ofNat 64 k) := by
      intro k below
      rw [BitVec.add_assoc, BitVec.add_assoc, ← BitVec.ofNat_add]
      exact same (offset + k) (by omega)
    rw [first.load_copy memory after addr place fun k below => same k (by omega), second.load_copy _ _ _ _ back]

/-- Two cells without a gap, as the fields of a packed structure lie. -/
def followedBy (first : Cell α) (second : Cell β) (small : first.width + second.width ≤ 2 ^ 64) : Cell (α × β) :=
  first.beside first.width second le_rfl small

def as (cell : Cell α) (shape : α ≃ β) : Cell β where
  width := cell.width
  load memory addr := shape (cell.load memory addr)
  store memory addr value := cell.store memory addr (shape.symm value)
  narrow := cell.narrow
  load_store := by
    intro memory addr value
    rw [cell.load_store, shape.apply_symm_apply]
  store_other := fun memory addr value other => cell.store_other memory addr (shape.symm value) other
  load_copy := by
    intro memory after addr place same
    rw [cell.load_copy memory after addr place same]

def entryAddr (cell : Cell α) (table : BitVec 64) (k : Nat) : BitVec 64 := table + BitVec.ofNat 64 (cell.width * k)

/-- One value stored to `count` entries of a table, from the entry `start` on. -/
def storeRun (cell : Cell α) (memory : Memory) (table : BitVec 64) (start count : Nat) (value : α) : Memory :=
  (List.range' start count).foldl (fun memory k => cell.store memory (cell.entryAddr table k) value) memory

section
variable {cell : Cell α} {memory after : Memory} {table : BitVec 64} {start count k : Nat} {value : α}

theorem entries_apart {other : Nat} (different : k ≠ other) (below : cell.width * (k + 1) ≤ 2 ^ 64)
    (below' : cell.width * (other + 1) ≤ 2 ^ 64) :
    Area.Apart (cell.area (cell.entryAddr table k)) (cell.area (cell.entryAddr table other)) := by
  rw [Nat.mul_succ] at below below'
  rcases Nat.lt_or_gt_of_ne different with before | behind
  · have step : cell.width * (k + 1) ≤ cell.width * other := Nat.mul_le_mul_left _ before
    exact Area.parts_apart (by rw [Nat.mul_succ] at step; exact step) below'
  · have step : cell.width * (other + 1) ≤ cell.width * k := Nat.mul_le_mul_left _ behind
    exact (Area.parts_apart (by rw [Nat.mul_succ] at step; exact step) below).symm

theorem entry_within {total : Nat} (inside : k < total) (small : cell.width * total ≤ 2 ^ 64) :
    Area.Within (cell.area (cell.entryAddr table k)) ⟨table, cell.width * total⟩ := by
  have step : cell.width * (k + 1) ≤ cell.width * total := Nat.mul_le_mul_left _ inside
  rw [Nat.mul_succ] at step
  exact @Area.part_within ⟨table, cell.width * total⟩ (cell.width * k) cell.width step small

theorem storeRun_succ : cell.storeRun memory table start (count + 1) value =
    cell.storeRun (cell.store memory (cell.entryAddr table start) value) table (start + 1) count value := by
  rw [storeRun, List.range'_succ, List.foldl_cons]
  rfl

/-- The entries of the run hold the value, the others what they held. -/
theorem load_storeRun (small : cell.width * (start + count) ≤ 2 ^ 64) (below : cell.width * (k + 1) ≤ 2 ^ 64) :
    cell.load (cell.storeRun memory table start count value) (cell.entryAddr table k) =
      if start ≤ k ∧ k < start + count then value else cell.load memory (cell.entryAddr table k) := by
  induction count generalizing memory start with
  | zero => exact (if_neg (by omega)).symm
  | succ count ih =>
    have first : cell.width * (start + 1) ≤ 2 ^ 64 :=
      le_trans (Nat.mul_le_mul_left _ (by omega)) small
    rw [storeRun_succ, ih (by rw [show start + 1 + count = start + (count + 1) by omega]; exact small)]
    by_cases here : k = start
    · rw [here, if_neg (by omega), if_pos (by omega), cell.load_store]
    · rw [cell.load_other cell (entries_apart here below first)]
      by_cases inside : start + 1 ≤ k ∧ k < start + 1 + count
      · rw [if_pos inside, if_pos (by omega)]
      · rw [if_neg inside, if_neg (by omega)]

theorem storeRun_same {area : Area} {total : Nat} (inside : start + count ≤ total)
    (small : cell.width * total ≤ 2 ^ 64) (apart : Area.Apart area ⟨table, cell.width * total⟩) :
    area.Same memory (cell.storeRun memory table start count value) := by
  induction count generalizing memory start with
  | zero => exact Area.Same.refl area memory
  | succ count ih =>
    have first : start < total := by omega
    rw [storeRun_succ]
    exact (cell.store_same (apart.mono (Area.Within.refl area) (entry_within first small))).trans (ih (by omega))

end

end Cell

end Ketone.Library.Cells
