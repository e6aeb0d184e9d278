import Ketone.MemManager.LiveAreas

/-! The memory that one call of the allocator gives. -/

namespace Ketone.MemManager.GivenMemory
open Library.Ram Allocator BlockRuns AllocBounds FirstFit LiveAreas

/-- The address lies in a block of the table that the call has turned from free to allocated. -/
def Given (heap : Heap) (call : Call) (addr : BitVec 64) : Prop :=
  ∃ k < heap.total, (heap.blocks k).isAllocated = false ∧ (call.heap.blocks k).isAllocated = true ∧
    (⟨heap.blockAddr k, heap.blockBytes.toNat⟩ : Area).Has addr

/-- The bytes of the run that a call hands out, as far as the run lies in the table. -/
def room (heap : Heap) (call : Call) : Nat :=
  match call.run with
  | none => 0
  | some run => (min run.stop heap.total - run.start) * heap.blockBytes.toNat

section
variable {heap : Heap} {size : BitVec 64} {call : Call}

theorem block_has_iff (area : heap.startAddr.toNat + heap.maxSize.toNat ≤ 2 ^ 64) {k : Nat} (inside : k < heap.total)
    (addr : BitVec 64) : (⟨heap.blockAddr k, heap.blockBytes.toNat⟩ : Area).Has addr ↔
      heap.startAddr.toNat + k * heap.blockBytes.toNat ≤ addr.toNat ∧
        addr.toNat < heap.startAddr.toNat + (k + 1) * heap.blockBytes.toNat := by
  have place := blockAddr_straight area inside
  have stop := blockAddr_le area (show k + 1 ≤ heap.total from inside)
  rw [Nat.add_mul, Nat.one_mul] at stop ⊢
  rw [Area.has_iff (by dsimp only; omega), place]
  dsimp only
  omega

theorem room_lt (call : Call) : room heap call < 2 ^ 64 := by
  have word := heap.maxSize.isLt
  have whole := total_mul_le heap
  unfold room
  split
  · decide
  next run _ =>
    have part : (min run.stop heap.total - run.start) * heap.blockBytes.toNat ≤ heap.total * heap.blockBytes.toNat :=
      Nat.mul_le_mul_right _ (by omega)
    omega

/-- What `alloc` gives lies behind the pointer that it returns. -/
theorem given_iff (area : heap.startAddr.toNat + heap.maxSize.toNat ≤ 2 ^ 64) (done : alloc heap size = some call)
    (addr : BitVec 64) : Given heap call addr ↔ (⟨call.ptr, room heap call⟩ : Area).Has addr := by
  rcases alloc_settled done with ⟨touched, rfl⟩ | ⟨start, touched, starts, unused, rfl⟩
  · apply iff_of_false
    · rintro ⟨k, _, free, taken, _⟩
      exact Bool.false_ne_true (free.symm.trans taken)
    · exact Nat.not_lt_zero _
  have positive := blockBytes_pos heap
  generalize heap.needed size = n at unused ⊢
  have marked : ∀ k, ((grant heap start n touched).heap.blocks k).isAllocated = true ∧
      (heap.blocks k).isAllocated = false ↔ start ≤ k ∧ k < start + n := by
    intro k
    by_cases own : start ≤ k ∧ k < start + n
    · refine iff_of_true ⟨?_, unused k own.1 own.2⟩ own
      exact congrArg Allocation.isAllocated (if_pos own)
    · refine iff_of_false (fun both => ?_) own
      have kept : (grant heap start n touched).heap.blocks k = heap.blocks k := if_neg own
      rw [kept] at both
      exact Bool.false_ne_true (both.2.symm.trans both.1)
  have stop := blockAddr_le area (show min (start + n) heap.total ≤ heap.total from Nat.min_le_right ..)
  have place := blockAddr_straight area starts
  have split : min (start + n) heap.total * heap.blockBytes.toNat =
      start * heap.blockBytes.toNat + (min (start + n) heap.total - start) * heap.blockBytes.toNat := by
    rw [← Nat.add_mul, Nat.add_sub_cancel' (by omega)]
  change _ ↔ (⟨heap.blockAddr start, (min (start + n) heap.total - start) * heap.blockBytes.toNat⟩ : Area).Has addr
  rw [Area.has_iff (by dsimp only; omega), place]
  dsimp only
  rw [Nat.add_assoc, ← split]
  constructor
  · rintro ⟨k, inside, free, taken, has⟩
    obtain ⟨low, high⟩ := (marked k).mp ⟨taken, free⟩
    rw [block_has_iff area inside] at has
    have first : start * heap.blockBytes.toNat ≤ k * heap.blockBytes.toNat := Nat.mul_le_mul_right _ low
    have last : (k + 1) * heap.blockBytes.toNat ≤ min (start + n) heap.total * heap.blockBytes.toNat :=
      Nat.mul_le_mul_right _ (by omega)
    omega
  · rintro ⟨low, high⟩
    -- the block that the address lies in
    let k := (addr.toNat - heap.startAddr.toNat) / heap.blockBytes.toNat
    have below : k * heap.blockBytes.toNat ≤ addr.toNat - heap.startAddr.toNat := Nat.div_mul_le_self ..
    have above : addr.toNat - heap.startAddr.toNat < (k + 1) * heap.blockBytes.toNat := by
      rw [Nat.mul_comm]
      exact Nat.lt_mul_div_succ _ positive
    have from_ : start ≤ k := (Nat.le_div_iff_mul_le positive).mpr (by omega)
    have until_ : k < min (start + n) heap.total := (Nat.div_lt_iff_lt_mul positive).mpr (by omega)
    obtain ⟨taken, free⟩ := (marked k).mpr ⟨from_, by omega⟩
    refine ⟨k, by omega, free, taken, (block_has_iff area (by omega) addr).mpr ?_⟩
    omega

theorem given_part_iff (area : heap.startAddr.toNat + heap.maxSize.toNat ≤ 2 ^ 64)
    (done : alloc heap size = some call) {offset : BitVec 64} {count : Nat} (some : 0 < count) :
    (∀ addr, (⟨call.ptr + offset, count⟩ : Area).Has addr → Given heap call addr) ↔
      offset.toNat + count ≤ room heap call := by
  rw [← Area.offset_within_iff call.ptr some (room_lt call)]
  exact forall_congr' fun addr => imp_congr_right fun _ => given_iff area done addr

end

end Ketone.MemManager.GivenMemory
