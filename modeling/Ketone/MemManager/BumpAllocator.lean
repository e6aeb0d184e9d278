import Ketone.Library.Align

/-! The bump heap over the hole that the memory map leaves below 4 GiB. -/

namespace Ketone.MemManager.BumpAllocator
open Library.Align

structure BumpHeap where
  start : BitVec 64
  next : BitVec 64
  size : BitVec 64
deriving DecidableEq

structure BumpCall where
  ptr : BitVec 64
  heap : BumpHeap
deriving DecidableEq

def bumpAllocAligned (heap : BumpHeap) (size align : BitVec 64) : BumpCall :=
  if size = 0 then ⟨0, heap⟩
  else
    let align := orOne align
    if align &&& (align - 1) ≠ 0 then ⟨0, heap⟩
    else
      let stop := heap.start + heap.size
      let addr := (heap.next + align - 1) &&& ~~~(align - 1)
      if addr > stop ∨ size > stop - addr then ⟨0, heap⟩
      else ⟨addr, { heap with next := addr + size }⟩

def bumpAlloc (heap : BumpHeap) (size : BitVec 64) : BumpCall := bumpAllocAligned heap size 1

/-- The heap's area lies below 4 GiB and `next` inside it. -/
structure BumpHeap.Within (heap : BumpHeap) : Prop where
  area : heap.start.toNat + heap.size.toNat ≤ 2 ^ 32
  low : heap.start ≤ heap.next
  high : heap.next.toNat ≤ heap.start.toNat + heap.size.toNat

def BumpHeap.stop (heap : BumpHeap) : Nat := heap.start.toNat + heap.size.toNat

theorem toNat_mask_up_small {k : Nat} {align next : BitVec 64} (power : align.toNat = 2 ^ k)
    (small : next.toNat ≤ 2 ^ 32) :
    ((next + align - 1) &&& ~~~(align - 1)).toNat = roundUp (2 ^ k) next.toNat := by
  have near := roundUp_lt (n := next.toNat) (Nat.two_pow_pos k)
  have width := power_le power
  rw [toNat_mask_up power, Nat.mod_eq_of_lt (by omega)]

/-- Everything a call can do: it takes the first aligned range behind `next`, or it
leaves the heap alone because the request is not one or there is no room. -/
theorem bumpAllocAligned_cases {heap : BumpHeap} (within : heap.Within) (size align : BitVec 64) :
    (bumpAllocAligned heap size align = ⟨0, heap⟩ ∧
      (size = 0 ∨ (¬ ∃ k, (orOne align).toNat = 2 ^ k) ∨
        heap.stop < roundUp (orOne align).toNat heap.next.toNat + size.toNat)) ∨
    ∃ k addr, (orOne align).toNat = 2 ^ k ∧ size ≠ 0 ∧
      addr.toNat = roundUp (2 ^ k) heap.next.toNat ∧ addr.toNat + size.toNat ≤ heap.stop ∧
      bumpAllocAligned heap size align = ⟨addr, { heap with next := addr + size }⟩ := by
  have area := within.area
  have high := within.high
  unfold bumpAllocAligned BumpHeap.stop
  by_cases zero : size = 0
  · exact Or.inl ⟨if_pos zero, Or.inl zero⟩
  rw [if_neg zero]
  dsimp only
  by_cases test : orOne align &&& (orOne align - 1) = 0
  · obtain ⟨k, power⟩ := power_of_orOne (by decide) test
    have addr := toNat_mask_up_small power (show heap.next.toNat ≤ 2 ^ 32 by omega)
    have stop : (heap.start + heap.size).toNat = heap.start.toNat + heap.size.toNat := by
      rw [BitVec.toNat_add, Nat.mod_eq_of_lt (by omega)]
    rw [if_neg (not_not.mpr test)]
    by_cases room : roundUp (2 ^ k) heap.next.toNat + size.toNat ≤ heap.start.toNat + heap.size.toNat
    · refine Or.inr ⟨k, _, power, zero, addr, by omega, if_neg ?_⟩
      rw [not_or, gt_iff_lt, gt_iff_lt, BitVec.lt_def, BitVec.lt_def, addr, stop,
        BitVec.toNat_sub_of_le (by rw [BitVec.le_def, addr, stop]; omega), addr, stop]
      omega
    · refine Or.inl ⟨if_pos ?_, Or.inr (Or.inr (by rw [power]; omega))⟩
      by_cases past : heap.start.toNat + heap.size.toNat < roundUp (2 ^ k) heap.next.toNat
      · left
        rw [gt_iff_lt, BitVec.lt_def, addr, stop]
        exact past
      · right
        rw [gt_iff_lt, BitVec.lt_def,
          BitVec.toNat_sub_of_le (by rw [BitVec.le_def, addr, stop]; omega), addr, stop]
        omega
  · refine Or.inl ⟨if_pos test, Or.inr (Or.inl ?_)⟩
    rintro ⟨k, power⟩
    exact test ((and_pred_eq_zero _ (ne_zero_of_power power)).mpr ⟨k, power⟩)

theorem toNat_next {heap : BumpHeap} (within : heap.Within) {addr size : BitVec 64}
    (room : addr.toNat + size.toNat ≤ heap.stop) : (addr + size).toNat = addr.toNat + size.toNat := by
  have area := within.area
  unfold BumpHeap.stop at room
  rw [BitVec.toNat_add, Nat.mod_eq_of_lt (by omega)]

/-- A call keeps the heap's area and moves `next` forward inside it. -/
theorem within_bump {heap : BumpHeap} (within : heap.Within) (size align : BitVec 64) :
    let after := (bumpAllocAligned heap size align).heap
    after.Within ∧ after.start = heap.start ∧ after.size = heap.size ∧ heap.next ≤ after.next := by
  have area := within.area
  have low := within.low
  rcases bumpAllocAligned_cases within size align with ⟨same, _⟩ | ⟨k, addr, _, _, place, room, same⟩
  · rw [same]
    exact ⟨within, rfl, rfl, BitVec.le_refl _⟩
  · have up := le_roundUp (n := heap.next.toNat) (Nat.two_pow_pos k)
    have next := toNat_next within room
    unfold BumpHeap.stop at room
    rw [BitVec.le_def] at low
    rw [same]
    refine ⟨⟨area, ?_, ?_⟩, rfl, rfl, ?_⟩
    · rw [BitVec.le_def]
      dsimp only
      omega
    · dsimp only
      omega
    · rw [BitVec.le_def]
      dsimp only
      omega

end Ketone.MemManager.BumpAllocator
