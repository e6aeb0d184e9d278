import Ketone.MemManager.FirstFit
import Ketone.MemManager.Layout
import Ketone.MemManager.RegionSearch

/-! The low heap. It is squeezed into a region below 4 GiB, so that the addresses it hands out
fit the 32 bits that a device takes. -/

namespace Ketone.MemManager.LowHeap
open Library Library.Align Library.Gap Allocator BlockRuns AllocBounds FirstFit E820 MmioHole Manager Layout
  RegionSearch

/-- A low heap as its set-up makes it: small blocks that lie below 4 GiB. -/
structure BelowLimit (heap : Heap) : Prop where
  blocks : heap.blockSize = 512
  start : 0 < heap.startAddr.toNat
  stop : heap.startAddr.toNat + heap.maxSize.toNat ≤ 2 ^ 32

/-- The states of the low heap over all finite runs of its three calls, in which no `low_kalloc` leaves the
table. `low_kfree` may be given any pointer, and the memory behind the table belongs to others. -/
inductive LowRun (first : Heap) : Heap → Prop where
  | initial : LowRun first first
  | lowKallocAligned {heap : Heap} {size align : BitVec 64} {call : Call} :
      LowRun first heap → allocAligned heap size align = some call → LowRun first call.heap
  | lowKalloc {heap : Heap} {size : BitVec 64} {call : Call} :
      LowRun first heap → alloc heap size = some call → EndsInside heap call → LowRun first call.heap
  | lowKfree {heap : Heap} (ptr : BitVec 64) : LowRun first heap → LowRun first (free heap ptr)
  | outside {heap : Heap} {blocks : Nat → Allocation} :
      LowRun first heap → (∀ k, k < heap.total → blocks k = heap.blocks k) →
      LowRun first { heap with blocks := blocks }

section
variable {lowHeapSize : BitVec 64} {behind : Nat → Allocation}

theorem toNat_lowBlocks (enough : 32 + 0xFFF ≤ lowHeapSize.toNat) :
    (lowBlocks lowHeapSize).toNat = (lowHeapSize.toNat - 4127) / 524 := by
  have left : lowHeapSize - sizeofHeap - 0xFFF = lowHeapSize - 4127 := by
    rw [BitVec.sub_sub]
    rfl
  rw [lowBlocks, left, BitVec.toNat_udiv, BitVec.toNat_sub_of_le (by rw [BitVec.le_def]; exact enough)]
  rfl

theorem low_mapped {map : E820Map} {region : Region}
    (enough : 32 + 0xFFF ≤ lowHeapSize.toNat)
    (found : e820FindRegion map E820_USABLE lowHeapSize 0 UINT32_MAX 0x1000 = some region) :
    Mapped region.base (lowBlocks lowHeapSize) := by
  obtain ⟨e, _, reported⟩ := @e820FindRegion_reported _ _ _ _ _ _ 12 rfl _ found
  obtain ⟨_, _, room, bound⟩ := reported.bounded
  have limit : UINT32_MAX.toNat = 2 ^ 32 - 1 := rfl
  have mapped : MAPPED_LIMIT.toNat = 2 ^ 32 := rfl
  have count := toNat_lowBlocks enough
  unfold Mapped
  omega

/-- Record, table and data of the low heap follow each other within the size that was asked for. -/
theorem low_layout {region : Region} (behind : Nat → Allocation) (enough : 32 + 0xFFF ≤ lowHeapSize.toNat)
    (mapped : Mapped region.base (lowBlocks lowHeapSize)) :
    let low := lowHeap region lowHeapSize behind
    low.heap.total = (lowBlocks lowHeapSize).toNat ∧
      low.header.toNat + 32 + 12 * low.heap.total ≤ low.heap.startAddr.toNat ∧
      low.heap.startAddr.toNat + low.heap.maxSize.toNat ≤ region.base.toNat + lowHeapSize.toNat := by
  have start : (lowHeap region lowHeapSize behind).heap.startAddr.toNat = _ :=
    toNat_placed (lowBlocks lowHeapSize * 512) behind mapped
  have near := roundUp_lt (m := 4096) (n := region.base.toNat + 32 + 12 * (lowBlocks lowHeapSize).toNat)
    (by decide)
  have up := le_roundUp (m := 4096) (n := region.base.toNat + 32 + 12 * (lowBlocks lowHeapSize).toNat)
    (by decide)
  have word := lowHeapSize.isLt
  have count := toNat_lowBlocks enough
  have bytes : (lowHeap region lowHeapSize behind).heap.maxSize.toNat = (lowBlocks lowHeapSize).toNat * 512 := by
    change (lowBlocks lowHeapSize * 512).toNat = _
    rw [BitVec.toNat_mul]
    change _ * 512 % 2 ^ 64 = _
    omega
  have total : (lowHeap region lowHeapSize behind).heap.total = (lowBlocks lowHeapSize).toNat := by
    rw [total_eq, bytes]
    exact Nat.mul_div_cancel _ (by decide)
  have header : (lowHeap region lowHeapSize behind).header.toNat = region.base.toNat := rfl
  dsimp only
  rw [total, start, bytes, header]
  exact ⟨rfl, by omega, by omega⟩

theorem low_inside {region : Region} (behind : Nat → Allocation) (enough : 32 + 0xFFF ≤ lowHeapSize.toNat)
    (room : lowHeapSize.toNat ≤ region.size.toNat)
    (mapped : Mapped region.base (lowBlocks lowHeapSize)) {area : Span}
    (member : area ∈ (lowHeap region lowHeapSize behind).areas) :
    region.base.toNat ≤ area.lo ∧ area.hi ≤ region.base.toNat + region.size.toNat := by
  obtain ⟨_, table, data⟩ := low_layout behind enough mapped
  have header : (lowHeap region lowHeapSize behind).header.toNat = region.base.toNat := rfl
  simp only [PlacedHeap.areas, List.mem_cons, List.not_mem_nil, or_false] at member
  rcases member with rfl | rfl
  · dsimp only
    omega
  · dsimp only
    omega

/-- Record, table, padding and data fit the size that was asked for, below 4 GiB. -/
theorem lowHeapInit_below {map : E820Map} {low : PlacedHeap} (enough : 32 + 0xFFF ≤ lowHeapSize.toNat)
    (done : lowHeapInit map lowHeapSize behind = .ok (some low)) : BelowLimit low.heap := by
  obtain ⟨region, found, mapped, rfl⟩ := lowHeapInit_ok done
  obtain ⟨e, _, reported⟩ := @e820FindRegion_reported _ _ _ _ _ _ 12 rfl _ found
  obtain ⟨_, _, room, bound⟩ := reported.bounded
  have limit : UINT32_MAX.toNat = 2 ^ 32 - 1 := rfl
  have data := low_inside behind enough room mapped (List.mem_cons_of_mem _ (List.mem_singleton.mpr rfl))
  have place := toNat_placed (lowBlocks lowHeapSize * 512) behind mapped
  have up := le_roundUp (m := 4096) (n := region.base.toNat + 32 + 12 * (lowBlocks lowHeapSize).toNat) (by decide)
  have start : (lowHeap region lowHeapSize behind).heap.startAddr.toNat = _ := place
  dsimp only at data
  constructor
  · rfl
  · omega
  · omega

end

section
variable {first heap : Heap} {size align : BitVec 64} {call : Call}

theorem BelowLimit.total_le (below : BelowLimit heap) : heap.total ≤ 2 ^ 32 := by
  have positive := blockBytes_pos heap
  have count : heap.total ≤ heap.total * heap.blockBytes.toNat := Nat.le_mul_of_pos_right _ positive
  have whole := total_mul_le heap
  have stop := below.stop
  omega

theorem BelowLimit.blockBytes (below : BelowLimit heap) : heap.blockBytes.toNat = 512 := by
  rw [toNat_blockBytes, below.blocks]
  rfl

theorem BelowLimit.same (below : BelowLimit first) (same : SameRecord first heap) : BelowLimit heap := by
  obtain ⟨blocks, start, size⟩ := same
  constructor
  · rw [blocks]
    exact below.blocks
  · rw [start]
    exact below.start
  · rw [start, size]
    exact below.stop

theorem lowRun_record (below : BelowLimit first) (run : LowRun first heap) : SameRecord first heap := by
  induction run with
  | initial => exact ⟨rfl, rfl, rfl⟩
  | lowKallocAligned _ done ih =>
    have bound := (below.same ih).total_le
    exact SameRecord.trans ih (settled_record (allocAligned_settled (by omega) done))
  | lowKalloc _ done _ ih => exact SameRecord.trans ih (settled_record (alloc_settled done))
  | lowKfree ptr _ ih =>
    unfold Allocator.free
    split
    · exact ih
    · exact SameRecord.trans ih ⟨rfl, rfl, rfl⟩
  | outside _ _ ih => exact SameRecord.trans ih ⟨rfl, rfl, rfl⟩

/-- What `low_kalloc_aligned` returns is aligned, and lies below 4 GiB with all its bytes exactly if the
rounding sum does not wrap. -/
theorem aligned_below (below : BelowLimit heap) (power : ∃ k, align.toNat = 2 ^ k)
    (done : allocAligned heap size align = some call) (nonnull : call.ptr ≠ 0) :
    align.toNat ∣ call.ptr.toNat ∧ (call.ptr.toNat + size.toNat ≤ 2 ^ 32 ↔ size.toNat + 511 < 2 ^ 64) := by
  have few := below.total_le
  have bytes := below.blockBytes
  have stop := below.stop
  obtain ⟨k, power⟩ := power
  have same : orOne align = align := if_neg (ne_zero_of_power power)
  rcases allocAligned_placed (by omega) done with ⟨_, rfl⟩ | ⟨start, touched, ⟨inside, aligned⟩, _, rfl⟩
  · exact (nonnull rfl).elim
  rw [same] at aligned
  refine ⟨aligned, ?_⟩
  have whole := total_mul_le heap
  have part : (start + heap.needed size) * heap.blockBytes.toNat ≤ heap.total * heap.blockBytes.toNat :=
    Nat.mul_le_mul_right _ inside
  rw [Nat.add_mul] at part
  have addr : (heap.blockAddr start).toNat = heap.startAddr.toNat + start * heap.blockBytes.toNat := by
    rw [toNat_blockAddr (by omega), Nat.mod_eq_of_lt (by omega)]
  change (heap.blockAddr start).toNat + _ ≤ _ ↔ _
  rw [addr]
  constructor
  · intro short
    omega
  · intro noWrap
    have enough := size_le_granted (show heap.NoWrap size from show _ + _ ≤ _ by omega)
    omega

end

end Ketone.MemManager.LowHeap
