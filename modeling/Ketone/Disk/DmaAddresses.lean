import Ketone.Disk.SataSetUp
import Ketone.MemManager.LowHeap

/-! The addresses that the driver gives to the controller have 32 bits. -/

namespace Ketone.Disk.DmaAddresses
open Library.Ram MemManager.Allocator MemManager.E820 MemManager.Manager MemManager.LowHeap Sata SataSetUp

/-- The size and the alignment of each kind of area that the controller is told of: a command list, a buffer for
received FIS, a command table, and the buffer for a sector. -/
def requests : List (BitVec 64 × BitVec 64) :=
  [(1024, 1024), (256, 256), (BitVec.ofNat 64 sizeofCmdTable, 128), (512, 512)]

/-- The lower half of an address is the address, with its alignment. -/
def Narrows (ptr align : BitVec 64) : Prop :=
  (ptr.setWidth 32).setWidth 64 = ptr ∧ align.toNat ∣ (ptr.setWidth 32).toNat

theorem request_fits {request : BitVec 64 × BitVec 64} (member : request ∈ requests) :
    0 < request.1.toNat ∧ request.1.toNat + 511 < 2 ^ 64 ∧ ∃ k, request.2.toNat = 2 ^ k := by
  simp only [requests, List.mem_cons, List.not_mem_nil, or_false] at member
  rcases member with rfl | rfl | rfl | rfl
  · exact ⟨by decide, by decide, 10, rfl⟩
  · exact ⟨by decide, by decide, 8, rfl⟩
  · exact ⟨by decide, by decide, 7, rfl⟩
  · exact ⟨by decide, by decide, 9, rfl⟩

section
variable {heap : Heap} {call : Call}

theorem request_narrows (request : BitVec 64 × BitVec 64) (below : BelowLimit heap) (member : request ∈ requests)
    (done : allocAligned heap request.1 request.2 = some call) (nonnull : call.ptr ≠ 0) :
    Narrows call.ptr request.2 ∧ ¬ call.ptr > 0xFFFFFFFF := by
  obtain ⟨some, noWrap, power⟩ := request_fits member
  obtain ⟨aligned, inside⟩ := aligned_below below power done nonnull
  have last := inside.mpr noWrap
  have low : (call.ptr.setWidth 32).toNat = call.ptr.toNat := by
    rw [BitVec.toNat_setWidth, Nat.mod_eq_of_lt (by omega)]
  refine ⟨⟨?_, ?_⟩, ?_⟩
  · apply BitVec.eq_of_toNat_eq
    rw [BitVec.toNat_setWidth, low, Nat.mod_eq_of_lt call.ptr.isLt]
  · rw [low]
    exact aligned
  · rw [gt_iff_lt, BitVec.lt_def]
    change ¬ 4294967295 < _
    omega

end

/-- On every low heap that a set-up of memory makes, after every run of its calls: an aligned pointer lies below
4 GiB with all its bytes exactly if the rounding sum does not wrap, and the driver's own requests all survive
the narrowing to 32 bits. -/
theorem dma_addresses_narrow_iff {map : E820Map} {lowHeapSize : BitVec 64} {behind : Nat → Allocation}
    {low : PlacedHeap} (enough : 32 + 0xFFF ≤ lowHeapSize.toNat)
    (done : lowHeapInit map lowHeapSize behind = .ok (some low)) {heap : Heap} (run : LowRun low.heap heap) :
    (∀ size align call, (∃ k, align.toNat = 2 ^ k) → allocAligned heap size align = some call → call.ptr ≠ 0 →
      align.toNat ∣ call.ptr.toNat ∧ (call.ptr.toNat + size.toNat ≤ 2 ^ 32 ↔ size.toNat + 511 < 2 ^ 64)) ∧
      (∀ request ∈ requests, ∀ call, allocAligned heap request.1 request.2 = some call → call.ptr ≠ 0 →
        Narrows call.ptr request.2 ∧ ¬ call.ptr > 0xFFFFFFFF) ∧
      ∀ routines cr fr memory commandSlots setUp,
        portConfigure routines cr fr heap memory commandSlots = some setUp →
        setUp.clb = setUp.data.cmdList.setWidth 32 ∧ Narrows setUp.data.cmdList 1024 ∧
          setUp.fb = setUp.data.fis.setWidth 32 ∧ Narrows setUp.data.fis 256 := by
  have below := lowHeapInit_below enough done
  have here := below.same (lowRun_record below run)
  refine ⟨fun _ _ _ power done nonnull => aligned_below here power done nonnull,
    fun request member _ done nonnull => request_narrows request here member done nonnull, ?_⟩
  intro routines cr fr memory commandSlots setUp done
  obtain ⟨cmdList, fis, cmdTables, configured⟩ := portConfigure_ok done
  have nonnull := configured.nonnull
  rw [not_or, not_or] at nonnull
  have next := below.same (lowRun_record below (.lowKallocAligned run configured.list))
  have list := request_narrows (1024, 1024) here (by simp [requests]) configured.list nonnull.1
  have received := request_narrows (256, 256) next (by simp [requests]) configured.received nonnull.2.1
  rw [configured.data, configured.clb.1, configured.fb.1]
  exact ⟨rfl, list.1, rfl, received.1⟩

/-- A map of one region, and the low heap that is placed there. -/
def oneRegion : E820Map := ⟨[⟨0x100000, 0x1000000, 1, 1⟩], by decide⟩

def smallLow : PlacedHeap := lowHeap ⟨0x100000, 0x1000000⟩ 0x10000 fun _ => .cleared

/-- A buffer for a sector, from that heap. -/
theorem dma_addresses_narrow_one_region : ∃ call, allocAligned smallLow.heap 512 512 = some call ∧
    call.ptr = 0x101000 ∧ Narrows call.ptr 512 ∧ ¬ call.ptr > 0xFFFFFFFF := by
  obtain ⟨call, done, first⟩ : ∃ call, allocAligned smallLow.heap 512 512 = some call ∧ call.ptr = 0x101000 :=
    ⟨_, rfl, rfl⟩
  have made : lowHeapInit oneRegion 0x10000 (fun _ => .cleared) = .ok (some smallLow) := rfl
  have narrow := dma_addresses_narrow_iff (by decide) made .initial
  refine ⟨call, done, first, narrow.2.1 (512, 512) (by simp [requests]) call done ?_⟩
  rw [first]
  decide

/-- A request for `2^64 - 1` bytes is granted, and its bytes do not lie below 4 GiB. -/
theorem largest_not_below : lowHeapInit oneRegion 0x10000 (fun _ => .cleared) = .ok (some smallLow) ∧
    ∃ call, allocAligned smallLow.heap 0xFFFFFFFFFFFFFFFF 1 = some call ∧ call.ptr ≠ 0 ∧
      ¬ call.ptr.toNat + (0xFFFFFFFFFFFFFFFF : BitVec 64).toNat ≤ 2 ^ 32 := by
  refine ⟨rfl, _, rfl, ?_, ?_⟩
  · decide
  · decide

end Ketone.Disk.DmaAddresses
