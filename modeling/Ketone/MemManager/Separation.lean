import Ketone.MemManager.BlockRuns
import Ketone.MemManager.HoleCoverage
import Ketone.MemManager.LowHeap

/-! The four areas a completed set-up leaves in use. Three searches place them, and
only the first one knows where the kernel lies. -/

namespace Ketone.MemManager.Separation
open Library Library.Align Library.Gap Allocator BlockRuns E820 MmioHole Manager Layout LowHeap RegionSearch InputMap

def AreasApart (first second : List Span) : Prop := ∀ a ∈ first, ∀ b ∈ second, Span.Apart a b

instance (first second : List Span) : Decidable (AreasApart first second) := by
  unfold AreasApart; infer_instance

def kernelImage (boot : Boot) : Span :=
  ⟨KERNEL_START.toNat, (kernelEnd boot.kernelSizeSectors).toNat⟩

def areas (boot : Boot) (layout : Layout) : List (List Span) :=
  [[kernelImage boot], layout.root.areas, layout.low.areas, [hole layout]]

/-- In the map as it is handed over, the first entry with room for the low heap, the one with the root heap left out,
keeps it clear of the kernel, and so does the largest gap between the ranges that are known to be taken. -/
structure KernelClear (boot : Boot) : Prop where
  low : ∀ before chosen behind e, RootEntry boot before chosen behind →
    (before ++ behind).find? (TakesLow boot) = some e → AreasApart [kernelImage boot] (lowSpans boot e)
  gap : ∀ before chosen behind, RootEntry boot before chosen behind →
    Shadowed (2 ^ 32) (takenRanges boot before chosen behind) (kernelImage boot)

section
variable {boot : Boot}

theorem root_bounds {place : boot.Place} (inside : RootInside boot place) {area : Span}
    (member : area ∈ (rootHeap place.start boot).areas) :
    place.start.toNat ≤ area.lo ∧ area.hi ≤ (heapEnd place.start boot).toNat := by
  have table := inside.table
  have data := inside.data
  have total : (rootHeap place.start boot).heap.total = (boot.size / 512).toNat := rfl
  have size : (rootHeap place.start boot).heap.maxSize = boot.size := rfl
  have header : (rootHeap place.start boot).header = place.start := rfl
  simp only [PlacedHeap.areas, total, size, header, List.mem_cons, List.not_mem_nil, or_false] at member
  rcases member with rfl | rfl
  · dsimp only
    omega
  · dsimp only
    omega

theorem region_apart_root {place : boot.Place} (inside : RootInside boot place) (noWrap : place.chosen.NoWrap)
    (alone : ∀ e ∈ place.before ++ place.behind, e.type = E820_USABLE → Span.Apart e.span place.chosen.span) {e : E820Entry}
    (member : e ∈ (boot.reserved place).entries) (kind : e.type = E820_USABLE) :
    Span.Apart ⟨place.start.toNat, (heapEnd place.start boot).toNat⟩ e.span := by
  have low := inside.low
  have high := inside.high
  rcases (mem_reserved noWrap).mp member with other | rfl | ⟨rfl, _, _⟩
  · exact (alone e other kind).symm.mono low high le_rfl le_rfl
  · exact absurd kind (by decide : E820_RESERVED ≠ E820_USABLE)
  · rw [rest_span noWrap inside, Span.apart_iff]
    dsimp only
    omega

theorem low_entry {place : boot.Place} {region : Region}
    (found : e820FindRegion (boot.reserved place) E820_USABLE boot.lowHeapSize 0 UINT32_MAX 0x1000 = some region)
    (mapped : Mapped region.base (lowBlocks boot.lowHeapSize)) (enough : 32 + 0xFFF ≤ boot.lowHeapSize.toNat) :
    ∃ e ∈ (boot.reserved place).entries, e.type = E820_USABLE ∧
      ∀ area ∈ (lowHeap region boot.lowHeapSize boot.behindLow).areas, e.span.lo ≤ area.lo ∧ area.hi ≤ e.span.hi := by
  obtain ⟨e, listed, reported⟩ := @e820FindRegion_reported _ _ _ _ _ _ 12 rfl _ found
  obtain ⟨first, last, room, _⟩ := reported.bounded
  refine ⟨e, listed, reported.serves.kind, ?_⟩
  intro area member
  have bounds := low_inside _ enough room mapped member
  omega

/-- What is left of the chosen entry for the low heap starts behind the root heap. -/
theorem root_apart_low {place : boot.Place} {region : Region} (inside : RootInside boot place) (noWrap : place.chosen.NoWrap)
    (alone : ∀ e ∈ place.before ++ place.behind, e.type = E820_USABLE → Span.Apart e.span place.chosen.span)
    (found : e820FindRegion (boot.reserved place) E820_USABLE boot.lowHeapSize 0 UINT32_MAX 0x1000 = some region)
    (mapped : Mapped region.base (lowBlocks boot.lowHeapSize)) (enough : 32 + 0xFFF ≤ boot.lowHeapSize.toNat) :
    AreasApart (rootHeap place.start boot).areas (lowHeap region boot.lowHeapSize boot.behindLow).areas := by
  obtain ⟨e, listed, kind, held⟩ := low_entry found mapped enough
  intro area used other taken
  have bounds := root_bounds inside used
  have bounds' := held other taken
  have apart := region_apart_root inside noWrap alone listed kind
  exact apart.mono bounds.1 bounds.2 bounds'.1 bounds'.2

end

section
variable {boot : Boot} {place : boot.Place} {region : Region} {gap : Span}

theorem kernel_apart_root (inside : RootInside boot place) :
    AreasApart [kernelImage boot] (rootHeap place.start boot).areas := by
  intro kernel only area used
  obtain rfl := List.mem_singleton.mp only
  have bounds := root_bounds inside used
  have above := inside.kernel
  rw [Span.apart_iff]
  unfold kernelImage
  dsimp only
  omega

theorem root_apart_hole (inside : RootInside boot place) (straight : ∀ e ∈ boot.map.entries, e.NoWrap)
    (found : findMmioHole (boot.reserved place) boot.mcfg = some gap) :
    AreasApart (rootHeap place.start boot).areas [gap] := by
  intro area used other only
  obtain rfl := List.mem_singleton.mp only
  have bounds := root_bounds inside used
  have start := inside.low
  have noWrap := straight place.chosen ((mem_map place).mpr (Or.inr rfl))
  have listed := (mem_reserved noWrap).mpr (Or.inr (Or.inl rfl))
  have clear := hole_apart_entry found listed (reserved_noWrap straight inside listed)
  rw [cut_span inside] at clear
  apply clear.symm.mono _ bounds.2 le_rfl le_rfl
  dsimp only
  omega

theorem low_apart_hole (straight : ∀ e ∈ (boot.reserved place).entries, e.NoWrap)
    (enough : 32 + 0xFFF ≤ boot.lowHeapSize.toNat)
    (lowFound : e820FindRegion (boot.reserved place) E820_USABLE boot.lowHeapSize 0 UINT32_MAX 0x1000 = some region)
    (found : findMmioHole (boot.reserved place) boot.mcfg = some gap) :
    AreasApart (lowHeap region boot.lowHeapSize boot.behindLow).areas [gap] := by
  obtain ⟨e, listed, _, held⟩ := low_entry lowFound (low_mapped enough lowFound) enough
  intro area taken other only
  obtain rfl := List.mem_singleton.mp only
  have bounds := held area taken
  have clear := hole_apart_entry found listed (straight e listed)
  exact clear.symm.mono bounds.1 bounds.2 le_rfl le_rfl

theorem kernel_apart_hole_iff (found : findMmioHole (boot.reserved place) boot.mcfg = some gap) :
    AreasApart [kernelImage boot] [gap] ↔
      Shadowed (2 ^ 32) (holeRanges (boot.reserved place) boot.mcfg) (kernelImage boot) := by
  have largest := hole_largest found
  rw [← largest.apart_iff_shadowed]
  constructor
  · intro apart
    have clear := apart _ (List.mem_singleton_self _) _ (List.mem_singleton_self _)
    exact clear.symm
  · intro apart kernel only other only'
    obtain rfl := List.mem_singleton.mp only
    obtain rfl := List.mem_singleton.mp only'
    exact apart.symm

theorem kernel_apart_behind (inside : RootInside boot place) (enough : 32 + 0xFFF ≤ boot.lowHeapSize.toNat)
    (mapped : Mapped region.base (lowBlocks boot.lowHeapSize)) (room : boot.lowHeapSize.toNat ≤ region.size.toNat)
    (behind : (heapEnd place.start boot).toNat ≤ region.base.toNat) :
    AreasApart [kernelImage boot] (lowHeap region boot.lowHeapSize boot.behindLow).areas := by
  intro kernel only area used
  obtain rfl := List.mem_singleton.mp only
  have bounds := low_inside boot.behindLow enough room mapped used
  have above := inside.kernel
  have table := inside.table
  have data := inside.data
  rw [Span.apart_iff]
  unfold kernelImage
  dsimp only
  omega

/-- What the searches have found is told by the map that was handed over. -/
theorem kernelClear_iff (nonnull : place.start ≠ 0) (mapped : Mapped place.start (boot.size / 512))
    (straight : ∀ e ∈ boot.map.entries, e.NoWrap) (enough : 32 + 0xFFF ≤ boot.lowHeapSize.toNat)
    (lowFound : e820FindRegion (boot.reserved place) E820_USABLE boot.lowHeapSize 0 UINT32_MAX 0x1000 = some region)
    (holeFound : findMmioHole (boot.reserved place) boot.mcfg = some gap) :
    KernelClear boot ↔ AreasApart [kernelImage boot] (lowHeap region boot.lowHeapSize boot.behindLow).areas ∧
      AreasApart [kernelImage boot] [gap] := by
  have noWrap := straight place.chosen ((mem_map place).mpr (Or.inr rfl))
  have inside := root_inside noWrap nonnull mapped
  have entry := rootEntry_of place
  have lowMapped := low_mapped enough lowFound
  obtain ⟨_, _, reported⟩ := @e820FindRegion_reported _ _ _ _ _ _ 12 rfl _ lowFound
  obtain ⟨_, _, room, _⟩ := reported.bounded
  have first := region_first straight inside enough lowFound
  rw [kernel_apart_hole_iff holeFound, holeRanges_reserved noWrap nonnull mapped]
  constructor
  · intro clear
    refine ⟨?_, clear.gap _ _ _ entry⟩
    rcases first with ⟨e, found, starts⟩ | ⟨_, behind⟩
    · rw [lowHeap_areas boot.behindLow enough lowMapped starts]
      exact clear.low _ _ _ e entry found
    · exact kernel_apart_behind inside enough lowMapped room behind
  · rintro ⟨kernelLow, shadowed⟩
    constructor
    · intro before chosen behind e other found
      obtain ⟨rfl, rfl, rfl⟩ := rootEntry_unique entry other
      rcases first with ⟨e', found', starts⟩ | ⟨none, _⟩
      · obtain rfl := Option.some.inj (found'.symm.trans found)
        rw [← lowHeap_areas boot.behindLow enough lowMapped starts]
        exact kernelLow
      · rw [none] at found
        simp at found
    · intro before chosen behind other
      obtain ⟨rfl, rfl, rfl⟩ := rootEntry_unique entry other
      exact shadowed

end

end Ketone.MemManager.Separation
