import Ketone.MemManager.Manager

/-! Where a completed set-up puts the two heaps and the hole. -/

namespace Ketone.MemManager.Layout
open Library Library.Align Library.Gap Allocator BumpAllocator E820 MmioHole Manager

def hole (layout : Layout) : Span :=
  ⟨layout.bump.start.toNat, layout.bump.start.toNat + layout.bump.size.toNat⟩

section
variable {boot : Boot}

theorem toNat_placed (maxSize : BitVec 64) (behind : Nat → Allocation) {header count : BitVec 64}
    (mapped : Mapped header count) :
    (placeHeap header maxSize count behind).heap.startAddr.toNat =
      roundUp 4096 (header.toNat + 32 + 12 * count.toNat) := by
  unfold Mapped at mapped
  have limit : MAPPED_LIMIT.toNat = 2 ^ 32 := rfl
  have near := roundUp_lt (m := 4096) (n := header.toNat + 32 + 12 * count.toNat) (by decide)
  have stop : (header + sizeofHeap + count * sizeofAllocation).toNat =
      header.toNat + 32 + 12 * count.toNat := by
    rw [BitVec.toNat_add, BitVec.toNat_add, BitVec.toNat_mul]
    change ((header.toNat + 32) % 2 ^ 64 + (count.toNat * 12) % 2 ^ 64) % 2 ^ 64 = _
    omega
  change (pageUp (header + sizeofHeap + count * sizeofAllocation)).toNat = _
  rw [toNat_pageUp, stop, Nat.mod_eq_of_lt (by omega)]

theorem toNat_rootTotal {header size : BitVec 64} (mapped : Mapped header (size / 512)) :
    (rootTotal size).toNat = 32 + 12 * (size / 512).toNat + 4095 + size.toNat := by
  unfold Mapped at mapped
  have limit : MAPPED_LIMIT.toNat = 2 ^ 32 := rfl
  have count : (size / 512).toNat = size.toNat / 512 := BitVec.toNat_udiv
  rw [rootTotal, tableBytes, BitVec.toNat_add, BitVec.toNat_add, BitVec.toNat_add, BitVec.toNat_mul]
  change (((32 + 12 * (size / 512).toNat % 2 ^ 64) % 2 ^ 64 + 4095) % 2 ^ 64 + size.toNat) % 2 ^ 64 = _
  omega

/-- The root heap lies in the chosen entry: behind the kernel, record, table and data in
this order, and the data ends with the heap. -/
structure RootInside (boot : Boot) (place : boot.Place) : Prop where
  kind : place.chosen.type = E820_USABLE
  low : place.chosen.span.lo ≤ place.start.toNat
  kernel : (kernelEnd boot.kernelSizeSectors).toNat ≤ place.start.toNat
  table : place.start.toNat + 32 + 12 * (boot.size / 512).toNat ≤
    (rootHeap place.start boot).heap.startAddr.toNat
  data : (rootHeap place.start boot).heap.startAddr.toNat + boot.size.toNat =
    (heapEnd place.start boot).toNat
  high : (heapEnd place.start boot).toNat ≤ place.chosen.span.hi
  mapped : (heapEnd place.start boot).toNat ≤ 2 ^ 32

theorem root_inside {place : boot.Place} (noWrap : place.chosen.NoWrap) (nonnull : place.start ≠ 0)
    (mapped : Mapped place.start (boot.size / 512)) : RootInside boot place := by
  obtain ⟨kind, low, kernel, _, high, limit, _, _⟩ := rootStart_inside noWrap place.room nonnull
  have total := toNat_rootTotal mapped
  have data : (rootHeap place.start boot).heap.startAddr.toNat = _ := toNat_placed _ _ mapped
  have near := roundUp_lt (m := 4096) (n := place.start.toNat + 32 + 12 * (boot.size / 512).toNat) (by decide)
  have up := le_roundUp (m := 4096) (n := place.start.toNat + 32 + 12 * (boot.size / 512).toNat) (by decide)
  have stop : (heapEnd place.start boot).toNat =
      (rootHeap place.start boot).heap.startAddr.toNat + boot.size.toNat := by
    rw [heapEnd, BitVec.toNat_add, data, Nat.mod_eq_of_lt (by omega)]
  rw [BitVec.le_def] at kernel
  exact ⟨kind, low, kernel, by omega, stop.symm, by omega, by omega⟩

/-- The chosen entry after it has been cut at the end of the heap. -/
def cut (boot : Boot) (place : boot.Place) : E820Entry :=
  { place.chosen with type := E820_RESERVED, length := heapEnd place.start boot - place.chosen.base }

def rest (boot : Boot) (place : boot.Place) : E820Entry :=
  ⟨heapEnd place.start boot, place.chosen.stop - heapEnd place.start boot, E820_USABLE, 1⟩

/-- What the table of the map gets behind its entries: the end of the chosen one, if there is a slot. -/
def remainder (boot : Boot) (place : boot.Place) : List E820Entry :=
  if place.chosen.stop > heapEnd place.start boot ∧ boot.map.entries.length < E820_MAX_ENTRIES then
    [rest boot place]
  else []

theorem reserved_entries {place : boot.Place} : (boot.reserved place).entries =
    place.before ++ cut boot place :: place.behind ++ remainder boot place := by
  change (if place.chosen.stop > heapEnd place.start boot ∧ boot.map.entries.length < E820_MAX_ENTRIES then
    (place.before ++ cut boot place :: place.behind) ++ [rest boot place]
    else place.before ++ cut boot place :: place.behind) = _
  unfold remainder
  split
  · rfl
  · rw [List.append_nil]

theorem cut_span {place : boot.Place} (inside : RootInside boot place) :
    (cut boot place).span = ⟨place.chosen.span.lo, (heapEnd place.start boot).toNat⟩ := by
  have low := inside.low
  have table := inside.table
  have data := inside.data
  have le : place.chosen.base ≤ heapEnd place.start boot := by
    rw [BitVec.le_def]
    change place.chosen.span.lo ≤ _
    omega
  rw [BitVec.le_def] at le
  simp only [E820Entry.span, cut]
  rw [BitVec.toNat_sub_of_le (by rwa [BitVec.le_def]), Nat.add_sub_cancel' le]

theorem rest_span {place : boot.Place} (noWrap : place.chosen.NoWrap) (inside : RootInside boot place) :
    (rest boot place).span = ⟨(heapEnd place.start boot).toNat, place.chosen.span.hi⟩ := by
  have high := inside.high
  have stop := E820Entry.toNat_stop noWrap
  simp only [E820Entry.span, rest]
  rw [BitVec.toNat_sub_of_le (by rw [BitVec.le_def, stop]; exact high), stop, Nat.add_sub_cancel' high]
  rfl

/-- The rewritten map: the other entries, the cut one, and the rest where the table had room. -/
theorem mem_reserved {place : boot.Place} (noWrap : place.chosen.NoWrap) {e : E820Entry} : e ∈ (boot.reserved place).entries ↔ e ∈ place.before ++ place.behind ∨
      e = cut boot place ∨ (e = rest boot place ∧ boot.map.entries.length < E820_MAX_ENTRIES ∧
        (heapEnd place.start boot).toNat < place.chosen.span.hi) := by
  have stop := E820Entry.toNat_stop noWrap
  have open_ : place.chosen.stop > heapEnd place.start boot ↔
      (heapEnd place.start boot).toNat < place.chosen.span.hi := by
    rw [gt_iff_lt, BitVec.lt_def, stop]
  change e ∈ (if place.chosen.stop > heapEnd place.start boot ∧ boot.map.entries.length < E820_MAX_ENTRIES then
    (place.before ++ cut boot place :: place.behind) ++ [rest boot place]
    else place.before ++ cut boot place :: place.behind) ↔ _
  split
  next appended =>
    simp only [List.mem_append, List.mem_cons, List.not_mem_nil, or_false]
    rw [open_] at appended
    tauto
  next dropped =>
    simp only [List.mem_append, List.mem_cons]
    rw [open_] at dropped
    tauto

theorem mem_map (place : boot.Place) {e : E820Entry} :
    e ∈ boot.map.entries ↔ e ∈ place.before ++ place.behind ∨ e = place.chosen := by
  have whole : e ∈ boot.map.entries ↔ e ∈ place.before ++ place.chosen :: place.behind :=
    iff_of_eq (congrArg (e ∈ ·) place.whole)
  rw [whole]
  simp only [List.mem_append, List.mem_cons]
  tauto

theorem reserved_noWrap {place : boot.Place} (straight : ∀ e ∈ boot.map.entries, e.NoWrap)
    (inside : RootInside boot place) {e : E820Entry} (member : e ∈ (boot.reserved place).entries) :
    e.NoWrap := by
  have noWrap := straight place.chosen ((mem_map place).mpr (Or.inr rfl))
  have high := inside.high
  have whole : place.chosen.span.hi < 2 ^ 64 := noWrap
  change e.span.hi < 2 ^ 64
  rcases (mem_reserved noWrap).mp member with other | rfl | ⟨rfl, _, _⟩
  · exact straight e ((mem_map place).mpr (Or.inl other))
  · rw [cut_span inside]
    dsimp only
    omega
  · rw [rest_span noWrap inside]
    exact whole

theorem hole_bump {layout : Layout} {gap : Span} {map : E820Map} {table : Acpi.Mcfg.Table}
    (found : findMmioHole map table = some gap) (given : layout.bump = bumpHeap gap) : hole layout = gap := by
  have largest := hole_largest found
  obtain ⟨_, _, start, stop⟩ := bumpHeap_within largest.free.nonempty.le largest.free.below
  unfold BumpHeap.stop at stop
  unfold hole
  rw [given, stop, start]

theorem hole_eq {layout : Layout} {place : boot.Place} {copy record : Call} {region : Region} {gap : Span}
    (completed : Completed boot layout place copy record region gap) : hole layout = gap :=
  hole_bump completed.holeFound (by rw [completed.result])

end

end Ketone.MemManager.Layout
