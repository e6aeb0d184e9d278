import Ketone.MemManager.BumpMemory
import Ketone.MemManager.Separation
import Ketone.Utils
import Mathlib.Data.List.Induction

/-! The set-up of the heaps in memory: the map is read from where the boot loader has put it, the chosen entry is
rewritten there, the copy of the map lies in the root heap, and later searches read the copy. -/

namespace Ketone.MemManager.SetUpMemory
open Library.Align Library.Gap Library.Loop Library.Ram Library.Cells Acpi.Mcfg Allocator BlockRuns AllocBounds FirstFit E820
  MmioHole Manager Layout LowHeap RegionSearch SearchAgreement HeapMemory BumpMemory Separation

/-- `e820_entry`, which is packed. -/
def e820Entry : Cell E820Entry :=
  (u64.followedBy (u64.followedBy (u32.followedBy u32 (by decide)) (by decide)) (by decide)).as
    { toFun := fun fields => ⟨fields.1, fields.2.1, fields.2.2.1, fields.2.2.2⟩
      invFun := fun e => (e.base, e.length, e.type, e.attributes)
      left_inv := fun _ => rfl
      right_inv := fun _ => rfl }

def mapEntryAddr (map : BitVec 64) (i : Nat) : BitVec 64 := e820Entry.entryAddr (map + 2) i

/-- The entries of an `e820_map`, as many as its count says. -/
def mapEntries (memory : Memory) (map : BitVec 64) : List E820Entry :=
  (List.range (u16.load memory map).toNat).map fun i => e820Entry.load memory (mapEntryAddr map i)

/-- The index of the entry for the root heap, and where the heap starts. -/
def rootAmong (kernelEnd total : BitVec 64) (entries : List E820Entry) : Option (Nat × BitVec 64) :=
  (findRoot kernelEnd total entries).map fun place => (place.before.length, place.start)

/-- `e820_find_region`, on as many entries as memory holds. -/
def regionAmong (entries : List E820Entry) (type : BitVec 32) (minSize minAddr maxAddr align : BitVec 64) : Option Region :=
  let align := orOne align
  if align &&& (align - 1) ≠ 0 then none
  else entries.findSome? (regionIn type minSize minAddr maxAddr align)

/-- `find_mmio_hole`, on as many entries as memory holds. -/
def holeAmong (entries : List E820Entry) (table : Table) : Option Span :=
  let offers := entries.map (fun e => ⟨e.base, e.stop⟩) ++ fixedWindows ++ (managerEntries table).map McfgEntry.window
  sweep FOUR_GIB.toNat (sortRanges (offers.foldl rangeAdd []))

def appendAt (memory : Memory) (map : BitVec 64) (e : E820Entry) : Memory :=
  let count := u16.load memory map
  u16.store (e820Entry.store memory (mapEntryAddr map count.toNat) e) map (count + 1)

/-- The chosen entry is cut at the end of the heap, and its remainder appended if there is a slot. -/
def reserveAt (memory : Memory) (map : BitVec 64) (i : Nat) (heapEnd : BitVec 64) : Memory :=
  let chosen := e820Entry.load memory (mapEntryAddr map i)
  let memory := e820Entry.store memory (mapEntryAddr map i)
    { chosen with type := E820_RESERVED, length := heapEnd - chosen.base }
  if chosen.stop > heapEnd ∧ (u16.load memory map).toNat < E820_MAX_ENTRIES then
    appendAt memory map ⟨heapEnd, chosen.stop - heapEnd, E820_USABLE, 1⟩
  else memory

structure Started where
  rootHeap : BitVec 64
  lowHeap : BitVec 64
  bumpHeap : BitVec 64
  memoryMap : BitVec 64
  memory : Memory

/-- Nothing stands for the result `false`. -/
def lowHeapInitAt (memory : Memory) (map lowHeapSize : BitVec 64) : Except Stop (Option (BitVec 64 × Memory)) :=
  match regionAmong (mapEntries memory map) E820_USABLE lowHeapSize 0 UINT32_MAX 0x1000 with
  | none => .ok none
  | some region =>
      if Mapped region.base (lowBlocks lowHeapSize) then
        let low := lowHeap region lowHeapSize fun _ => .cleared
        .ok (some (region.base, placeAt memory low (lowBlocks lowHeapSize)))
      else .error .fault

def memManagerInitAt (memory : Memory) (size : BitVec 64) (kernelSizeSectors : BitVec 32) (e820Addr lowHeapSize : BitVec 64)
    (mcfg : Table) : Except Stop Started := do
  let (i, start) ← orStop (rootAmong (kernelEnd kernelSizeSectors) (rootTotal size) (mapEntries memory e820Addr))
    (.halt "MEMORY MAN: Unable to find usable memory")
  if start = 0 then throw .null
  if ¬ Mapped start (size / 512) then throw .fault
  let root := placeHeap start size (size / 512) fun _ => .cleared
  let table := start + sizeofHeap
  let memory := heapRecord.store memory start ⟨root.heap.blockSize, root.heap.startAddr, root.heap.maxSize, table⟩
  let memory := reserveAt memory e820Addr i (root.heap.startAddr + size)
  let memory := allocation.storeRun memory table 0 (size / 512).toNat .cleared
  let copy ← orStop (allocAt memory start sizeofE820Map) .hang
  if copy.ptr = 0 then throw (.halt "MEMORY MAN: map copy alloc failed")
  let memory := Utils.memcpy copy.memory e820Addr copy.ptr sizeofE820Map.toNat
  let found ← lowHeapInitAt memory copy.ptr lowHeapSize
  let (low, memory) ← orStop found (.halt "MEMORY MAN: Unable to setup low heap")
  let hole ← orStop (holeAmong (mapEntries memory copy.ptr) mcfg) (.halt "MEMORY MAN: unable to find MMIO hole")
  let record ← orStop (allocAt memory start sizeofBumpHeap) .hang
  return ⟨start, low, record.ptr, copy.ptr, bumpRecord.store record.memory record.ptr (bumpHeap hole)⟩

def startAt (boot : Boot) (memory : Memory) (e820Addr : BitVec 64) : Except Stop Started :=
  memManagerInitAt memory boot.size boot.kernelSizeSectors e820Addr boot.lowHeapSize boot.mcfg

section
variable {memory after : Memory} {map place : BitVec 64}

def mapArea (map : BitVec 64) : Area := ⟨map, sizeofE820Map.toNat⟩

theorem entry_in_map {i : Nat} (below : i < 64) :
    Area.Within (e820Entry.area (mapEntryAddr map i)) (mapArea map) := by
  have addr : mapEntryAddr map i = map + BitVec.ofNat 64 (2 + 24 * i) := by
    unfold mapEntryAddr Cell.entryAddr
    rw [BitVec.ofNat_add, ← BitVec.add_assoc]
    rfl
  unfold Cell.area
  rw [addr]
  exact @Area.part_within (mapArea map) (2 + 24 * i) 24 (show _ ≤ 1538 by omega) (show 1538 ≤ _ by decide)

theorem mapEntries_copy (few : (mapEntries memory map).length ≤ 64)
    (same : ∀ k < 1538, after (place + BitVec.ofNat 64 k) = memory (map + BitVec.ofNat 64 k)) :
    mapEntries after place = mapEntries memory map := by
  have count : u16.load after place = u16.load memory map :=
    u16.load_copy _ _ _ _ fun k below => same k (lt_of_lt_of_le below (by decide))
  unfold mapEntries at *
  rw [List.length_map, List.length_range] at few
  rw [count]
  apply List.map_congr_left
  intro i member
  have below := List.mem_range.mp member
  apply e820Entry.load_copy
  intro k inside
  have part : k < 24 := inside
  have offset : ∀ base : BitVec 64, mapEntryAddr base i + BitVec.ofNat 64 k = base + BitVec.ofNat 64 (2 + 24 * i + k) := by
    intro base
    unfold mapEntryAddr Cell.entryAddr
    rw [BitVec.ofNat_add, BitVec.ofNat_add, ← BitVec.add_assoc, ← BitVec.add_assoc]
    rfl
  rw [offset, offset]
  exact same _ (by omega)

theorem mapEntries_same (few : (mapEntries memory map).length ≤ 64) (same : (mapArea map).Same memory after) :
    mapEntries after map = mapEntries memory map :=
  mapEntries_copy few fun _ below => same _ (Area.has_offset (mapArea map) below (show 1538 ≤ 2 ^ 64 by decide))

theorem entries_apart_of_ne {i k : Nat} (below : i < 64) (below' : k < 64) (different : i ≠ k) :
    Area.Apart (e820Entry.area (mapEntryAddr map i)) (e820Entry.area (mapEntryAddr map k)) := by
  have room : ∀ n < 64, e820Entry.width * (n + 1) ≤ 2 ^ 64 := by
    intro n small
    change 24 * (n + 1) ≤ _
    omega
  exact Cell.entries_apart different (room i below) (room k below')

theorem count_apart {i : Nat} (below : i < 64) : Area.Apart (u16.area map) (e820Entry.area (mapEntryAddr map i)) := by
  have apart := @Area.parts_apart map 0 (2 + 24 * i) 2 24 (by omega) (by omega)
  have addr : mapEntryAddr map i = map + BitVec.ofNat 64 (2 + 24 * i) := by
    unfold mapEntryAddr Cell.entryAddr
    rw [BitVec.ofNat_add, ← BitVec.add_assoc]
    rfl
  rw [BitVec.add_zero] at apart
  unfold Cell.area
  rw [addr]
  exact apart

theorem mapEntries_set (few : (mapEntries memory map).length ≤ 64) {i : Nat} (below : i < (mapEntries memory map).length)
    (e : E820Entry) :
    mapEntries (e820Entry.store memory (mapEntryAddr map i) e) map = (mapEntries memory map).set i e := by
  have count : u16.load (e820Entry.store memory (mapEntryAddr map i) e) map = u16.load memory map :=
    u16.load_other e820Entry (count_apart (by omega))
  unfold mapEntries at *
  rw [List.length_map, List.length_range] at few below
  rw [count]
  apply List.ext_getElem
  · simp
  · intro k inside inside'
    rw [List.length_map, List.length_range] at inside
    rw [List.getElem_map, List.getElem_range, List.getElem_set, List.getElem_map, List.getElem_range]
    split
    next here =>
      subst here
      exact e820Entry.load_store memory _ e
    next other => exact e820Entry.load_other e820Entry (entries_apart_of_ne (by omega) (by omega) (Ne.symm other))

theorem length_mapEntries : (mapEntries memory map).length = (u16.load memory map).toNat := by
  rw [mapEntries, List.length_map, List.length_range]

theorem mapEntries_append (few : (u16.load memory map).toNat < 64) (e : E820Entry) :
    mapEntries (appendAt memory map e) map = mapEntries memory map ++ [e] := by
  have next : (u16.load memory map + 1).toNat = (u16.load memory map).toNat + 1 := by
    rw [BitVec.toNat_add_of_lt]
    · rfl
    · change _ + 1 < 2 ^ 16
      omega
  have load : ∀ middle : Memory, ∀ count, ∀ k < 64, e820Entry.load (u16.store middle map count) (mapEntryAddr map k) =
      e820Entry.load middle (mapEntryAddr map k) :=
    fun middle count k below => e820Entry.load_other u16 (count_apart below).symm
  unfold appendAt mapEntries
  rw [u16.load_store, next, List.range_succ, List.map_append, List.map_singleton, load _ _ _ few, e820Entry.load_store]
  refine congrArg (· ++ [e]) (List.map_congr_left fun k member => ?_)
  have below := List.mem_range.mp member
  rw [load _ _ k (by omega)]
  exact e820Entry.load_other e820Entry (entries_apart_of_ne (by omega) few (by omega))

/-- Every map of up to 64 entries can be held. -/
theorem exists_mapEntries (map : BitVec 64) (entries : List E820Entry) (few : entries.length ≤ 64) :
    ∃ memory, mapEntries memory map = entries := by
  induction entries using List.reverseRecOn with
  | nil =>
    have none := u16.load_store (fun _ => 0) map 0
    refine ⟨u16.store (fun _ => 0) map 0, ?_⟩
    rw [mapEntries, none]
    rfl
  | append_singleton entries e ih =>
    rw [List.length_append, List.length_singleton] at few
    obtain ⟨memory, held⟩ := ih (by omega)
    have count := congrArg List.length held
    rw [length_mapEntries] at count
    refine ⟨appendAt memory map e, ?_⟩
    rw [mapEntries_append (by omega), held]

variable {boot : Boot}

theorem load_entry (holds : mapEntries memory map = boot.map.entries) {i : Nat} (below : i < boot.map.entries.length) :
    e820Entry.load memory (mapEntryAddr map i) = boot.map.entries[i] := by
  have total := congrArg List.length holds
  rw [length_mapEntries] at total
  have entry := List.getElem_of_eq holds (i := i) (by rw [length_mapEntries]; omega)
  rw [← entry]
  simp only [mapEntries, List.getElem_map, List.getElem_range]

theorem entry_of_place (place : boot.Place) :
    ∃ below : place.before.length < boot.map.entries.length, boot.map.entries[place.before.length] = place.chosen := by
  have whole := place.whole
  refine ⟨by rw [congrArg List.length whole]; simp, ?_⟩
  rw [List.getElem_of_eq whole]
  simp

/-- The map in memory is rewritten as the set-up on the map says. -/
theorem mapEntries_reserve (holds : mapEntries memory map = boot.map.entries) (place : boot.Place) :
    mapEntries (reserveAt memory map place.before.length (heapEnd place.start boot)) map = (boot.reserved place).entries := by
  obtain ⟨below, chosen⟩ := entry_of_place place
  have few : (mapEntries memory map).length ≤ 64 := by
    rw [holds]
    exact boot.map.count_le
  have total : (u16.load memory map).toNat = boot.map.entries.length := by rw [← length_mapEntries, holds]
  have loaded : e820Entry.load memory (mapEntryAddr map place.before.length) = place.chosen := (load_entry holds below).trans chosen
  have shorter : place.before.length < (mapEntries memory map).length := by rwa [holds]
  have replaced : mapEntries (e820Entry.store memory (mapEntryAddr map place.before.length) (cut boot place)) map =
      place.before ++ cut boot place :: place.behind := by
    rw [mapEntries_set few shorter, holds]
    exact (congrArg (fun entries => List.set entries place.before.length (cut boot place)) place.whole).trans (by simp)
  have count : (u16.load (e820Entry.store memory (mapEntryAddr map place.before.length) (cut boot place)) map).toNat =
      boot.map.entries.length := by
    rw [← total]
    exact congrArg BitVec.toNat (u16.load_other e820Entry (count_apart (by omega)))
  have written : reserveAt memory map place.before.length (heapEnd place.start boot) =
      if place.chosen.stop > heapEnd place.start boot ∧ (u16.load (e820Entry.store memory
        (mapEntryAddr map place.before.length) (cut boot place)) map).toNat < E820_MAX_ENTRIES
      then appendAt (e820Entry.store memory (mapEntryAddr map place.before.length) (cut boot place)) map (rest boot place)
      else e820Entry.store memory (mapEntryAddr map place.before.length) (cut boot place) := by
    unfold reserveAt cut rest
    rw [loaded]
  rw [reserved_entries, written, count]
  unfold remainder
  split
  next appended => rw [mapEntries_append (lt_of_eq_of_lt count appended.2), replaced]
  · rw [replaced, List.append_nil]

theorem entry_same {i : Nat} {area : Area} (below : i < 64) (apart : Area.Apart area (mapArea map)) (e : E820Entry) :
    area.Same memory (e820Entry.store memory (mapEntryAddr map i) e) :=
  e820Entry.store_same (apart.mono (Area.Within.refl area) (entry_in_map below))

theorem appendAt_same {area : Area} (slot : (u16.load memory map).toNat < 64) (apart : Area.Apart area (mapArea map))
    (e : E820Entry) : area.Same memory (appendAt memory map e) := by
  have counted : Area.Within (u16.area map) (mapArea map) := fun _ has => lt_of_lt_of_le has (show 2 ≤ 1538 by decide)
  exact (entry_same slot apart e).trans (u16.store_same (apart.mono (Area.Within.refl area) counted))

theorem reserveAt_same {i : Nat} {heapEnd : BitVec 64} {area : Area} (below : i < 64) (apart : Area.Apart area (mapArea map)) :
    area.Same memory (reserveAt memory map i heapEnd) := by
  unfold reserveAt
  dsimp only
  split
  next appended => exact (entry_same below apart _).trans (appendAt_same appended.2 apart _)
  · exact entry_same below apart _

end

/-- Memory holds the map of the boot, in front of the kernel. -/
structure HandedOver (boot : Boot) (memory : Memory) (e820Addr : BitVec 64) : Prop where
  holds : mapEntries memory e820Addr = boot.map.entries
  front : e820Addr.toNat + 1538 ≤ KERNEL_START.toNat

/-- What the root heap holds for the manager: the record of the bump heap, and the copy of the map. -/
def Started.kept (started : Started) : List Area :=
  [⟨started.bumpHeap, sizeofBumpHeap.toNat⟩, ⟨started.memoryMap, sizeofE820Map.toNat⟩]

def recordOf (placed : PlacedHeap) : HeapRecord :=
  ⟨placed.heap.blockSize, placed.heap.startAddr, placed.heap.maxSize, placed.header + sizeofHeap⟩

def rootAt (boot : Boot) (place : boot.Place) (memory : Memory) (e820Addr : BitVec 64) : Memory :=
  let memory := heapRecord.store memory place.start (recordOf (rootHeap place.start boot))
  let memory := reserveAt memory e820Addr place.before.length (heapEnd place.start boot)
  allocation.storeRun memory (place.start + sizeofHeap) 0 (boot.size / 512).toNat .cleared

section
variable {boot : Boot} {place : boot.Place} {region : Region} {gap : Span} {memory : Memory} {e820Addr : BitVec 64}

theorem root_formed (inside : RootInside boot place) : Formed (rootHeap place.start boot) := by
  have table := inside.table
  have whole := inside.data
  have mapped := inside.mapped
  refine ⟨rfl, table, ?_⟩
  change _ + boot.size.toNat ≤ _
  omega

theorem low_formed {map : E820Map} {lowHeapSize : BitVec 64} {behind : Nat → Allocation}
    (enough : 32 + 0xFFF ≤ lowHeapSize.toNat)
    (found : e820FindRegion map E820_USABLE lowHeapSize 0 UINT32_MAX 0x1000 = some region) :
    Formed (lowHeap region lowHeapSize behind) ∧
      (lowBlocks lowHeapSize).toNat = (lowHeap region lowHeapSize behind).heap.total := by
  have mapped := low_mapped enough found
  have done : lowHeapInit map lowHeapSize behind = .ok (some (lowHeap region lowHeapSize behind)) := by
    rw [lowHeapInit, found]
    exact if_pos mapped
  have below := lowHeapInit_below enough done
  obtain ⟨total, table, _⟩ := low_layout behind enough mapped
  exact ⟨⟨below.blocks, table, below.stop⟩, total.symm⟩

theorem heaps_apart {left right : PlacedHeap} (formed : Formed left) (formed' : Formed right)
    (apart : AreasApart left.areas right.areas) {first second : Area} {span span' : Span} (low : Inside first span)
    (listed : span ∈ left.areas) (high : Inside second span') (listed' : span' ∈ right.areas) : Area.Apart first second := by
  have bound := formed.areas_le listed
  have bound' := formed'.areas_le listed'
  exact apart_of_inside low high (apart span listed span' listed') (by omega) (by omega)

theorem map_apart_root (handed : HandedOver boot memory e820Addr) (inside : RootInside boot place) {area : Area} {span : Span}
    (within : Inside area span) (listed : span ∈ (rootHeap place.start boot).areas) :
    Area.Apart area (mapArea e820Addr) := by
  have bound := (root_formed inside).areas_le listed
  have bounds := root_bounds inside listed
  have kernel := inside.kernel
  have front := handed.front
  have start := toNat_kernelEnd boot.kernelSizeSectors
  refine apart_of_inside within (show Inside (mapArea e820Addr) ⟨e820Addr.toNat, e820Addr.toNat + 1538⟩ from ⟨le_rfl, le_rfl⟩)
    ?_ (by omega) ?_
  · rw [Span.apart_iff]
    dsimp only
    omega
  · dsimp only
    omega

/-- The root heap stands, empty, and the map reads as the searches are to find it. -/
theorem rootAt_stands (handed : HandedOver boot memory e820Addr) (inside : RootInside boot place) :
    Stands (rootHeap place.start boot) (rootAt boot place memory e820Addr) [] ∧
      mapEntries (rootAt boot place memory e820Addr) e820Addr = (boot.reserved place).entries ∧
      ∀ area, Area.Apart area (own (rootHeap place.start boot)) → Area.Apart area (mapArea e820Addr) →
        area.Same memory (rootAt boot place memory e820Addr) := by
  have formed := root_formed inside
  obtain ⟨below, _⟩ := entry_of_place place
  have few := boot.map.count_le
  have ownMap := map_apart_root handed inside (own_inside _) (own_listed _)
  have recordMap := ownMap.mono (own_record _) (Area.Within.refl _)
  unfold rootAt
  dsimp only
  -- the record
  have loaded := heapRecord.load_store memory place.start (recordOf (rootHeap place.start boot))
  have recordSame : ∀ area, Area.Apart area (heapRecord.area place.start) →
      area.Same memory (heapRecord.store memory place.start (recordOf (rootHeap place.start boot))) :=
    fun area apart => heapRecord.store_same apart
  generalize heapRecord.store memory place.start (recordOf (rootHeap place.start boot)) = first at loaded recordSame ⊢
  -- the map
  have holds : mapEntries first e820Addr = boot.map.entries := by
    rw [mapEntries_same (by rw [handed.holds]; exact few) (recordSame _ recordMap.symm), handed.holds]
  have entries := mapEntries_reserve holds place
  have reserveSame : ∀ area, Area.Apart area (mapArea e820Addr) →
      area.Same first (reserveAt first e820Addr place.before.length (heapEnd place.start boot)) :=
    fun area apart => reserveAt_same (lt_of_lt_of_le below few) apart
  have kept := (heapRecord.load_same _ _ _ (reserveSame _ recordMap)).trans loaded
  generalize reserveAt first e820Addr place.before.length (heapEnd place.start boot) = second at entries reserveSame kept ⊢
  -- the table
  obtain ⟨stands, frame⟩ := @cleared_serves _ formed second (boot.size / 512) rfl kept
  refine ⟨stands, ?_, fun area apart apart' => ?_⟩
  · exact (mapEntries_same (by rw [entries]; exact (boot.reserved place).count_le) (frame _ ownMap.symm)).trans entries
  · have apart₀ := apart.mono (Area.Within.refl area) (own_record _)
    exact (recordSame area apart₀).trans ((reserveSame area apart').trans (frame area apart))

/-- The heaps stand in memory where the searches on the map have put them. -/
structure InPlace (boot : Boot) (place : boot.Place) (region : Region) (gap : Span) (memory : Memory) (e820Addr : BitVec 64)
    (started : Started) : Prop where
  rootHeap : started.rootHeap = place.start
  lowHeap : started.lowHeap = region.base
  root : Stands (Manager.rootHeap place.start boot) started.memory started.kept
  low : Stands (Manager.lowHeap region boot.lowHeapSize boot.behindLow) started.memory []
  bump : bumpRecord.load started.memory started.bumpHeap = bumpHeap gap
  map : mapEntries started.memory started.memoryMap = (boot.reserved place).entries
  frame : ∀ area, (∀ part ∈ mapArea e820Addr :: own (Manager.rootHeap place.start boot) ::
    own (Manager.lowHeap region boot.lowHeapSize boot.behindLow) :: started.kept, Area.Apart area part) →
    area.Same memory started.memory

theorem rootAmong_eq (handed : HandedOver boot memory e820Addr) (found : boot.findRoot = some place) :
    rootAmong (kernelEnd boot.kernelSizeSectors) (rootTotal boot.size) (mapEntries memory e820Addr) =
      some (place.before.length, place.start) := by
  rw [handed.holds]
  exact congrArg (Option.map fun place : boot.Place => (place.before.length, place.start)) found

def behindRootAt (boot : Boot) (start e820Addr : BitVec 64) (memory : Memory) : Except Stop Started := do
  let copy ← orStop (allocAt memory start sizeofE820Map) .hang
  if copy.ptr = 0 then throw (.halt "MEMORY MAN: map copy alloc failed")
  let memory := Utils.memcpy copy.memory e820Addr copy.ptr sizeofE820Map.toNat
  let found ← lowHeapInitAt memory copy.ptr boot.lowHeapSize
  let (low, memory) ← orStop found (.halt "MEMORY MAN: Unable to setup low heap")
  let hole ← orStop (holeAmong (mapEntries memory copy.ptr) boot.mcfg) (.halt "MEMORY MAN: unable to find MMIO hole")
  let record ← orStop (allocAt memory start sizeofBumpHeap) .hang
  return ⟨start, low, record.ptr, copy.ptr, bumpRecord.store record.memory record.ptr (bumpHeap hole)⟩

theorem startAt_eq (handed : HandedOver boot memory e820Addr) (found : boot.findRoot = some place) (nonnull : place.start ≠ 0)
    (mapped : Mapped place.start (boot.size / 512)) :
    startAt boot memory e820Addr = behindRootAt boot place.start e820Addr (rootAt boot place memory e820Addr) := by
  have among := rootAmong_eq handed found
  simp only [startAt, memManagerInitAt, behindRootAt, rootAt, recordOf, heapEnd, Manager.rootHeap, placeHeap, among, orStop,
    bind, Except.bind, if_neg nonnull, mapped, not_true_eq_false, if_false, pure, Except.pure]

/-- The copy of the map lies in the root heap. -/
theorem copy_stage (handed : HandedOver boot memory e820Addr) (inside : RootInside boot place) (room : 2048 ≤ boot.size.toNat)
    {rooted : Memory} (stands : Stands (rootHeap place.start boot) rooted [])
    (entries : mapEntries rooted e820Addr = (boot.reserved place).entries) :
    ∃ copy, allocAt rooted place.start sizeofE820Map = some copy ∧ copy.ptr ≠ 0 ∧
      let after := Utils.memcpy copy.memory e820Addr copy.ptr sizeofE820Map.toNat
      Stands (rootHeap place.start boot) after [mapArea copy.ptr] ∧
        mapEntries after copy.ptr = (boot.reserved place).entries ∧
        ∀ area, Area.Apart area (own (rootHeap place.start boot)) → Area.Apart area (mapArea copy.ptr) →
          area.Same rooted after := by
  have formed := root_formed inside
  have count : (boot.size / 512).toNat = boot.size.toNat / 512 := BitVec.toNat_udiv
  have total : (rootHeap place.start boot).heap.total = (boot.size / 512).toNat := rfl
  have few := (boot.reserved place).count_le
  have ownMap := map_apart_root handed inside (own_inside _) (own_listed _)
  have small : sizeofE820Map.toNat ≤ 2 ^ 64 := by decide
  obtain ⟨copy, copied, stands₂, frame⟩ := @serves_first _ _ stands formed sizeofE820Map (by decide) (by decide)
    (show (1538 + 511) / 512 ≤ _ by omega)
  have copyInside := stands₂.inside formed (List.mem_cons_self ..)
  have copyMap := map_apart_root handed inside copyInside (data_listed _)
  have entries₂ := (mapEntries_same (by rw [entries]; exact few) (frame _ ownMap.symm)).trans entries
  refine ⟨copy, copied, stands₂.nonnull formed (List.mem_cons_self ..), ?_, ?_, ?_⟩
  · exact stands₂.others formed (Utils.memcpy_same copy.memory e820Addr small (own_apart_data formed copyInside))
  · exact (mapEntries_copy (by rw [entries₂]; exact few) fun k below =>
      Utils.memcpy_copied copy.memory small copyMap.symm below).trans entries₂
  · exact fun area apart apart' => (frame area apart).trans (Utils.memcpy_same copy.memory e820Addr small apart')

theorem lowHeapInitAt_eq (enough : 32 + 0xFFF ≤ boot.lowHeapSize.toNat)
    (found : e820FindRegion (boot.reserved place) E820_USABLE boot.lowHeapSize 0 UINT32_MAX 0x1000 = some region)
    {copied : Memory} {map : BitVec 64} (entries : mapEntries copied map = (boot.reserved place).entries) :
    lowHeapInitAt copied map boot.lowHeapSize = .ok (some (region.base,
      placeAt copied (lowHeap region boot.lowHeapSize boot.behindLow) (lowBlocks boot.lowHeapSize))) := by
  have among : regionAmong (mapEntries copied map) E820_USABLE boot.lowHeapSize 0 UINT32_MAX 0x1000 = some region := by
    rw [entries]
    exact found
  rw [lowHeapInitAt, among]
  exact if_pos (low_mapped enough found)

/-- The low heap stands where the search on the map finds room for it. -/
theorem low_stage (inside : RootInside boot place) (noWrap : place.chosen.NoWrap)
    (alone : ∀ e ∈ place.before ++ place.behind, e.type = E820_USABLE → Span.Apart e.span place.chosen.span)
    (enough : 32 + 0xFFF ≤ boot.lowHeapSize.toNat)
    (found : e820FindRegion (boot.reserved place) E820_USABLE boot.lowHeapSize 0 UINT32_MAX 0x1000 = some region)
    {copied : Memory} {map : BitVec 64} (stands : Stands (rootHeap place.start boot) copied [mapArea map])
    (entries : mapEntries copied map = (boot.reserved place).entries) :
    ∃ after, lowHeapInitAt copied map boot.lowHeapSize = .ok (some (region.base, after)) ∧
      Stands (rootHeap place.start boot) after [mapArea map] ∧
      Stands (lowHeap region boot.lowHeapSize boot.behindLow) after [] ∧
      mapEntries after map = (boot.reserved place).entries ∧
      ∀ area, Area.Apart area (own (lowHeap region boot.lowHeapSize boot.behindLow)) → area.Same copied after := by
  have formed := root_formed inside
  obtain ⟨lowFormed, lowTotal⟩ := @low_formed _ _ _ boot.behindLow enough found
  have mapped := low_mapped enough found
  have heaps := root_apart_low inside noWrap alone found mapped enough
  have copyInside := stands.inside formed (List.mem_cons_self ..)
  have ownApart := heaps_apart formed lowFormed heaps (own_inside _) (own_listed _) (own_inside _) (own_listed _)
  have copyApart := heaps_apart formed lowFormed heaps copyInside (data_listed _) (own_inside _) (own_listed _)
  obtain ⟨lowStands, frame⟩ := placed_serves lowFormed copied lowTotal
  have kept := (mapEntries_same (by rw [entries]; exact (boot.reserved place).count_le) (frame _ copyApart)).trans entries
  exact ⟨_, lowHeapInitAt_eq enough found entries, stands.others formed (frame _ ownApart), lowStands, kept, frame⟩

theorem record_stage (inside : RootInside boot place) (room : 2560 ≤ boot.size.toNat) {low : PlacedHeap} (lowFormed : Formed low)
    (heaps : AreasApart (rootHeap place.start boot).areas low.areas) {before : Memory} {map : BitVec 64}
    (stands : Stands (rootHeap place.start boot) before [mapArea map]) (lowStands : Stands low before [])
    (entries : mapEntries before map = (boot.reserved place).entries) (bump : BumpAllocator.BumpHeap) :
    ∃ record, allocAt before place.start sizeofBumpHeap = some record ∧
      let after := bumpRecord.store record.memory record.ptr bump
      let kept : List Area := [⟨record.ptr, sizeofBumpHeap.toNat⟩, mapArea map]
      Stands (rootHeap place.start boot) after kept ∧ Stands low after [] ∧ bumpRecord.load after record.ptr = bump ∧
        mapEntries after map = (boot.reserved place).entries ∧
        ∀ area, Area.Apart area (own (rootHeap place.start boot)) → Area.Apart area ⟨record.ptr, sizeofBumpHeap.toNat⟩ →
          area.Same before after := by
  have formed := root_formed inside
  have count : (boot.size / 512).toNat = boot.size.toNat / 512 := BitVec.toNat_udiv
  have total : (rootHeap place.start boot).heap.total = (boot.size / 512).toNat := rfl
  have ownApart := heaps_apart formed lowFormed heaps (own_inside _) (own_listed _) (own_inside _) (own_listed _)
  obtain ⟨record, recorded, stands₂, frame⟩ := @Stands.serves_block _ _ _ stands formed sizeofBumpHeap (by decide) (by decide)
    (show (1538 + 511) / 512 + 0 < _ by omega)
  have recordInside := stands₂.inside formed (List.mem_cons_self ..)
  have recordLow := heaps_apart formed lowFormed heaps recordInside (data_listed _) (own_inside _) (own_listed _)
  have copyInside := stands.inside formed (List.mem_cons_self ..)
  have stored : ∀ area, Area.Apart area ⟨record.ptr, sizeofBumpHeap.toNat⟩ →
      area.Same record.memory (bumpRecord.store record.memory record.ptr bump) := fun area apart => bumpRecord.store_same apart
  obtain ⟨others, _⟩ := List.pairwise_cons.mp (stands₂.apart formed)
  have copySame : (mapArea map).Same before (bumpRecord.store record.memory record.ptr bump) :=
    (frame _ (own_apart_data formed copyInside).symm).trans (stored _ (others _ (List.mem_cons_self ..)).symm)
  refine ⟨record, recorded, ?_, ?_, ?_, ?_, ?_⟩
  · exact stands₂.others formed (stored _ (own_apart_data formed recordInside))
  · exact lowStands.others lowFormed ((frame _ ownApart.symm).trans (stored _ recordLow.symm))
  · exact bumpRecord.load_store record.memory record.ptr bump
  · exact (mapEntries_same (by rw [entries]; exact (boot.reserved place).count_le) copySame).trans entries
  · exact fun area apart apart' => (frame area apart).trans (stored area apart')

/-- The heaps stand where the searches have put them. -/
theorem startAt_done (handed : HandedOver boot memory e820Addr) (found : boot.findRoot = some place)
    (nonnull : place.start ≠ 0) (mapped : Mapped place.start (boot.size / 512)) (noWrap : place.chosen.NoWrap)
    (alone : ∀ e ∈ place.before ++ place.behind, e.type = E820_USABLE → Span.Apart e.span place.chosen.span)
    (enough : 32 + 0xFFF ≤ boot.lowHeapSize.toNat) (room : 2560 ≤ boot.size.toNat)
    (lowFound : e820FindRegion (boot.reserved place) E820_USABLE boot.lowHeapSize 0 UINT32_MAX 0x1000 = some region)
    (holeFound : findMmioHole (boot.reserved place) boot.mcfg = some gap) :
    ∃ started, startAt boot memory e820Addr = .ok started ∧ InPlace boot place region gap memory e820Addr started := by
  have inside := root_inside noWrap nonnull mapped
  have heaps := root_apart_low inside noWrap alone lowFound (low_mapped enough lowFound) enough
  have among : holeAmong (boot.reserved place).entries boot.mcfg = some gap := holeFound
  obtain ⟨stands₁, entries₁, frame₁⟩ := rootAt_stands handed inside
  obtain ⟨copy, copied, nonnull', stands₂, entries₂, frame₂⟩ := copy_stage handed inside (by omega) stands₁ entries₁
  obtain ⟨after, lowDone, stands₃, lowStands, entries₃, frame₃⟩ := low_stage inside noWrap alone enough lowFound stands₂ entries₂
  obtain ⟨record, recorded, rootStands, lowStands', bump, entries, frame₄⟩ :=
    record_stage inside room (low_formed enough lowFound).1 heaps stands₃ lowStands entries₃ (bumpHeap gap)
  rw [startAt_eq handed found nonnull mapped]
  simp only [behindRootAt, copied, orStop, bind, Except.bind, if_neg nonnull', lowDone, entries₃, among, recorded]
  refine ⟨_, rfl, rfl, rfl, rootStands, lowStands', bump, entries, fun area apart => ?_⟩
  simp only [Started.kept, List.mem_cons, List.not_mem_nil, or_false, forall_eq_or_imp, forall_eq] at apart
  obtain ⟨offMap, offRoot, offLow, offRecord, offCopy⟩ := apart
  exact (frame₁ area offRoot offMap).trans ((frame₂ area offRoot offCopy).trans
    ((frame₃ area offLow).trans (frame₄ area offRoot offRecord)))

/-- A set-up that does not halt has found the two places below 4 GiB. -/
theorem searches_found (handed : HandedOver boot memory e820Addr) (found : boot.findRoot = some place)
    (nonnull : place.start ≠ 0) (mapped : Mapped place.start (boot.size / 512)) (noWrap : place.chosen.NoWrap)
    (alone : ∀ e ∈ place.before ++ place.behind, e.type = E820_USABLE → Span.Apart e.span place.chosen.span)
    (enough : 32 + 0xFFF ≤ boot.lowHeapSize.toNat) (room : 2560 ≤ boot.size.toNat)
    (goesOn : ∀ message, startAt boot memory e820Addr ≠ .error (.halt message)) :
    ∃ region gap, e820FindRegion (boot.reserved place) E820_USABLE boot.lowHeapSize 0 UINT32_MAX 0x1000 = some region ∧
      findMmioHole (boot.reserved place) boot.mcfg = some gap := by
  have inside := root_inside noWrap nonnull mapped
  obtain ⟨stands₁, entries₁, _⟩ := rootAt_stands handed inside
  obtain ⟨copy, copied, nonnull', stands₂, entries₂, _⟩ := copy_stage handed inside (by omega) stands₁ entries₁
  rw [startAt_eq handed found nonnull mapped] at goesOn
  simp only [behindRootAt, copied, orStop, bind, Except.bind, if_neg nonnull'] at goesOn
  cases lowFound : e820FindRegion (boot.reserved place) E820_USABLE boot.lowHeapSize 0 UINT32_MAX 0x1000 with
  | none =>
    have among : regionAmong (mapEntries (Utils.memcpy copy.memory e820Addr copy.ptr sizeofE820Map.toNat) copy.ptr)
        E820_USABLE boot.lowHeapSize 0 UINT32_MAX 0x1000 = none := by
      rw [entries₂]
      exact lowFound
    rw [lowHeapInitAt, among] at goesOn
    exact (goesOn _ rfl).elim
  | some region =>
    obtain ⟨after, lowDone, _, _, entries₃, _⟩ := low_stage inside noWrap alone enough lowFound stands₂ entries₂
    simp only [lowDone, entries₃] at goesOn
    cases holeFound : findMmioHole (boot.reserved place) boot.mcfg with
    | none =>
      have among : holeAmong (boot.reserved place).entries boot.mcfg = none := holeFound
      rw [among] at goesOn
      exact (goesOn _ rfl).elim
    | some gap => exact ⟨region, gap, rfl, rfl⟩

/-- What a set-up that returns has chosen for the root heap. -/
theorem startAt_place (handed : HandedOver boot memory e820Addr) {started : Started}
    (done : startAt boot memory e820Addr = .ok started) :
    ∃ place, boot.findRoot = some place ∧ place.start ≠ 0 ∧ Mapped place.start (boot.size / 512) := by
  unfold startAt memManagerInitAt at done
  obtain ⟨⟨i, start⟩, among, done⟩ := bind_ok done
  obtain ⟨nonnull, done⟩ := unless_ok done
  obtain ⟨mapped, done⟩ := unless_ok done
  have among := orStop_ok among
  rw [handed.holds, rootAmong, Option.map_eq_some_iff] at among
  obtain ⟨place, found, same⟩ := among
  obtain ⟨rfl, rfl⟩ := Prod.mk.inj same
  exact ⟨place, found, nonnull, not_not.mp mapped⟩

end

end Ketone.MemManager.SetUpMemory
