import Ketone.Library.Loop
import Ketone.MemManager.Allocator
import Ketone.MemManager.BumpAllocator
import Ketone.MemManager.MmioHole

/-! The set-up of the root heap, the low heap and the bump heap. -/

namespace Ketone.MemManager.Manager
open Library.Align Library.Gap Library.Loop Acpi.Mcfg Allocator BumpAllocator E820 MmioHole

def KERNEL_START : BitVec 64 := 0x120000
def UINT32_MAX : BitVec 64 := 0xFFFFFFFF

/-- `sizeof(e820_map)`: the count and 64 packed entries of 24 bytes. -/
def sizeofE820Map : BitVec 64 := 1538
def sizeofBumpHeap : BitVec 64 := 24

/-- Why the set-up does not complete: it halts with a message, a store goes to an address
that is not mapped, the root heap lands on the null pointer, or a search never ends. -/
inductive Stop where
  | halt (message : String)
  | fault
  | null
  | hang

def orStop {α : Type} (value : Option α) (stop : Stop) : Except Stop α :=
  match value with
  | some value => .ok value
  | none => .error stop

/-- A heap record at its address. Its table follows the record. -/
structure PlacedHeap where
  header : BitVec 64
  heap : Heap

/-- The memory a placed heap uses: the record with the table, and the data. -/
def PlacedHeap.areas (placed : PlacedHeap) : List Span :=
  [⟨placed.header.toNat, placed.header.toNat + 32 + 12 * placed.heap.total⟩,
    ⟨placed.heap.startAddr.toNat, placed.heap.startAddr.toNat + placed.heap.maxSize.toNat⟩]

/-- A heap of 512-byte blocks with its first `count` entries cleared; `behind` is the memory
that follows the table. -/
def placeHeap (header maxSize : BitVec 64) (count : BitVec 64) (behind : Nat → Allocation) : PlacedHeap where
  header := header
  heap :=
    { blockSize := 512
      startAddr := pageUp (header + sizeofHeap + count * sizeofAllocation)
      maxSize := maxSize
      blocks := fun k => if k < count.toNat then .cleared else behind k
      blockSize_pos := sector_pos }

/-- Whether the stores to a heap's record and table stay inside the mapped memory. -/
def Mapped (header count : BitVec 64) : Prop := header.toNat + 32 + 12 * count.toNat ≤ MAPPED_LIMIT.toNat

instance (header count : BitVec 64) : Decidable (Mapped header count) := by
  unfold Mapped; infer_instance

/-- Each block costs 512 data bytes and a table entry; 4095 bytes are left for the alignment. -/
def lowBlocks (lowHeapSize : BitVec 64) : BitVec 64 :=
  (lowHeapSize - sizeofHeap - 0xFFF) / (512 + sizeofAllocation)

def lowHeap (region : Region) (lowHeapSize : BitVec 64) (behind : Nat → Allocation) : PlacedHeap :=
  placeHeap region.base (lowBlocks lowHeapSize * 512) (lowBlocks lowHeapSize) behind

/-- No heap is the result `false` of the source. -/
def lowHeapInit (map : E820Map) (lowHeapSize : BitVec 64) (behind : Nat → Allocation) :
    Except Stop (Option PlacedHeap) :=
  match e820FindRegion map E820_USABLE lowHeapSize 0 UINT32_MAX 0x1000 with
  | none => .ok none
  | some region =>
      if Mapped region.base (lowBlocks lowHeapSize) then .ok (some (lowHeap region lowHeapSize behind))
      else .error .fault

def kernelEnd (kernelSizeSectors : BitVec 32) : BitVec 64 :=
  KERNEL_START + (kernelSizeSectors * 512).setWidth 64

/-- What the set-up is called with, and the memory it finds: the MCFG table and what
follows the tables of the two heaps. -/
structure Boot where
  map : E820Map
  size : BitVec 64
  kernelSizeSectors : BitVec 32
  lowHeapSize : BitVec 64
  mcfg : Table
  behindRoot : Nat → Allocation
  behindLow : Nat → Allocation

structure Layout where
  map : E820Map
  root : PlacedHeap
  low : PlacedHeap
  bumpRecord : BitVec 64
  bump : BumpHeap

def rootHeap (start : BitVec 64) (boot : Boot) : PlacedHeap :=
  placeHeap start boot.size (boot.size / 512) boot.behindRoot

def heapEnd (start : BitVec 64) (boot : Boot) : BitVec 64 :=
  (rootHeap start boot).heap.startAddr + boot.size

abbrev Boot.Place (boot : Boot) : Type :=
  Placement (kernelEnd boot.kernelSizeSectors) (rootTotal boot.size) boot.map.entries

def Boot.findRoot (boot : Boot) : Option boot.Place :=
  E820.findRoot (kernelEnd boot.kernelSizeSectors) (rootTotal boot.size) boot.map.entries

def Boot.reserved (boot : Boot) (place : boot.Place) : E820Map :=
  reserve boot.map place (heapEnd place.start boot)

def bumpHeap (hole : Span) : BumpHeap :=
  let startHole := BitVec.ofNat 64 hole.lo
  ⟨startHole, startHole, BitVec.ofNat 64 hole.hi - startHole⟩

theorem bumpHeap_within {hole : Span} (le : hole.lo ≤ hole.hi) (below : hole.hi ≤ 2 ^ 32) :
    (bumpHeap hole).Within ∧ (bumpHeap hole).next.toNat = hole.lo ∧ (bumpHeap hole).start.toNat = hole.lo ∧
      (bumpHeap hole).stop = hole.hi := by
  have low : (BitVec.ofNat 64 hole.lo).toNat = hole.lo := Nat.mod_eq_of_lt (by omega)
  have high : (BitVec.ofNat 64 hole.hi).toNat = hole.hi := Nat.mod_eq_of_lt (by omega)
  have size : (bumpHeap hole).size.toNat = hole.hi - hole.lo := by
    unfold bumpHeap
    dsimp only
    rw [BitVec.toNat_sub_of_le (by rw [BitVec.le_def, low, high]; exact le), low, high]
  have start : (bumpHeap hole).start.toNat = hole.lo := low
  have next : (bumpHeap hole).next.toNat = hole.lo := low
  have stop : (bumpHeap hole).stop = hole.hi := by
    unfold BumpHeap.stop
    omega
  exact ⟨⟨by omega, BitVec.le_refl _, by omega⟩, next, start, stop⟩

def memManagerInit (boot : Boot) : Except Stop Layout := do
  let place ← orStop boot.findRoot (.halt "MEMORY MAN: Unable to find usable memory")
  if place.start = 0 then throw .null
  if ¬ Mapped place.start (boot.size / 512) then throw .fault
  let map := boot.reserved place
  let root := rootHeap place.start boot
  let copy ← orStop (alloc root.heap sizeofE820Map) .hang
  if copy.ptr = 0 then throw (.halt "MEMORY MAN: map copy alloc failed")
  let found ← lowHeapInit map boot.lowHeapSize boot.behindLow
  let low ← orStop found (.halt "MEMORY MAN: Unable to setup low heap")
  let hole ← orStop (findMmioHole map boot.mcfg) (.halt "MEMORY MAN: unable to find MMIO hole")
  let record ← orStop (alloc copy.heap sizeofBumpHeap) .hang
  return ⟨map, ⟨place.start, record.heap⟩, low, record.ptr, bumpHeap hole⟩

section
variable {α β : Type}

theorem orStop_ok {value : Option α} {stop : Stop} {result : α}
    (done : orStop value stop = .ok result) : value = some result := by
  cases value with
  | none => simp [orStop] at done
  | some value => exact congrArg some (Except.ok.inj done)

theorem unless_ok {refused : Prop} [Decidable refused] {stop : Stop} {next : Except Stop β} {result : β}
    (done : (if refused then throw stop else next) = .ok result) : ¬ refused ∧ next = .ok result := by
  by_cases test : refused
  · rw [if_pos test] at done
    simp [throw, throwThe, MonadExceptOf.throw] at done
  · rw [if_neg test] at done
    exact ⟨test, done⟩

end

structure Completed (boot : Boot) (layout : Layout) (place : boot.Place) (copy record : Call)
    (region : Region) (hole : Span) : Prop where
  found : boot.findRoot = some place
  nonnull : place.start ≠ 0
  mapped : Mapped place.start (boot.size / 512)
  copied : alloc (rootHeap place.start boot).heap sizeofE820Map = some copy
  lowFound : e820FindRegion (boot.reserved place) E820_USABLE boot.lowHeapSize 0 UINT32_MAX 0x1000 =
    some region
  lowMapped : Mapped region.base (lowBlocks boot.lowHeapSize)
  holeFound : findMmioHole (boot.reserved place) boot.mcfg = some hole
  recorded : alloc copy.heap sizeofBumpHeap = some record
  result : layout = ⟨boot.reserved place, ⟨place.start, record.heap⟩,
    lowHeap region boot.lowHeapSize boot.behindLow, record.ptr, bumpHeap hole⟩

theorem lowHeapInit_ok {map : E820Map} {lowHeapSize : BitVec 64} {behind : Nat → Allocation}
    {low : PlacedHeap} (done : lowHeapInit map lowHeapSize behind = .ok (some low)) :
    ∃ region, e820FindRegion map E820_USABLE lowHeapSize 0 UINT32_MAX 0x1000 = some region ∧
      Mapped region.base (lowBlocks lowHeapSize) ∧ low = lowHeap region lowHeapSize behind := by
  unfold lowHeapInit at done
  split at done
  · simp at done
  next region found =>
  split at done
  next mapped => exact ⟨region, found, mapped, (Option.some.inj (Except.ok.inj done)).symm⟩
  · simp at done

theorem memManagerInit_ok {boot : Boot} {layout : Layout} (done : memManagerInit boot = .ok layout) :
    ∃ place copy record region hole, Completed boot layout place copy record region hole := by
  unfold memManagerInit at done
  obtain ⟨place, found, done⟩ := bind_ok done
  obtain ⟨nonnull, done⟩ := unless_ok done
  obtain ⟨mapped, done⟩ := unless_ok done
  obtain ⟨copy, copied, done⟩ := bind_ok done
  obtain ⟨_, done⟩ := unless_ok done
  obtain ⟨low?, lowDone, done⟩ := bind_ok done
  obtain ⟨low, some, done⟩ := bind_ok done
  obtain ⟨hole, holeFound, done⟩ := bind_ok done
  obtain ⟨record, recorded, done⟩ := bind_ok done
  rw [orStop_ok some] at lowDone
  obtain ⟨region, lowFound, lowMapped, rfl⟩ := lowHeapInit_ok lowDone
  exact ⟨place, copy, record, region, hole, ⟨orStop_ok found, nonnull, not_not.mp mapped, orStop_ok copied,
    lowFound, lowMapped, orStop_ok holeFound, orStop_ok recorded, (Except.ok.inj done).symm⟩⟩

end Ketone.MemManager.Manager
