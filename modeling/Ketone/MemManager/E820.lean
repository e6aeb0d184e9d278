import Ketone.Library.Align
import Ketone.Library.Gap

/-! The memory map of the firmware: the search for a region of one type, the
search that places the root heap, and the rewriting that reserves it. -/

namespace Ketone.MemManager.E820
open Library Library.Align Library.Gap

def MAPPED_LIMIT : BitVec 64 := 0x100000000
def E820_MAX_ENTRIES : Nat := 64
def E820_USABLE : BitVec 32 := 1
def E820_RESERVED : BitVec 32 := 2
def UINT64_MAX : BitVec 64 := BitVec.allOnes 64

structure E820Entry where
  base : BitVec 64
  length : BitVec 64
  type : BitVec 32
  attributes : BitVec 32
deriving DecidableEq

/-- `count` is the length of the list; the table has room for 64 entries. -/
structure E820Map where
  entries : List E820Entry
  count_le : entries.length ≤ E820_MAX_ENTRIES

namespace E820Entry

def span (e : E820Entry) : Span := ⟨e.base.toNat, e.base.toNat + e.length.toNat⟩

/-- `base + length`, as the code computes it. -/
def stop (e : E820Entry) : BitVec 64 := e.base + e.length

abbrev NoWrap (e : E820Entry) : Prop := e.base.toNat + e.length.toNat < 2 ^ 64

theorem toNat_stop {e : E820Entry} (noWrap : e.NoWrap) : e.stop.toNat = e.span.hi := by
  rw [stop, BitVec.toNat_add, Nat.mod_eq_of_lt noWrap, span]

end E820Entry

structure Region where
  base : BitVec 64
  size : BitVec 64
deriving DecidableEq

def regionIn (type : BitVec 32) (minSize minAddr maxAddr align : BitVec 64) (e : E820Entry) :
    Option Region :=
  if e.type ≠ type then none
  else
    let start := if e.base > minAddr then e.base else minAddr
    let stop := if e.length > UINT64_MAX - e.base then UINT64_MAX else e.base + e.length
    let stop := if stop > maxAddr then maxAddr else stop
    if start > UINT64_MAX - (align - 1) then none
    else
      let start := (start + align - 1) &&& ~~~(align - 1)
      if stop ≤ start then none
      else if stop - start < minSize then none
      else some ⟨start, stop - start⟩

def e820FindRegion (map : E820Map) (type : BitVec 32) (minSize minAddr maxAddr align : BitVec 64) :
    Option Region :=
  let align := orOne align
  if align &&& (align - 1) ≠ 0 then none
  else map.entries.findSome? (regionIn type minSize minAddr maxAddr align)

def sizeofHeap : BitVec 64 := 32
def sizeofAllocation : BitVec 64 := 12

def tableBytes (size : BitVec 64) : BitVec 64 := sizeofAllocation * (size / 512)

def rootTotal (size : BitVec 64) : BitVec 64 := sizeofHeap + tableBytes size + 0xFFF + size

def rootStart (kernelEnd total : BitVec 64) (e : E820Entry) : Option (BitVec 64) :=
  if e.type ≠ E820_USABLE then none
  else
    let start := pageUp (if e.base > kernelEnd then e.base else kernelEnd)
    let stop := if e.stop > MAPPED_LIMIT then MAPPED_LIMIT else e.stop
    if stop ≤ start ∨ stop - start < total then none
    else some start

/-- The first entry with room for the root heap, and its place in the map. -/
structure Placement (kernelEnd total : BitVec 64) (entries : List E820Entry) where
  before : List E820Entry
  chosen : E820Entry
  behind : List E820Entry
  start : BitVec 64
  whole : entries = before ++ chosen :: behind
  room : rootStart kernelEnd total chosen = some start
  first : ∀ e ∈ before, rootStart kernelEnd total e = none

def findRoot (kernelEnd total : BitVec 64) : (entries : List E820Entry) →
    Option (Placement kernelEnd total entries)
  | [] => none
  | e :: rest =>
      match room : rootStart kernelEnd total e with
      | some start => some ⟨[], e, rest, start, rfl, room, by simp⟩
      | none => (findRoot kernelEnd total rest).map fun place =>
          ⟨e :: place.before, place.chosen, place.behind, place.start,
            congrArg (e :: ·) place.whole, place.room, by simpa [room] using place.first⟩

/-- An entry with room for the root heap: unless the page rounding wraps to the null
pointer, the heap starts in the entry, behind the kernel, and its total fits below 4 GiB. -/
theorem rootStart_inside {kernelEnd total start : BitVec 64} {e : E820Entry} (noWrap : e.NoWrap)
    (room : rootStart kernelEnd total e = some start) (nonnull : start ≠ 0) :
    e.type = E820_USABLE ∧ e.span.lo ≤ start.toNat ∧ kernelEnd ≤ start ∧ 4096 ∣ start.toNat ∧
      start.toNat + total.toNat ≤ e.span.hi ∧ start.toNat + total.toNat ≤ 2 ^ 32 ∧
      start.toNat < 2 ^ 32 ∧ start.toNat < e.span.hi := by
  have limit : MAPPED_LIMIT.toNat = 2 ^ 32 := rfl
  have sum := E820Entry.toNat_stop noWrap
  unfold rootStart at room
  by_cases kind : e.type = E820_USABLE
  · rw [if_neg (not_not.mpr kind)] at room
    dsimp only at room
    generalize first : (if e.base > kernelEnd then e.base else kernelEnd) = low at room
    generalize last : (if e.stop > MAPPED_LIMIT then MAPPED_LIMIT else e.stop) = stop at room
    have bounds := congrArg BitVec.toNat first
    have limits := congrArg BitVec.toNat last
    rw [toNat_larger] at bounds
    rw [toNat_smaller, sum, limit] at limits
    split at room
    · simp at room
    next fits =>
    obtain rfl := Option.some.inj room
    have up := le_roundUp (m := 4096) (n := low.toNat) (by decide)
    have near := roundUp_lt (m := 4096) (n := low.toNat) (by decide)
    have bound := low.isLt
    -- a rounding that wraps gives the first page
    have straight : roundUp 4096 low.toNat < 2 ^ 64 := by
      by_contra wraps
      apply nonnull
      apply BitVec.eq_of_toNat_eq
      have multiple : 4096 ∣ roundUp 4096 low.toNat := dvd_roundUp
      rw [toNat_pageUp]
      change _ = 0
      omega
    have rounded := toNat_pageUp low
    rw [Nat.mod_eq_of_lt straight] at rounded
    simp only [not_or, BitVec.le_def, BitVec.lt_def, rounded] at fits
    obtain ⟨some, enough⟩ := fits
    rw [BitVec.toNat_sub_of_le (by rw [BitVec.le_def, rounded]; omega), rounded] at enough
    rw [BitVec.le_def, rounded]
    have multiple : 4096 ∣ roundUp 4096 low.toNat := dvd_roundUp
    refine ⟨kind, ?_, ?_, multiple, ?_, ?_, ?_, ?_⟩
    · rw [E820Entry.span]
      dsimp only
      omega
    all_goals omega
  · rw [if_pos kind] at room
    simp at room

/-- The map after the chosen entry has been cut at the end of the heap. The remainder
is appended only where the table has room for it. -/
def reserve {kernelEnd total : BitVec 64} (map : E820Map) (place : Placement kernelEnd total map.entries)
    (heapEnd : BitVec 64) : E820Map where
  entries :=
    let kept := place.before ++
      { place.chosen with type := E820_RESERVED, length := heapEnd - place.chosen.base } :: place.behind
    if place.chosen.stop > heapEnd ∧ map.entries.length < E820_MAX_ENTRIES then
      kept ++ [⟨heapEnd, place.chosen.stop - heapEnd, E820_USABLE, 1⟩]
    else kept
  count_le := by
    have count := map.count_le
    have whole := congrArg List.length place.whole
    simp only [List.length_append, List.length_cons] at whole
    split
    · simp only [List.length_append, List.length_cons, List.length_nil]
      omega
    · simp only [List.length_append, List.length_cons]
      omega

end Ketone.MemManager.E820
