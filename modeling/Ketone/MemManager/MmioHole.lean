import Ketone.Acpi.Mcfg
import Ketone.MemManager.E820

/-! The search for the hole below 4 GiB: a bounded list of ranges that are taken,
then the largest gap between them. -/

namespace Ketone.MemManager.MmioHole
open Library Library.Align Library.Gap Acpi.Mcfg E820

def FOUR_GIB : BitVec 64 := 0x100000000
def MAX_RANGES : Nat := E820_MAX_ENTRIES + 8

def sizeofRsdtHeader : Nat := 36

/-- The list is left alone by an empty range, one from 4 GiB up, or when it is full. -/
def rangeAdd (ranges : List Span) (offer : Window) : List Span :=
  if offer.base ≥ FOUR_GIB ∨ offer.stop ≤ offer.base ∨ ranges.length ≥ MAX_RANGES then ranges
  else ranges ++ [⟨offer.base.toNat, (if offer.stop > FOUR_GIB then FOUR_GIB else offer.stop).toNat⟩]

/-- I/O APIC, HPET, local APIC and the firmware flash. -/
def fixedWindows : List Window :=
  [⟨0xFEC00000, 0xFEC01000⟩, ⟨0xFED00000, 0xFED00400⟩, ⟨0xFEE00000, 0xFEE01000⟩, ⟨0xFFC00000, FOUR_GIB⟩]

/-- The entries as the memory manager reads them, right behind the header. -/
def managerEntries (table : Table) : List McfgEntry :=
  let n : BitVec 32 := (((length table).setWidth 64 - BitVec.ofNat 64 sizeofRsdtHeader) /
    BitVec.ofNat 64 entrySize).setWidth 32
  entriesAt table sizeofRsdtHeader n.toNat

def offers (map : E820Map) (table : Table) : List Window :=
  map.entries.map (fun e => ⟨e.base, e.stop⟩) ++ fixedWindows ++ (managerEntries table).map McfgEntry.window

def holeRanges (map : E820Map) (table : Table) : List Span := (offers map table).foldl rangeAdd []

def findMmioHole (map : E820Map) (table : Table) : Option Span :=
  sweep FOUR_GIB.toNat (sortRanges (holeRanges map table))

def clamp (offer : Window) : Option Span :=
  if offer.base ≥ FOUR_GIB ∨ offer.stop ≤ offer.base then none
  else some ⟨offer.base.toNat, min offer.stop.toNat FOUR_GIB.toNat⟩

theorem rangeAdd_eq (ranges : List Span) (offer : Window) : rangeAdd ranges offer =
    ranges ++ (clamp offer).toList.take (MAX_RANGES - ranges.length) := by
  unfold rangeAdd clamp
  by_cases turned : offer.base ≥ FOUR_GIB ∨ offer.stop ≤ offer.base
  · rw [if_pos turned, if_pos (turned.imp_right Or.inl)]
    simp
  · rw [if_neg turned]
    by_cases full : ranges.length ≥ MAX_RANGES
    · rw [if_pos (Or.inr (Or.inr full)), Nat.sub_eq_zero_of_le full, List.take_zero, List.append_nil]
    · have fits : 1 ≤ MAX_RANGES - ranges.length := by omega
      rw [if_neg (by tauto), toNat_smaller, Option.toList_some, List.take_of_length_le (by simpa using fits)]

/-- The list keeps the first acceptable offers, as many as it has room for. -/
theorem foldl_rangeAdd (all : List Window) (ranges : List Span) (room : ranges.length ≤ MAX_RANGES) :
    all.foldl rangeAdd ranges = ranges ++ (all.filterMap clamp).take (MAX_RANGES - ranges.length) := by
  induction all generalizing ranges with
  | nil => simp
  | cons offer rest ih =>
    rw [List.foldl_cons, rangeAdd_eq]
    cases kept : clamp offer with
    | none =>
      rw [List.filterMap_cons_none kept, Option.toList_none, List.take_nil, List.append_nil]
      exact ih ranges room
    | some range =>
      rw [List.filterMap_cons_some kept, Option.toList_some]
      by_cases full : ranges.length = MAX_RANGES
      · rw [full, Nat.sub_self, List.take_zero, List.take_zero, List.append_nil]
        have same := ih ranges room
        rwa [full, Nat.sub_self, List.take_zero, List.append_nil] at same
      · have left : MAX_RANGES - ranges.length = MAX_RANGES - (ranges.length + 1) + 1 := by omega
        rw [left, List.take_succ_cons, List.take_succ_cons, List.take_nil,
          ih _ (by rw [List.length_append, List.length_singleton]; omega), List.length_append,
          List.length_singleton, List.append_assoc, List.singleton_append]

theorem holeRanges_eq (map : E820Map) (table : Table) :
    holeRanges map table = ((offers map table).filterMap clamp).take MAX_RANGES := by
  rw [holeRanges, foldl_rangeAdd _ _ (Nat.zero_le _), List.nil_append, List.length_nil, Nat.sub_zero]

theorem clamp_bounds {offer : Window} {range : Span} (kept : clamp offer = some range) :
    range.lo = offer.base.toNat ∧ range.lo < range.hi ∧ range.lo < 2 ^ 32 ∧
      range.hi = min offer.stop.toNat (2 ^ 32) := by
  unfold clamp at kept
  split at kept
  · simp at kept
  next accepted =>
  obtain rfl := Option.some.inj kept
  have limit : FOUR_GIB.toNat = 2 ^ 32 := rfl
  rw [not_or, ge_iff_le, BitVec.le_def, BitVec.le_def, limit] at accepted
  rw [limit]
  dsimp only
  exact ⟨rfl, by omega, by omega, rfl⟩

theorem holeRanges_bounds {map : E820Map} {table : Table} {range : Span}
    (member : range ∈ holeRanges map table) : range.lo < range.hi ∧ range.lo < 2 ^ 32 := by
  rw [holeRanges_eq] at member
  obtain ⟨offer, _, kept⟩ := List.mem_filterMap.mp (List.mem_of_mem_take member)
  have bounds := clamp_bounds kept
  exact ⟨bounds.2.1, bounds.2.2.1⟩

theorem clamp_mem_holeRanges {map : E820Map} (table : Table) {offer : Window} {range : Span}
    (early : offer ∈ map.entries.map (fun e => ⟨e.base, e.stop⟩) ++ fixedWindows)
    (kept : clamp offer = some range) : range ∈ holeRanges map table := by
  rw [holeRanges_eq, offers, List.filterMap_append]
  generalize first : map.entries.map (fun e : E820Entry => (⟨e.base, e.stop⟩ : Window)) ++ fixedWindows =
    start at early
  have count := map.count_le
  have short : (start.filterMap clamp).length ≤ MAX_RANGES := by
    calc
      _ ≤ start.length := List.length_filterMap_le _ _
      _ = map.entries.length + 4 := by rw [← first, List.length_append, List.length_map]; rfl
      _ ≤ MAX_RANGES := by unfold MAX_RANGES; omega
  apply List.mem_of_mem_take (i := (start.filterMap clamp).length)
  rw [List.take_take, Nat.min_eq_left short, List.take_left']
  · exact List.mem_filterMap.mpr ⟨offer, early, kept⟩
  · rfl

section
variable {map : E820Map} {table : Table} {hole : Span}

theorem hole_largest (found : findMmioHole map table = some hole) :
    Largest (2 ^ 32) (holeRanges map table) hole := by
  have same := sortRanges_perm (holeRanges map table)
  refine Largest.perm same (sweep_largest ?_ ?_ (sortRanges_sorted _) found)
  · exact fun range member => (holeRanges_bounds (same.mem_iff.mp member)).1
  · exact fun range member => (holeRanges_bounds (same.mem_iff.mp member)).2.le

theorem hole_none (failed : findMmioHole map table = none) (gap : Span) :
    ¬ Free (2 ^ 32) (holeRanges map table) gap := by
  have same := sortRanges_perm (holeRanges map table)
  intro free
  refine sweep_none ?_ (sortRanges_sorted _) failed gap (free.perm same.symm)
  exact fun range member => (holeRanges_bounds (same.mem_iff.mp member)).1

/-- The hole stays clear of every entry of the map it was computed from. -/
theorem hole_apart_entry (found : findMmioHole map table = some hole) {e : E820Entry}
    (member : e ∈ map.entries) (noWrap : e.NoWrap) : Span.Apart hole e.span := by
  have largest := hole_largest found
  have below := largest.free.below
  have stop := E820Entry.toNat_stop noWrap
  have limit : FOUR_GIB.toNat = 2 ^ 32 := rfl
  cases kept : clamp ⟨e.base, e.stop⟩ with
  | none =>
    unfold clamp at kept
    split at kept
    next turned =>
      rw [ge_iff_le, BitVec.le_def, BitVec.le_def, limit, stop] at turned
      rw [Span.apart_iff]
      unfold E820Entry.span at *
      dsimp only at *
      omega
    · simp at kept
  | some range =>
    have bounds := clamp_bounds kept
    have offered : (⟨e.base, e.stop⟩ : Window) ∈
        map.entries.map (fun e => ⟨e.base, e.stop⟩) ++ fixedWindows :=
      List.mem_append_left _ (List.mem_map.mpr ⟨e, member, rfl⟩)
    have apart := largest.apart_of_mem (clamp_mem_holeRanges table offered kept)
    rw [Span.apart_iff] at apart ⊢
    unfold E820Entry.span at *
    dsimp only at *
    omega

/-- The hole ends below the firmware flash. -/
theorem hole_below_flash (found : findMmioHole map table = some hole) : hole.hi ≤ 0xFFC00000 := by
  have largest := hole_largest found
  have below := largest.free.below
  have nonempty := largest.free.nonempty
  have offered : (⟨0xFFC00000, FOUR_GIB⟩ : Window) ∈
      map.entries.map (fun e => ⟨e.base, e.stop⟩) ++ fixedWindows :=
    List.mem_append_right _ (by decide)
  have kept : clamp ⟨0xFFC00000, FOUR_GIB⟩ = some ⟨0xFFC00000, 2 ^ 32⟩ := by decide
  have apart := largest.apart_of_mem (clamp_mem_holeRanges table offered kept)
  rw [Span.apart_iff] at apart
  dsimp only at apart
  omega

end

end Ketone.MemManager.MmioHole
