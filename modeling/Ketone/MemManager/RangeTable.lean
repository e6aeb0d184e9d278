import Ketone.Library.InsertionSort
import Ketone.MemManager.MmioHole

/-! The table of ranges as `find_mmio_hole` keeps it: filled, sorted in place and walked, all in
words of 64 bits. -/

namespace Ketone.MemManager.RangeTable
open Library.Align Library.Gap Library.InsertionSort Acpi.Mcfg E820 MmioHole

def rangeAdd (ranges : List Window) (offer : Window) : List Window :=
  if offer.base ≥ FOUR_GIB ∨ offer.stop ≤ offer.base ∨ ranges.length ≥ MAX_RANGES then ranges
  else ranges ++ [⟨offer.base, if offer.stop > FOUR_GIB then FOUR_GIB else offer.stop⟩]

def above (cell key : Window) : Prop := cell.base > key.base

instance : DecidableRel above := fun cell key => by unfold above; infer_instance

structure Walk where
  cursor : BitVec 64
  bestBase : BitVec 64
  bestSize : BitVec 64

/-- What the loop does with the start of a range, and what follows it with 4 GiB. -/
def Walk.gapBelow (s : Walk) (high : BitVec 64) : Walk :=
  if high > s.cursor ∧ high - s.cursor > s.bestSize then
    { s with bestBase := s.cursor, bestSize := high - s.cursor } else s

def walkStep (s : Walk) (range : Window) : Walk :=
  let s := s.gapBelow range.base
  if range.stop > s.cursor then { s with cursor := range.stop } else s

def walk (ranges : List Window) : Option Window :=
  let s := (ranges.foldl walkStep ⟨0, 0, 0⟩).gapBelow FOUR_GIB
  if s.bestSize = 0 then none else some ⟨s.bestBase, s.bestBase + s.bestSize⟩

/-- The sort and the walk; no interval is the result `false` of the source. -/
def largestHole (ranges : List Window) : Option Window := walk (sortCells above ranges)

def span (range : Window) : Span := ⟨range.base.toNat, range.stop.toNat⟩

def Walk.sweep (s : Walk) : Sweep := ⟨s.cursor.toNat, s.bestBase.toNat, s.bestSize.toNat⟩

theorem rangeAdd_span (ranges : List Window) (offer : Window) :
    (rangeAdd ranges offer).map span = MmioHole.rangeAdd (ranges.map span) offer := by
  unfold rangeAdd MmioHole.rangeAdd
  rw [List.length_map]
  split
  · rfl
  · rw [List.map_append]
    rfl

theorem foldl_rangeAdd_span (offers : List Window) (ranges : List Window) :
    (offers.foldl rangeAdd ranges).map span = offers.foldl MmioHole.rangeAdd (ranges.map span) := by
  induction offers generalizing ranges with
  | nil => rfl
  | cons offer rest ih => rw [List.foldl_cons, List.foldl_cons, ih, rangeAdd_span]

theorem insertCell_span (sorted : List Window) (key : Window) :
    (insertCell above sorted key).map span = insertRange (sorted.map span) (span key) := by
  have same (a b : Window) : ¬ above b a ↔ (span b).lo ≤ (span a).lo := by
    rw [above, gt_iff_lt, BitVec.not_lt, BitVec.le_def]
    rfl
  exact List.map_orderedInsert _ _ _ _ _ (fun cell _ => same cell key) (fun cell _ => same key cell)

theorem foldl_insertCell_span (sorted ranges : List Window) :
    (ranges.foldl (insertCell above) sorted).map span =
      (ranges.map span).foldl insertRange (sorted.map span) := by
  induction ranges generalizing sorted with
  | nil => rfl
  | cons key rest ih => rw [List.foldl_cons, List.map_cons, List.foldl_cons, ih, insertCell_span]

theorem sortCells_span (ranges : List Window) :
    (sortCells above ranges).map span = sortRanges (ranges.map span) := by
  rw [sortCells_eq, List.map_reverse, foldl_insertCell_span]
  rfl

theorem gapBelow_sweep (s : Walk) (high : BitVec 64) : (s.gapBelow high).sweep = tail high.toNat s.sweep := by
  unfold Walk.gapBelow tail
  by_cases less : high > s.cursor
  · have difference : (high - s.cursor).toNat = high.toNat - s.cursor.toNat :=
      BitVec.toNat_sub_of_le (BitVec.le_of_lt less)
    have wider : (high > s.cursor ∧ high - s.cursor > s.bestSize) ↔
        (high.toNat > s.sweep.cursor ∧ high.toNat - s.sweep.cursor > s.sweep.bestSize) := by
      rw [gt_iff_lt, gt_iff_lt, BitVec.lt_def, BitVec.lt_def, difference]
      rfl
    simp only [wider]
    split
    · rw [Walk.sweep, difference]
      rfl
    · rfl
  · rw [if_neg (fun both => less both.1), if_neg (fun both => less both.1)]

theorem walkStep_sweep (s : Walk) (range : Window) : (walkStep s range).sweep = visit s.sweep (span range) := by
  have first : visit s.sweep (span range) =
      if (span range).hi > (tail (span range).lo s.sweep).cursor then
        { tail (span range).lo s.sweep with cursor := (span range).hi } else tail (span range).lo s.sweep := rfl
  have low : tail (span range).lo s.sweep = (s.gapBelow range.base).sweep := (gapBelow_sweep ..).symm
  rw [first, low, walkStep]
  generalize s.gapBelow range.base = t
  dsimp only
  simp only [gt_iff_lt, BitVec.lt_def]
  change _ = if t.cursor.toNat < range.stop.toNat then _ else _
  split <;> rfl

theorem foldl_walkStep_sweep (ranges : List Window) (s : Walk) :
    (ranges.foldl walkStep s).sweep = (ranges.map span).foldl visit s.sweep := by
  induction ranges generalizing s with
  | nil => rfl
  | cons range rest ih => rw [List.foldl_cons, List.map_cons, List.foldl_cons, ih, walkStep_sweep]

theorem walk_span (ranges : List Window)
    (inside : ∀ gap, sweep FOUR_GIB.toNat (ranges.map span) = some gap → gap.hi ≤ FOUR_GIB.toNat) :
    (walk ranges).map span = sweep FOUR_GIB.toNat (ranges.map span) := by
  have limit : FOUR_GIB.toNat = 2 ^ 32 := rfl
  have same : ((ranges.foldl walkStep ⟨0, 0, 0⟩).gapBelow FOUR_GIB).sweep =
      tail FOUR_GIB.toNat ((ranges.map span).foldl visit ⟨0, 0, 0⟩) := by
    rw [gapBelow_sweep, foldl_walkStep_sweep]
    rfl
  unfold sweep at inside ⊢
  unfold walk
  generalize (ranges.foldl walkStep ⟨0, 0, 0⟩).gapBelow FOUR_GIB = s at same
  rw [← same] at inside ⊢
  have zero : s.bestSize = 0 ↔ s.sweep.bestSize = 0 := by
    rw [← BitVec.toNat_inj]
    rfl
  dsimp only at inside ⊢
  by_cases none : s.sweep.bestSize = 0
  · rw [if_pos none, if_pos (zero.mpr none)]
    rfl
  · have low := inside _ (if_neg none)
    dsimp only at low
    rw [if_neg none, if_neg (mt zero.mp none), Option.map_some, span, BitVec.toNat_add,
      Nat.mod_eq_of_lt (show s.bestBase.toNat + s.bestSize.toNat < _ by
        change s.bestBase.toNat + s.bestSize.toNat ≤ _ at low; omega)]
    rfl

def stored (offers : List Window) : List Window := offers.foldl rangeAdd []

theorem stored_span (offers : List Window) :
    (stored offers).map span = ((offers.filterMap clamp).take MAX_RANGES) := by
  rw [stored, foldl_rangeAdd_span, List.map_nil, foldl_rangeAdd _ _ (Nat.zero_le _), List.nil_append,
    List.length_nil, Nat.sub_zero]

theorem stored_bounds {offers : List Window} {range : Span} (member : range ∈ (stored offers).map span) :
    range.lo < range.hi ∧ range.lo ≤ FOUR_GIB.toNat := by
  rw [stored_span] at member
  obtain ⟨offer, _, kept⟩ := List.mem_filterMap.mp (List.mem_of_mem_take member)
  have bounds := clamp_bounds kept
  exact ⟨bounds.2.1, bounds.2.2.1.le⟩

theorem sorted_bounds {offers : List Window} {range : Span}
    (member : range ∈ sortRanges ((stored offers).map span)) :
    range.lo < range.hi ∧ range.lo ≤ FOUR_GIB.toNat :=
  stored_bounds ((sortRanges_perm _).mem_iff.mp member)

theorem largestHole_span (offers : List Window) : (largestHole (stored offers)).map span =
    sweep FOUR_GIB.toNat (sortRanges ((stored offers).map span)) := by
  have sorted := sortRanges_sorted ((stored offers).map span)
  rw [largestHole, walk_span, sortCells_span]
  intro gap found
  rw [sortCells_span] at found
  exact (sweep_largest (fun _ member => (sorted_bounds member).1) (fun _ member => (sorted_bounds member).2)
    sorted found).free.below

/-- The search on words finds the hole that the search on spans finds. -/
theorem findMmioHole_eq (map : E820Map) (table : Table) :
    findMmioHole map table = (largestHole (stored (offers map table))).map span := by
  rw [largestHole_span, findMmioHole, holeRanges, stored, foldl_rangeAdd_span]
  rfl

/-- For every table of accepted ranges, the sort and the walk fail exactly where the ranges cover the
first 4 GiB, and otherwise find the lowest of the largest intervals that no range meets. -/
theorem hole_sweep_exact (offers : List Window) :
    (largestHole (stored offers) = none ↔
      ∀ address < 2 ^ 32, ∃ range ∈ stored offers, address ∈ (span range).toSet) ∧
    ∀ hole, largestHole (stored offers) = some hole →
      Largest (2 ^ 32) ((stored offers).map span) (span hole) := by
  have found := largestHole_span offers
  have same := sortRanges_perm ((stored offers).map span)
  have sorted := sortRanges_sorted ((stored offers).map span)
  have nonempty : ∀ range ∈ sortRanges ((stored offers).map span), range.lo < range.hi :=
    fun _ member => (sorted_bounds member).1
  have below : ∀ range ∈ sortRanges ((stored offers).map span), range.lo ≤ FOUR_GIB.toNat :=
    fun _ member => (sorted_bounds member).2
  constructor
  · have covers := sweep_none_iff nonempty below sorted
    rw [← found, Option.map_eq_none_iff] at covers
    rw [covers]
    refine forall₂_congr fun address _ => ?_
    simp only [same.mem_iff, List.mem_map, exists_exists_and_eq_and]
  · intro hole some
    rw [some] at found
    exact (sweep_largest nonempty below sorted found.symm).perm same

/-- A range from 1 MiB on, one below it that touches it, one inside it, and one that reaches beyond 4 GiB. -/
def fourOffers : List Window :=
  [⟨0x100000, 0x80000000⟩, ⟨0x1000, 0x100000⟩, ⟨0x200000, 0x300000⟩, ⟨0xFEC00000, 0x200000000⟩]

theorem four_offers_sweep : largestHole (stored fourOffers) = some ⟨0x80000000, 0xFEC00000⟩ ∧
    Largest (2 ^ 32) ((stored fourOffers).map span) (span ⟨0x80000000, 0xFEC00000⟩) :=
  ⟨rfl, (hole_sweep_exact fourOffers).2 _ rfl⟩

end Ketone.MemManager.RangeTable
