import Mathlib.Data.List.Sort
import Mathlib.Order.CompletePartialOrder
import Mathlib.Order.Interval.Set.Disjoint

/-! Half-open address intervals, the intervals a list of them leaves free below
a limit, and the sorted sweep that finds the largest free one. -/

namespace Ketone.Library.Gap

structure Span where
  lo : Nat
  hi : Nat
deriving DecidableEq

namespace Span

def toSet (span : Span) : Set Nat := Set.Ico span.lo span.hi

def size (span : Span) : Nat := span.hi - span.lo

/-- No address lies in both; an empty span is apart from every other. -/
def Apart (first second : Span) : Prop := min first.hi second.hi ≤ max first.lo second.lo

instance (first second : Span) : Decidable (Apart first second) := by
  unfold Apart; infer_instance

theorem apart_iff_disjoint {first second : Span} :
    Apart first second ↔ Disjoint first.toSet second.toSet := Set.Ico_disjoint_Ico.symm

theorem apart_iff {first second : Span} : Apart first second ↔
    first.hi ≤ first.lo ∨ second.hi ≤ second.lo ∨ first.hi ≤ second.lo ∨ second.hi ≤ first.lo := by
  unfold Apart
  omega

theorem Apart.symm {first second : Span} (apart : Apart first second) : Apart second first :=
  apart_iff_disjoint.mpr (apart_iff_disjoint.mp apart).symm

theorem Apart.mono {first second inner other : Span} (apart : Apart first second)
    (lower : first.lo ≤ inner.lo) (upper : inner.hi ≤ first.hi)
    (lower' : second.lo ≤ other.lo) (upper' : other.hi ≤ second.hi) : Apart inner other := by
  rw [apart_iff] at apart ⊢
  omega

end Span

open Ketone.Library.Gap.Span

/-- A nonempty interval below the limit that no range of the list meets. -/
structure Free (limit : Nat) (ranges : List Span) (gap : Span) : Prop where
  nonempty : gap.lo < gap.hi
  below : gap.hi ≤ limit
  apart : ∀ range ∈ ranges, Apart gap range

def Beats (winner loser : Span) : Prop :=
  loser.size < winner.size ∨ loser.size = winner.size ∧ winner.lo < loser.lo

structure Largest (limit : Nat) (ranges : List Span) (gap : Span) : Prop where
  free : Free limit ranges gap
  best : ∀ other, Free limit ranges other → ¬ Beats other gap

/-- Every free interval that meets the area is beaten by some free interval. -/
def Shadowed (limit : Nat) (ranges : List Span) (area : Span) : Prop :=
  ∀ gap, Free limit ranges gap → ¬ Apart gap area → ∃ other, Free limit ranges other ∧ Beats other gap

theorem eq_of_not_beats {limit : Nat} {ranges : List Span} {first second : Span}
    (left : Free limit ranges first) (right : Free limit ranges second)
    (not : ¬ Beats first second) (not' : ¬ Beats second first) : first = second := by
  obtain ⟨a, b⟩ := first
  obtain ⟨c, d⟩ := second
  have nonempty := left.nonempty
  have nonempty' := right.nonempty
  simp only [Beats, size, not_or, not_and] at not not' nonempty nonempty'
  congr 1 <;> omega

theorem Largest.apart_iff_shadowed {limit : Nat} {ranges : List Span} {gap : Span}
    (largest : Largest limit ranges gap) (area : Span) :
    Apart gap area ↔ Shadowed limit ranges area := by
  constructor
  · intro clear other free meets
    refine ⟨gap, largest.free, ?_⟩
    by_contra loses
    have same := eq_of_not_beats largest.free free loses (largest.best other free)
    exact meets (same ▸ clear)
  · intro shadowed
    by_contra meets
    obtain ⟨other, free, beats⟩ := shadowed gap largest.free meets
    exact largest.best other free beats

theorem Shadowed.of_mem {limit : Nat} {ranges : List Span} {area range : Span} (member : range ∈ ranges)
    (lower : range.lo ≤ area.lo) (upper : area.hi ≤ range.hi) : Shadowed limit ranges area :=
  fun _ free meets => (meets ((free.apart range member).mono le_rfl le_rfl lower upper)).elim

theorem Largest.apart_of_mem {limit : Nat} {ranges : List Span} {gap range : Span}
    (largest : Largest limit ranges gap) (member : range ∈ ranges) : Apart gap range :=
  largest.free.apart range member

structure Sweep where
  cursor : Nat
  bestBase : Nat
  bestSize : Nat

def visit (s : Sweep) (range : Span) : Sweep :=
  let s := if range.lo > s.cursor ∧ range.lo - s.cursor > s.bestSize then
    { s with bestBase := s.cursor, bestSize := range.lo - s.cursor } else s
  if range.hi > s.cursor then { s with cursor := range.hi } else s

def tail (limit : Nat) (s : Sweep) : Sweep :=
  if limit > s.cursor ∧ limit - s.cursor > s.bestSize then
    { s with bestBase := s.cursor, bestSize := limit - s.cursor } else s

def sweep (limit : Nat) (ranges : List Span) : Option Span :=
  let s := tail limit (ranges.foldl visit ⟨0, 0, 0⟩)
  if s.bestSize = 0 then none else some ⟨s.bestBase, s.bestBase + s.bestSize⟩

structure Swept (visited : List Span) (s : Sweep) : Prop where
  covered : ∀ range ∈ visited, range.hi ≤ s.cursor
  inside : s.bestBase + s.bestSize ≤ s.cursor
  apart : ∀ range ∈ visited, Apart ⟨s.bestBase, s.bestBase + s.bestSize⟩ range
  bounded : 0 < s.bestSize → ∃ range ∈ visited, s.bestBase + s.bestSize ≤ range.lo
  best : ∀ gap : Span, gap.lo < gap.hi → (∀ range ∈ visited, Apart gap range) →
    gap.lo < s.cursor → gap.size ≤ s.bestSize ∧ (gap.size = s.bestSize → s.bestBase ≤ gap.lo)

theorem swept_nil : Swept [] ⟨0, 0, 0⟩ where
  covered := by simp
  inside := le_rfl
  apart := by simp
  bounded := by simp
  best := by intro gap _ _ low; simp at low

theorem visit_wider {s : Sweep} {range : Span}
    (wider : range.lo > s.cursor ∧ range.lo - s.cursor > s.bestSize) :
    visit s range = ⟨max s.cursor range.hi, s.cursor, range.lo - s.cursor⟩ := by
  simp only [visit, if_pos wider]
  split_ifs with grows
  · rw [Nat.max_eq_right (by omega)]
  · rw [Nat.max_eq_left (by omega)]

theorem visit_narrow {s : Sweep} {range : Span}
    (narrow : ¬(range.lo > s.cursor ∧ range.lo - s.cursor > s.bestSize)) :
    visit s range = ⟨max s.cursor range.hi, s.bestBase, s.bestSize⟩ := by
  simp only [visit, if_neg narrow]
  split_ifs with grows
  · rw [Nat.max_eq_right (by omega)]
  · rw [Nat.max_eq_left (by omega)]

theorem swept_visit {visited : List Span} {s : Sweep} {range : Span} (swept : Swept visited s)
    (nonempty : range.lo < range.hi) (sorted : ∀ earlier ∈ visited, earlier.lo ≤ range.lo) :
    Swept (visited ++ [range]) (visit s range) := by
  obtain ⟨covered, inside, apart, bounded, best⟩ := swept
  have covered' : ∀ other ∈ visited ++ [range], other.hi ≤ max s.cursor range.hi := by
    intro other member
    rcases List.mem_append.mp member with before | now
    · have := covered other before
      omega
    · obtain rfl := List.mem_singleton.mp now
      omega
  -- a gap below the new cursor was below the old one or ends where this range starts
  have best' : ∀ gap : Span, gap.lo < gap.hi → (∀ other ∈ visited ++ [range], Apart gap other) →
      gap.lo < max s.cursor range.hi →
      (gap.size ≤ s.bestSize ∧ (gap.size = s.bestSize → s.bestBase ≤ gap.lo)) ∨
        s.cursor ≤ gap.lo ∧ gap.hi ≤ range.lo := by
    intro gap some clear low
    have last := clear range (by simp)
    rw [apart_iff] at last
    by_cases before : gap.lo < s.cursor
    · exact Or.inl (best gap some (fun other member => clear other (List.mem_append_left _ member)) before)
    · exact Or.inr ⟨by omega, by omega⟩
  by_cases wider : range.lo > s.cursor ∧ range.lo - s.cursor > s.bestSize
  · rw [visit_wider wider]
    refine ⟨covered', by dsimp only; omega, ?_, ?_, ?_⟩
    · intro other member
      rw [apart_iff]
      rcases List.mem_append.mp member with before | now
      · have := covered other before
        dsimp only; omega
      · obtain rfl := List.mem_singleton.mp now
        dsimp only; omega
    · exact fun _ => ⟨range, by simp, by dsimp only; omega⟩
    · intro gap some clear low
      have := best' gap some clear low
      simp only [size] at this ⊢
      omega
  · rw [visit_narrow wider]
    refine ⟨covered', by dsimp only; omega, ?_, ?_, ?_⟩
    · intro other member
      rcases List.mem_append.mp member with before | now
      · exact apart other before
      · obtain rfl := List.mem_singleton.mp now
        rw [apart_iff]
        by_cases some : 0 < s.bestSize
        · obtain ⟨earlier, member, le⟩ := bounded some
          have := sorted earlier member
          dsimp only; omega
        · dsimp only; omega
    · intro some
      obtain ⟨earlier, member, le⟩ := bounded some
      exact ⟨earlier, List.mem_append_left _ member, le⟩
    · intro gap some clear low
      have := best' gap some clear low
      simp only [size] at this ⊢
      omega

theorem swept_foldl {visited ranges : List Span} {s : Sweep} (swept : Swept visited s)
    (nonempty : ∀ range ∈ ranges, range.lo < range.hi)
    (sorted : (visited ++ ranges).Pairwise fun a b => a.lo ≤ b.lo) :
    Swept (visited ++ ranges) (ranges.foldl visit s) := by
  induction ranges generalizing visited s with
  | nil => simpa using swept
  | cons range rest ih =>
    have before : ∀ earlier ∈ visited, earlier.lo ≤ range.lo := fun earlier member =>
      (List.pairwise_append.mp sorted).2.2 earlier member range (by simp)
    have step := swept_visit swept (nonempty range (by simp)) before
    have regroup : visited ++ range :: rest = visited ++ [range] ++ rest := by simp
    rw [regroup] at sorted ⊢
    exact ih step (fun other member => nonempty other (by simp [member])) sorted

/-- The sweep of a sorted list reports the lowest of the largest gaps. -/
theorem sweep_largest {limit : Nat} {ranges : List Span} {gap : Span}
    (nonempty : ∀ range ∈ ranges, range.lo < range.hi)
    (below : ∀ range ∈ ranges, range.lo ≤ limit)
    (sorted : ranges.Pairwise fun a b => a.lo ≤ b.lo)
    (found : sweep limit ranges = some gap) : Largest limit ranges gap := by
  have swept : Swept ranges (ranges.foldl visit ⟨0, 0, 0⟩) := by
    simpa using swept_foldl swept_nil nonempty (by simpa using sorted)
  unfold sweep at found
  generalize ranges.foldl visit ⟨0, 0, 0⟩ = s at swept found
  obtain ⟨covered, inside, apart, bounded, best⟩ := swept
  by_cases last : limit > s.cursor ∧ limit - s.cursor > s.bestSize
  · simp only [tail, if_pos last] at found
    rw [if_neg (by omega)] at found
    obtain rfl := Option.some.inj found
    refine ⟨⟨by dsimp only; omega, by dsimp only; omega, ?_⟩, ?_⟩
    · intro range member
      have := covered range member
      rw [apart_iff]
      dsimp only; omega
    · intro other free
      have nonempty := free.nonempty
      have below := free.below
      simp only [Beats, size] at best ⊢
      by_cases before : other.lo < s.cursor
      · have := best other free.nonempty free.apart before
        omega
      · omega
  · simp only [tail, if_neg last] at found
    split at found
    · simp at found
    next some =>
    obtain rfl := Option.some.inj found
    obtain ⟨range, member, le⟩ := bounded (by omega)
    have limited := below range member
    refine ⟨⟨by dsimp only; omega, by dsimp only; omega, apart⟩, ?_⟩
    intro other free
    have nonempty := free.nonempty
    have below := free.below
    simp only [Beats, size] at best ⊢
    by_cases before : other.lo < s.cursor
    · have := best other free.nonempty free.apart before
      omega
    · omega

/-- The sweep of a sorted list reports nothing only where nothing is free. -/
theorem sweep_none {limit : Nat} {ranges : List Span}
    (nonempty : ∀ range ∈ ranges, range.lo < range.hi)
    (sorted : ranges.Pairwise fun a b => a.lo ≤ b.lo)
    (failed : sweep limit ranges = none) (gap : Span) : ¬ Free limit ranges gap := by
  intro free
  have swept : Swept ranges (ranges.foldl visit ⟨0, 0, 0⟩) := by
    simpa using swept_foldl swept_nil nonempty (by simpa using sorted)
  unfold sweep at failed
  generalize ranges.foldl visit ⟨0, 0, 0⟩ = s at swept failed
  have some := free.nonempty
  have below := free.below
  have best := swept.best gap free.nonempty free.apart
  simp only [size] at best
  by_cases last : limit > s.cursor ∧ limit - s.cursor > s.bestSize
  · simp only [tail, if_pos last] at failed
    rw [if_neg (by omega)] at failed
    simp at failed
  · simp only [tail, if_neg last] at failed
    split at failed
    next zero => omega
    · simp at failed

/-- The sweep of a sorted list reports nothing exactly where the ranges cover all below the limit. -/
theorem sweep_none_iff {limit : Nat} {ranges : List Span}
    (nonempty : ∀ range ∈ ranges, range.lo < range.hi)
    (below : ∀ range ∈ ranges, range.lo ≤ limit)
    (sorted : ranges.Pairwise fun a b => a.lo ≤ b.lo) :
    sweep limit ranges = none ↔ ∀ address < limit, ∃ range ∈ ranges, address ∈ range.toSet := by
  constructor
  · intro failed address inside
    by_contra open_
    simp only [not_exists, not_and, toSet, Set.mem_Ico, not_lt] at open_
    apply sweep_none nonempty sorted failed ⟨address, address + 1⟩
    refine ⟨Nat.lt_succ_self _, inside, fun range member => ?_⟩
    have clear := open_ range member
    rw [apart_iff]
    dsimp only
    omega
  · intro covered
    cases found : sweep limit ranges with
    | none => rfl
    | some gap =>
      have free := (sweep_largest nonempty below sorted found).free
      have some := free.nonempty
      obtain ⟨range, member, meets⟩ := covered gap.lo (lt_of_lt_of_le some free.below)
      have clear := Set.disjoint_left.mp (apart_iff_disjoint.mp (free.apart range member))
      exact (clear (Set.mem_Ico.mpr ⟨le_rfl, some⟩) meets).elim

/-! Insertion sort by ascending start. The sorted part is kept last range
first, because the inner loop walks down from its end. -/

def insertRange (sorted : List Span) (key : Span) : List Span :=
  sorted.orderedInsert (fun key range => range.lo ≤ key.lo) key

def sortRanges (ranges : List Span) : List Span := (ranges.foldl insertRange []).reverse

theorem insert_foldl (sorted ranges : List Span) :
    (ranges.foldl insertRange sorted).Perm (sorted ++ ranges) := by
  induction ranges generalizing sorted with
  | nil => simp
  | cons key rest ih =>
    have head := List.perm_orderedInsert (fun key range : Span => range.lo ≤ key.lo) key sorted
    calc
      _ = rest.foldl insertRange (insertRange sorted key) := rfl
      List.Perm _ (insertRange sorted key ++ rest) := ih _
      List.Perm _ ((key :: sorted) ++ rest) := head.append_right rest
      List.Perm _ (sorted ++ key :: rest) := List.perm_middle.symm

theorem sortRanges_perm (ranges : List Span) : (sortRanges ranges).Perm ranges :=
  (List.reverse_perm _).trans (by simpa using insert_foldl [] ranges)

theorem insert_sorted (sorted ranges : List Span)
    (descending : sorted.Pairwise fun a b => b.lo ≤ a.lo) :
    (ranges.foldl insertRange sorted).Pairwise fun a b => b.lo ≤ a.lo := by
  induction ranges generalizing sorted with
  | nil => exact descending
  | cons key rest ih =>
    have : IsTrans Span (fun key range => range.lo ≤ key.lo) := ⟨fun _ _ _ ab bc => bc.trans ab⟩
    have : Std.Total (fun key range : Span => range.lo ≤ key.lo) := ⟨fun a b => le_total b.lo a.lo⟩
    exact ih _ (List.Pairwise.orderedInsert key sorted descending)

theorem sortRanges_sorted (ranges : List Span) :
    (sortRanges ranges).Pairwise fun a b => a.lo ≤ b.lo :=
  List.pairwise_reverse.mpr (insert_sorted [] ranges List.Pairwise.nil)

theorem Free.perm {limit : Nat} {ranges others : List Span} {gap : Span}
    (same : ranges.Perm others) (free : Free limit ranges gap) : Free limit others gap :=
  ⟨free.nonempty, free.below, fun range member => free.apart range (same.mem_iff.mpr member)⟩

theorem Largest.perm {limit : Nat} {ranges others : List Span} {gap : Span}
    (same : ranges.Perm others) (largest : Largest limit ranges gap) : Largest limit others gap :=
  ⟨largest.free.perm same, fun other free => largest.best other (free.perm same.symm)⟩

end Ketone.Library.Gap
