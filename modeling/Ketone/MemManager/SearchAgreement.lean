import Ketone.MemManager.RegionSearch

/-! Where the two searches for a region agree. The loop that places the root heap takes its sums
modulo 2^64; the search for a region takes them as they are. -/

namespace Ketone.MemManager.SearchAgreement
open Library.Align Library.Gap E820 Manager RegionSearch

section
variable {α β : Type} {f g : α → Option β}

/-- Two searches find the same unless some element, with nothing found before it, serves one of them otherwise
than the other, which then has to make up for it behind. -/
theorem findSome?_eq_iff (l : List α) : l.findSome? f = l.findSome? g ↔
    ∀ before e behind, l = before ++ e :: behind → (∀ other ∈ before, f other = none ∧ g other = none) →
      f e = g e ∨ (f e = none ∧ behind.findSome? f = g e) ∨ (g e = none ∧ f e = behind.findSome? g) := by
  induction l with
  | nil => simp
  | cons a rest ih =>
    by_cases skipped : f a = none ∧ g a = none
    · rw [List.findSome?_cons, List.findSome?_cons, skipped.1, skipped.2]
      dsimp only
      rw [ih]
      constructor
      · intro same before e behind split early
        cases before with
        | nil =>
          obtain ⟨rfl, rfl⟩ := List.cons.inj split
          exact Or.inl (skipped.1.trans skipped.2.symm)
        | cons first others =>
          obtain ⟨_, tail⟩ := List.cons.inj split
          exact same others e behind tail fun other member => early other (List.mem_cons_of_mem _ member)
      · intro same before e behind split early
        refine same (a :: before) e behind (congrArg (a :: ·) split) ?_
        exact List.forall_mem_cons.mpr ⟨skipped, early⟩
    · have decided : (a :: rest).findSome? f = (a :: rest).findSome? g ↔
          f a = g a ∨ (f a = none ∧ rest.findSome? f = g a) ∨ (g a = none ∧ f a = rest.findSome? g) := by
        rw [List.findSome?_cons, List.findSome?_cons]
        cases first : f a with
        | none =>
          cases second : g a with
          | none => exact (skipped ⟨first, second⟩).elim
          | some b => simp
        | some b =>
          cases second : g a with
          | none => simp
          | some c => simp
      rw [decided]
      constructor
      · intro same before e behind split early
        cases before with
        | nil =>
          obtain ⟨rfl, rfl⟩ := List.cons.inj split
          exact same
        | cons first others =>
          obtain ⟨rfl, _⟩ := List.cons.inj split
          exact (skipped (early a (List.mem_cons_self ..))).elim
      · intro same
        exact same [] a rest rfl (by simp)

end

def page (kernelEnd : BitVec 64) (e : E820Entry) : Nat := roundUp 4096 (max e.base.toNat kernelEnd.toNat)

/-- The loop finds room between the rounded start and the end, both modulo 2^64. -/
def LoopTakes (kernelEnd total : BitVec 64) (e : E820Entry) : Prop :=
  e.type = E820_USABLE ∧ Large total ⟨page kernelEnd e % 2 ^ 64, min e.stop.toNat MAPPED_LIMIT.toNat⟩

def SearchTakes (kernelEnd total : BitVec 64) (e : E820Entry) : Prop :=
  e.type = E820_USABLE ∧ Large total ⟨page kernelEnd e, min (clampedEnd e) MAPPED_LIMIT.toNat⟩

instance (kernelEnd total : BitVec 64) (e : E820Entry) : Decidable (LoopTakes kernelEnd total e) := by
  unfold LoopTakes; infer_instance

instance (kernelEnd total : BitVec 64) (e : E820Entry) : Decidable (SearchTakes kernelEnd total e) := by
  unfold SearchTakes; infer_instance

/-- The entry starts in the last page, so that rounding gives the null pointer, and ends far enough behind it. -/
def NullPage (total : BitVec 64) (e : E820Entry) : Prop :=
  e.type = E820_USABLE ∧ 2 ^ 64 - 0x1000 < e.base.toNat ∧ Large total ⟨0, min e.stop.toNat MAPPED_LIMIT.toNat⟩

/-- The end of the entry wraps, and there is room up to 4 GiB but none up to the wrapped end. -/
def CutShort (kernelEnd total : BitVec 64) (e : E820Entry) : Prop :=
  e.type = E820_USABLE ∧ 2 ^ 64 ≤ e.base.toNat + e.length.toNat ∧
    Large total ⟨page kernelEnd e, MAPPED_LIMIT.toNat⟩ ∧ ¬ Large total ⟨page kernelEnd e, e.stop.toNat⟩

section
variable {kernelEnd total : BitVec 64} {e : E820Entry}

theorem rootStart_eq : rootStart kernelEnd total e =
    if LoopTakes kernelEnd total e then some (BitVec.ofNat 64 (page kernelEnd e)) else none := by
  unfold rootStart
  by_cases kind : e.type = E820_USABLE
  · rw [if_neg (not_not.mpr kind)]
    dsimp only
    generalize first : (if e.base > kernelEnd then e.base else kernelEnd) = low
    generalize last : (if e.stop > MAPPED_LIMIT then MAPPED_LIMIT else e.stop) = stop
    have start : (pageUp low).toNat = page kernelEnd e % 2 ^ 64 := by
      rw [toNat_pageUp, ← first, toNat_larger]
      rfl
    have limit : stop.toNat = min e.stop.toNat MAPPED_LIMIT.toNat := by rw [← last, toNat_smaller]
    have size (less : pageUp low ≤ stop) : (stop - pageUp low).toNat = stop.toNat - page kernelEnd e % 2 ^ 64 := by
      rw [BitVec.toNat_sub_of_le less, start]
    by_cases room : LoopTakes kernelEnd total e
    · have nonempty := room.2.1
      have enough := room.2.2
      dsimp only at nonempty enough
      rw [← limit] at nonempty enough
      rw [if_neg, if_pos room]
      · congr 1
        exact BitVec.eq_of_toNat_eq start
      · rintro (empty | short)
        · rw [BitVec.le_def, start] at empty
          omega
        · rw [BitVec.lt_def, size (by rw [BitVec.le_def, start]; omega)] at short
          omega
    · rw [if_pos, if_neg room]
      by_contra fits
      rw [not_or, BitVec.le_def, start, BitVec.lt_def] at fits
      rw [size (by rw [BitVec.le_def, start]; omega)] at fits
      apply room
      refine ⟨kind, ?_⟩
      rw [← limit]
      exact ⟨by dsimp only; omega, by dsimp only; omega⟩
  · rw [if_pos kind, if_neg fun takes => kind takes.1]

theorem regionIn_base : (regionIn E820_USABLE total kernelEnd MAPPED_LIMIT 0x1000 e).map (·.base) =
    if SearchTakes kernelEnd total e then some (BitVec.ofNat 64 (page kernelEnd e)) else none := by
  have power : (0x1000 : BitVec 64).toNat = 2 ^ 12 := rfl
  rw [regionIn_eq power]
  change Option.map _ (if SearchTakes kernelEnd total e then _ else _) = _
  split <;> rfl

theorem SearchTakes.page_lt (takes : SearchTakes kernelEnd total e) : page kernelEnd e < 2 ^ 32 := by
  have limit : MAPPED_LIMIT.toNat = 2 ^ 32 := rfl
  have nonempty := takes.2.1
  dsimp only at nonempty
  omega

theorem page_bounds (kernelEnd : BitVec 64) (e : E820Entry) :
    max e.base.toNat kernelEnd.toNat ≤ page kernelEnd e ∧
      page kernelEnd e < max e.base.toNat kernelEnd.toNat + 4096 ∧ 4096 ∣ page kernelEnd e :=
  ⟨le_roundUp (by decide), roundUp_lt (by decide), dvd_roundUp⟩

theorem toNat_stop_wraps : e.stop.toNat = (e.base.toNat + e.length.toNat) % 2 ^ 64 := BitVec.toNat_add _ _

theorem nullPage_iff (small : kernelEnd.toNat ≤ 2 ^ 64 - 0x1000) :
    NullPage total e ↔ LoopTakes kernelEnd total e ∧ ¬ SearchTakes kernelEnd total e := by
  have limit : MAPPED_LIMIT.toNat = 2 ^ 32 := rfl
  have word : UINT64_MAX.toNat = 2 ^ 64 - 1 := rfl
  have base := e.base.isLt
  have stop := @toNat_stop_wraps e
  obtain ⟨up, near, multiple⟩ := page_bounds kernelEnd e
  unfold NullPage LoopTakes SearchTakes Large clampedEnd
  dsimp only
  constructor
  · rintro ⟨kind, high, nonempty, enough⟩
    have wraps : page kernelEnd e = 2 ^ 64 := by omega
    rw [wraps, Nat.mod_self]
    exact ⟨⟨kind, nonempty, enough⟩, fun takes => by omega⟩
  · rintro ⟨⟨kind, nonempty, enough⟩, misses⟩
    have wraps : page kernelEnd e = 2 ^ 64 := by
      by_contra other
      rw [Nat.mod_eq_of_lt (by omega)] at nonempty enough
      exact misses ⟨kind, by omega, by omega⟩
    rw [wraps, Nat.mod_self] at nonempty enough
    exact ⟨kind, by omega, nonempty, enough⟩

theorem cutShort_iff :
    CutShort kernelEnd total e ↔ SearchTakes kernelEnd total e ∧ ¬ LoopTakes kernelEnd total e := by
  have limit : MAPPED_LIMIT.toNat = 2 ^ 32 := rfl
  have word : UINT64_MAX.toNat = 2 ^ 64 - 1 := rfl
  have stop := @toNat_stop_wraps e
  unfold CutShort LoopTakes SearchTakes Large clampedEnd
  dsimp only
  constructor
  · rintro ⟨kind, wraps, ⟨nonempty, enough⟩, short⟩
    refine ⟨⟨kind, by omega, by omega⟩, ?_⟩
    rintro ⟨_, nonempty', enough'⟩
    rw [Nat.mod_eq_of_lt (by omega)] at nonempty' enough'
    exact short ⟨by omega, by omega⟩
  · rintro ⟨⟨kind, nonempty, enough⟩, misses⟩
    rw [Nat.mod_eq_of_lt (show page kernelEnd e < 2 ^ 64 by omega)] at misses
    have wraps : 2 ^ 64 ≤ e.base.toNat + e.length.toNat := by
      by_contra straight
      exact misses ⟨kind, by omega, by omega⟩
    refine ⟨kind, wraps, ⟨by omega, by omega⟩, ?_⟩
    rintro ⟨nonempty', enough'⟩
    exact misses ⟨kind, by omega, by omega⟩

end

/-- The root heap starts where the search for a region would have put it, or neither finds room. -/
def SearchesAgree (map : E820Map) (kernelEnd total : BitVec 64) : Prop :=
  (findRoot kernelEnd total map.entries).map (·.start) =
    (e820FindRegion map E820_USABLE total kernelEnd MAPPED_LIMIT 0x1000).map (·.base)

/-- Behind entries that neither takes, none is rounded to the null pointer, and where one is cut short, the next
entry that the loop takes starts on the same page. -/
def Undisturbed (kernelEnd total : BitVec 64) (entries : List E820Entry) : Prop :=
  ∀ before e behind, entries = before ++ e :: behind →
    (∀ other ∈ before, ¬ LoopTakes kernelEnd total other ∧ ¬ SearchTakes kernelEnd total other) →
    ¬ NullPage total e ∧
      (CutShort kernelEnd total e → ∃ skipped later rest, behind = skipped ++ later :: rest ∧
        (∀ other ∈ skipped, ¬ LoopTakes kernelEnd total other) ∧ LoopTakes kernelEnd total later ∧
        page kernelEnd later = page kernelEnd e)

section
variable {kernelEnd total : BitVec 64} {e : E820Entry}

theorem findRoot_start (entries : List E820Entry) :
    (findRoot kernelEnd total entries).map (·.start) = entries.findSome? (rootStart kernelEnd total) := by
  induction entries with
  | nil => rfl
  | cons e rest ih =>
    rw [findRoot, List.findSome?_cons]
    split
    next start room =>
      change some start = _
      rw [room]
    next none =>
      rw [Option.map_map]
      change (findRoot kernelEnd total rest).map (·.start) = _
      rw [none, ih]

theorem findRegion_base (map : E820Map) :
    (e820FindRegion map E820_USABLE total kernelEnd MAPPED_LIMIT 0x1000).map (·.base) =
      map.entries.findSome? fun e => (regionIn E820_USABLE total kernelEnd MAPPED_LIMIT 0x1000 e).map (·.base) := by
  have power : (orOne (0x1000 : BitVec 64)).toNat = 2 ^ 12 := rfl
  rw [e820FindRegion_eq map E820_USABLE total kernelEnd MAPPED_LIMIT power, List.map_findSome?]
  rfl

theorem rootStart_none_iff (e : E820Entry) : rootStart kernelEnd total e = none ↔ ¬ LoopTakes kernelEnd total e := by
  rw [rootStart_eq]
  split <;> simp_all

theorem regionIn_base_none_iff (e : E820Entry) :
    (regionIn E820_USABLE total kernelEnd MAPPED_LIMIT 0x1000 e).map (·.base) = none ↔
      ¬ SearchTakes kernelEnd total e := by
  rw [regionIn_base]
  split <;> simp_all

/-- Behind the entry that is cut short, the loop finds its page exactly where the next entry it takes has it. -/
theorem loop_finds_page (behind : List E820Entry) (some : 0 < page kernelEnd e) (low : page kernelEnd e < 2 ^ 32) :
    behind.findSome? (rootStart kernelEnd total) = .some (BitVec.ofNat 64 (page kernelEnd e)) ↔
      ∃ skipped later rest, behind = skipped ++ later :: rest ∧
        (∀ other ∈ skipped, ¬ LoopTakes kernelEnd total other) ∧ LoopTakes kernelEnd total later ∧
        page kernelEnd later = page kernelEnd e := by
  have taken (later : E820Entry) : rootStart kernelEnd total later = .some (BitVec.ofNat 64 (page kernelEnd e)) ↔
      LoopTakes kernelEnd total later ∧ page kernelEnd later = page kernelEnd e := by
    rw [rootStart_eq]
    split
    next takes =>
      have base := later.base.isLt
      have stop := kernelEnd.isLt
      obtain ⟨_, near, multiple⟩ := page_bounds kernelEnd later
      rw [Option.some_inj, ← BitVec.toNat_inj, BitVec.toNat_ofNat, BitVec.toNat_ofNat]
      constructor
      · intro same
        exact ⟨takes, by omega⟩
      · rintro ⟨_, same⟩
        rw [same]
    next misses => simp [misses]
  rw [List.findSome?_eq_some_iff]
  constructor
  · rintro ⟨skipped, later, rest, whole, found, first⟩
    obtain ⟨takes, same⟩ := (taken later).mp found
    exact ⟨skipped, later, rest, whole, fun other member => (rootStart_none_iff other).mp (first other member), takes, same⟩
  · rintro ⟨skipped, later, rest, whole, first, takes, same⟩
    exact ⟨skipped, later, rest, whole, (taken later).mpr ⟨takes, same⟩,
      fun other member => (rootStart_none_iff other).mpr (first other member)⟩

theorem search_never_null (positive : 0 < kernelEnd.toNat) (behind : List E820Entry) :
    behind.findSome? (fun e => (regionIn E820_USABLE total kernelEnd MAPPED_LIMIT 0x1000 e).map (·.base)) ≠ some 0 := by
  intro null
  obtain ⟨_, later, _, _, found, _⟩ := List.findSome?_eq_some_iff.mp null
  rw [regionIn_base] at found
  split at found
  next takes =>
    have low := takes.page_lt
    have up := (page_bounds kernelEnd later).1
    have zero := congrArg BitVec.toNat (Option.some.inj found)
    rw [BitVec.toNat_ofNat, Nat.mod_eq_of_lt (by omega)] at zero
    change page kernelEnd later = 0 at zero
    omega
  · simp at found

end

theorem toNat_kernelEnd (kernelSizeSectors : BitVec 32) :
    (kernelEnd kernelSizeSectors).toNat = KERNEL_START.toNat + (kernelSizeSectors * 512).toNat := by
  have sectors := (kernelSizeSectors * 512).isLt
  have start : KERNEL_START.toNat = 0x120000 := rfl
  rw [kernelEnd, BitVec.toNat_add, BitVec.toNat_setWidth]
  omega

theorem kernelEnd_bounds (kernelSizeSectors : BitVec 32) :
    0 < (kernelEnd kernelSizeSectors).toNat ∧ (kernelEnd kernelSizeSectors).toNat ≤ 2 ^ 64 - 0x1000 := by
  have sectors := (kernelSizeSectors * 512).isLt
  have start : KERNEL_START.toNat = 0x120000 := rfl
  have sum := toNat_kernelEnd kernelSizeSectors
  omega

/-- For every map, heap size and kernel size: the two searches agree exactly if no bogus entry disturbs the
loop before both have found room. -/
theorem searches_agree_iff (map : E820Map) (size : BitVec 64) (kernelSizeSectors : BitVec 32) :
    SearchesAgree map (kernelEnd kernelSizeSectors) (rootTotal size) ↔
      Undisturbed (kernelEnd kernelSizeSectors) (rootTotal size) map.entries := by
  obtain ⟨positive, small⟩ := kernelEnd_bounds kernelSizeSectors
  generalize kernelEnd kernelSizeSectors = stop at positive small
  generalize rootTotal size = total
  unfold SearchesAgree Undisturbed
  rw [findRoot_start, findRegion_base, findSome?_eq_iff]
  simp only [rootStart_none_iff, regionIn_base_none_iff]
  refine forall₃_congr fun before e behind => imp_congr_right fun _ => imp_congr_right fun _ => ?_
  rw [nullPage_iff small, cutShort_iff]
  by_cases takes : LoopTakes stop total e
  · by_cases finds : SearchTakes stop total e
    · refine iff_of_true (Or.inl ?_) ⟨fun both => both.2 finds, fun both => (both.2 takes).elim⟩
      rw [rootStart_eq, regionIn_base, if_pos takes, if_pos finds]
    · -- the rounding of this entry gives the null pointer
      refine iff_of_false ?_ fun both => both.1 ⟨takes, finds⟩
      have high := ((nullPage_iff small).mpr ⟨takes, finds⟩).2.1
      have base := e.base.isLt
      obtain ⟨up, near, multiple⟩ := page_bounds stop e
      have null : BitVec.ofNat 64 (page stop e) = 0 := by
        rw [show page stop e = 2 ^ 64 by omega]
        rfl
      rw [rootStart_eq, regionIn_base, if_pos takes, if_neg finds, null]
      rintro (same | ⟨absent, _⟩ | ⟨_, same⟩)
      · simp at same
      · exact absent takes
      · exact search_never_null positive behind same.symm
  · by_cases finds : SearchTakes stop total e
    · have low := finds.page_lt
      have up := (page_bounds stop e).1
      rw [regionIn_base, rootStart_eq, if_neg takes, if_pos finds, loop_finds_page behind (by omega) low]
      simp [takes, finds]
    · refine iff_of_true (Or.inl ?_) ⟨fun both => takes both.1, fun both => (finds both.1).elim⟩
      rw [rootStart_eq, regionIn_base, if_neg takes, if_neg finds]

/-- One entry whose end wraps to just below its base: the loop overlooks it, the search takes it up to 4 GiB. -/
def wrappedMap : E820Map := ⟨[⟨0x200000, 0xFFFFFFFFFFFFF000, 1, 1⟩], by decide⟩

theorem searches_differ_wrapped_entry : ¬ SearchesAgree wrappedMap (kernelEnd 64) (rootTotal 0x10000) := by
  unfold SearchesAgree
  decide

end Ketone.MemManager.SearchAgreement
