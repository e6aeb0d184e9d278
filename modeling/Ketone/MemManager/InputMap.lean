import Ketone.MemManager.LowHeap
import Ketone.MemManager.SearchAgreement

/-! What the searches of a set-up find, said on the map as the boot loader hands it over. -/

namespace Ketone.MemManager.InputMap
open Library.Align Library.Gap Acpi.Mcfg Allocator E820 MmioHole Manager Layout LowHeap RegionSearch SearchAgreement

/-- The first entry with room for the root heap behind the kernel, and the entries around it. -/
structure RootEntry (boot : Boot) (before : List E820Entry) (chosen : E820Entry) (behind : List E820Entry) : Prop where
  split : boot.map.entries = before ++ chosen :: behind
  takes : LoopTakes (kernelEnd boot.kernelSizeSectors) (rootTotal boot.size) chosen
  first : ∀ e ∈ before, ¬ LoopTakes (kernelEnd boot.kernelSizeSectors) (rootTotal boot.size) e

def rootStop (boot : Boot) (e : E820Entry) : Nat :=
  roundUp 4096 (page (kernelEnd boot.kernelSizeSectors) e + 32 + 12 * (boot.size.toNat / 512)) + boot.size.toNat

def firstPage (e : E820Entry) : Nat := roundUp 4096 e.base.toNat

/-- There is room for the low heap from the first page of the entry on, below the last byte of 4 GiB. -/
def TakesLow (boot : Boot) (e : E820Entry) : Prop :=
  e.type = E820_USABLE ∧ firstPage e + boot.lowHeapSize.toNat ≤ min e.span.hi (2 ^ 32 - 1)

instance (boot : Boot) (e : E820Entry) : Decidable (TakesLow boot e) := by
  unfold TakesLow; infer_instance

def lowCount (boot : Boot) : Nat := (boot.lowHeapSize.toNat - 4127) / 524

/-- Record and table of a low heap in this entry, and its data from the next page on. -/
def lowSpans (boot : Boot) (e : E820Entry) : List Span :=
  let table := firstPage e + 32 + 12 * lowCount boot
  [⟨firstPage e, table⟩, ⟨roundUp 4096 table, roundUp 4096 table + lowCount boot * 512⟩]

/-- What is known to be taken: the entries, of which the chosen one ends with the root heap, the end of that one
if the map has a free slot for it, and the windows of the devices. -/
def takenWindows (boot : Boot) (before : List E820Entry) (chosen : E820Entry) (behind : List E820Entry) : List Window :=
  let stop := BitVec.ofNat 64 (rootStop boot chosen)
  let known := before.map (fun e => ⟨e.base, e.stop⟩) ++ ⟨chosen.base, stop⟩ :: behind.map (fun e => ⟨e.base, e.stop⟩)
  let rest := if rootStop boot chosen < chosen.span.hi ∧ boot.map.entries.length < E820_MAX_ENTRIES then
    [⟨stop, chosen.stop⟩] else []
  known ++ rest ++ fixedWindows ++ (managerEntries boot.mcfg).map McfgEntry.window

def takenRanges (boot : Boot) (before : List E820Entry) (chosen : E820Entry) (behind : List E820Entry) : List Span :=
  ((takenWindows boot before chosen behind).filterMap clamp).take MAX_RANGES

theorem first_unique {α : Type} {P : α → Prop} {before before' behind behind' : List α} {a a' : α} (holds : P a)
    (holds' : P a') (first : ∀ other ∈ before, ¬ P other) (first' : ∀ other ∈ before', ¬ P other)
    (same : before ++ a :: behind = before' ++ a' :: behind') : before = before' ∧ a = a' ∧ behind = behind' := by
  induction before generalizing before' with
  | nil =>
    cases before' with
    | nil =>
      obtain ⟨rfl, rfl⟩ := List.cons.inj same
      exact ⟨rfl, rfl, rfl⟩
    | cons e rest =>
      obtain ⟨rfl, _⟩ := List.cons.inj same
      exact (first' _ List.mem_cons_self holds).elim
  | cons e rest ih =>
    cases before' with
    | nil =>
      obtain ⟨rfl, _⟩ := List.cons.inj same
      exact (first _ List.mem_cons_self holds').elim
    | cons e' rest' =>
      obtain ⟨rfl, tails⟩ := List.cons.inj same
      obtain ⟨rfl, others⟩ := ih (fun other member => first other (List.mem_cons_of_mem _ member))
        (fun other member => first' other (List.mem_cons_of_mem _ member)) tails
      exact ⟨rfl, others⟩

section
variable {boot : Boot} {place : boot.Place}

theorem rootEntry_of (place : boot.Place) : RootEntry boot place.before place.chosen place.behind := by
  have room := place.room
  rw [rootStart_eq] at room
  split at room
  next takes => exact ⟨place.whole, takes, fun e member => (rootStart_none_iff e).mp (place.first e member)⟩
  · simp at room

theorem rootEntry_unique {before before' behind behind' : List E820Entry} {chosen chosen' : E820Entry}
    (entry : RootEntry boot before chosen behind) (entry' : RootEntry boot before' chosen' behind') :
    before = before' ∧ chosen = chosen' ∧ behind = behind' :=
  first_unique entry.takes entry'.takes entry.first entry'.first (entry.split.symm.trans entry'.split)

theorem toNat_start (noWrap : place.chosen.NoWrap) (nonnull : place.start ≠ 0) :
    place.start.toNat = page (kernelEnd boot.kernelSizeSectors) place.chosen := by
  have room := place.room
  obtain ⟨_, _, _, _, _, _, low, _⟩ := rootStart_inside noWrap room nonnull
  obtain ⟨_, near, multiple⟩ := page_bounds (kernelEnd boot.kernelSizeSectors) place.chosen
  have base := place.chosen.base.isLt
  obtain ⟨_, small⟩ := kernelEnd_bounds boot.kernelSizeSectors
  rw [rootStart_eq] at room
  split at room
  · have start := congrArg BitVec.toNat (Option.some.inj room)
    rw [BitVec.toNat_ofNat] at start
    by_contra different
    -- the page is the one behind the last of the address space
    apply nonnull
    apply BitVec.eq_of_toNat_eq
    change _ = 0
    omega
  · simp at room

theorem toNat_heapEnd (noWrap : place.chosen.NoWrap) (nonnull : place.start ≠ 0)
    (mapped : Mapped place.start (boot.size / 512)) : (heapEnd place.start boot).toNat = rootStop boot place.chosen := by
  have inside := root_inside noWrap nonnull mapped
  have start : (rootHeap place.start boot).heap.startAddr.toNat = _ := toNat_placed _ _ mapped
  have count : (boot.size / 512).toNat = boot.size.toNat / 512 := BitVec.toNat_udiv
  rw [← inside.data, start, toNat_start noWrap nonnull, count]
  rfl

/-- The ranges that the search for the hole collects from the rewritten map. -/
theorem holeRanges_reserved (noWrap : place.chosen.NoWrap) (nonnull : place.start ≠ 0)
    (mapped : Mapped place.start (boot.size / 512)) :
    holeRanges (boot.reserved place) boot.mcfg = takenRanges boot place.before place.chosen place.behind := by
  have stop := toNat_heapEnd noWrap nonnull mapped
  have stop' : BitVec.ofNat 64 (rootStop boot place.chosen) = heapEnd place.start boot := by
    rw [← stop, BitVec.ofNat_toNat, BitVec.setWidth_eq]
  have last := E820Entry.toNat_stop noWrap
  have cutStop : (cut boot place).stop = heapEnd place.start boot := by
    unfold E820Entry.stop cut
    dsimp only
    rw [BitVec.add_comm, BitVec.sub_add_cancel]
  have restStop : (rest boot place).stop = place.chosen.stop := by
    unfold E820Entry.stop rest
    dsimp only
    rw [BitVec.add_comm, BitVec.sub_add_cancel]
    rfl
  have remains : (remainder boot place).map (fun e => (⟨e.base, e.stop⟩ : Window)) =
      if rootStop boot place.chosen < place.chosen.span.hi ∧ boot.map.entries.length < E820_MAX_ENTRIES then
        [⟨heapEnd place.start boot, place.chosen.stop⟩] else [] := by
    have beyond : place.chosen.stop > heapEnd place.start boot ↔ rootStop boot place.chosen < place.chosen.span.hi := by
      rw [gt_iff_lt, BitVec.lt_def, last, stop]
    unfold remainder
    by_cases kept : rootStop boot place.chosen < place.chosen.span.hi ∧ boot.map.entries.length < E820_MAX_ENTRIES
    · rw [if_pos kept, if_pos (kept.imp_left beyond.mpr), List.map_singleton, restStop]
      rfl
    · rw [if_neg kept, if_neg fun appended => kept (appended.imp_left beyond.mp)]
      rfl
  rw [holeRanges_eq, takenRanges, offers, takenWindows, reserved_entries]
  rw [List.map_append, List.map_append, List.map_cons, remains, cutStop, stop']
  rfl

theorem takesLow_iff {e : E820Entry} (noWrap : e.NoWrap) (enough : 32 + 0xFFF ≤ boot.lowHeapSize.toNat) :
    TakesLow boot e ↔ e.type = E820_USABLE ∧ Large boot.lowHeapSize (window 0 UINT32_MAX 0x1000 e) := by
  have page : (window 0 UINT32_MAX 0x1000 e).lo = firstPage e := congrArg (roundUp 4096) (Nat.max_zero _)
  have word : UINT64_MAX.toNat = 2 ^ 64 - 1 := rfl
  have clamped : clampedEnd e = e.span.hi := Nat.min_eq_left (by rw [word]; exact Nat.le_sub_one_of_lt noWrap)
  have stop : (window 0 UINT32_MAX 0x1000 e).hi = min e.span.hi (2 ^ 32 - 1) := by
    rw [← clamped]
    rfl
  unfold TakesLow Large
  rw [page, stop]
  exact and_congr_right fun _ => ⟨fun room => ⟨by omega, room⟩, And.right⟩

/-- The region for the low heap starts on the first page of the first entry with room for it, the one with the root
heap left out; if there is none, behind the root heap. -/
theorem region_first (straight : ∀ e ∈ boot.map.entries, e.NoWrap) (inside : RootInside boot place)
    (enough : 32 + 0xFFF ≤ boot.lowHeapSize.toNat) {region : Region}
    (found : e820FindRegion (boot.reserved place) E820_USABLE boot.lowHeapSize 0 UINT32_MAX 0x1000 = some region) :
    (∃ e, (place.before ++ place.behind).find? (TakesLow boot) = some e ∧ region.base.toNat = firstPage e) ∨
      (place.before ++ place.behind).find? (TakesLow boot) = none ∧
        (heapEnd place.start boot).toNat ≤ region.base.toNat := by
  have power : (0x1000 : BitVec 64).toNat = 2 ^ 12 := rfl
  have noWrap := straight place.chosen ((mem_map place).mpr (Or.inr rfl))
  have listed : ∀ e ∈ place.before ++ place.behind, e.NoWrap := fun e member => straight e ((mem_map place).mpr (Or.inl member))
  have served : ∀ e ∈ place.before ++ place.behind,
      regionIn E820_USABLE boot.lowHeapSize 0 UINT32_MAX 0x1000 e =
        if TakesLow boot e then some ⟨BitVec.ofNat 64 (firstPage e), BitVec.ofNat 64 (window 0 UINT32_MAX 0x1000 e).size⟩
        else none := by
    intro e member
    have page : (window 0 UINT32_MAX 0x1000 e).lo = firstPage e := congrArg (roundUp 4096) (Nat.max_zero _)
    rw [regionIn_eq power, page]
    simp only [takesLow_iff (listed e member) enough]
  have cutNone : regionIn E820_USABLE boot.lowHeapSize 0 UINT32_MAX 0x1000 (cut boot place) = none :=
    if_pos (show E820_RESERVED ≠ E820_USABLE by decide)
  rw [e820FindRegion_eq _ _ _ _ _ (show (orOne (0x1000 : BitVec 64)).toNat = 2 ^ 12 from rfl), reserved_entries] at found
  change List.findSome? (regionIn E820_USABLE boot.lowHeapSize 0 UINT32_MAX 0x1000) _ = _ at found
  have parts : (place.before ++ cut boot place :: place.behind ++ remainder boot place).findSome?
      (regionIn E820_USABLE boot.lowHeapSize 0 UINT32_MAX 0x1000) =
      ((place.before ++ place.behind).findSome? (regionIn E820_USABLE boot.lowHeapSize 0 UINT32_MAX 0x1000)).or
        ((remainder boot place).findSome? (regionIn E820_USABLE boot.lowHeapSize 0 UINT32_MAX 0x1000)) := by
    simp only [List.findSome?_append, List.findSome?_cons, cutNone]
  rw [parts] at found
  cases early : (place.before ++ place.behind).findSome? (regionIn E820_USABLE boot.lowHeapSize 0 UINT32_MAX 0x1000) with
  | some other =>
    rw [early] at found
    obtain rfl := Option.some.inj found
    obtain ⟨front, e, back, whole, offered, first⟩ := List.findSome?_eq_some_iff.mp early
    have member : e ∈ place.before ++ place.behind := by
      rw [whole]
      simp
    rw [served e member] at offered
    split at offered
    next takes =>
      obtain rfl := Option.some.inj offered
      have room := takes.2
      refine Or.inl ⟨e, ?_, ?_⟩
      · rw [List.find?_eq_some_iff_append]
        refine ⟨decide_eq_true takes, front, back, whole, fun other earlier => ?_⟩
        have skipped := first other earlier
        rw [served other (by rw [whole]; exact List.mem_append_left _ earlier)] at skipped
        split at skipped
        · simp at skipped
        next misses => simp [misses]
      · exact Nat.mod_eq_of_lt (by omega)
    · simp at offered
  | none =>
    rw [early, Option.none_or] at found
    refine Or.inr ⟨?_, ?_⟩
    · rw [List.find?_eq_none]
      intro e member takes
      have skipped := List.findSome?_eq_none_iff.mp early e member
      rw [served e member, if_pos (of_decide_eq_true takes)] at skipped
      simp at skipped
    · unfold remainder at found
      split at found
      · rw [List.findSome?_singleton] at found
        have bounds := (reported_of_regionIn power found).bounded
        rw [rest_span noWrap inside] at bounds
        exact bounds.1
      · simp at found

/-- The low heap, said by the first page of its region. -/
theorem lowHeap_areas {region : Region} {e : E820Entry} (behind : Nat → Allocation)
    (enough : 32 + 0xFFF ≤ boot.lowHeapSize.toNat) (mapped : Mapped region.base (lowBlocks boot.lowHeapSize))
    (starts : region.base.toNat = firstPage e) : (lowHeap region boot.lowHeapSize behind).areas = lowSpans boot e := by
  have count : (lowBlocks boot.lowHeapSize).toNat = lowCount boot := toNat_lowBlocks enough
  obtain ⟨total, _, _⟩ := low_layout behind enough mapped
  have start : (lowHeap region boot.lowHeapSize behind).heap.startAddr.toNat = _ :=
    toNat_placed (lowBlocks boot.lowHeapSize * 512) behind mapped
  have header : (lowHeap region boot.lowHeapSize behind).header.toNat = region.base.toNat := rfl
  have bytes : (lowHeap region boot.lowHeapSize behind).heap.maxSize.toNat = lowCount boot * 512 := by
    change (lowBlocks boot.lowHeapSize * 512).toNat = _
    have word := boot.lowHeapSize.isLt
    rw [BitVec.toNat_mul, count]
    change _ * 512 % 2 ^ 64 = _
    unfold lowCount
    omega
  unfold PlacedHeap.areas lowSpans
  rw [total, header, start, bytes, starts, count]

end

end Ketone.MemManager.InputMap
