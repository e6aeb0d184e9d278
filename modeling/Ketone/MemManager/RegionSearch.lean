import Ketone.MemManager.Manager

/-! What the search for a region reports, and where the loop that places the root heap, the same
search written a second time, reports something else. -/

namespace Ketone.MemManager.RegionSearch
open Library.Align Library.Gap E820 Manager

/-- The end of an entry as the search takes it: an end beyond the address space is its last address. -/
def clampedEnd (e : E820Entry) : Nat := min (e.base.toNat + e.length.toNat) UINT64_MAX.toNat

/-- The part of an entry the search looks at: from the first aligned address within the bounds. -/
def window (minAddr maxAddr align : BitVec 64) (e : E820Entry) : Span :=
  ⟨roundUp align.toNat (max e.base.toNat minAddr.toNat), min (clampedEnd e) maxAddr.toNat⟩

/-- An interval of the entry that starts aligned, is large enough and keeps the bounds. -/
structure Serves (type : BitVec 32) (minSize minAddr maxAddr align : BitVec 64) (e : E820Entry)
    (area : Span) : Prop where
  kind : e.type = type
  nonempty : area.lo < area.hi
  enough : minSize.toNat ≤ area.size
  entry : e.base.toNat ≤ area.lo ∧ area.hi ≤ clampedEnd e
  bounds : minAddr.toNat ≤ area.lo ∧ area.hi ≤ maxAddr.toNat
  aligned : align.toNat ∣ area.lo

def Large (minSize : BitVec 64) (area : Span) : Prop := area.lo < area.hi ∧ area.lo + minSize.toNat ≤ area.hi

instance (minSize : BitVec 64) (area : Span) : Decidable (Large minSize area) := by
  unfold Large; infer_instance

section
variable {type : BitVec 32} {minSize minAddr maxAddr align : BitVec 64} {k : Nat} {e : E820Entry}

theorem toNat_end (e : E820Entry) :
    (if e.length > UINT64_MAX - e.base then UINT64_MAX else e.base + e.length).toNat = clampedEnd e := by
  have limit : UINT64_MAX.toNat = 2 ^ 64 - 1 := rfl
  have bound := e.base.isLt
  have left : (UINT64_MAX - e.base).toNat = 2 ^ 64 - 1 - e.base.toNat := by
    rw [UINT64_MAX, BitVec.allOnes_sub_eq_not, BitVec.toNat_not]
  unfold clampedEnd
  by_cases beyond : e.length > UINT64_MAX - e.base
  · rw [if_pos beyond]
    rw [gt_iff_lt, BitVec.lt_def, left] at beyond
    omega
  · rw [if_neg beyond, BitVec.toNat_add]
    rw [gt_iff_lt, BitVec.lt_def, left] at beyond
    omega

theorem guard_iff (power : align.toNat = 2 ^ k) (start : BitVec 64) :
    start > UINT64_MAX - (align - 1) ↔ 2 ^ 64 ≤ roundUp (2 ^ k) start.toNat := by
  have width := power_le power
  have positive := Nat.two_pow_pos k
  have up := roundUp_lt (n := start.toNat) positive
  have multiple : 2 ^ k ∣ 2 ^ 64 := by
    have bound := align.isLt
    rw [power] at bound
    exact Nat.pow_dvd_pow 2 ((Nat.pow_lt_pow_iff_right (by decide)).mp bound).le
  rw [gt_iff_lt, BitVec.lt_def, UINT64_MAX, BitVec.allOnes_sub_eq_not, BitVec.toNat_not,
    toNat_pred (ne_zero_of_power power), power]
  constructor
  · intro beyond
    by_contra below
    have low := le_roundUp (n := start.toNat) positive
    have room : 2 ^ k ∣ 2 ^ 64 - roundUp (2 ^ k) start.toNat := Nat.dvd_sub multiple dvd_roundUp
    have wide := Nat.le_of_dvd (by omega) room
    have last : start.toNat + (2 ^ k - 1) < 2 ^ 64 + (2 ^ k - 1) := by omega
    unfold roundUp at below wide
    have split := Nat.div_add_mod (start.toNat + (2 ^ k - 1)) (2 ^ k)
    have small := Nat.mod_lt (start.toNat + (2 ^ k - 1)) positive
    rw [Nat.mul_comm] at split
    omega
  · intro wraps
    omega

/-- What the search reports of one entry: its window, if that is large enough. -/
theorem regionIn_eq (power : align.toNat = 2 ^ k) : regionIn type minSize minAddr maxAddr align e =
    if e.type = type ∧ Large minSize (window minAddr maxAddr align e) then
      some ⟨BitVec.ofNat 64 (window minAddr maxAddr align e).lo,
        BitVec.ofNat 64 (window minAddr maxAddr align e).size⟩
    else none := by
  unfold regionIn
  by_cases kind : e.type = type
  · rw [if_neg (not_not.mpr kind)]
    dsimp only
    generalize first : (if e.base > minAddr then e.base else minAddr) = start
    generalize whole : (if e.length > UINT64_MAX - e.base then UINT64_MAX else e.base + e.length) = last
    generalize final : (if last > maxAddr then maxAddr else last) = stop
    have low : (window minAddr maxAddr align e).lo = roundUp (2 ^ k) start.toNat := by
      rw [← first, toNat_larger, ← power]
      rfl
    have high : (window minAddr maxAddr align e).hi = stop.toNat := by
      rw [← final, toNat_smaller, ← whole, toNat_end]
      rfl
    have bound := stop.isLt
    by_cases wraps : start > UINT64_MAX - (align - 1)
    · rw [if_pos wraps, if_neg]
      rw [guard_iff power] at wraps
      rintro ⟨_, nonempty, _⟩
      omega
    · rw [if_neg wraps]
      rw [guard_iff power] at wraps
      have rounded := toNat_mask_up power start
      rw [Nat.mod_eq_of_lt (by omega)] at rounded
      by_cases empty : stop ≤ (start + align - 1) &&& ~~~(align - 1)
      · rw [if_pos empty, if_neg]
        rw [BitVec.le_def, rounded] at empty
        rintro ⟨_, nonempty, _⟩
        omega
      · have less := BitVec.le_of_lt (BitVec.not_le.mp empty)
        have size := BitVec.toNat_sub_of_le less
        rw [rounded] at size
        rw [if_neg empty]
        rw [BitVec.le_def, rounded] at empty
        by_cases short : stop - ((start + align - 1) &&& ~~~(align - 1)) < minSize
        · rw [if_pos short, if_neg]
          rw [BitVec.lt_def, size] at short
          rintro ⟨_, _, enough⟩
          omega
        · rw [if_neg short, if_pos]
          · rw [Span.size, low, high, ← rounded, BitVec.ofNat_toNat, BitVec.setWidth_eq, rounded, ← size,
              BitVec.ofNat_toNat, BitVec.setWidth_eq]
          · rw [BitVec.lt_def, size] at short
            refine ⟨kind, ?_, ?_⟩
            · omega
            · omega
  · rw [if_pos kind, if_neg (fun both => kind both.1)]

theorem window_serves (power : align.toNat = 2 ^ k) (kind : e.type = type)
    (large : Large minSize (window minAddr maxAddr align e)) :
    Serves type minSize minAddr maxAddr align e (window minAddr maxAddr align e) := by
  have positive : 0 < align.toNat := power ▸ Nat.two_pow_pos k
  have up := le_roundUp (n := max e.base.toNat minAddr.toNat) positive
  have low : (window minAddr maxAddr align e).lo = roundUp align.toNat (max e.base.toNat minAddr.toNat) := rfl
  have high : (window minAddr maxAddr align e).hi = min (clampedEnd e) maxAddr.toNat := rfl
  obtain ⟨nonempty, enough⟩ := large
  refine ⟨kind, nonempty, ?_, ⟨by omega, by omega⟩, ⟨by omega, by omega⟩, dvd_roundUp⟩
  unfold Span.size
  omega

theorem Serves.in_window {area : Span} (serves : Serves type minSize minAddr maxAddr align e area) :
    Large minSize (window minAddr maxAddr align e) ∧ (window minAddr maxAddr align e).lo ≤ area.lo := by
  obtain ⟨_, nonempty, enough, entry, bounds, aligned⟩ := serves
  have least : (window minAddr maxAddr align e).lo ≤ area.lo := roundUp_le aligned (by omega)
  have high : (window minAddr maxAddr align e).hi = min (clampedEnd e) maxAddr.toNat := rfl
  unfold Span.size at enough
  exact ⟨⟨by omega, by omega⟩, least⟩

theorem regionIn_none_iff (power : align.toNat = 2 ^ k) :
    regionIn type minSize minAddr maxAddr align e = none ↔
      ∀ area, ¬ Serves type minSize minAddr maxAddr align e area := by
  rw [regionIn_eq power]
  constructor
  · intro failed area serves
    rw [if_pos ⟨serves.kind, serves.in_window.1⟩] at failed
    simp at failed
  · intro none
    exact if_neg fun both => none _ (window_serves power both.1 both.2)

def area (region : Region) : Span := ⟨region.base.toNat, region.base.toNat + region.size.toNat⟩

/-- A report of an entry: it serves, starts at the first aligned address and goes to the clamped end. -/
structure Reported (type : BitVec 32) (minSize minAddr maxAddr align : BitVec 64) (e : E820Entry)
    (region : Region) : Prop where
  serves : Serves type minSize minAddr maxAddr align e (area region)
  least : ∀ addr, align.toNat ∣ addr → e.base.toNat ≤ addr → minAddr.toNat ≤ addr → region.base.toNat ≤ addr
  full : (area region).hi = min (clampedEnd e) maxAddr.toNat

theorem reported_of_regionIn (power : align.toNat = 2 ^ k) {region : Region}
    (found : regionIn type minSize minAddr maxAddr align e = some region) :
    Reported type minSize minAddr maxAddr align e region := by
  rw [regionIn_eq power] at found
  split at found
  next both =>
    have high : (window minAddr maxAddr align e).hi = min (clampedEnd e) maxAddr.toNat := rfl
    have bound := maxAddr.isLt
    have nonempty := both.2.1
    obtain rfl := Option.some.inj found
    have same : area ⟨BitVec.ofNat 64 (window minAddr maxAddr align e).lo,
        BitVec.ofNat 64 (window minAddr maxAddr align e).size⟩ = window minAddr maxAddr align e := by
      unfold area Span.size
      dsimp only
      rw [BitVec.toNat_ofNat, BitVec.toNat_ofNat, Nat.mod_eq_of_lt (by omega), Nat.mod_eq_of_lt (by omega),
        Nat.add_sub_cancel' nonempty.le]
    refine ⟨?_, ?_, ?_⟩
    · rw [same]
      exact window_serves power both.1 both.2
    · intro addr aligned base min
      have start := congrArg Span.lo same
      exact start.le.trans (roundUp_le aligned (by omega))
    · rw [same]
      exact high
  · simp at found

theorem Reported.bounded {region : Region} (reported : Reported type minSize minAddr maxAddr align e region) :
    e.span.lo ≤ region.base.toNat ∧ region.base.toNat + region.size.toNat ≤ e.span.hi ∧
      minSize.toNat ≤ region.size.toNat ∧ region.base.toNat + region.size.toNat ≤ maxAddr.toNat := by
  obtain ⟨_, _, enough, entry, bounds, _⟩ := reported.serves
  have clamped : clampedEnd e ≤ e.span.hi := Nat.min_le_left ..
  have size : (area region).size = region.size.toNat := Nat.add_sub_cancel_left ..
  exact ⟨entry.1, entry.2.trans clamped, enough.trans size.le, bounds.2⟩

end

theorem e820FindRegion_eq (map : E820Map) (type : BitVec 32) (minSize minAddr maxAddr : BitVec 64)
    {align : BitVec 64} {k : Nat} (power : (orOne align).toNat = 2 ^ k) :
    e820FindRegion map type minSize minAddr maxAddr align =
      map.entries.findSome? (regionIn type minSize minAddr maxAddr (orOne align)) :=
  if_neg (not_not.mpr ((and_pred_eq_zero _ (ne_zero_of_power power)).mpr ⟨k, power⟩))

theorem e820FindRegion_reported {map : E820Map} {type : BitVec 32} {minSize minAddr maxAddr align : BitVec 64}
    {k : Nat} (power : (orOne align).toNat = 2 ^ k) {region : Region}
    (found : e820FindRegion map type minSize minAddr maxAddr align = some region) :
    ∃ e ∈ map.entries, Reported type minSize minAddr maxAddr (orOne align) e region := by
  rw [e820FindRegion_eq map type minSize minAddr maxAddr power] at found
  obtain ⟨e, member, offered⟩ := List.exists_of_findSome?_eq_some found
  exact ⟨e, member, reported_of_regionIn power offered⟩

/-- Where a caller wants the report; no place is the null pointer. -/
structure Outputs where
  base : Option (BitVec 64)
  size : Option (BitVec 64)

structure SearchCall where
  found : Bool
  outputs : Outputs

def Outputs.report (outputs : Outputs) (region : Region) : Outputs :=
  ⟨outputs.base.map fun _ => region.base, outputs.size.map fun _ => region.size⟩

def searchCall (map : E820Map) (type : BitVec 32) (minSize minAddr maxAddr align : BitVec 64)
    (outputs : Outputs) : SearchCall :=
  match e820FindRegion map type minSize minAddr maxAddr align with
  | none => ⟨false, outputs⟩
  | some region => ⟨true, outputs.report region⟩

/-- The search succeeds exactly where an entry serves; it reports the first one, and else nothing. -/
theorem find_region_exact (map : E820Map) (type : BitVec 32) (minSize minAddr maxAddr align : BitVec 64)
    (power : ∃ k, (orOne align).toNat = 2 ^ k) (outputs : Outputs) :
    let call := searchCall map type minSize minAddr maxAddr align outputs
    (call.found = true ↔
      ∃ e ∈ map.entries, ∃ area, Serves type minSize minAddr maxAddr (orOne align) e area) ∧
    (call.found = true → ∃ before e behind region, map.entries = before ++ e :: behind ∧
      (∀ other ∈ before, ∀ area, ¬ Serves type minSize minAddr maxAddr (orOne align) other area) ∧
      Reported type minSize minAddr maxAddr (orOne align) e region ∧
      call.outputs = outputs.report region) ∧
    (call.found = false → call.outputs = outputs) := by
  obtain ⟨k, power⟩ := power
  unfold searchCall
  rw [e820FindRegion_eq map type minSize minAddr maxAddr power]
  dsimp only
  cases found : map.entries.findSome? (regionIn type minSize minAddr maxAddr (orOne align)) with
  | none =>
    rw [List.findSome?_eq_none_iff] at found
    refine ⟨iff_of_false Bool.false_ne_true ?_, fun impossible => (Bool.false_ne_true impossible).elim,
      fun _ => rfl⟩
    rintro ⟨e, member, area, serves⟩
    exact (regionIn_none_iff power).mp (found e member) area serves
  | some region =>
    obtain ⟨before, e, behind, whole, offered, first⟩ := List.findSome?_eq_some_iff.mp found
    have report := reported_of_regionIn power offered
    have member : e ∈ map.entries := whole ▸ List.mem_append_right _ (List.mem_cons_self ..)
    refine ⟨iff_of_true rfl ⟨e, member, area region, report.serves⟩, fun _ => ?_,
      fun impossible => (Bool.false_ne_true impossible.symm).elim⟩
    exact ⟨before, e, behind, region, whole,
      fun other earlier => (regionIn_none_iff power).mp (first other earlier), report, rfl⟩

/-- An entry whose end wraps, reserved memory, and two gigabytes behind the first megabyte. -/
def threeEntries : E820Map :=
  ⟨[⟨0xFFFFFFFFFFFFF000, 0x2000, 1, 1⟩, ⟨0x1000, 0x9E000, 2, 1⟩, ⟨0x100800, 0x7FF00000, 1, 1⟩], by decide⟩

theorem find_region_three_entries :
    (∃ region, searchCall threeEntries E820_USABLE 0x10000 0 UINT32_MAX 0x1000 ⟨some 0, none⟩ =
      ⟨true, Outputs.report ⟨some 0, none⟩ region⟩ ∧ region = ⟨0x101000, 0x7FEFF800⟩) ∧
    ∃ e ∈ threeEntries.entries, ∃ area, Serves E820_USABLE 0x10000 0 UINT32_MAX 0x1000 e area :=
  ⟨⟨_, rfl, by decide⟩,
    (find_region_exact threeEntries E820_USABLE 0x10000 0 UINT32_MAX 0x1000 ⟨12, rfl⟩ ⟨some 0, none⟩).1.mp rfl⟩

end Ketone.MemManager.RegionSearch
