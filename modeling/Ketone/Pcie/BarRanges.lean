import Ketone.MemManager.Manager
import Ketone.Pcie.Assign
import Mathlib.Data.List.Pairwise

/-! The ranges that the base address registers decode after the enumeration. The
addresses of a plan never meet each other; those the firmware chose and the bump
heap could not replace stay where they are. -/

namespace Ketone.Pcie.BarRanges
open Library Library.Gap Library.Packing Acpi.Mcfg MemManager.BumpAllocator MemManager.Manager Config Probe Assign

def firmware (ecam : Ecam) (entries : List McfgEntry) : List BarRecord :=
  records ((responding ecam entries).map (deviceAt ecam))

/-- Each record with its place when all requests are laid out in the hole. -/
def laidOut (hole : Span) (all : List BarRecord) : List (BarRecord × Option Nat) :=
  all.zip ((layOut hole.hi hole.lo (all.map BarRecord.request)).map nonnull)

def MemoryApart (all : List BarRecord) : Prop :=
  all.Pairwise fun a b => a.Memory → b.Memory → Span.Apart a.range b.range

instance (all : List BarRecord) : Decidable (MemoryApart all) := by
  unfold MemoryApart; infer_instance

def settled (planned : BarRecord × Option Nat) : Span :=
  ⟨planned.2.getD planned.1.base.toNat, planned.2.getD planned.1.base.toNat + planned.1.barSize.toNat⟩

/-- The firmware range of every memory register that finds no room in the hole is apart from the
places laid out for the other memory registers. -/
def KeptApart (hole : Span) (all : List BarRecord) : Prop :=
  ∀ kept ∈ laidOut hole all, ∀ served ∈ laidOut hole all, kept.1.Memory → kept.2 = none →
    served.1.Memory → served.2 ≠ none → Span.Apart kept.1.range (settled served)

def PortsUnserved (hole : Span) (all : List BarRecord) : Prop :=
  ∀ planned ∈ laidOut hole all, planned.1.Port → planned.2 = none

instance (hole : Span) (all : List BarRecord) : Decidable (KeptApart hole all) := by
  unfold KeptApart; infer_instance

instance (hole : Span) (all : List BarRecord) : Decidable (PortsUnserved hole all) := by
  unfold PortsUnserved; infer_instance

section
variable {hole : Span} {fresh : Fresh} {ecam : Ecam} {entries : List McfgEntry} {result : Enumerated}

def planned (hole : Span) (all : List BarRecord) : List (BarRecord × Option (BitVec 64)) :=
  all.zip (plan bumpAllocAligned (bumpHeap hole) all).1

theorem laidOut_eq (le : hole.lo ≤ hole.hi) (below : hole.hi ≤ 2 ^ 32) (all : List BarRecord) :
    laidOut hole all = (planned hole all).map (Prod.map id (Option.map BitVec.toNat)) := by
  obtain ⟨within, next, _, stop⟩ := bumpHeap_within le below
  have same := plan_layOut within all
  rw [stop, next] at same
  rw [laidOut, ← same, planned, List.zip_map_right]

theorem records_result (done : pcieGetDevices bumpAllocAligned fresh ecam entries (bumpHeap hole) = .ok result) :
    records result.devices = (planned hole (firmware ecam entries)).map (fun p => p.1.moved p.2) ∧
      result.reported = (planned hole (firmware ecam entries)).filterMap
        fun p => p.2.map (Moved.mk p.1) := by
  obtain ⟨same, found⟩ := enumerate_found fresh ecam entries
  unfold pcieGetDevices at done
  dsimp only at done
  rw [same, found] at done
  obtain ⟨moved, reported, _⟩ := assignAll_records done
  refine ⟨?_, reported⟩
  rw [moved, planned, List.map_zip_eq_zipWith]
  rfl

theorem records_zip (done : pcieGetDevices bumpAllocAligned fresh ecam entries (bumpHeap hole) = .ok result) :
    (firmware ecam entries).zip (records result.devices) =
      (planned hole (firmware ecam entries)).map fun p => (p.1, p.1.moved p.2) := by
  have firsts : (planned hole (firmware ecam entries)).map Prod.fst = firmware ecam entries :=
    List.map_fst_zip (by rw [plan_length])
  calc
    _ = ((planned hole (firmware ecam entries)).map Prod.fst).zip
        ((planned hole (firmware ecam entries)).map fun p => p.1.moved p.2) := by
      rw [firsts, (records_result done).1]
    _ = _ := List.zip_map' ..

theorem moved_range (record : BarRecord) (place : Option (BitVec 64)) :
    (record.moved place).range = settled (record, place.map BitVec.toNat) := by
  cases place <;> rfl

theorem moved_memory (record : BarRecord) (place : Option (BitVec 64)) :
    (record.moved place).Memory ↔ record.Memory := by
  cases place <;> rfl

def SettledApart (a b : BarRecord × Option Nat) : Prop :=
  a.1.Memory → b.1.Memory → Span.Apart (settled a) (settled b)

instance : Std.Symm SettledApart := ⟨fun _ _ apart memory memory' => (apart memory' memory).symm⟩

theorem memoryApart_result (le : hole.lo ≤ hole.hi) (below : hole.hi ≤ 2 ^ 32)
    (done : pcieGetDevices bumpAllocAligned fresh ecam entries (bumpHeap hole) = .ok result) :
    MemoryApart (records result.devices) ↔ (laidOut hole (firmware ecam entries)).Pairwise SettledApart := by
  rw [MemoryApart, (records_result done).1, laidOut_eq le below, List.pairwise_map, List.pairwise_map]
  simp only [moved_memory, moved_range, SettledApart]
  rfl

theorem laidOut_records (all : List BarRecord) : (laidOut hole all).map Prod.fst = all :=
  List.map_fst_zip (by rw [List.length_map, layOut_length, List.length_map])

theorem served_apart (all : List BarRecord) : (laidOut hole all).Pairwise fun a b =>
    a.2 ≠ none → b.2 ≠ none → SettledApart a b := by
  have sorted := @layOut_sorted hole.hi hole.lo (all.map BarRecord.request)
  rw [List.zip_map_left, List.pairwise_map] at sorted
  rw [laidOut, List.zip_map_right, List.pairwise_map]
  refine sorted.imp ?_
  rintro ⟨a, low⟩ ⟨b, high⟩ ordered served served' memory memory'
  have size : a.request = a.barSize.toNat := if_pos memory.1
  cases low with
  | none => simp [nonnull] at served
  | some low =>
    cases high with
    | none => simp [nonnull] at served'
    | some high =>
      have behind : low + a.request ≤ high := ordered low high rfl rfl
      simp only [Prod.map, id, nonnull, Option.filter] at served served' ⊢
      split at served
      · split at served'
        next first second =>
          rw [if_pos first, if_pos second, Span.apart_iff]
          simp only [settled, Option.getD_some] at behind ⊢
          omega
        · simp at served'
      · simp at served

/-- With the firmware ranges apart, what is kept can only meet what is served. -/
theorem settled_apart_iff {all : List BarRecord} (apart : MemoryApart all) :
    (laidOut hole all).Pairwise SettledApart ↔ KeptApart hole all := by
  constructor
  · intro settled kept left served right memory none memory' some
    have different : kept ≠ served := by
      rintro rfl
      exact some none
    have clear := settled.forall left right different memory memory'
    have same : BarRanges.settled kept = kept.1.range := by
      unfold BarRanges.settled BarRecord.range
      rw [none, Option.getD_none]
    rwa [same] at clear
  · intro clear
    have original : (laidOut hole all).Pairwise fun a b => a.1.Memory → b.1.Memory →
        Span.Apart a.1.range b.1.range := by
      have both : ((laidOut hole all).map Prod.fst).Pairwise fun a b => a.Memory → b.Memory →
          Span.Apart a.range b.range := (@laidOut_records hole all).symm ▸ apart
      exact List.pairwise_map.mp both
    refine (original.and (served_apart all)).imp_of_mem ?_
    rintro a b left right ⟨firm, placed⟩ memory memory'
    have stays : ∀ p : BarRecord × Option Nat, p.2 = none → settled p = p.1.range := by
      intro p none
      unfold settled BarRecord.range
      rw [none, Option.getD_none]
    by_cases first : a.2 = none
    · by_cases second : b.2 = none
      · rw [stays a first, stays b second]
        exact firm memory memory'
      · rw [stays a first]
        exact clear a left b right memory first memory' second
    · by_cases second : b.2 = none
      · rw [stays b second]
        exact (clear b right a left memory' second memory first).symm
      · exact placed first second memory memory'

end

/-- For every hole and every set of functions whose firmware ranges are apart: when the
enumeration returns, the memory registers decode disjoint ranges exactly when the ranges
that were kept are apart from those laid out. -/
theorem bars_apart_iff (hole : Span) (le : hole.lo ≤ hole.hi) (below : hole.hi ≤ 2 ^ 32) (fresh : Fresh)
    (ecam : Ecam) (entries : List McfgEntry) (apart : MemoryApart (firmware ecam entries))
    (result : Enumerated)
    (done : pcieGetDevices bumpAllocAligned fresh ecam entries (bumpHeap hole) = .ok result) :
    MemoryApart (records result.devices) ↔ KeptApart hole (firmware ecam entries) := by
  rw [memoryApart_result le below done, settled_apart_iff apart]

/-! A function of two memory registers: 4 KiB at `0xF0000000` and 1 MiB at `0xE0000000`. -/

def blank : Device :=
  ⟨0, 0, 0, 0, 0, 0, 0, 0, 0, 0, fun _ => ⟨false, false, false, false, 0, 0⟩, ⟨0, 0, 0, 0, 0⟩⟩

def oneBus : List McfgEntry := [⟨0xB0000000, 0, 0, 0, 0⟩]

/-- A single function at `00:00.0` with the given registers and write masks. -/
def oneFunction (value writable : Nat → BitVec 32) : Ecam := fun addr =>
  if addr = 0xB0000000 then some ⟨value, writable⟩ else none

def twoBars : Ecam := oneFunction
  (fun k => if k = 0 then 0x12345678 else if k = 4 then 0xF0000000 else if k = 5 then 0xE0000000 else 0)
  (fun k => if k = 1 then 0xFFFF else if k = 4 then 0xFFFFF000 else if k = 5 then 0xFFF00000 else 0)

/-- A run that returns, with a property of what it returns. -/
inductive ReturnsWith (post : Enumerated → Prop) : Except String Enumerated → Prop where
  | ok {result : Enumerated} (holds : post result) : ReturnsWith post (.ok result)

instance (post : Enumerated → Prop) [DecidablePred post] (outcome : Except String Enumerated) :
    Decidable (ReturnsWith post outcome) :=
  match outcome with
  | .ok result => decidable_of_iff (post result) ⟨ReturnsWith.ok, fun | .ok holds => holds⟩
  | .error _ => isFalse nofun

theorem ReturnsWith.exists {outcome : Except String Enumerated} {post : Enumerated → Prop}
    (returns : ReturnsWith post outcome) : ∃ result, outcome = .ok result ∧ post result := by
  cases returns with
  | ok holds => exact ⟨_, rfl, holds⟩

/-- In a hole of 1 MiB the small register takes the place where the large one, for which no room is
left, stays. -/
theorem kept_bar_meets_served_bar : MemoryApart (firmware twoBars oneBus) ∧
    ∃ result, pcieGetDevices bumpAllocAligned (fun _ _ => blank) twoBars oneBus
      (bumpHeap ⟨0xE0000000, 0xE0100000⟩) = .ok result ∧ ¬ MemoryApart (records result.devices) := by
  refine ⟨by decide +kernel, ReturnsWith.exists ?_⟩
  decide +kernel

/-- In a hole of 2 MiB both find room. -/
theorem bars_apart_two_bars : ∃ result, pcieGetDevices bumpAllocAligned (fun _ _ => blank) twoBars oneBus
      (bumpHeap ⟨0xE0000000, 0xE0200000⟩) = .ok result ∧ MemoryApart (records result.devices) := by
  have returns : ReturnsWith (fun _ => True) (pcieGetDevices bumpAllocAligned (fun _ _ => blank) twoBars
      oneBus (bumpHeap ⟨0xE0000000, 0xE0200000⟩)) := by decide +kernel
  obtain ⟨result, done, _⟩ := returns.exists
  exact ⟨result, done, (bars_apart_iff ⟨0xE0000000, 0xE0200000⟩ (by decide) (by decide) _ twoBars oneBus
    (by decide +kernel) result done).mpr (by decide +kernel)⟩

/-- Ports are programmed by the firmware alone: no remap is of a port register, and a port
register the firmware placed in the port space still is. -/
structure PortsKept (before : List BarRecord) (result : Enumerated) : Prop where
  never : ∀ report ∈ result.reported, ¬ report.record.Port
  placed : ∀ pair ∈ before.zip (records result.devices), pair.1.Port → pair.1.range.hi ≤ 0x10000 →
    pair.2.range.hi ≤ 0x10000

/-- For every hole and every set of functions with which the scan returns, port registers are left to
the firmware exactly when none of them finds room in the hole. A run that halts is left out. -/
theorem ports_kept_iff (hole : Span) (le : hole.lo ≤ hole.hi) (below : hole.hi ≤ 2 ^ 32) (fresh : Fresh)
    (ecam : Ecam) (entries : List McfgEntry) (result : Enumerated)
    (done : pcieGetDevices bumpAllocAligned fresh ecam entries (bumpHeap hole) = .ok result) :
    PortsKept (firmware ecam entries) result ↔ PortsUnserved hole (firmware ecam entries) := by
  obtain ⟨_, reported⟩ := records_result done
  unfold PortsUnserved
  rw [laidOut_eq le below]
  constructor
  · rintro ⟨never, _⟩ _ member port
    obtain ⟨p, listed, rfl⟩ := List.mem_map.mp member
    cases place : p.2 with
    | none => simp [place]
    | some newBase =>
      have report : Moved.mk p.1 newBase ∈ result.reported := by
        rw [reported]
        exact List.mem_filterMap.mpr ⟨p, listed, by rw [place]; rfl⟩
      exact absurd port (never _ report)
  · intro unserved
    have none : ∀ p ∈ planned hole (firmware ecam entries), p.1.Port → p.2 = none := by
      intro p listed port
      have empty := unserved _ (List.mem_map_of_mem listed) port
      exact Option.map_eq_none_iff.mp empty
    refine ⟨?_, ?_⟩
    · intro report member port
      rw [reported] at member
      obtain ⟨p, listed, given⟩ := List.mem_filterMap.mp member
      obtain ⟨newBase, place, rfl⟩ := Option.map_eq_some_iff.mp given
      rw [none p listed port] at place
      simp at place
    · rintro pair member port inside
      rw [records_zip done] at member
      obtain ⟨p, listed, rfl⟩ := List.mem_map.mp member
      dsimp only at port inside ⊢
      rw [none p listed port]
      exact inside

/-- One port register of 32 ports at `0xC000`. -/
def onePort : Ecam := oneFunction
  (fun k => if k = 0 then 0x12345678 else if k = 4 then 0xC001 else 0)
  (fun k => if k = 1 then 0xFFFF else if k = 4 then 0xFFFFFFE0 else 0)

instance (before : List BarRecord) (result : Enumerated) : Decidable (PortsKept before result) :=
  decidable_of_iff ((∀ report ∈ result.reported, ¬ report.record.Port) ∧
      ∀ pair ∈ before.zip (records result.devices), pair.1.Port → pair.1.range.hi ≤ 0x10000 →
        pair.2.range.hi ≤ 0x10000)
    ⟨fun both => ⟨both.1, both.2⟩, fun kept => ⟨kept.never, kept.placed⟩⟩

/-- The port register is moved to `0xE0000000`. -/
theorem port_moved_into_hole : ∃ result, pcieGetDevices bumpAllocAligned (fun _ _ => blank) onePort oneBus
      (bumpHeap ⟨0xE0000000, 0xE0100000⟩) = .ok result ∧
      ¬ PortsKept (firmware onePort oneBus) result := by
  refine ReturnsWith.exists ?_
  decide +kernel

/-- A memory register that fills a hole of 1 MiB, and a register of 32 ports at `0xC000` behind it. -/
def portBehindMemory : Ecam := oneFunction
  (fun k => if k = 0 then 0x12345678 else if k = 4 then 0xF0000000 else if k = 5 then 0xC001 else 0)
  (fun k => if k = 1 then 0xFFFF else if k = 4 then 0xFFF00000 else if k = 5 then 0xFFFFFFE0 else 0)

/-- The memory register takes the whole hole, and the port register stays. -/
theorem ports_kept_full_hole : ∃ result, pcieGetDevices bumpAllocAligned (fun _ _ => blank) portBehindMemory oneBus
      (bumpHeap ⟨0xE0000000, 0xE0100000⟩) = .ok result ∧
    ((records result.devices).filter (·.isValid)).map (·.range) = [⟨0xE0000000, 0xE0100000⟩, ⟨0xC000, 0xC020⟩] ∧
    PortsKept (firmware portBehindMemory oneBus) result := by
  have returns : ReturnsWith (fun result => ((records result.devices).filter (·.isValid)).map (·.range) =
        [⟨0xE0000000, 0xE0100000⟩, ⟨0xC000, 0xC020⟩])
      (pcieGetDevices bumpAllocAligned (fun _ _ => blank) portBehindMemory oneBus
        (bumpHeap ⟨0xE0000000, 0xE0100000⟩)) := by decide +kernel
  obtain ⟨result, done, places⟩ := returns.exists
  exact ⟨result, done, places, (ports_kept_iff ⟨0xE0000000, 0xE0100000⟩ (by decide) (by decide) _ portBehindMemory oneBus
    result done).mpr (by decide +kernel)⟩

end Ketone.Pcie.BarRanges
