import Ketone.MemManager.HoleCoverage
import Ketone.Pcie.Probe

/-! The two readers of the MCFG table. The driver skips the eight reserved bytes behind the
header, the memory manager does not, so it sees each entry eight bytes early: the end of the
entry before as the base address, two bytes of the base address as the bus numbers. -/

namespace Ketone.Pcie.EcamWindows
open Library.Bytes Library.Gap Acpi.Mcfg MemManager.E820 MemManager.MmioHole MemManager.HoleCoverage Config Probe

/-- The accesses to one function during the enumeration, as offsets and widths: id, command, class
and the base address registers with the one behind each. -/
def accesses : List (Nat × Nat) :=
  [(0x00, 4), (0x04, 2), (0x08, 4)] ++
    (List.range 6).flatMap fun bar => [(barOffset bar, 4), (barOffset bar + 4, 4)]

def Touched (entries : List McfgEntry) (addr : BitVec 64) : Prop :=
  ∃ slot ∈ slots entries, ∃ access ∈ accesses, ∃ i < access.2,
    addr = slot.addr (BitVec.ofNat 16 access.1) + BitVec.ofNat 64 i

def byteAt (addr : BitVec 64) : Span := ⟨addr.toNat, addr.toNat + 1⟩

/-- Both read the same windows, and the hole stays clear of what the enumeration touches. -/
structure SameTable (map : E820Map) (table : Table) : Prop where
  windows : (managerEntries table).map McfgEntry.window = (pcieInit table).map McfgEntry.window
  clear : ∀ hole, findMmioHole map table = some hole → ∀ addr, Touched (pcieInit table) addr →
    addr.toNat < 2 ^ 32 → Span.Apart hole (byteAt addr)

/-- How many entries the length leaves room for behind header and reserved bytes. -/
def room (table : Table) : Nat := ((length table).toNat - 44) / entrySize

def entry (table : Table) (i : Nat) : McfgEntry := entryAt table (44 + entrySize * i)

def before (table : Table) : Nat → BitVec 64
  | 0 => field 64 table 36
  | i + 1 => (entry table i).tail

def early (base : BitVec 64) (entry : McfgEntry) : Window :=
  ⟨base + ((entry.baseAddress.extractLsb' 16 8).setWidth 64 <<< 20),
    base + (((entry.baseAddress.extractLsb' 24 8).setWidth 64 + 1) <<< 20)⟩

/-- The ranges that find room in the list, if the driver's entries are offered to it. -/
def listed (map : E820Map) (table : Table) : List Span :=
  ((map.entries.map (fun e : E820Entry => (⟨e.base, e.stop⟩ : Window)) ++ fixedWindows ++
    (List.range (room table)).map fun i => (entry table i).window).filterMap clamp).take MAX_RANGES

/-- No entry more fits between the two headers, an entry read eight bytes early has the same window, and
what is touched outside the listed ranges is not in their largest gap. -/
structure ReadsAlike (map : E820Map) (table : Table) : Prop where
  count : ((length table).toNat - 44) % entrySize < 8
  fields : ∀ i < room table, early (before table i) (entry table i) = (entry table i).window
  gaps : ∀ addr, Touched ((List.range (room table)).map (entry table)) addr → addr.toNat < 2 ^ 32 →
    (∀ range ∈ listed map table, Span.Apart range (byteAt addr)) →
    Shadowed (2 ^ 32) (listed map table) (byteAt addr)

section
variable {map : E820Map} {table : Table}

theorem pcieInit_eq (header : 44 ≤ (length table).toNat) :
    pcieInit table = (List.range (room table)).map (entry table) := by
  have bound := (length table).isLt
  have less : (length table - 44).toNat = (length table).toNat - 44 :=
    BitVec.toNat_sub_of_le (by rw [BitVec.le_def]; exact header)
  have count : (((length table - 44).setWidth 64 / BitVec.ofNat 64 entrySize).setWidth 32).toNat = room table := by
    have size : (BitVec.ofNat 64 entrySize).toNat = 16 := rfl
    rw [BitVec.toNat_setWidth, BitVec.toNat_udiv, BitVec.toNat_setWidth, less, size,
      Nat.mod_eq_of_lt (show (length table).toNat - 44 < 2 ^ 64 by omega)]
    unfold room entrySize
    omega
  unfold pcieInit entriesAt
  dsimp only
  rw [count]
  rfl

theorem managerEntries_eq (header : 44 ≤ (length table).toNat) :
    managerEntries table =
      (List.range (((length table).toNat - 36) / entrySize)).map fun i => entryAt table (36 + entrySize * i) := by
  have bound := (length table).isLt
  have wide : ((length table).setWidth 64).toNat = (length table).toNat := by
    rw [BitVec.toNat_setWidth]
    omega
  have less : ((length table).setWidth 64 - BitVec.ofNat 64 sizeofRsdtHeader).toNat = (length table).toNat - 36 := by
    have size : (BitVec.ofNat 64 sizeofRsdtHeader).toNat = 36 := rfl
    rw [BitVec.toNat_sub_of_le (by rw [BitVec.le_def, wide, size]; omega), wide, size]
  have count : ((((length table).setWidth 64 - BitVec.ofNat 64 sizeofRsdtHeader) /
      BitVec.ofNat 64 entrySize).setWidth 32).toNat = ((length table).toNat - 36) / entrySize := by
    have size : (BitVec.ofNat 64 entrySize).toNat = 16 := rfl
    rw [BitVec.toNat_setWidth, BitVec.toNat_udiv, less, size]
    unfold entrySize
    omega
  unfold managerEntries entriesAt
  dsimp only
  rw [count]
  rfl

theorem early_window (i : Nat) :
    (entryAt table (36 + entrySize * i)).window = early (before table i) (entry table i) := by
  have base : field 64 table (36 + entrySize * i) = before table i := by
    cases i with
    | zero => rfl
    | succ i =>
      have shift : 36 + entrySize * (i + 1) = 44 + entrySize * i + 8 := by
        unfold entrySize
        omega
      rw [shift, field_tail]
      rfl
  have byte : ∀ k, k < 8 → field 8 table (36 + entrySize * i + (8 + k)) =
      (entry table i).baseAddress.extractLsb' (8 * k) 8 := by
    intro k inside
    have shift : 36 + entrySize * i + (8 + k) = 44 + entrySize * i + k := by omega
    rw [field_eight, shift, field_byte table _ k inside]
    rfl
  unfold McfgEntry.window early
  dsimp only [entryAt]
  rw [base, ← byte 2 (by decide), ← byte 3 (by decide)]

theorem windows_iff (header : 44 ≤ (length table).toNat) :
    (managerEntries table).map McfgEntry.window = (pcieInit table).map McfgEntry.window ↔
      ((length table).toNat - 44) % entrySize < 8 ∧
        ∀ i < room table, early (before table i) (entry table i) = (entry table i).window := by
  rw [pcieInit_eq header, managerEntries_eq header, List.map_map, List.map_map]
  have count : ((length table).toNat - 44) % entrySize < 8 ↔
      ((length table).toNat - 36) / entrySize = room table := by
    unfold room entrySize
    omega
  rw [count]
  constructor
  · intro same
    have lengths : ((length table).toNat - 36) / entrySize = room table := by
      simpa using congrArg List.length same
    refine ⟨lengths, ?_⟩
    intro i below
    rw [lengths] at same
    have at_i := List.map_inj_left.mp same i (List.mem_range.mpr below)
    rw [← early_window]
    exact at_i
  · rintro ⟨lengths, fields⟩
    rw [lengths]
    apply List.map_congr_left
    intro i member
    exact (early_window i).trans (fields i (List.mem_range.mp member))

theorem holeRanges_listed (header : 44 ≤ (length table).toNat)
    (same : (managerEntries table).map McfgEntry.window = (pcieInit table).map McfgEntry.window) :
    holeRanges map table = listed map table := by
  rw [holeRanges_eq, offers, same, pcieInit_eq header, List.map_map]
  rfl

end

/-- For every memory map and every table whose length covers the header and the reserved bytes. -/
theorem same_table_iff (map : E820Map) (table : Table) (header : 44 ≤ (length table).toNat) :
    SameTable map table ↔ ReadsAlike map table := by
  constructor
  · rintro ⟨windows, clear⟩
    obtain ⟨count, fields⟩ := (windows_iff header).mp windows
    refine ⟨count, fields, ?_⟩
    intro addr touched below _
    rw [← holeRanges_listed header windows]
    rw [← pcieInit_eq header] at touched
    cases found : findMmioHole map table with
    | none => exact fun gap free _ => absurd free (hole_none found gap)
    | some hole => exact (hole_largest found).apart_iff_shadowed _ |>.mp (clear hole found addr touched below)
  · rintro ⟨count, fields, gaps⟩
    have windows := (windows_iff header).mpr ⟨count, fields⟩
    refine ⟨windows, ?_⟩
    intro hole found addr touched below
    have largest := hole_largest found
    rw [holeRanges_listed header windows] at largest
    rw [pcieInit_eq header] at touched
    by_cases outside : ∀ range ∈ listed map table, Span.Apart range (byteAt addr)
    · exact (largest.apart_iff_shadowed _).mpr (gaps addr touched below outside)
    · push Not at outside
      obtain ⟨range, member, meets⟩ := outside
      rw [Span.apart_iff] at meets
      unfold byteAt at meets ⊢
      dsimp only at meets
      exact (largest.apart_iff_shadowed _).mpr (Shadowed.of_mem member (by dsimp only; omega) (by dsimp only; omega))

def Straight (entry : McfgEntry) : Prop :=
  entry.baseAddress.toNat + (entry.endBus.toNat + 1) * 2 ^ 20 < 2 ^ 64

section
variable {entries : List McfgEntry} {addr : BitVec 64}

theorem mem_slots {slot : Slot} (member : slot ∈ slots entries) :
    slot.entry ∈ entries ∧ slot.entry.startBus.toNat ≤ slot.bus.toNat ∧
      slot.bus.toNat ≤ slot.entry.endBus.toNat ∧ slot.device.toNat < 32 ∧ slot.function.toNat < 8 := by
  obtain ⟨entry, listed, member⟩ := List.mem_flatMap.mp member
  obtain ⟨bus, scanned, member⟩ := List.mem_flatMap.mp member
  obtain ⟨device, below, member⟩ := List.mem_flatMap.mp member
  obtain ⟨function, below', rfl⟩ := List.mem_map.mp member
  obtain ⟨b, range, rfl⟩ := List.mem_map.mp scanned
  rw [List.mem_range] at below below'
  rw [List.mem_range'_1] at range
  have last := entry.endBus.isLt
  refine ⟨listed, ?_⟩
  simp only [BitVec.toNat_ofNat]
  omega

theorem accesses_bounded {access : Nat × Nat} (member : access ∈ accesses) : access.1 + access.2 ≤ 0x2C := by
  revert access
  decide

theorem toNat_window {entry : McfgEntry} (straight : Straight entry)
    (first : entry.startBus.toNat ≤ entry.endBus.toNat) :
    entry.window.base.toNat = entry.baseAddress.toNat + entry.startBus.toNat * 2 ^ 20 ∧
      entry.window.stop.toNat = entry.baseAddress.toNat + (entry.endBus.toNat + 1) * 2 ^ 20 := by
  unfold Straight at straight
  have below : entry.baseAddress.toNat + entry.startBus.toNat * 2 ^ 20 < 2 ^ 64 := by
    have scaled := Nat.mul_le_mul_right (2 ^ 20) first
    grind
  have start : (entry.startBus.setWidth 64).toNat = entry.startBus.toNat := BitVec.toNat_setWidth_of_le (by decide)
  have last : (entry.endBus.setWidth 64).toNat = entry.endBus.toNat := BitVec.toNat_setWidth_of_le (by decide)
  have bound := entry.endBus.isLt
  have next : (entry.endBus.setWidth 64 + 1).toNat = entry.endBus.toNat + 1 := by
    rw [BitVec.toNat_add, last]
    apply Nat.mod_eq_of_lt
    change _ + 1 < _
    omega
  unfold McfgEntry.window
  dsimp only
  constructor
  · rw [toNat_add_shift entry.baseAddress _ 20 (by rw [start]; exact below), start]
  · rw [toNat_add_shift entry.baseAddress _ 20 (by rw [next]; exact straight), next]

theorem toNat_addr {slot : Slot} {offset : BitVec 16} (straight : slot.entry.baseAddress.toNat +
      slot.bus.toNat * 2 ^ 20 + slot.device.toNat * 2 ^ 15 + slot.function.toNat * 2 ^ 12 + offset.toNat < 2 ^ 64) :
    (slot.addr offset).toNat = slot.entry.baseAddress.toNat + slot.bus.toNat * 2 ^ 20 +
      slot.device.toNat * 2 ^ 15 + slot.function.toNat * 2 ^ 12 + offset.toNat := by
  have bus : (slot.bus.setWidth 64).toNat = slot.bus.toNat := BitVec.toNat_setWidth_of_le (by decide)
  have device : (slot.device.setWidth 64).toNat = slot.device.toNat := BitVec.toNat_setWidth_of_le (by decide)
  have function : (slot.function.setWidth 64).toNat = slot.function.toNat := BitVec.toNat_setWidth_of_le (by decide)
  have low : (offset.setWidth 64).toNat = offset.toNat := BitVec.toNat_setWidth_of_le (by decide)
  unfold Slot.addr pcieConfigAddr
  generalize slot.bus.setWidth 64 = bus64 at bus ⊢
  generalize slot.device.setWidth 64 = device64 at device ⊢
  generalize slot.function.setWidth 64 = function64 at function ⊢
  rw [← bus, ← device, ← function] at straight ⊢
  have first := toNat_add_shift slot.entry.baseAddress bus64 20 (by omega)
  have second := toNat_add_shift (slot.entry.baseAddress + (bus64 <<< 20)) device64 15 (by omega)
  have third := toNat_add_shift (slot.entry.baseAddress + (bus64 <<< 20) + (device64 <<< 15)) function64 12
    (by omega)
  rw [BitVec.toNat_add, third, second, first, low]
  exact Nat.mod_eq_of_lt straight

/-- What is touched lies inside the window of an entry. -/
theorem touched_inside (straight : ∀ entry ∈ entries, Straight entry) (touched : Touched entries addr) :
    ∃ entry ∈ entries, entry.window.base.toNat ≤ addr.toNat ∧ addr.toNat < entry.window.stop.toNat := by
  obtain ⟨slot, member, access, listed, i, inside, rfl⟩ := touched
  obtain ⟨known, first, last, device, function⟩ := mem_slots member
  have bytes := accesses_bounded listed
  have whole := straight slot.entry known
  obtain ⟨base, stop⟩ := toNat_window whole (first.trans last)
  unfold Straight at whole
  rw [Nat.add_one_mul] at whole stop
  have offset : (BitVec.ofNat 16 access.1).toNat = access.1 := by
    rw [BitVec.toNat_ofNat]
    apply Nat.mod_eq_of_lt
    omega
  have place := @toNat_addr slot (BitVec.ofNat 16 access.1) (by rw [offset]; omega)
  have byte : (slot.addr (BitVec.ofNat 16 access.1) + BitVec.ofNat 64 i).toNat =
      (slot.addr (BitVec.ofNat 16 access.1)).toNat + i := by
    rw [BitVec.toNat_add, BitVec.toNat_ofNat, Nat.mod_eq_of_lt (show i < 2 ^ 64 by omega)]
    apply Nat.mod_eq_of_lt
    rw [place, offset]
    omega
  refine ⟨slot.entry, known, ?_⟩
  rw [byte, place, offset, base, stop]
  omega

end

theorem gaps_of_few {map : E820Map} {table : Table} (few : room table ≤ 4)
    (straight : ∀ i < room table, Straight (entry table i)) (addr : BitVec 64)
    (touched : Touched ((List.range (room table)).map (entry table)) addr) (below : addr.toNat < 2 ^ 32) :
    ¬ ∀ range ∈ listed map table, Span.Apart range (byteAt addr) := by
  intro outside
  have limit : FOUR_GIB.toNat = 2 ^ 32 := rfl
  obtain ⟨e, member, lower, upper⟩ := touched_inside (by
    intro e member
    obtain ⟨i, small, rfl⟩ := List.mem_map.mp member
    exact straight i (List.mem_range.mp small)) touched
  obtain ⟨i, small, rfl⟩ := List.mem_map.mp member
  have kept : clamp (entry table i).window =
      some ⟨(entry table i).window.base.toNat, min (entry table i).window.stop.toNat FOUR_GIB.toNat⟩ := by
    unfold clamp
    rw [if_neg]
    rw [not_or, ge_iff_le, BitVec.le_def, BitVec.le_def, limit]
    omega
  have count := map.count_le
  have held : (⟨(entry table i).window.base.toNat,
      min (entry table i).window.stop.toNat FOUR_GIB.toNat⟩ : Span) ∈ listed map table := by
    unfold listed
    rw [List.take_of_length_le]
    · refine List.mem_filterMap.mpr ⟨(entry table i).window, ?_, kept⟩
      exact List.mem_append_right _ (List.mem_map.mpr ⟨i, small, rfl⟩)
    · apply (List.length_filterMap_le _ _).trans
      rw [List.length_append, List.length_append, List.length_map, List.length_map, List.length_range]
      have fixed : fixedWindows.length = 4 := rfl
      unfold MAX_RANGES
      omega
  have apart := outside _ held
  rw [Span.apart_iff, limit] at apart
  unfold byteAt at apart
  dsimp only at apart
  omega

/-! A table of one entry that starts at bus 0, with some of its bytes. -/

def oneEntry (reserved base endBus : BitVec 8) : Table := fun k =>
  if k = 4 then 60 else if k = 39 then reserved else if k = 47 then base else if k = 55 then endBus else 0

/-- The window at `0xB0000000` is taken for one at address 0, and the hole covers it. -/
theorem hole_covers_ecam : ¬ SameTable shortBoot.map (oneEntry 0 0xB0 0xFF) ∧
    findMmioHole shortBoot.map (oneEntry 0 0xB0 0xFF) = some ⟨0x80000000, 0xFEC00000⟩ ∧
    Touched (pcieInit (oneEntry 0 0xB0 0xFF)) 0xB0000000 := by
  refine ⟨?_, by decide +kernel, ?_⟩
  · rintro ⟨windows, _⟩
    revert windows
    decide +kernel
  · exact ⟨⟨entryAt (oneEntry 0 0xB0 0xFF) 44, 0, 0, 0⟩, by decide +kernel, (0, 4), by decide, 0, by decide,
      by decide +kernel⟩

/-- An entry that the reserved bytes before it happen to repeat. -/
theorem same_table_repeated : SameTable shortBoot.map (oneEntry 0xE0 0xE0 0xE0) := by
  refine (same_table_iff shortBoot.map (oneEntry 0xE0 0xE0 0xE0) (by decide +kernel)).mpr
    ⟨by decide +kernel, by decide +kernel, ?_⟩
  intro addr touched below outside
  refine absurd outside (gaps_of_few (by decide +kernel) ?_ addr touched below)
  unfold Straight
  decide +kernel

end Ketone.Pcie.EcamWindows
