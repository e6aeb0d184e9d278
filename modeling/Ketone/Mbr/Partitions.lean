import Ketone.Exfat.NoLeaks
import Ketone.Exfat.WholeFile
import Ketone.Io.Uart
import Ketone.Library.Packed

/-! The partition table in the first sector of a disk. -/

namespace Ketone.Mbr.Partitions
open Library.Bytes Library.Ram Library.Packed Exfat.Volume Exfat.OwedBlocks Exfat.NoLeaks
open MemManager.BlockRuns Io.Serial Io.Uart

structure MbrPartition where
  boot : BitVec 8
  type : BitVec 8
  lbaStart : BitVec 32
  sectors : BitVec 32
deriving DecidableEq

def MBR_PARTITION_TABLE : Nat := 0x1BE

/-- The two words of the structure are aligned. -/
def sizeofMbrPartition : BitVec 64 := 12

structure Stored where
  partition : MbrPartition
  block : Nat
deriving DecidableEq

structure Found where
  partitions : List Stored
  printed : List Call
  trace : Trace

def report (partition : MbrPartition) : List Call :=
  [.print (code "MBR EXFAT: ".toList), .printHexLN (partition.type.setWidth 32),
    .print (code "MBR EXFAT at: ".toList), .printHexLN partition.lbaStart,
    .print (code "MBR EXFAT sectors: ".toList), .printHexLN partition.sectors]

def takeEntry (mbr : Buffer) (found : Found) (i : Nat) : Found :=
  let entry : Buffer := fun p => mbr (0x1BE + i * 16 + p)
  let type := entry 4
  if type = 0x00 ∨ type = 0x07 then
    let (block, trace) := found.trace.kalloc sizeofMbrPartition
    let partition : MbrPartition := ⟨entry 0, entry 4, readU32Le entry 8, readU32Le entry 12⟩
    ⟨found.partitions ++ [⟨partition, block⟩],
      found.printed ++ if type = 0x07 then report partition else [], trace⟩
  else found

/-- `none` stands for -1. -/
structure Result where
  partitions : Option (List Stored)
  printed : List Call
  trace : Trace

def mbrGetPartitions (machine : Machine) (trace : Trace) : Result :=
  let (mbr, trace) := trace.kalloc 512
  match readDisk machine trace 0 (machine.stale trace.reads) 0 with
  | (none, trace) => ⟨none, [], trace.kfree mbr⟩
  | (some bytes, trace) =>
      if bytes 510 ≠ 0x55 ∨ bytes 511 ≠ 0xAA then ⟨none, [], trace.kfree mbr⟩
      else
        let found := (List.range 4).foldl (takeEntry bytes) ⟨[], [], trace⟩
        ⟨some found.partitions, found.printed, found.trace.kfree mbr⟩

/-- An entry of the table; the code does not look at the addresses by cylinder, head and sector. -/
structure Record where
  partition : MbrPartition
  chsFirst : BitVec 24
  chsLast : BitVec 24
deriving DecidableEq

abbrev recordSizes : List Nat := [1, 3, 1, 3, 4, 4]

def Record.words (record : Record) : Words recordSizes :=
  .cons record.partition.boot (.cons record.chsFirst (.cons record.partition.type (.cons record.chsLast
    (.cons record.partition.lbaStart (.cons record.partition.sectors .nil)))))

def recordOf : Words recordSizes → Record
  | .cons boot (.cons chsFirst (.cons type (.cons chsLast (.cons lbaStart (.cons sectors .nil))))) =>
      ⟨⟨boot, type, lbaStart, sectors⟩, chsFirst, chsLast⟩

def Record.bytes (record : Record) : List (BitVec 8) := record.words.bytes

structure BootSector where
  code : List (BitVec 8)
  code_length : code.length = MBR_PARTITION_TABLE
  records : List Record
  records_length : records.length = 4

def BootSector.bytes (boot : BootSector) : List (BitVec 8) :=
  boot.code ++ boot.records.flatMap Record.bytes ++ [0x55, 0xAA]

def MbrPartition.wanted (partition : MbrPartition) : Bool := partition.type = 0x00 ∨ partition.type = 0x07

def BootSector.kept (boot : BootSector) : List MbrPartition :=
  (boot.records.map Record.partition).filter MbrPartition.wanted

def Holds (sector : Buffer) (boot : BootSector) : Prop := ∀ p < SECTOR_SIZE, sector p = boot.bytes.getD p 0

section
variable {sector : Buffer} {boot : BootSector}

theorem Record.length_bytes (record : Record) : record.bytes.length = 16 := record.words.length_bytes

theorem words_recordOf (words : Words recordSizes) : (recordOf words).words = words := by
  match words with
  | .cons _ (.cons _ (.cons _ (.cons _ (.cons _ (.cons _ .nil))))) => rfl

def recordAt (sector : Buffer) (i : Nat) : Record := recordOf (readWords recordSizes sector (0x1BE + i * 16))

theorem bytes_recordAt (sector : Buffer) (i : Nat) :
    (recordAt sector i).bytes = (List.range 16).map fun p => sector (0x1BE + i * 16 + p) := by
  unfold Record.bytes recordAt
  rw [words_recordOf, bytes_readWords]
  rfl

theorem field_entry (width p : Nat) (q : Nat) :
    field width (fun k => sector (p + k)) q = field width sector (p + q) := by
  unfold field
  congr 1
  exact littleEndian_congr _ _ fun k _ => by rw [Nat.add_assoc]

theorem partition_recordAt (sector : Buffer) (i : Nat) :
    let entry : Buffer := fun p => sector (0x1BE + i * 16 + p)
    (recordAt sector i).partition = ⟨entry 0, entry 4, readU32Le entry 8, readU32Le entry 12⟩ := by
  intro entry
  rw [Exfat.WholeFile.readU32Le_field, Exfat.WholeFile.readU32Le_field, field_entry, field_entry]
  change MbrPartition.mk (field 8 sector _) (field 8 sector _) _ _ = _
  rw [field_byte, field_byte]
  rfl

theorem BootSector.length_bytes (boot : BootSector) : boot.bytes.length = SECTOR_SIZE := by
  unfold BootSector.bytes
  rw [List.length_append, List.length_append, boot.code_length, length_records Record.length_bytes, boot.records_length]
  rfl

theorem recordAt_held (holds : Holds sector boot) {i : Nat} (below : i < boot.records.length) :
    recordAt sector i = boot.records[i] := by
  have four := boot.records_length
  have length : boot.code.length = 0x1BE := boot.code_length
  have room := length_records Record.length_bytes boot.records
  unfold recordAt
  rw [readWords_bytes boot.records[i].words]
  · rfl
  intro p inside
  have small : p < 16 := inside
  have place : 0x1BE + i * 16 + p - boot.code.length = 16 * i + p := by
    rw [length]
    omega
  have front : 16 * i + p < (boot.records.flatMap Record.bytes).length := by
    rw [room]
    omega
  rw [holds _ (show 0x1BE + i * 16 + p < 512 by omega), BootSector.bytes, List.append_assoc,
    List.getD_append_right _ _ _ _ (by omega), place, List.getD_append _ _ _ _ front,
    getD_records Record.length_bytes _ small below]
  rfl

/-- What a sector holds is settled by its bytes. -/
theorem boot_unique {other : BootSector} (holds : Holds sector boot) (holds' : Holds sector other) : boot = other := by
  have four := boot.records_length
  have four' := other.records_length
  have records : boot.records = other.records := by
    apply List.ext_getElem (by rw [four, four'])
    intro i below below'
    rw [← recordAt_held holds below, recordAt_held holds' below']
  have code : boot.code = other.code := by
    have length := boot.code_length
    have length' := other.code_length
    apply List.ext_getElem (by rw [length, length'])
    intro p below below'
    have small : p < SECTOR_SIZE := by
      rw [length] at below
      exact Nat.lt_trans below (by decide)
    have same := (holds p small).symm.trans (holds' p small)
    unfold BootSector.bytes at same
    rwa [List.append_assoc, List.append_assoc, List.getD_append _ _ _ _ below, List.getD_append _ _ _ _ below',
      List.getD_eq_getElem _ _ below, List.getD_eq_getElem _ _ below'] at same
  cases boot
  cases other
  simp_all

def bootOf (sector : Buffer) : BootSector where
  code := (List.range 0x1BE).map sector
  code_length := by rw [List.length_map, List.length_range]; rfl
  records := (List.range 4).map (recordAt sector)
  records_length := by rw [List.length_map, List.length_range]

/-- Every sector with the signature holds a boot sector. -/
theorem holds_iff : (∃ boot, Holds sector boot) ↔ sector 510 = 0x55 ∧ sector 511 = 0xAA := by
  have records : ∀ boot : BootSector, (boot.code ++ boot.records.flatMap Record.bytes).length = 510 := by
    intro boot
    rw [List.length_append, boot.code_length, length_records Record.length_bytes, boot.records_length]
    rfl
  constructor
  · intro ⟨boot, holds⟩
    have first := holds 510 (by decide)
    have second := holds 511 (by decide)
    unfold BootSector.bytes at first second
    rw [List.getD_append_right _ _ _ _ (by rw [records]), records] at first
    rw [List.getD_append_right _ _ _ _ (by rw [records]; decide), records] at second
    exact ⟨first, second⟩
  · intro ⟨first, second⟩
    refine ⟨bootOf sector, ?_⟩
    intro p below
    have small : p < 512 := below
    unfold BootSector.bytes
    by_cases last : p < 510
    · rw [List.getD_append _ _ _ _ (by rw [records]; exact last)]
      by_cases table : p < 0x1BE
      · have inside : p < (bootOf sector).code.length := (bootOf sector).code_length ▸ table
        rw [List.getD_append _ _ _ _ inside, List.getD_eq_getElem _ _ inside]
        simp [bootOf]
      · obtain ⟨i, q, inside, place⟩ : ∃ i q, q < 16 ∧ p = 0x1BE + (16 * i + q) :=
          ⟨(p - 0x1BE) / 16, (p - 0x1BE) % 16, Nat.mod_lt _ (by decide), by omega⟩
        subst place
        have here : i < (bootOf sector).records.length := by
          rw [(bootOf sector).records_length]
          omega
        have behind : (bootOf sector).code.length ≤ 0x1BE + (16 * i + q) := by
          rw [(bootOf sector).code_length]
          exact Nat.le_add_right _ _
        have record : (bootOf sector).records[i] = recordAt sector i := by
          simp [bootOf]
        have back : 0x1BE + (16 * i + q) - (bootOf sector).code.length = 16 * i + q := by
          rw [(bootOf sector).code_length]
          exact Nat.add_sub_cancel_left ..
        rw [List.getD_append_right _ _ _ _ behind, back,
          getD_records Record.length_bytes _ inside here, record, bytes_recordAt,
          List.getD_eq_getElem _ _ (by simpa using inside), List.getElem_map, List.getElem_range]
        exact congrArg sector (by omega)
    · rw [List.getD_append_right _ _ _ _ (by rw [records]; omega), records]
      obtain rfl | rfl : p = 510 ∨ p = 511 := by omega
      · exact first
      · exact second

end

def blocksOf (partitions : List Stored) : List Block := partitions.map fun stored => ⟨stored.block, sizeofMbrPartition⟩

def reportOf (partition : MbrPartition) : List Call := if partition.type = 0x07 then report partition else []

structure Gone (before : List HeapCall) (owed : List Block) (reads : List (BitVec 64)) (partitions : List MbrPartition)
    (found : Found) : Prop where
  kept : found.partitions.map Stored.partition = partitions.filter MbrPartition.wanted
  printed : found.printed = (partitions.filter MbrPartition.wanted).flatMap reportOf
  reads : found.trace.reads = reads
  owes : Owes before found.trace.heap (blocksOf found.partitions ++ owed)

section
variable {before : List HeapCall} {owed : List Block} {reads : List (BitVec 64)} {partitions : List MbrPartition}
  {found : Found}

theorem takeEntry_eq (mbr : Buffer) (found : Found) (i : Nat) : takeEntry mbr found i =
    let partition := (recordAt mbr i).partition
    if partition.wanted then
      ⟨found.partitions ++ [⟨partition, (found.trace.kalloc sizeofMbrPartition).1⟩],
        found.printed ++ reportOf partition, (found.trace.kalloc sizeofMbrPartition).2⟩
    else found := by
  unfold MbrPartition.wanted
  rw [partition_recordAt]
  simp only [decide_eq_true_eq]
  rfl

theorem takeEntry_gone (mbr : Buffer) (i : Nat) (gone : Gone before owed reads partitions found) :
    Gone before owed reads (partitions ++ [(recordAt mbr i).partition]) (takeEntry mbr found i) := by
  obtain ⟨kept, printed, same, owes⟩ := gone
  rw [takeEntry_eq]
  dsimp only
  by_cases here : (recordAt mbr i).partition.wanted
  · rw [if_pos here]
    constructor
    · simp [kept, here]
    · simp [printed, here]
    · exact same
    · have more := Owes.kalloc sizeofMbrPartition owes
      refine more.perm ?_
      dsimp only
      unfold blocksOf
      rw [List.map_append, List.append_assoc]
      exact List.perm_middle.symm
  · rw [if_neg here]
    constructor
    · simp [kept, here]
    · simp [printed, here]
    · exact same
    · exact owes

theorem entries_gone (mbr : Buffer) (indices : List Nat) (gone : Gone before owed reads partitions found) :
    Gone before owed reads (partitions ++ indices.map fun i => (recordAt mbr i).partition)
      (indices.foldl (takeEntry mbr) found) := by
  induction indices generalizing partitions found with
  | nil => simpa using gone
  | cons i rest ih =>
    have next := ih (takeEntry_gone mbr i gone)
    rwa [List.append_assoc] at next

end

section
variable {machine : Machine} {trace : Trace}

theorem holds_fill (stale sector : Buffer) (boot : BootSector) :
    Holds (Exfat.Volume.fill stale 0 sector) boot ↔ Holds sector boot := by
  have shown : ∀ p < SECTOR_SIZE, Exfat.Volume.fill stale 0 sector p = sector p := by
    intro p below
    unfold Exfat.Volume.fill
    rw [if_pos ⟨Nat.zero_le p, by omega⟩, Nat.sub_zero]
  exact forall₂_congr fun p below => by rw [shown p below]

/-- An error: the buffer is given back. -/
theorem mbr_refused (refused : ∀ sector boot, machine.drive trace.reads 0 = some sector → ¬ Holds sector boot) :
    mbrGetPartitions machine trace =
      ⟨none, [], ⟨trace.reads ++ [0], trace.heap ++ [.kalloc 512] ++ [.kfree trace.heap.length]⟩⟩ := by
  unfold mbrGetPartitions readDisk Trace.kalloc
  dsimp only
  cases answer : machine.drive trace.reads ((0 : BitVec 64).setWidth 32) with
  | none => rfl
  | some sector =>
    simp only [Option.map_some]
    have wrong := fun boot => mt (holds_fill (machine.stale trace.reads) sector boot).mp (refused sector boot answer)
    rw [if_pos]
    · rfl
    by_contra right
    rw [not_or, not_not, not_not] at right
    obtain ⟨boot, holds⟩ := holds_iff.mpr right
    exact wrong boot holds

/-- A boot sector: its entries are gone through. -/
theorem mbr_taken {sector : Buffer} {boot : BootSector} (answer : machine.drive trace.reads 0 = some sector)
    (holds : Holds sector boot) : ∃ found, Gone trace.heap [⟨trace.heap.length, 512⟩] (trace.reads ++ [0])
        (boot.records.map Record.partition) found ∧
      mbrGetPartitions machine trace = ⟨some found.partitions, found.printed, found.trace.kfree trace.heap.length⟩ := by
  have holds := (holds_fill (machine.stale trace.reads) sector boot).mpr holds
  have signature := holds_iff.mp ⟨boot, holds⟩
  have buffer : Owes trace.heap (trace.heap ++ [.kalloc 512]) [⟨trace.heap.length, 512⟩] := .kalloc 512 .start
  have initial : Gone trace.heap [⟨trace.heap.length, 512⟩] (trace.reads ++ [0]) []
      ⟨[], [], ⟨trace.reads ++ [0], trace.heap ++ [.kalloc 512]⟩⟩ := ⟨rfl, rfl, rfl, buffer⟩
  have gone := entries_gone (Exfat.Volume.fill (machine.stale trace.reads) 0 sector) (List.range 4) initial
  have entries : ((List.range 4).map fun i =>
      (recordAt (Exfat.Volume.fill (machine.stale trace.reads) 0 sector) i).partition) =
        boot.records.map Record.partition := by
    have four := boot.records_length
    apply List.ext_getElem (by simp [four])
    intro i below below'
    rw [List.length_map] at below'
    rw [List.getElem_map, List.getElem_map, List.getElem_range, recordAt_held holds below']
  rw [List.nil_append, entries] at gone
  refine ⟨_, gone, ?_⟩
  unfold mbrGetPartitions readDisk Trace.kalloc
  dsimp only
  rw [show ((0 : BitVec 64).setWidth 32) = 0 from rfl, answer]
  simp only [Option.map_some]
  exact if_neg fun wrong => wrong.elim (fun other => other signature.1) (fun other => other signature.2)

end

/-- For every disk, its answer to the read and every well-formed heap whose requests are served: the first sector is
read, and nothing else. Either it is a boot sector, and then it is only one: its empty entries and its partitions of
the type of exFAT are returned in their order, at most four, each with a live allocation of its own, and those
of exFAT are reported. Or there is an error: nothing is printed and the block table is as it was. -/
theorem table_read_back (machine : Machine) (trace : Trace) (start : Played) (live : List Live)
    (pictured : Pictured start.heap live) (small : start.heap.total < 2 ^ 32)
    (length : start.pointers.length = trace.heap.length) :
    let answer := machine.drive trace.reads 0
    let result := mbrGetPartitions machine trace
    result.trace.reads = trace.reads ++ [0] ∧
    match result.partitions with
    | none => (∀ sector boot, answer = some sector → ¬ Holds sector boot) ∧ result.printed = [] ∧
        Leaves start trace.heap result.trace.heap fun p => SameTable start.heap p.heap
    | some found => ∃ sector boot, answer = some sector ∧ Holds sector boot ∧
        (∀ other, Holds sector other → other = boot) ∧
        found.map Stored.partition = boot.kept ∧ found.length ≤ 4 ∧ result.printed = boot.kept.flatMap reportOf ∧
        Leaves start trace.heap result.trace.heap fun p => SameRecord start.heap p.heap ∧
          ∃ new, List.Forall₂ (Lives start.heap p.pointers) (blocksOf found) new ∧ Pictured p.heap (new ++ live) := by
  intro answer result
  by_cases held : ∃ sector boot, answer = some sector ∧ Holds sector boot
  · obtain ⟨sector, boot, given, holds⟩ := held
    obtain ⟨found, ⟨kept, printed, reads, owes⟩, called⟩ := mbr_taken given holds
    have freed : Owes trace.heap (found.trace.kfree trace.heap.length).heap (blocksOf found.partitions) :=
      .kfree (owes.perm List.perm_append_comm)
    have few : found.partitions.length ≤ 4 := by
      calc
        _ = (found.partitions.map Stored.partition).length := by rw [List.length_map]
        _ ≤ (boot.records.map Record.partition).length := by
          rw [kept]
          exact List.length_filter_le ..
        _ = 4 := by rw [List.length_map, boot.records_length]
    have same : result = _ := called
    rw [same]
    refine ⟨reads, sector, boot, given, holds, fun other holds' => boot_unique holds' holds, kept, few, printed, ?_⟩
    apply leaves_blocks pictured small length freed
    simp [blocksOf, sizeofMbrPartition]
  · have refused : ∀ sector boot, answer = some sector → ¬ Holds sector boot :=
      fun sector boot given holds => held ⟨sector, boot, given, holds⟩
    have back : Owes trace.heap (trace.heap ++ [.kalloc 512] ++ [.kfree trace.heap.length]) [] := .kfree (.kalloc 512 .start)
    have same : result = _ := mbr_refused refused
    rw [same]
    exact ⟨rfl, refused, rfl, leaves_nothing pictured small length back (by simp)⟩

def mixedTable : BootSector where
  code := List.replicate MBR_PARTITION_TABLE 0x90
  code_length := List.length_replicate
  records := [⟨⟨0x80, 0x07, 0x800, 0x1000⟩, 0, 0⟩, ⟨⟨0, 0x83, 0x1800, 0x1000⟩, 0, 0⟩, ⟨⟨0, 0, 0, 0⟩, 0, 0⟩,
    ⟨⟨0, 0x07, 0x2800, 0x1000⟩, 0xFFFFFE, 0xFFFFFE⟩]
  records_length := rfl

@[irreducible] def mixedDisk : Machine := ⟨fun _ _ => some fun p => mixedTable.bytes.getD p 0, fun _ _ => 0⟩

/-- The buffer and the three partitions take a block each, and the buffer's is given back. -/
def mixedRequests : List HeapCall := [.kalloc 512, .kalloc 12, .kalloc 12, .kalloc 12, .kfree 0]

theorem mixed_table_read_back : ∃ found p, (mbrGetPartitions mixedDisk ⟨[], []⟩).partitions = some found ∧
    found.map Stored.partition = [⟨0x80, 0x07, 0x800, 0x1000⟩, ⟨0, 0, 0, 0⟩, ⟨0, 0x07, 0x2800, 0x1000⟩] ∧
    replay ⟨fourBlocks, []⟩ mixedRequests = some p ∧
    ∃ new, List.Forall₂ (Lives fourBlocks p.pointers) (blocksOf found) new ∧ Pictured p.heap new := by
  have answer : mixedDisk.drive [] 0 = some fun p => mixedTable.bytes.getD p 0 := by
    unfold mixedDisk
    rfl
  have pictured : Pictured fourBlocks [] := pictured_cleared fun _ _ => rfl
  have small : fourBlocks.total < 2 ^ 32 := by decide
  have requests : (mbrGetPartitions mixedDisk ⟨[], []⟩).trace.heap = mixedRequests := by decide +kernel
  obtain ⟨_, facts⟩ := table_read_back mixedDisk ⟨[], []⟩ ⟨fourBlocks, []⟩ [] pictured small rfl
  cases result : (mbrGetPartitions mixedDisk ⟨[], []⟩).partitions with
  | none =>
    rw [result] at facts
    exact absurd (fun p _ => rfl) (facts.1 _ mixedTable answer)
  | some found =>
    rw [result] at facts
    obtain ⟨sector, boot, same, held, _, kept, _, _, calls, log, served⟩ := facts
    obtain rfl := Option.some.inj (answer.symm.trans same)
    obtain rfl := boot_unique held (fun p _ => rfl)
    obtain rfl : mixedRequests = calls := requests.symm.trans log
    obtain ⟨p, played, _, new, lives, pictured'⟩ := served (by decide +kernel)
    rw [List.append_nil] at pictured'
    exact ⟨found, p, rfl, kept.trans (by decide), played, new, lives, pictured'⟩

end Ketone.Mbr.Partitions
