import Ketone.Library.Loop
import Mathlib.Algebra.Group.Nat.Defs

/-! The volume as the file system reaches it: sectors of 512 bytes that a drive reads
into buffers from the kernel heap, and the file allocation table among them. -/

namespace Ketone.Exfat.Volume

/-- Memory from the start of a buffer on; what lies behind the buffer belongs to others. -/
abbrev Buffer := Nat → BitVec 8

/-- A block is known by the place of its `kalloc` in the log. -/
inductive HeapCall where
  | kalloc (size : BitVec 64)
  | kfree (block : Nat)
deriving DecidableEq

/-- The sectors asked for and the calls to the heap, in order. -/
structure Trace where
  reads : List (BitVec 64)
  heap : List HeapCall
deriving DecidableEq

def Trace.kalloc (trace : Trace) (size : BitVec 64) : Nat × Trace :=
  (trace.heap.length, { trace with heap := trace.heap ++ [.kalloc size] })

def Trace.kfree (trace : Trace) (block : Nat) : Trace :=
  { trace with heap := trace.heap ++ [.kfree block] }

/-- What the code finds around it: the drive's answer to a read, which may depend on the reads
before it, and what the memory of a block holds when it is handed out. -/
structure Machine where
  drive : List (BitVec 64) → BitVec 32 → Option Buffer
  stale : List (BitVec 64) → Buffer

def SECTOR_SIZE : Nat := 512

/-- A transfer of one sector to `offset` in the buffer. -/
def fill (buffer : Buffer) (offset : Nat) (sector : Buffer) : Buffer := fun p =>
  if offset ≤ p ∧ p < offset + SECTOR_SIZE then sector (p - offset) else buffer p

/-- `read_disk` takes the low 32 bits of the sector number. -/
def readDisk (machine : Machine) (trace : Trace) (lba : BitVec 64) (buffer : Buffer) (offset : BitVec 64) :
    Option Buffer × Trace :=
  ((machine.drive trace.reads (lba.setWidth 32)).map (fill buffer offset.toNat),
    { trace with reads := trace.reads ++ [lba] })

def readU16Le (buff : Buffer) (offset : Nat) : BitVec 16 :=
  (buff offset).setWidth 16 ||| (buff (offset + 1)).setWidth 16 <<< 8

def readU32Le (buff : Buffer) (offset : Nat) : BitVec 32 :=
  (buff offset).setWidth 32 ||| (buff (offset + 1)).setWidth 32 <<< 8 |||
    (buff (offset + 2)).setWidth 32 <<< 16 ||| (buff (offset + 3)).setWidth 32 <<< 24

def readU64Le (buff : Buffer) (offset : Nat) : BitVec 64 :=
  (buff offset).setWidth 64 ||| (buff (offset + 1)).setWidth 64 <<< 8 |||
    (buff (offset + 2)).setWidth 64 <<< 16 ||| (buff (offset + 3)).setWidth 64 <<< 24 |||
    (buff (offset + 4)).setWidth 64 <<< 32 ||| (buff (offset + 5)).setWidth 64 <<< 40 |||
    (buff (offset + 6)).setWidth 64 <<< 48 ||| (buff (offset + 7)).setWidth 64 <<< 56

structure ExfatInstance where
  sectorOnDiskLBA : BitVec 64
  partitionOffset : BitVec 64
  volumeLength : BitVec 64
  fatOffset : BitVec 32
  fatLength : BitVec 32
  clusterHeapOffset : BitVec 32
  clusterCount : BitVec 32
  rootCluster : BitVec 32
  bytesPerSectorShift : BitVec 8
  sectorsPerClusterShift : BitVec 8
  numberOfFats : BitVec 8
deriving DecidableEq

/-- One sector of table and four clusters of one sector, in a volume of 4096 sectors. -/
def smallVolume : ExfatInstance := ⟨0, 0, 0x1000, 1, 1, 2, 4, 2, 9, 0, 1⟩

section
variable (fs : ExfatInstance)

/-- The shift instruction takes its count modulo the width. -/
def bytesPerSector : BitVec 64 := 1 <<< (fs.bytesPerSectorShift.toNat % 64)

def sectorsPerCluster : BitVec 64 := 1 <<< (fs.sectorsPerClusterShift.toNat % 64)

def clusterSize : BitVec 64 := bytesPerSector fs * sectorsPerCluster fs

/-- The number of sectors is a 32-bit word here, and the cluster's index wraps below 2. -/
def clusterToLba (cluster : BitVec 32) : BitVec 64 :=
  let sectorsPerCluster : BitVec 32 := 1 <<< (fs.sectorsPerClusterShift.toNat % 32)
  fs.sectorOnDiskLBA + fs.clusterHeapOffset.setWidth 64 +
    (cluster - 2).setWidth 64 * sectorsPerCluster.setWidth 64

/-- A failed read gives the entry 0. -/
def getFatEntry (machine : Machine) (trace : Trace) (cluster : BitVec 32) : BitVec 32 × Trace :=
  let fatByteOffset := cluster.setWidth 64 * 4
  let fatSector := fatByteOffset / bytesPerSector fs
  let offset := fatByteOffset % bytesPerSector fs
  let lba := fs.sectorOnDiskLBA + fs.fatOffset.setWidth 64 + fatSector
  let (block, trace) := trace.kalloc (bytesPerSector fs)
  match readDisk machine trace lba (machine.stale trace.reads) 0 with
  | (none, trace) => (0, trace.kfree block)
  | (some buffer, trace) => (readU32Le buffer offset.toNat, trace.kfree block)

/-- The sectors of a cluster from the `s`-th on, each to its place; the first failure ends it. -/
def readSectors (machine : Machine) (lba : BitVec 64) : Nat → Nat → Buffer → Trace → Option Buffer × Trace
  | 0, _, buffer, trace => (some buffer, trace)
  | todo + 1, s, buffer, trace =>
      match readDisk machine trace (lba + BitVec.ofNat 64 s) buffer (BitVec.ofNat 64 s * bytesPerSector fs) with
      | (none, trace) => (none, trace)
      | (some buffer, trace) => readSectors machine lba todo (s + 1) buffer trace

def readCluster (machine : Machine) (cluster : BitVec 32) (buffer : Buffer) (trace : Trace) :
    Option Buffer × Trace :=
  readSectors fs machine (clusterToLba fs cluster) (sectorsPerCluster fs).toNat 0 buffer trace

def fatLba (cluster : BitVec 32) : BitVec 64 :=
  fs.sectorOnDiskLBA + fs.fatOffset.setWidth 64 + cluster.setWidth 64 * 4 / bytesPerSector fs

def fatPlace (cluster : BitVec 32) : Nat := (cluster.setWidth 64 * 4 % bytesPerSector fs).toNat

theorem getFatEntry_eq (machine : Machine) (trace : Trace) (cluster : BitVec 32) :
    getFatEntry fs machine trace cluster =
      (((machine.drive trace.reads ((fatLba fs cluster).setWidth 32)).map fun sector =>
          readU32Le (fill (machine.stale trace.reads) 0 sector) (fatPlace fs cluster)).getD 0,
        ⟨trace.reads ++ [fatLba fs cluster],
          trace.heap ++ [.kalloc (bytesPerSector fs)] ++ [.kfree trace.heap.length]⟩) := by
  unfold getFatEntry readDisk Trace.kalloc Trace.kfree fatLba fatPlace
  dsimp only
  cases machine.drive trace.reads ((fs.sectorOnDiskLBA + fs.fatOffset.setWidth 64 +
    cluster.setWidth 64 * 4 / bytesPerSector fs).setWidth 32) with
  | none => rfl
  | some sector => rfl

theorem toNat_bytesPerSector : (bytesPerSector fs).toNat = 2 ^ (fs.bytesPerSectorShift.toNat % 64) := by
  change (BitVec.ofNat 64 (1 <<< (fs.bytesPerSectorShift.toNat % 64))).toNat = _
  rw [BitVec.toNat_ofNat, Nat.one_shiftLeft]
  apply Nat.mod_eq_of_lt
  exact Nat.pow_lt_pow_right (by decide) (Nat.mod_lt _ (by decide))

theorem toNat_sectorsPerCluster : (sectorsPerCluster fs).toNat = 2 ^ (fs.sectorsPerClusterShift.toNat % 64) := by
  change (BitVec.ofNat 64 (1 <<< (fs.sectorsPerClusterShift.toNat % 64))).toNat = _
  rw [BitVec.toNat_ofNat, Nat.one_shiftLeft]
  apply Nat.mod_eq_of_lt
  exact Nat.pow_lt_pow_right (by decide) (Nat.mod_lt _ (by decide))

/-- The first sector of a cluster, counted from that of the partition. -/
theorem clusterToLba_eq (cluster : BitVec 32) : clusterToLba fs cluster = fs.sectorOnDiskLBA +
    BitVec.ofNat 64 (fs.clusterHeapOffset.toNat +
      (cluster - 2).toNat * 2 ^ (fs.sectorsPerClusterShift.toNat % 32)) := by
  have count : (BitVec.ofNat 32 (1 <<< (fs.sectorsPerClusterShift.toNat % 32))).toNat =
      2 ^ (fs.sectorsPerClusterShift.toNat % 32) := by
    rw [BitVec.toNat_ofNat, Nat.one_shiftLeft]
    apply Nat.mod_eq_of_lt
    exact Nat.pow_lt_pow_right (by decide) (Nat.mod_lt _ (by decide))
  change _ + _ + (cluster - 2).setWidth 64 *
    (BitVec.ofNat 32 (1 <<< (fs.sectorsPerClusterShift.toNat % 32))).setWidth 64 = _
  rw [BitVec.add_assoc]
  congr 1
  apply BitVec.eq_of_toNat_eq
  rw [BitVec.toNat_add, BitVec.toNat_mul, BitVec.toNat_setWidth_of_le (by decide),
    BitVec.toNat_setWidth_of_le (by decide), BitVec.toNat_setWidth_of_le (by decide), count, BitVec.toNat_ofNat,
    Nat.add_mod_mod]

end

end Ketone.Exfat.Volume
