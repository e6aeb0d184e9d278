import Ketone.Boot.HandOff
import Ketone.Exfat.SectorBuffers
import Ketone.Mbr.Partitions

/-! The disk image as it is put together from its parts, and what the boot loader and the kernel find in it. -/

namespace Ketone.Mbr.DiskImage
open Library.Packed Library.Ram Exfat.Volume Exfat.WholeFile Exfat.SectorBuffers Partitions
open Boot.Stages (KERNEL_START Reply boot reported)

def IMAGE_SECTORS : Nat := 524288

def KERNEL_SECTOR : Nat := 8

/-- The assembled code of stage 1 up to its table, the assembled stage 2, the linked kernel, and the sectors of the
exFAT image. -/
structure Parts where
  code : List (BitVec 8)
  code_length : code.length = MBR_PARTITION_TABLE
  stage2 : List (BitVec 8)
  stage2_length : stage2.length = SECTOR_SIZE
  kernel : List (BitVec 8)
  volume : Disk

namespace Parts
variable (parts : Parts)

/-- The sectors that the kernel takes, as stage 1 is assembled with. -/
def sectors : Nat := (parts.kernel.length + 511) / 512

def partitionStart : Nat := KERNEL_SECTOR + parts.sectors

def partitionSectors : Nat := IMAGE_SECTORS - parts.partitionStart

def table : List Record :=
  [⟨⟨0x00, 0x07, BitVec.ofNat 32 (8 + parts.sectors), BitVec.ofInt 32 (524288 - (8 + parts.sectors))⟩, 0xFFFFFE, 0xFFFFFE⟩,
    ⟨⟨0, 0, 0, 0⟩, 0, 0⟩, ⟨⟨0, 0, 0, 0⟩, 0, 0⟩, ⟨⟨0, 0, 0, 0⟩, 0, 0⟩]

def bootSector : BootSector := ⟨parts.code, parts.code_length, parts.table, rfl⟩

end Parts

def dd (disk : Disk) (seek : Nat) (bytes : List (BitVec 8)) : Disk := fun sector p =>
  if seek ≤ sector ∧ SECTOR_SIZE * (sector - seek) + p < bytes.length then bytes.getD (SECTOR_SIZE * (sector - seek) + p) 0
  else disk sector p

def ddSectors (disk : Disk) (seek count : Nat) (sectors : Disk) : Disk := fun sector =>
  if seek ≤ sector ∧ sector < seek + count then sectors (sector - seek) else disk sector

@[irreducible] def Parts.image (parts : Parts) : Disk :=
  let image := dd (fun _ _ => 0) 0 parts.bootSector.bytes
  let image := dd image 1 parts.stage2
  let image := dd image KERNEL_SECTOR parts.kernel
  ddSectors image parts.partitionStart parts.partitionSectors parts.volume

/-- The image for the boot stages: the sector behind stage 1, and those of the kernel. Stage 1 asks for as many
of them as one byte can say. -/
def Parts.bootDisk (parts : Parts) : Boot.Stages.Disk where
  stage2 := (List.range 512).map (parts.image 1)
  stage2_length := by rw [List.length_map, List.length_range]
  sectors := parts.sectors
  image := (List.range (512 * parts.sectors)).map fun p => parts.image (KERNEL_SECTOR + p / SECTOR_SIZE) (p % SECTOR_SIZE)
  image_length := by rw [List.length_map, List.length_range]

section
variable {parts : Parts} {p k : Nat}

theorem image_boot (below : p < SECTOR_SIZE) : parts.image 0 p = parts.bootSector.bytes.getD p 0 := by
  have start : ¬ (parts.partitionStart ≤ 0 ∧ 0 < parts.partitionStart + parts.partitionSectors) := by
    unfold Parts.partitionStart KERNEL_SECTOR
    omega
  have length := parts.bootSector.length_bytes
  unfold Parts.image ddSectors dd KERNEL_SECTOR
  dsimp only
  rw [if_neg start, if_neg (by omega), if_neg (by omega), if_pos (by omega)]
  congr 1
  omega

theorem image_stage2 (below : p < SECTOR_SIZE) : parts.image 1 p = parts.stage2.getD p 0 := by
  have start : ¬ (parts.partitionStart ≤ 1 ∧ 1 < parts.partitionStart + parts.partitionSectors) := by
    unfold Parts.partitionStart KERNEL_SECTOR
    omega
  have length := parts.stage2_length
  unfold Parts.image ddSectors dd KERNEL_SECTOR
  dsimp only
  rw [if_neg start, if_neg (by omega), if_pos (by omega)]
  congr 1
  omega

/-- The kernel, and zeros up to the end of its last sector. -/
theorem image_kernel (below : p < 512 * parts.sectors) :
    parts.image (KERNEL_SECTOR + p / SECTOR_SIZE) (p % SECTOR_SIZE) = parts.kernel.getD p 0 := by
  have outside : ¬ (parts.partitionStart ≤ KERNEL_SECTOR + p / SECTOR_SIZE ∧
      KERNEL_SECTOR + p / SECTOR_SIZE < parts.partitionStart + parts.partitionSectors) := by
    have start : parts.partitionStart = KERNEL_SECTOR + parts.sectors := rfl
    unfold SECTOR_SIZE
    omega
  have place : SECTOR_SIZE * (KERNEL_SECTOR + p / SECTOR_SIZE - KERNEL_SECTOR) + p % SECTOR_SIZE = p := by
    rw [Nat.add_sub_cancel_left]
    exact Nat.div_add_mod ..
  have boot := parts.bootSector.length_bytes
  have stage2 := parts.stage2_length
  unfold Parts.image ddSectors dd
  dsimp only
  rw [if_neg outside, place]
  by_cases inside : p < parts.kernel.length
  · rw [if_pos ⟨Nat.le_add_right .., inside⟩]
  · have first : ¬ (0 ≤ KERNEL_SECTOR + p / SECTOR_SIZE ∧
        SECTOR_SIZE * (KERNEL_SECTOR + p / SECTOR_SIZE - 0) + p % SECTOR_SIZE < parts.bootSector.bytes.length) := by
      unfold KERNEL_SECTOR SECTOR_SIZE at *
      omega
    have second : ¬ (1 ≤ KERNEL_SECTOR + p / SECTOR_SIZE ∧
        SECTOR_SIZE * (KERNEL_SECTOR + p / SECTOR_SIZE - 1) + p % SECTOR_SIZE < parts.stage2.length) := by
      unfold KERNEL_SECTOR SECTOR_SIZE at *
      omega
    rw [if_neg (fun both => inside both.2), if_neg second, if_neg first, List.getD_eq_getElem?_getD,
      List.getElem?_eq_none (Nat.le_of_not_lt inside)]
    rfl

theorem image_volume (below : k < parts.partitionSectors) : parts.image (parts.partitionStart + k) = parts.volume k := by
  unfold Parts.image ddSectors
  rw [if_pos ⟨Nat.le_add_right .., Nat.add_lt_add_left below _⟩, Nat.add_sub_cancel_left]

/-- The partition of the table starts behind the kernel and goes to the end of the image. -/
def Parts.partition (parts : Parts) : MbrPartition :=
  ⟨0x00, 0x07, BitVec.ofNat 32 parts.partitionStart, BitVec.ofNat 32 parts.partitionSectors⟩

theorem kept_table (fits : parts.partitionStart ≤ IMAGE_SECTORS) :
    parts.bootSector.kept = parts.partition :: List.replicate 3 ⟨0, 0, 0, 0⟩ := by
  have start : parts.partitionStart = 8 + parts.sectors := rfl
  have length : BitVec.ofInt 32 (524288 - (8 + (parts.sectors : Int))) = BitVec.ofNat 32 parts.partitionSectors := by
    have number : (524288 - (8 + (parts.sectors : Int))) = ((parts.partitionSectors : Nat) : Int) := by
      unfold Parts.partitionSectors
      rw [Nat.cast_sub fits, start]
      push_cast [IMAGE_SECTORS]
      ring
    rw [number, BitVec.ofInt_natCast]
  have records : parts.bootSector.records.map Record.partition =
      parts.partition :: List.replicate 3 ⟨0, 0, 0, 0⟩ :=
    congrArg (fun count => MbrPartition.mk 0x00 0x07 (BitVec.ofNat 32 parts.partitionStart) count ::
      List.replicate 3 ⟨0, 0, 0, 0⟩) length
  unfold BootSector.kept
  rw [records]
  rfl

theorem cluster_image {fs : ExfatInstance} (start : fs.sectorOnDiskLBA.toNat = parts.partitionStart) {cluster : BitVec 32}
    (inside : clusterStart { fs with sectorOnDiskLBA := 0 } cluster + 2 ^ fs.sectorsPerClusterShift.toNat ≤
      parts.partitionSectors) {q : Nat} (below : q < sizeOfCluster fs) :
    clusterByte parts.image fs cluster q = clusterByte parts.volume { fs with sectorOnDiskLBA := 0 } cluster q := by
  have moved : clusterStart fs cluster = parts.partitionStart + clusterStart { fs with sectorOnDiskLBA := 0 } cluster := by
    have zero : (0 : BitVec 64).toNat = 0 := rfl
    unfold clusterStart
    simp only [start, zero]
    omega
  have sector : q / SECTOR_SIZE < 2 ^ fs.sectorsPerClusterShift.toNat := Nat.div_lt_of_lt_mul below
  unfold clusterByte
  rw [moved, Nat.add_assoc, image_volume (by omega)]

theorem table_image {fs : ExfatInstance} (start : fs.sectorOnDiskLBA.toNat = parts.partitionStart) {cluster : BitVec 32}
    (inside : fs.fatOffset.toNat + 4 * cluster.toNat / SECTOR_SIZE < parts.partitionSectors) :
    fatEntry parts.image fs cluster = fatEntry parts.volume { fs with sectorOnDiskLBA := 0 } cluster := by
  have moved : fatStart fs = parts.partitionStart + fatStart { fs with sectorOnDiskLBA := 0 } := by
    have zero : (0 : BitVec 64).toNat = 0 := rfl
    unfold fatStart
    simp only [start, zero]
    omega
  have front : fatStart { fs with sectorOnDiskLBA := 0 } = fs.fatOffset.toNat := Nat.zero_add _
  unfold fatEntry Library.Bytes.field
  congr 1
  apply Library.Bytes.littleEndian_congr
  intro k below
  have four : k < 4 := below
  have sector : (4 * cluster.toNat + k) / SECTOR_SIZE = 4 * cluster.toNat / SECTOR_SIZE := by
    unfold SECTOR_SIZE
    omega
  unfold fatByte
  rw [sector, moved, front, Nat.add_assoc, image_volume inside]

theorem instanceOf_fill (stale sector : Buffer) (lbaStart : BitVec 32) :
    instanceOf (Exfat.Volume.fill stale 0 sector) lbaStart = instanceOf sector lbaStart := by
  have byte : ∀ p < SECTOR_SIZE, Exfat.Volume.fill stale 0 sector p = sector p := by
    intro p below
    unfold Exfat.Volume.fill
    rw [if_pos ⟨Nat.zero_le p, by omega⟩, Nat.sub_zero]
  unfold SECTOR_SIZE at byte
  unfold instanceOf readU32Le readU64Le
  simp (disch := omega) only [byte]

end

section
variable {parts : Parts}

theorem bootDisk_stage2 (parts : Parts) : parts.bootDisk.stage2 = parts.stage2 := by
  apply List.ext_getElem
  · rw [parts.bootDisk.stage2_length, parts.stage2_length]
    rfl
  · intro p below below'
    have inside : p < SECTOR_SIZE := parts.stage2_length ▸ below'
    have byte : parts.image 1 p = _ := image_stage2 inside
    rw [List.getD_eq_getElem _ _ below'] at byte
    simpa [Parts.bootDisk] using byte

theorem bootDisk_image {k : Nat} (below : k < 512 * parts.sectors) :
    parts.bootDisk.image.getD k 0 = parts.kernel.getD k 0 := by
  have inside : k < parts.bootDisk.image.length := parts.bootDisk.image_length.symm ▸ below
  rw [List.getD_eq_getElem _ _ inside, ← image_kernel below]
  simp [Parts.bootDisk]

theorem boot_places {replies : List Reply} {ram final : Memory} (few : parts.sectors < 256)
    (nonempty : reported replies ≠ []) (started : boot replies parts.bootDisk ram = some final) :
    ∀ k < 512 * parts.sectors, byteAt final (KERNEL_START + k) = parts.kernel.getD k 0 := by
  obtain ⟨map, placed, _⟩ := Boot.HandOff.placed_final nonempty started few
  intro k below
  rw [placed.image k below, bootDisk_image below]

theorem image_partitions (fits : parts.partitionStart < IMAGE_SECTORS) (memory : List (BitVec 64) → Buffer)
    (trace : Trace) : (mbrGetPartitions (whole parts.image memory) trace).partitions.map (List.map Stored.partition) =
      some (parts.partition :: List.replicate 3 ⟨0, 0, 0, 0⟩) := by
  have holds : Holds (parts.image 0) parts.bootSector := fun p below => image_boot below
  obtain ⟨found, gone, called⟩ := @mbr_taken (whole parts.image memory) trace _ _ rfl holds
  rw [called]
  exact congrArg some (gone.kept.trans (kept_table (Nat.le_of_lt fits)))

theorem image_instance (fits : parts.partitionStart < IMAGE_SECTORS) (memory : List (BitVec 64) → Buffer)
    (trace : Trace) : (exfatInit (whole parts.image memory) parts.partition.lbaStart trace).1 =
      instanceOf (parts.volume 0) parts.partition.lbaStart := by
  have small : parts.partitionStart < 2 ^ 32 := Nat.lt_trans fits (by decide)
  have address : ((parts.partition.lbaStart.setWidth 64).setWidth 32).toNat = parts.partitionStart := by
    unfold Parts.partition
    dsimp only
    rw [BitVec.setWidth_setWidth_of_le _ (by decide), BitVec.setWidth_eq, BitVec.toNat_ofNat, Nat.mod_eq_of_lt small]
  have first : parts.image parts.partitionStart = parts.volume 0 := image_volume (Nat.sub_pos_of_lt fits)
  change instanceOf (Exfat.Volume.fill _ 0 (parts.image ((parts.partition.lbaStart.setWidth 64).setWidth 32).toNat)) _ = _
  rw [address, first, instanceOf_fill]

theorem instance_start (fits : parts.partitionStart < IMAGE_SECTORS) (sector : Buffer) :
    (instanceOf sector parts.partition.lbaStart).sectorOnDiskLBA.toNat = parts.partitionStart := by
  have small : parts.partitionStart < 2 ^ 32 := Nat.lt_trans fits (by decide)
  change (parts.partition.lbaStart.setWidth 64).toNat = _
  rw [BitVec.toNat_setWidth_of_le (by decide)]
  change (BitVec.ofNat 32 parts.partitionStart).toNat = _
  rw [BitVec.toNat_ofNat, Nat.mod_eq_of_lt small]

end

/-- For every code, kernel and exFAT image, if the kernel leaves room for the partition. Where the kernel has fewer than
256 sectors and the firmware reports a region, every boot that gets through runs this stage 2 and leaves the kernel, and
zeros behind it, where it is to run. For kernels of any size: the kernel finds in the table one partition of the type of
exFAT, which starts behind the last sector of the kernel, and three empty entries; what is read of the file system's boot
sector is what stands in that of the exFAT image; and in the partition every cluster and every entry of the table is
that of the exFAT image. -/
theorem image_mounts (parts : Parts) (fits : parts.partitionStart < IMAGE_SECTORS)
    (memory : List (BitVec 64) → Buffer) (trace : Trace) :
    parts.bootDisk.stage2 = parts.stage2 ∧
    (∀ replies ram final, parts.sectors < 256 → reported replies ≠ [] → boot replies parts.bootDisk ram = some final →
      ∀ k < 512 * parts.sectors, byteAt final (KERNEL_START + k) = parts.kernel.getD k 0) ∧
    (mbrGetPartitions (whole parts.image memory) trace).partitions.map (List.map Stored.partition) =
      some (parts.partition :: List.replicate 3 ⟨0, 0, 0, 0⟩) ∧
    ∀ later, let fs := (exfatInit (whole parts.image memory) parts.partition.lbaStart later).1
      fs = instanceOf (parts.volume 0) parts.partition.lbaStart ∧
      (∀ cluster q, q < sizeOfCluster fs → clusterStart { fs with sectorOnDiskLBA := 0 } cluster +
          2 ^ fs.sectorsPerClusterShift.toNat ≤ parts.partitionSectors →
        clusterByte parts.image fs cluster q = clusterByte parts.volume { fs with sectorOnDiskLBA := 0 } cluster q) ∧
      ∀ cluster, fs.fatOffset.toNat + 4 * cluster.toNat / SECTOR_SIZE < parts.partitionSectors →
        fatEntry parts.image fs cluster = fatEntry parts.volume { fs with sectorOnDiskLBA := 0 } cluster := by
  refine ⟨bootDisk_stage2 parts, fun _ _ _ => boot_places, image_partitions fits memory trace, ?_⟩
  intro later fs
  have same : fs = instanceOf (parts.volume 0) parts.partition.lbaStart := image_instance fits memory later
  have start : fs.sectorOnDiskLBA.toNat = parts.partitionStart := by
    rw [same]
    exact instance_start fits (parts.volume 0)
  exact ⟨same, fun cluster q below inside => cluster_image start inside below, fun cluster => table_image start⟩

/-- A kernel of one byte, and an exFAT image with its boot sector, a table and the first cluster of its root. -/
def smallParts : Parts where
  code := List.replicate MBR_PARTITION_TABLE 0xF4
  code_length := List.length_replicate
  stage2 := List.replicate SECTOR_SIZE 0xF4
  stage2_length := List.length_replicate
  kernel := [0xF4]
  volume := fun sector =>
    if sector = 0 then fun p => if p = 0x50 then 1 else if p = 0x58 then 2 else if p = 0x60 then 2
      else if p = 0x6C then 9 else 0
    else if sector = 1 then fun p => if 8 ≤ p ∧ p < 12 then 0xFF else 0
    else if sector = 2 then fun p => if p = 0 then 0x83 else 0 else fun _ => 0

theorem small_image_mounts : ∃ final, boot [Boot.HandOff.oneReply] smallParts.bootDisk (fun _ => 0) = some final ∧
    byteAt final KERNEL_START = 0xF4 ∧
    (mbrGetPartitions (whole smallParts.image fun _ _ => 0) ⟨[], []⟩).partitions.map (List.map Stored.partition) =
      some [⟨0x00, 0x07, 9, 524279⟩, ⟨0, 0, 0, 0⟩, ⟨0, 0, 0, 0⟩, ⟨0, 0, 0, 0⟩] ∧
    ∃ fs, (exfatInit (whole smallParts.image fun _ _ => 0) 9 ⟨[], []⟩).1 = fs ∧ fs.rootCluster = 2 ∧
      clusterByte smallParts.image fs 2 0 = 0x83 ∧ fatEntry smallParts.image fs 2 = 0xFFFFFFFF := by
  obtain ⟨_, boots, partitions, mounts⟩ := image_mounts smallParts (by decide) (fun _ _ => 0) ⟨[], []⟩
  obtain ⟨final, started⟩ := Option.isSome_iff_exists.mp
    (show (boot [Boot.HandOff.oneReply] smallParts.bootDisk fun _ => 0).isSome = true by decide +kernel)
  obtain ⟨same, clusters, table⟩ := mounts ⟨[], []⟩
  have volume : instanceOf (smallParts.volume 0) smallParts.partition.lbaStart = ⟨9, 0, 0, 1, 0, 2, 0, 2, 9, 0, 0⟩ := by
    decide +kernel
  rw [same, volume] at clusters table
  refine ⟨final, started, boots _ _ _ (by decide) (by decide +kernel) started 0 (by decide), partitions, _,
    same.trans volume, rfl, ?_, ?_⟩
  · exact (clusters 2 0 (by decide) (by decide +kernel)).trans (by decide +kernel)
  · exact (table 2 (by decide +kernel)).trans (by decide +kernel)

end Ketone.Mbr.DiskImage
