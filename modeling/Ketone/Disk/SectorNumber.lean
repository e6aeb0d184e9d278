import Mathlib.Tactic.IntervalCases
import Ketone.Disk.Ata
import Ketone.Disk.Sata
import Ketone.Exfat.Volume

/-! One sector number on its way from the file system through `read_disk` to the drive. -/

namespace Ketone.Disk.SectorNumber
open Library.Bytes Ata Sata Exfat.Volume

/-- `disk_device_t` by its type, with what the driver of that type reads of it. -/
inductive DiskDevice where
  | none
  | ata (disk : AtaDevice)
  | sata (port : SataPort)

structure DriveAnswers where
  ata : AtaAnswers
  taskFile : TaskFile
  sata : SataAnswers

/-- Whether a call returns true, and the sector that the drive was asked for. -/
structure Transfer where
  success : Bool
  sector : Option Nat

def readDisk (disk : DiskDevice) (answers : DriveAnswers) (lba : BitVec 32) (buff : BitVec 64) : Transfer :=
  match disk with
  | .ata disk =>
      let (words, outs) := ataRead disk (lba.setWidth 64) answers.ata
      ⟨words.isSome, sectorOf disk answers.taskFile outs⟩
  | .sata port =>
      let (bytes, executed) := sataRead port answers.sata (lba.setWidth 64) buff
      ⟨bytes.isSome, executed.bind Executed.sector⟩
  | .none => ⟨false, Option.none⟩

/-- Whatever the device answers: the call fails, or the drive reads the sector asked for. -/
def ReadsSector (disk : DiskDevice) (lba : BitVec 64) : Prop :=
  ∀ answers buff, (readDisk disk answers (lba.setWidth 32) buff).success = false ∨
    (readDisk disk answers (lba.setWidth 32) buff).sector = some lba.toNat

def Addressable (lba : BitVec 64) : DiskDevice → Prop
  | .none => True
  | .ata disk => lba.toNat < if disk.hasLBA48 then 2 ^ 32 else 2 ^ 28
  | .sata _ => lba.toNat < 2 ^ 32

section
variable {disk : AtaDevice}

theorem toNat_port {channel : Nat} (small : channel < 8) :
    ((port disk channel).setWidth 16).toNat = disk.channMain.toNat + channel := by
  have main : disk.channMain.toNat + 8 ≤ 2 ^ 16 := by
    rcases disk.main with main | main <;> rw [main] <;> decide
  unfold port
  rw [BitVec.toNat_setWidth, BitVec.toNat_add, BitVec.toNat_ofNat]
  omega

theorem port_eq_iff {first second : Nat} (small : first < 8) (small' : second < 8) :
    (port disk first).setWidth 16 = (port disk second).setWidth 16 ↔ first = second := by
  constructor
  · intro same
    have numbers := congrArg BitVec.toNat same
    rw [toNat_port small, toNat_port small'] at numbers
    omega
  · rintro rfl
    rfl

theorem write_register (file : TaskFile) {channel other : Nat} (small : channel < 8) (small' : other < 8)
    (val : BitVec 64) :
    TaskFile.write disk.channMain file (outb (port disk channel) val) other =
      if channel = other then (val.setWidth 8, (file other).1) else file other := by
  have same := @port_eq_iff disk channel other small small'
  unfold TaskFile.write outb
  change (if (port disk channel).setWidth 16 = (port disk other).setWidth 16 ∧ other < 8 then _ else _) = _
  simp only [same, small', and_true]

theorem write_same (file : TaskFile) {channel : Nat} (small : channel < 8) (val : BitVec 64) :
    TaskFile.write disk.channMain file (outb (port disk channel) val) channel = (val.setWidth 8, (file channel).1) := by
  rw [write_register file small small, if_pos rfl]

theorem write_other (file : TaskFile) {channel other : Nat} (small : channel < 8) (small' : other < 8)
    (different : channel ≠ other) (val : BitVec 64) :
    TaskFile.write disk.channMain file (outb (port disk channel) val) other = file other := by
  rw [write_register file small small', if_neg different]

theorem masked_byte (x : BitVec 64) : (x &&& 0xFF).setWidth 8 = x.setWidth 8 := by
  apply BitVec.eq_of_toNat_eq
  rw [BitVec.toNat_setWidth, BitVec.toNat_setWidth, BitVec.toNat_and]
  change (x.toNat &&& 2 ^ 8 - 1) % 2 ^ 8 = _
  rw [Nat.and_two_pow_sub_one_eq_mod, Nat.mod_mod]

theorem drive_nibble (x : BitVec 64) :
    (disk.channSub.setWidth 64 ||| (0x40 : BitVec 64) ||| (x &&& 0x0F)).setWidth 8 &&& 0x0F = x.setWidth 8 &&& 0x0F := by
  rcases disk.sub with sub | sub
  · rw [sub]
    ext i below
    interval_cases i <;> simp [MASTER]
  · rw [sub]
    ext i below
    interval_cases i <;> simp [SLAVE]

theorem littleEndian_lba (lba : BitVec 64) :
    littleEndian ([lba.setWidth 8, (lba >>> 8).setWidth 8, (lba >>> 16).setWidth 8, (lba >>> 24).setWidth 8,
      (lba >>> 32).setWidth 8, (lba >>> 40).setWidth 8].getD · 0) 0 6 = lba.toNat % 2 ^ 48 := by
  have number := littleEndian_word lba 0 6
  rw [pow_zero, Nat.div_one] at number
  refine Eq.trans ?_ number
  apply littleEndian_congr
  intro k below
  interval_cases k <;> simp

theorem sectorOf_lba48 (has : disk.hasLBA48 = true) (before : TaskFile) (lba : BitVec 64) :
    sectorOf disk before (readCommand disk lba) = some (lba.toNat % 2 ^ 48) := by
  unfold sectorOf readCommand
  rw [if_pos has]
  simp only [List.foldl_cons, List.foldl_nil]
  unfold TaskFile.sector TaskFile.lba48
  simp (disch := decide) only [write_same, write_other, masked_byte]
  rw [if_pos (by decide), littleEndian_lba]

theorem sectorOf_lba28 (has : disk.hasLBA48 = false) (before : TaskFile) (lba : BitVec 64) :
    sectorOf disk before (readCommand disk lba) = some (lba.toNat % 2 ^ 28) := by
  unfold sectorOf readCommand
  rw [if_neg (by rw [has]; decide)]
  simp only [List.foldl_cons, List.foldl_nil]
  unfold TaskFile.sector TaskFile.lba28
  simp (disch := decide) only [write_same, write_other, masked_byte, drive_nibble]
  rw [if_neg (by decide), if_pos (by decide), Option.some.injEq]
  have nibble : ((lba >>> 24).setWidth 8 &&& 0x0F).toNat = lba.toNat / 2 ^ 24 % 16 := by
    rw [BitVec.toNat_and, BitVec.toNat_setWidth, BitVec.toNat_ushiftRight, Nat.shiftRight_eq_div_pow]
    change _ &&& 2 ^ 4 - 1 = _
    rw [Nat.and_two_pow_sub_one_eq_mod]
    omega
  simp only [littleEndian, List.getD_cons_zero, List.getD_cons_succ, nibble, BitVec.toNat_setWidth,
    BitVec.toNat_ushiftRight, Nat.shiftRight_eq_div_pow]
  omega

end

section
variable {sata : SataPort}

/-- A command that succeeds has been issued, with the FIS in its table. -/
theorem executeCommand_success {answers : HbaAnswers} {memory : CommandMemory} {fis : FisRegH2D}
    {buffer bufferSize : BitVec 64} {write : Bool}
    (success : (executeCommand sata answers memory fis buffer bufferSize write).success = true) :
    (executeCommand sata answers memory fis buffer bufferSize write).sector = some fis.sector := by
  unfold executeCommand at success ⊢
  split at success
  · simp at success
  next sized =>
    rw [if_neg sized]
    split at success
    · simp at success
    next slot free =>
      dsimp only at success ⊢
      split at success
      · simp at success
      next ready =>
        rw [if_neg ready]
        split at success
        · simp at success
        next low =>
          rw [if_neg low]
          unfold Executed.sector
          simp

theorem sataRead_sector {answers : SataAnswers} {lba buff : BitVec 64}
    (success : (sataRead sata answers lba buff).1.isSome = true) :
    (sataRead sata answers lba buff).2.bind Executed.sector = some (lba.toNat % 2 ^ 48) := by
  unfold sataRead at success ⊢
  split at success
  · simp at success
  next given =>
    rw [if_neg given]
    split at success
    · simp at success
    next dmaBuffer allocated =>
      dsimp only at success ⊢
      split at success
      next done =>
        rw [Option.bind_some, executeCommand_success done]
        unfold FisRegH2D.sector
        rw [littleEndian_lba]
      next => simp at success

end

def zeroFis : FisRegH2D := ⟨0, 0, 0, 0, 0, 0, 0, 0, 0, 0, 0, 0, 0, 0, 0, 0, 0⟩

def zeroMemory : CommandMemory := ⟨fun _ => ⟨0, 0, 0⟩, fun _ => ⟨zeroFis, ⟨0, 0, 0, 0⟩⟩⟩

/-- A device that is ready at once, and a low heap with room. -/
def answering : DriveAnswers where
  ata := ⟨fun _ => 0x08, fun _ => 0⟩
  taskFile := fun _ => (0, 0)
  sata := ⟨some 0x200, zeroFis, zeroMemory, ⟨0, fun _ => 0, fun _ => 0, fun _ => 0, 0, 0⟩, fun _ => 0⟩

theorem ata_answers (disk : AtaDevice) (lba : BitVec 32) (buff : BitVec 64) :
    (readDisk (.ata disk) answering lba buff).success = true := by
  have ready : waitForData (fun _ => 0x08) 1000000 0 0 = 0x08 := by
    change waitForData (fun _ => 0x08) (999999 + 1) 0 0 = 0x08
    rfl
  unfold readDisk ataRead answering
  dsimp only
  rw [ready]
  rfl

theorem sata_answers (sata : SataPort) (lba : BitVec 32) :
    (readDisk (.sata sata) answering lba 1).success = true := by
  have executes : ∀ fis, (executeCommand sata answering.sata.hba zeroMemory fis 0x200 512
      false).success = true := by
    intro fis
    have slot : findCommandSlot 0 sata.commandSlots = some 0 := by
      obtain ⟨more, slots⟩ := Nat.exists_eq_succ_of_ne_zero (Nat.ne_of_gt sata.some_slot)
      unfold findCommandSlot
      rw [slots, List.range_succ_eq_map]
      exact List.find?_cons_of_pos (by decide)
    have ready : ¬ ¬ waitReady (fun _ => 0) TIMEOUT 0 = true := not_not.mpr rfl
    have done : waitDone (fun _ => 0) (fun _ => 0) 0 TIMEOUT 0 = true := rfl
    unfold executeCommand answering
    dsimp only
    rw [slot, if_neg (show ¬ ((0x200 : BitVec 64) = 0 ∨ (512 : BitVec 64) = 0 ∨ (512 : BitVec 64) > 0x400000) by decide)]
    dsimp only
    rw [if_neg ready, if_neg (show ¬ ((0x200 : BitVec 64) &&& 3 ≠ 0 ∨ (0x200 : BitVec 64) > 0xFFFFFFFF) by decide)]
    dsimp only
    apply decide_eq_true
    exact ⟨done, by decide, by decide⟩
  have given : ∀ fis, (if (executeCommand sata answering.sata.hba zeroMemory fis 0x200 512
      false).success then some ((List.range 512).map fun _ => (0 : BitVec 8)) else none).isSome = true := by
    intro fis
    rw [executes fis]
    rfl
  exact given _

theorem readsSector_iff {disk : DiskDevice} {lba : BitVec 64} {m : Nat} (positive : 0 < m)
    (asks : ∀ answers buff, (readDisk disk answers (lba.setWidth 32) buff).success = true →
      (readDisk disk answers (lba.setWidth 32) buff).sector = some (lba.toNat % m))
    (answers : ∃ answers buff, (readDisk disk answers (lba.setWidth 32) buff).success = true) :
    ReadsSector disk lba ↔ lba.toNat < m := by
  constructor
  · intro reads
    obtain ⟨answers, buff, success⟩ := answers
    rcases reads answers buff with fails | whole
    · rw [success] at fails
      simp at fails
    · rw [asks answers buff success, Option.some.injEq] at whole
      rw [← whole]
      exact Nat.mod_lt _ positive
  · intro small answers buff
    by_cases success : (readDisk disk answers (lba.setWidth 32) buff).success = true
    · rw [asks answers buff success, Nat.mod_eq_of_lt small]
      exact Or.inr rfl
    · exact Or.inl (eq_false_of_ne_true success)

/-- For every device, partition, cluster and sector of it: whatever the device answers, the call fails or
the drive reads the sector that the file system asks for, exactly when its number reaches it whole. -/
theorem sector_read_iff (disk : DiskDevice) (fs : ExfatInstance) (cluster : BitVec 32) (s : BitVec 64) :
    ReadsSector disk (clusterToLba fs cluster + s) ↔ Addressable (clusterToLba fs cluster + s) disk := by
  generalize clusterToLba fs cluster + s = lba
  have narrow : ((lba.setWidth 32).setWidth 64).toNat = lba.toNat % 2 ^ 32 := by
    rw [BitVec.toNat_setWidth_of_le (by decide), BitVec.toNat_setWidth]
  cases disk with
  | none => exact iff_of_true (fun _ _ => Or.inl rfl) trivial
  | ata disk =>
    apply readsSector_iff
    · split <;> decide
    · intro answers buff _
      change sectorOf disk answers.taskFile (readCommand disk ((lba.setWidth 32).setWidth 64)) = _
      by_cases has : disk.hasLBA48 = true
      · rw [sectorOf_lba48 has, narrow, if_pos has]
        congr 1
        omega
      · rw [sectorOf_lba28 (eq_false_of_ne_true has), narrow, if_neg has]
        congr 1
        omega
    · exact ⟨_, 0, ata_answers disk _ 0⟩
  | sata port =>
    apply readsSector_iff (by decide)
    · intro answers buff success
      refine (sataRead_sector success).trans ?_
      rw [narrow]
      congr 1
      omega
    · exact ⟨_, 1, sata_answers port _⟩

def masterDrive (hasLBA48 : Bool) : AtaDevice := ⟨CHANN_PRIMARY, MASTER, hasLBA48, Or.inl rfl, Or.inl rfl⟩

def largeVolume : ExfatInstance := ⟨0, 0, 0x200000000, 0x800, 0x800, 0x1000, 0x1FFFF, 2, 9, 16, 1⟩

/-- The first sector of cluster `0x10002` is number `0x100001000`; the drive reads number `0x1000`. -/
theorem large_number_cut : ¬ ReadsSector (.ata (masterDrive true)) (clusterToLba largeVolume 0x10002 + 0) := by
  intro reads
  rcases reads answering 0 with fails | whole
  · rw [ata_answers] at fails
    simp at fails
  · have asked : (readDisk (.ata (masterDrive true)) answering ((clusterToLba largeVolume 0x10002 + 0).setWidth 32)
        0).sector = some 0x1000 := by decide +kernel
    rw [asked] at whole
    exact absurd whole (by decide)

end Ketone.Disk.SectorNumber
