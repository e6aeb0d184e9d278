import Ketone.Library.Bytes

/-! A drive on one of the two ATA channels, and what it makes of the bytes that are written to its
registers. -/

namespace Ketone.Disk.Ata
open Library.Bytes

def CHANN_PRIMARY : BitVec 32 := 0x1F0
def CHANN_SECONDARY : BitVec 32 := 0x170

def MASTER : BitVec 32 := 0xA0
def SLAVE : BitVec 32 := 0xB0

def CHANN_SECTOR_COUNT : Nat := 2
def CHANN_LBA_LOW : Nat := 3
def CHANN_LBA_MID : Nat := 4
def CHANN_LBA_HIGH : Nat := 5
def CHANN_DRIVE : Nat := 6
def CHANN_CMD : Nat := 7

def CMD_READ_PIO : BitVec 8 := 0x20
def CMD_READ_PIO_EXT : BitVec 8 := 0x24

/-- A drive as `ATA_identify` leaves it: it is only called for the two places on the two channels. -/
structure AtaDevice where
  channMain : BitVec 32
  channSub : BitVec 32
  hasLBA48 : Bool
  main : channMain = CHANN_PRIMARY ∨ channMain = CHANN_SECONDARY
  sub : channSub = MASTER ∨ channSub = SLAVE

/-- What the drive answers to the reads of its status and of its data. -/
structure AtaAnswers where
  status : Nat → BitVec 8
  data : Nat → BitVec 16

abbrev Out := BitVec 16 × BitVec 8

def outb (port : BitVec 32) (val : BitVec 64) : Out := (port.setWidth 16, val.setWidth 8)

/-- The status is polled until it shows an error or data, or the polls run out. -/
def waitForData (status : Nat → BitVec 8) : Nat → Nat → BitVec 8 → BitVec 8
  | 0, _, last => last
  | left + 1, i, _ =>
      if status i &&& 0x01 ≠ 0 ∨ status i &&& 0x08 ≠ 0 then status i else waitForData status left (i + 1) (status i)

section
variable (disk : AtaDevice) (lba : BitVec 64)

def port (channel : Nat) : BitVec 32 := disk.channMain + BitVec.ofNat 32 channel

/-- The registers are written high bytes first, or the drive register takes the highest bits. -/
def readCommand : List Out :=
  if disk.hasLBA48 then
    [outb (port disk CHANN_DRIVE) (disk.channSub.setWidth 64 ||| 0x40),
      outb (port disk CHANN_SECTOR_COUNT) 0,
      outb (port disk CHANN_LBA_LOW) (lba >>> 24 &&& 0xFF),
      outb (port disk CHANN_LBA_MID) (lba >>> 32 &&& 0xFF),
      outb (port disk CHANN_LBA_HIGH) (lba >>> 40 &&& 0xFF),
      outb (port disk CHANN_SECTOR_COUNT) 1,
      outb (port disk CHANN_LBA_LOW) (lba &&& 0xFF),
      outb (port disk CHANN_LBA_MID) (lba >>> 8 &&& 0xFF),
      outb (port disk CHANN_LBA_HIGH) (lba >>> 16 &&& 0xFF),
      outb (port disk CHANN_CMD) (BitVec.setWidth 64 CMD_READ_PIO_EXT)]
  else
    [outb (port disk CHANN_DRIVE) (disk.channSub.setWidth 64 ||| (0x40 : BitVec 64) ||| (lba >>> 24 &&& 0x0F)),
      outb (port disk CHANN_SECTOR_COUNT) 1,
      outb (port disk CHANN_LBA_LOW) (lba &&& 0xFF),
      outb (port disk CHANN_LBA_MID) (lba >>> 8 &&& 0xFF),
      outb (port disk CHANN_LBA_HIGH) (lba >>> 16 &&& 0xFF),
      outb (port disk CHANN_CMD) (BitVec.setWidth 64 CMD_READ_PIO)]

/-- The words read, if the call returns true, and the writes before that. -/
def ataRead (answers : AtaAnswers) : Option (List (BitVec 16)) × List Out :=
  let status := waitForData answers.status 1000000 0 0
  (if status &&& 0x01 ≠ 0 then none
    else if status &&& 0x08 = 0 then none
    else some ((List.range 256).map answers.data), readCommand disk lba)

end

/-- Each register holds the byte written last and the one written before that. -/
abbrev TaskFile := Nat → BitVec 8 × BitVec 8

def TaskFile.write (main : BitVec 32) (file : TaskFile) (out : Out) : TaskFile := fun channel =>
  if out.1 = (main + BitVec.ofNat 32 channel).setWidth 16 ∧ channel < 8 then (out.2, (file channel).1) else file channel

/-- The lower three bytes were written last, the upper three before them. -/
def TaskFile.lba48 (file : TaskFile) : Nat :=
  littleEndian ([(file CHANN_LBA_LOW).1, (file CHANN_LBA_MID).1, (file CHANN_LBA_HIGH).1, (file CHANN_LBA_LOW).2,
    (file CHANN_LBA_MID).2, (file CHANN_LBA_HIGH).2].getD · 0) 0 6

/-- The highest four bits are in the drive register. -/
def TaskFile.lba28 (file : TaskFile) : Nat :=
  littleEndian ([(file CHANN_LBA_LOW).1, (file CHANN_LBA_MID).1, (file CHANN_LBA_HIGH).1,
    (file CHANN_DRIVE).1 &&& 0x0F].getD · 0) 0 4

/-- The sector that the command in the registers is about. -/
def TaskFile.sector (file : TaskFile) : Option Nat :=
  if (file CHANN_CMD).1 = CMD_READ_PIO_EXT then some file.lba48
  else if (file CHANN_CMD).1 = CMD_READ_PIO then some file.lba28
  else none

/-- The sector that a drive reads, whatever its registers held before. -/
def sectorOf (disk : AtaDevice) (before : TaskFile) (outs : List Out) : Option Nat :=
  (outs.foldl (TaskFile.write disk.channMain) before).sector

end Ketone.Disk.Ata
