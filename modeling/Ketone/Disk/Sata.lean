import Ketone.Library.Bytes

/-! A drive behind a port of an AHCI controller: the command that asks for a sector is written to
memory, issued, and waited for. -/

namespace Ketone.Disk.Sata
open Library.Bytes

def CMD_SATA_READ_DMA_EXT : BitVec 8 := 0x24

/-- FIS_REG_H2D_t -/
structure FisRegH2D where
  fisType : BitVec 8
  pmportC : BitVec 8
  command : BitVec 8
  featurel : BitVec 8
  lba0 : BitVec 8
  lba1 : BitVec 8
  lba2 : BitVec 8
  device : BitVec 8
  lba3 : BitVec 8
  lba4 : BitVec 8
  lba5 : BitVec 8
  featureh : BitVec 8
  countl : BitVec 8
  counth : BitVec 8
  icc : BitVec 8
  control : BitVec 8
  reserved : BitVec 32
deriving DecidableEq

/-- HBA_CMD_HEADER_t, as far as a command changes it. -/
structure CmdHeader where
  flags : BitVec 16
  prdtl : BitVec 16
  prdbc : BitVec 32
deriving DecidableEq

/-- HBA_PRDT_ENTRY_t -/
structure PrdtEntry where
  dba : BitVec 32
  dbau : BitVec 32
  reserved : BitVec 32
  dbcI : BitVec 32
deriving DecidableEq

/-- HBA_CMD_TABLE_t: the command and its one stretch of memory. -/
structure CmdTable where
  cfis : FisRegH2D
  prdtEntry : PrdtEntry
deriving DecidableEq

structure CommandMemory where
  cmdList : Nat → CmdHeader
  cmdTables : Nat → CmdTable

structure SataPort where
  commandSlots : Nat
  some_slot : 0 < commandSlots
  few_slots : commandSlots ≤ 32

/-- What the port's registers answer, poll by poll; `ci` before the command is issued and after it. -/
structure HbaAnswers where
  occupied : BitVec 32
  ready : Nat → BitVec 32
  ci : Nat → BitVec 32
  is : Nat → BitVec 32
  finalTfd : BitVec 32
  finalIs : BitVec 32

def findCommandSlot (occupied : BitVec 32) (slots : Nat) : Option Nat :=
  (List.range slots).find? fun i => occupied &&& BitVec.ofNat 32 (1 <<< i) = 0

/-- The polls until the drive is ready; a loop that counts its timeout down past 0 fails. -/
def waitReady (tfd : Nat → BitVec 32) : Nat → Nat → Bool
  | 0, i => tfd i &&& 0x88 = 0
  | timeout + 1, i => tfd i &&& 0x88 = 0 || waitReady tfd timeout (i + 1)

/-- The polls until the slot's bit is clear; an error on the way fails at once. -/
def waitDone (ci is : Nat → BitVec 32) (slot : Nat) : Nat → Nat → Bool
  | 0, i => ci i &&& BitVec.ofNat 32 (1 <<< slot) = 0
  | timeout + 1, i =>
      if ci i &&& BitVec.ofNat 32 (1 <<< slot) = 0 then true
      else if is i &&& (0x40000000 : BitVec 32) ≠ 0 then false
      else waitDone ci is slot timeout (i + 1)

/-- What a command leaves: its memory, the slot it was issued in, and whether it succeeded. -/
structure Executed where
  memory : CommandMemory
  issued : Option Nat
  success : Bool

def TIMEOUT : Nat := 10000000

/-- `memset` does not reach the table, so what the command does not write stays. -/
def executeCommand (port : SataPort) (answers : HbaAnswers) (memory : CommandMemory) (fis : FisRegH2D)
    (buffer bufferSize : BitVec 64) (write : Bool) : Executed :=
  if buffer = 0 ∨ bufferSize = 0 ∨ bufferSize > 0x400000 then ⟨memory, none, false⟩
  else
    match findCommandSlot answers.occupied port.commandSlots with
    | none => ⟨memory, none, false⟩
    | some slot =>
        if ¬ waitReady answers.ready TIMEOUT 0 then ⟨memory, none, false⟩
        else
          let header : CmdHeader := ⟨(5 : BitVec 16) ||| (if write then (0x0040 : BitVec 16) else 0), 1, 0⟩
          let cmdList := Function.update memory.cmdList slot header
          let table := { memory.cmdTables slot with cfis := fis }
          if buffer &&& 3 ≠ 0 ∨ buffer > 0xFFFFFFFF then
            ⟨⟨cmdList, Function.update memory.cmdTables slot table⟩, none, false⟩
          else
            let prdt : PrdtEntry := ⟨buffer.setWidth 32, 0, 0, (bufferSize - 1).setWidth 32⟩
            let memory : CommandMemory :=
              ⟨cmdList, Function.update memory.cmdTables slot { table with prdtEntry := prdt }⟩
            ⟨memory, some slot, waitDone answers.ci answers.is slot TIMEOUT 0 ∧
              answers.finalTfd &&& 1 = 0 ∧ answers.finalIs &&& (0x40000000 : BitVec 32) = 0⟩

/-- What a call finds around it: the low heap's answer, what its frame held before, and what the
controller has stored to the DMA buffer in the end. -/
structure SataAnswers where
  dmaBuffer : Option (BitVec 64)
  stack : FisRegH2D
  memory : CommandMemory
  hba : HbaAnswers
  dma : Nat → BitVec 8

/-- The bytes read, if the call returns true, and what the command leaves. -/
def sataRead (port : SataPort) (answers : SataAnswers) (lba buff : BitVec 64) :
    Option (List (BitVec 8)) × Option Executed :=
  if buff = 0 then (none, none)
  else
    match answers.dmaBuffer with
    | none => (none, none)
    | some dmaBuffer =>
        let fis := { answers.stack with
          fisType := 0x27
          pmportC := 0x80
          command := CMD_SATA_READ_DMA_EXT
          lba0 := lba.setWidth 8
          lba1 := (lba >>> 8).setWidth 8
          lba2 := (lba >>> 16).setWidth 8
          lba3 := (lba >>> 24).setWidth 8
          lba4 := (lba >>> 32).setWidth 8
          lba5 := (lba >>> 40).setWidth 8
          device := 0x40
          countl := 1
          counth := 0 }
        let executed := executeCommand port answers.hba answers.memory fis dmaBuffer 512 false
        (if executed.success then some ((List.range 512).map answers.dma) else none, some executed)

def FisRegH2D.sector (fis : FisRegH2D) : Nat :=
  littleEndian ([fis.lba0, fis.lba1, fis.lba2, fis.lba3, fis.lba4, fis.lba5].getD · 0) 0 6

/-- The sector that the drive reads for the command issued. -/
def Executed.sector (executed : Executed) : Option Nat :=
  executed.issued.map fun slot => (executed.memory.cmdTables slot).cfis.sector

end Ketone.Disk.Sata
