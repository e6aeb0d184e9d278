import Ketone.Disk.SataSetUp
import Mathlib.Logic.Relation

/-! `SATA_execute_command` in single steps, between which the controller may move. -/

namespace Ketone.Disk.SataSteps
open Library.Loop Library.Ram MemManager.Allocator MemManager.BlockRuns MemManager.FirstFit Sata SataSetUp

structure HbaPort where
  ci : BitVec 32
  sact : BitVec 32
  tfd : BitVec 32
  is : BitVec 32
  serr : BitVec 32

structure Command where
  fis : BitVec 64
  buffer : BitVec 64
  bufferSize : BitVec 64
  write : Bool

/-- Where a call stands, with what it has read so far. -/
inductive Pc where
  | idle
  | called
  | readCi
  | readSact (ci : BitVec 32)
  | readTfd (slot timeout : Nat)
  | clearTable (slot : Nat)
  | copyFis (slot : Nat) (table : BitVec 64)
  | writeHeader (slot : Nat) (table : BitVec 64)
  | writePrdt (slot : Nat) (table : BitVec 64)
  | clearStatus (slot : Nat)
  | issue (slot : Nat)
  | pollCi (slot timeout : Nat)
  | pollIs (slot timeout : Nat)
  | finalTfd (slot : Nat)
  | finalIs (slot : Nat)
  | returned (issued : Option Nat) (success : Bool)
deriving DecidableEq

structure Machine where
  memory : Memory
  port : HbaPort
  command : Command
  pc : Pc

def slotBit (slot : Nat) : BitVec 32 := BitVec.ofNat 32 (1 <<< slot)

def storeHeader (data : PortData) (memory : Memory) (slot : Nat) (write : Bool) : Memory :=
  let memory := storeWord memory (data.headerField slot 0) ((5 : BitVec 16) ||| if write then 0x0040 else 0)
  let memory := storeWord memory (data.headerField slot 2) (1 : BitVec 16)
  storeWord memory (data.headerField slot 4) (0 : BitVec 32)

/-- The stores that fill in the one PRDT entry of a command table. -/
def storePrdt (memory : Memory) (table buffer bufferSize : BitVec 64) : Memory :=
  let memory := storeWord memory (table + 128) (buffer.setWidth 32)
  let memory := storeWord memory (table + 132) (0 : BitVec 32)
  let memory := storeWord memory (table + 136) (0 : BitVec 32)
  storeWord memory (table + 140) ((bufferSize - 1).setWidth 32)

/-- The driver's next step. A set bit that is written to `ci` is added, one written to `is` or `serr` is cleared. -/
def driverStep (routines : Routines) (data : PortData) (m : Machine) : Option Machine :=
  match m.pc with
  | .idle | .returned .. => none
  | .called =>
      if m.command.fis = 0 then some { m with pc := .returned none false }
      else if m.command.buffer = 0 ∨ m.command.bufferSize = 0 ∨ m.command.bufferSize > 0x400000 then
        some { m with pc := .returned none false }
      else some { m with pc := .readCi }
  | .readCi => some { m with pc := .readSact m.port.ci }
  | .readSact ci =>
      match findCommandSlot (ci ||| m.port.sact) data.commandSlots with
      | none => some { m with pc := .returned none false }
      | some slot => some { m with pc := .readTfd slot TIMEOUT }
  | .readTfd slot timeout =>
      if m.port.tfd &&& 0x88 = 0 then some { m with pc := .clearTable slot }
      else if timeout = 0 then some { m with pc := .returned none false }
      else some { m with pc := .readTfd slot (timeout - 1) }
  | .clearTable slot =>
      let table := data.table m.memory slot
      some { m with memory := routines.memset m.memory table 0 sizeofCmdTable, pc := .copyFis slot table }
  | .copyFis slot table =>
      some { m with memory := routines.memcpy m.memory m.command.fis table sizeofFis, pc := .writeHeader slot table }
  | .writeHeader slot table =>
      some { m with memory := storeHeader data m.memory slot m.command.write, pc := .writePrdt slot table }
  | .writePrdt slot table =>
      if m.command.buffer &&& 3 ≠ 0 ∨ m.command.buffer > 0xFFFFFFFF then some { m with pc := .returned none false }
      else
        let memory := storePrdt m.memory table m.command.buffer m.command.bufferSize
        some { m with memory := memory, pc := .clearStatus slot }
  | .clearStatus slot =>
      let port := { m.port with is := m.port.is &&& ~~~0xFFFFFFFF, serr := m.port.serr &&& ~~~0xFFFFFFFF }
      some { m with port := port, pc := .issue slot }
  | .issue slot =>
      some { m with port := { m.port with ci := m.port.ci ||| slotBit slot }, pc := .pollCi slot TIMEOUT }
  | .pollCi slot timeout =>
      if m.port.ci &&& slotBit slot = 0 then some { m with pc := .finalTfd slot }
      else some { m with pc := .pollIs slot timeout }
  | .pollIs slot timeout =>
      if m.port.is &&& 0x40000000 ≠ 0 then some { m with pc := .returned (some slot) false }
      else if timeout = 0 then some { m with pc := .returned (some slot) false }
      else some { m with pc := .pollCi slot (timeout - 1) }
  | .finalTfd slot =>
      if m.port.tfd &&& 1 ≠ 0 then some { m with pc := .returned (some slot) false }
      else some { m with pc := .finalIs slot }
  | .finalIs slot =>
      some { m with pc := .returned (some slot) (m.port.is &&& 0x40000000 = 0) }

/-- The bits of the second word are among those of the first. -/
def Clears (before after : BitVec 32) : Prop := ∀ i, after.getLsbD i = true → before.getLsbD i = true

/-- What happens besides the driver: bits of `ci` and `sact` are cleared, the other registers move, and memory
changes, but not the pointers to the command tables. -/
structure Moved (data : PortData) (m next : Machine) : Prop where
  ci : Clears m.port.ci next.port.ci
  sact : Clears m.port.sact next.port.sact
  pointers : data.pointersArea.Same m.memory next.memory
  command : next.command = m.command
  pc : next.pc = m.pc

/-- The first step of a call, a further one, or a move of the controller and of what else uses memory. -/
inductive Step (routines : Routines) (data : PortData) (m : Machine) : Machine → Prop where
  | call (command : Command) (between : m.pc = .idle ∨ ∃ issued success, m.pc = .returned issued success) :
      Step routines data m { m with command := command, pc := .called }
  | driver {next : Machine} (step : driverStep routines data m = some next) : Step routines data m next
  | moved {next : Machine} (moved : Moved data m next) : Step routines data m next

/-- A command of the slot is under way. -/
def Outstanding (port : HbaPort) (slot : Nat) : Prop :=
  port.ci.getLsbD slot = true ∨ port.sact.getLsbD slot = true

instance (port : HbaPort) (slot : Nat) : Decidable (Outstanding port slot) := by
  unfold Outstanding; infer_instance

namespace Pc

/-- The slot of a command that has not been issued yet. -/
def prepared : Pc → Option Nat
  | .readTfd slot _ | .clearTable slot | .copyFis slot _ | .writeHeader slot _ | .writePrdt slot _
  | .clearStatus slot | .issue slot => some slot
  | _ => none

def Searching : Pc → Prop
  | .called | .readCi | .readSact _ => True
  | _ => False

def searchLeft : Pc → Nat
  | .called => 3
  | .readCi => 2
  | .readSact _ => 1
  | _ => 0

end Pc

/-- The slot and the command table that are being filled in. -/
def Machine.work (data : PortData) (m : Machine) : Option (Nat × BitVec 64) :=
  match m.pc with
  | .clearTable slot => some (slot, data.table m.memory slot)
  | .copyFis slot table | .writeHeader slot table | .writePrdt slot table => some (slot, table)
  | _ => none

section
variable {data : PortData} {memory : Memory} {slot : Nat} {area : Area}

theorem slotBit_clear (word : BitVec 32) (few : slot < 32) : word &&& slotBit slot = 0 ↔ word.getLsbD slot = false := by
  have power : slotBit slot = BitVec.twoPow 32 slot := by
    apply BitVec.eq_of_toNat_eq
    rw [slotBit, BitVec.toNat_ofNat, BitVec.toNat_twoPow, Nat.one_shiftLeft]
  have nonzero : BitVec.twoPow 32 slot ≠ 0 := by
    intro zero
    have bit := congrArg (BitVec.getLsbD · slot) zero
    simp [few] at bit
  rw [power, BitVec.and_twoPow]
  cases word.getLsbD slot with
  | false => exact iff_of_true rfl rfl
  | true => exact iff_of_false nonzero (by decide)

theorem findCommandSlot_free {ci sact : BitVec 32} {slots : Nat} (few : slots ≤ 32)
    (found : findCommandSlot (ci ||| sact) slots = some slot) :
    slot < slots ∧ ci.getLsbD slot = false ∧ sact.getLsbD slot = false := by
  have below := List.mem_range.mp (List.mem_of_find?_eq_some found)
  unfold findCommandSlot at found
  have clear : (ci ||| sact) &&& slotBit slot = 0 := of_decide_eq_true (List.find?_some found :)
  rw [slotBit_clear _ (by omega), BitVec.getLsbD_or, Bool.or_eq_false_iff] at clear
  exact ⟨below, clear⟩

theorem findCommandSlot_busy {occupied : BitVec 32} {slots : Nat} (few : slots ≤ 32)
    (busy : ∀ slot < slots, occupied.getLsbD slot = true) : findCommandSlot occupied slots = none := by
  apply List.find?_eq_none.mpr
  intro slot member
  have below := List.mem_range.mp member
  have taken : ¬ occupied &&& slotBit slot = 0 := by
    rw [slotBit_clear _ (by omega), busy slot below]
    decide
  exact fun clear => taken (of_decide_eq_true clear)

theorem storeHeader_same (write : Bool) (apart : Area.Apart area (data.headerArea slot)) :
    area.Same memory (storeHeader data memory slot write) := by
  have inside : ∀ offset size, offset + size ≤ sizeofCmdHeader →
      Area.Within ⟨data.headerField slot offset, size⟩ (data.headerArea slot) := by
    intro offset size inside
    have field : data.headerField slot offset = (data.headerArea slot).base + BitVec.ofNat 64 offset := by
      unfold PortData.headerArea PortData.headerField
      dsimp only
      rw [Nat.add_zero, BitVec.add_assoc, ← BitVec.ofNat_add]
    rw [field]
    exact Area.part_within _ inside (show 32 ≤ 2 ^ 64 by decide)
  have store : ∀ {w : Nat} (memory : Memory) (offset : Nat) (word : BitVec w), offset + w / 8 ≤ sizeofCmdHeader →
      area.Same memory (storeWord memory (data.headerField slot offset) word) := by
    intro w memory offset word fits
    unfold sizeofCmdHeader at fits
    exact storeWord_same memory (by omega) word (apart.mono (Area.Within.refl _) (inside _ _ fits))
  exact ((store _ 0 _ (by decide)).trans (store _ 2 _ (by decide))).trans (store _ 4 _ (by decide))

theorem storePrdt_same {table : BitVec 64} (buffer bufferSize : BitVec 64)
    (apart : Area.Apart area ⟨table, sizeofCmdTable⟩) : area.Same memory (storePrdt memory table buffer bufferSize) := by
  have store : ∀ (memory : Memory) (offset : Nat) (word : BitVec 32), offset + 4 ≤ sizeofCmdTable →
      area.Same memory (storeWord memory (table + BitVec.ofNat 64 offset) word) := by
    intro memory offset word fits
    have inside := Area.part_within ⟨table, sizeofCmdTable⟩ fits (show 144 ≤ 2 ^ 64 by decide)
    exact storeWord_same memory (by decide) word (apart.mono (Area.Within.refl _) inside)
  exact (((store _ 128 _ (by decide)).trans (store _ 132 _ (by decide))).trans (store _ 136 _ (by decide))).trans
    (store _ 140 _ (by decide))

end

section
variable {data : PortData} {m next : Machine}

theorem work_prepared {slot : Nat} {table : BitVec 64} (work : m.work data = some (slot, table)) :
    m.pc.prepared = some slot := by
  unfold Machine.work at work
  unfold Pc.prepared
  split at work
  next at_ =>
    rw [at_, (Prod.mk.inj (Option.some.inj work)).1]
  next at_ =>
    rw [at_, (Prod.mk.inj (Option.some.inj work)).1]
  next at_ =>
    rw [at_, (Prod.mk.inj (Option.some.inj work)).1]
  next at_ =>
    rw [at_, (Prod.mk.inj (Option.some.inj work)).1]
  next => simp at work

/-- All that a step of the driver does: it stores to the header and the table that are being filled in, it
keeps the slot of its search until the command is issued, and it goes on with what it has read. -/
structure DriverMoves (data : PortData) (m next : Machine) : Prop where
  memory : ∀ area : Area, (∀ slot table, m.work data = some (slot, table) →
    Area.Apart area (data.headerArea slot) ∧ Area.Apart area ⟨table, sizeofCmdTable⟩) →
    area.Same m.memory next.memory
  work : ∀ slot table, next.work data = some (slot, table) →
    m.work data = some (slot, table) ∨ table = data.table next.memory slot
  prepared : ∀ slot, next.pc.prepared = some slot →
    next.port.ci = m.port.ci ∧ next.port.sact = m.port.sact ∧ (m.pc.prepared = some slot ∨
      ∃ ci, m.pc = .readSact ci ∧ findCommandSlot (ci ||| m.port.sact) data.commandSlots = some slot)
  read : ∀ ci, next.pc = .readSact ci → ci = next.port.ci

theorem DriverMoves.quiet (memory : next.memory = m.memory) (prepared : next.pc.prepared = none)
    (read : ∀ ci, next.pc = .readSact ci → ci = next.port.ci) : DriverMoves data m next where
  memory area _ := memory ▸ Area.Same.refl area m.memory
  work slot table work := by
    have some := work_prepared work
    rw [prepared] at some
    simp at some
  prepared slot some := by
    rw [prepared] at some
    simp at some
  read := read

/-- A step that goes on with the command of a slot. -/
theorem DriverMoves.onward (slot : Nat) (was : m.pc.prepared = some slot) (prepared : next.pc.prepared = some slot)
    (registers : next.port.ci = m.port.ci ∧ next.port.sact = m.port.sact)
    (memory : ∀ area : Area, (∀ slot table, m.work data = some (slot, table) →
      Area.Apart area (data.headerArea slot) ∧ Area.Apart area ⟨table, sizeofCmdTable⟩) →
      area.Same m.memory next.memory)
    (work : ∀ slot table, next.work data = some (slot, table) →
      m.work data = some (slot, table) ∨ table = data.table next.memory slot) : DriverMoves data m next where
  memory := memory
  work := work
  prepared other some := by
    obtain rfl := Option.some.inj (prepared.symm.trans some)
    exact ⟨registers.1, registers.2, Or.inl was⟩
  read ci at_ := by
    rw [at_] at prepared
    simp [Pc.prepared] at prepared

inductive Reads (data : PortData) (m : Machine) : Pc → Pc → Prop where
  | refused : Reads data m .called (.returned none false)
  | accepted : Reads data m .called .readCi
  | ci : Reads data m .readCi (.readSact m.port.ci)
  | full {ci : BitVec 32} : Reads data m (.readSact ci) (.returned none false)
  | found {ci : BitVec 32} {slot : Nat} (found : findCommandSlot (ci ||| m.port.sact) data.commandSlots = some slot) :
      Reads data m (.readSact ci) (.readTfd slot TIMEOUT)
  | ready {slot timeout : Nat} : Reads data m (.readTfd slot timeout) (.clearTable slot)
  | neverReady {slot timeout : Nat} : Reads data m (.readTfd slot timeout) (.returned none false)
  | notReady {slot timeout : Nat} : Reads data m (.readTfd slot timeout) (.readTfd slot (timeout - 1))
  | unreachable {slot : Nat} {table : BitVec 64} : Reads data m (.writePrdt slot table) (.returned none false)
  | done {slot timeout : Nat} (clear : m.port.ci &&& slotBit slot = 0) :
      Reads data m (.pollCi slot timeout) (.finalTfd slot)
  | notDone {slot timeout : Nat} : Reads data m (.pollCi slot timeout) (.pollIs slot timeout)
  | givesUp {slot timeout : Nat} (why : m.port.is &&& 0x40000000 ≠ 0 ∨ timeout = 0) :
      Reads data m (.pollIs slot timeout) (.returned (some slot) false)
  | again {slot timeout : Nat} : Reads data m (.pollIs slot timeout) (.pollCi slot (timeout - 1))
  | failed {slot : Nat} : Reads data m (.finalTfd slot) (.returned (some slot) false)
  | passed {slot : Nat} : Reads data m (.finalTfd slot) (.finalIs slot)
  | ended {slot : Nat} {success : Bool} : Reads data m (.finalIs slot) (.returned (some slot) success)

/-- All that a step of the driver can be: it only reads, or it stores to a table, to a header or to a register. -/
inductive Driven (routines : Routines) (data : PortData) (m : Machine) : Machine → Prop where
  | reads {pc : Pc} (reads : Reads data m m.pc pc) : Driven routines data m { m with pc := pc }
  | clearTable {slot : Nat} (at_ : m.pc = .clearTable slot) : Driven routines data m { m with
      memory := routines.memset m.memory (data.table m.memory slot) 0 sizeofCmdTable
      pc := .copyFis slot (data.table m.memory slot) }
  | copyFis {slot : Nat} {table : BitVec 64} (at_ : m.pc = .copyFis slot table) : Driven routines data m { m with
      memory := routines.memcpy m.memory m.command.fis table sizeofFis
      pc := .writeHeader slot table }
  | writeHeader {slot : Nat} {table : BitVec 64} (at_ : m.pc = .writeHeader slot table) : Driven routines data m { m with
      memory := storeHeader data m.memory slot m.command.write
      pc := .writePrdt slot table }
  | writePrdt {slot : Nat} {table : BitVec 64} (at_ : m.pc = .writePrdt slot table) : Driven routines data m { m with
      memory := storePrdt m.memory table m.command.buffer m.command.bufferSize
      pc := .clearStatus slot }
  | clearStatus {slot : Nat} (at_ : m.pc = .clearStatus slot) : Driven routines data m { m with
      port := { m.port with is := m.port.is &&& ~~~0xFFFFFFFF, serr := m.port.serr &&& ~~~0xFFFFFFFF }
      pc := .issue slot }
  | issue {slot : Nat} (at_ : m.pc = .issue slot) : Driven routines data m { m with
      port := { m.port with ci := m.port.ci ||| slotBit slot }
      pc := .pollCi slot TIMEOUT }

theorem Driven.branch {routines : Routines} {c : Prop} [Decidable c] {first : Machine} {rest : Option Machine}
    (ends : c → Driven routines data m first) (goes : rest = some next → Driven routines data m next)
    (step : (if c then some first else rest) = some next) : Driven routines data m next := by
  split at step
  next holds =>
    obtain rfl := Option.some.inj step
    exact ends holds
  next => exact goes step

theorem Driven.last {routines : Routines} {last : Machine} (driven : Driven routines data m last)
    (step : some last = some next) : Driven routines data m next := by
  obtain rfl := Option.some.inj step
  exact driven

theorem driverStep_driven {routines : Routines} (step : driverStep routines data m = some next) :
    Driven routines data m next := by
  obtain ⟨memory, port, command, pc⟩ := m
  cases pc with
  | idle => simp [driverStep] at step
  | returned issued success => simp [driverStep] at step
  | called =>
    apply Driven.branch (fun _ => .reads .refused) ?_ step
    exact Driven.branch (fun _ => .reads .refused) (Driven.last (.reads .accepted))
  | readCi => exact Driven.last (.reads .ci) step
  | readSact ci =>
    simp only [driverStep] at step
    split at step
    · exact Driven.last (.reads .full) step
    next slot found => exact Driven.last (.reads (.found found)) step
  | readTfd slot timeout =>
    apply Driven.branch (fun _ => .reads .ready) ?_ step
    exact Driven.branch (fun _ => .reads .neverReady) (Driven.last (.reads .notReady))
  | clearTable slot => exact Driven.last (.clearTable rfl) step
  | copyFis slot table => exact Driven.last (.copyFis rfl) step
  | writeHeader slot table => exact Driven.last (.writeHeader rfl) step
  | writePrdt slot table =>
    exact Driven.branch (fun _ => .reads .unreachable) (Driven.last (.writePrdt rfl)) step
  | clearStatus slot => exact Driven.last (.clearStatus rfl) step
  | issue slot => exact Driven.last (.issue rfl) step
  | pollCi slot timeout =>
    exact Driven.branch (fun clear => .reads (.done clear)) (Driven.last (.reads .notDone)) step
  | pollIs slot timeout =>
    apply Driven.branch (fun error => .reads (.givesUp (Or.inl error))) ?_ step
    exact Driven.branch (fun late => .reads (.givesUp (Or.inr late))) (Driven.last (.reads .again))
  | finalTfd slot => exact Driven.branch (fun _ => .reads .failed) (Driven.last (.reads .passed)) step
  | finalIs slot => exact Driven.last (.reads .ended) step

theorem reads_moves {memory : Memory} {port : HbaPort} {command : Command} {pc after : Pc}
    (reads : Reads data ⟨memory, port, command, pc⟩ pc after) :
    DriverMoves data ⟨memory, port, command, pc⟩ ⟨memory, port, command, after⟩ := by
  have stay : ∀ area : Area, area.Same memory memory := fun area => Area.Same.refl area memory
  cases reads with
  | ci => exact .quiet rfl rfl fun ci same => (Pc.readSact.inj same).symm
  | @found ci slot found =>
    constructor
    · exact fun area _ => stay area
    · exact fun _ _ work => by simp [Machine.work] at work
    · intro other same
      obtain rfl : slot = other := Option.some.inj same
      exact ⟨rfl, rfl, Or.inr ⟨ci, rfl, found⟩⟩
    · exact nofun
  | @ready slot timeout =>
    refine .onward slot rfl rfl ⟨rfl, rfl⟩ (fun area _ => stay area) fun other table work => Or.inr ?_
    obtain ⟨rfl, rfl⟩ := Prod.mk.inj (Option.some.inj work)
    rfl
  | @notReady slot timeout => exact .onward slot rfl rfl ⟨rfl, rfl⟩ (fun area _ => stay area) nofun
  | _ => exact .quiet rfl rfl nofun

theorem driverStep_moves (step : driverStep meantRoutines data m = some next) : DriverMoves data m next := by
  have driven := driverStep_driven step
  obtain ⟨memory, port, command, pc⟩ := m
  cases driven with
  | reads reads => exact reads_moves reads
  | @clearTable slot at_ =>
    subst at_
    refine .onward slot rfl rfl ⟨rfl, rfl⟩ ?_ fun _ _ work => Or.inl work
    exact fun area apart => fill_same memory 0 (apart slot _ rfl).2
  | @copyFis slot table at_ =>
    subst at_
    refine .onward slot rfl rfl ⟨rfl, rfl⟩ ?_ fun _ _ work => Or.inl work
    intro area apart
    have first : Area.Within ⟨table, sizeofFis⟩ ⟨table, sizeofCmdTable⟩ :=
      fun addr has => Nat.lt_of_lt_of_le has (show 20 ≤ 144 by decide)
    exact Utils.memcpy_same memory command.fis (by decide) ((apart slot table rfl).2.mono (Area.Within.refl _) first)
  | @writeHeader slot table at_ =>
    subst at_
    refine .onward slot rfl rfl ⟨rfl, rfl⟩ ?_ fun _ _ work => Or.inl work
    exact fun area apart => storeHeader_same command.write (apart slot table rfl).1
  | @writePrdt slot table at_ =>
    subst at_
    refine .onward slot rfl rfl ⟨rfl, rfl⟩ ?_ nofun
    exact fun area apart => storePrdt_same command.buffer command.bufferSize (apart slot table rfl).2
  | @clearStatus slot at_ =>
    subst at_
    exact .onward slot rfl rfl ⟨rfl, rfl⟩ (fun area _ => Area.Same.refl area memory) nofun
  | issue => exact .quiet rfl rfl nofun

end

structure Inv (data : PortData) (m : Machine) : Prop where
  laid : Laid data m.memory data.commandSlots
  prepared : ∀ slot, m.pc.prepared = some slot → slot < data.commandSlots ∧ ¬ Outstanding m.port slot
  work : ∀ slot table, m.work data = some (slot, table) → table = data.table m.memory slot
  read : ∀ ci, m.pc = .readSact ci → Clears ci m.port.ci

section
variable {data : PortData} {m next : Machine} {memory after : Memory}

theorem tables_same (few : data.commandSlots ≤ 32) (same : data.pointersArea.Same memory after) {slot : Nat}
    (below : slot < data.commandSlots) : data.table after slot = data.table memory slot :=
  table_same (same.mono (tablePointer_within few below))

theorem laid_same (few : data.commandSlots ≤ 32) (same : data.pointersArea.Same memory after)
    (laid : Laid data memory data.commandSlots) : Laid data after data.commandSlots := by
  have areas : ∀ slot < data.commandSlots, data.tableArea after slot = data.tableArea memory slot := by
    intro slot below
    unfold PortData.tableArea
    rw [tables_same few same below]
  constructor
  · exact laid.pointers_list
  · intro i below
    rw [areas i below]
    exact laid.table_pointers i below
  · intro i below
    rw [areas i below]
    exact laid.table_list i below
  · intro i below j below' different
    rw [areas i below, areas j below']
    exact laid.table_table i below j below' different

theorem header_in_list (few : data.commandSlots ≤ 32) {slot : Nat} (below : slot < data.commandSlots) :
    Area.Within (data.headerArea slot) data.listArea :=
  headerField_within (by omega) (le_of_eq (Nat.zero_add _))

theorem headers_apart {slot other : Nat} (different : slot ≠ other) (few : slot < 32) (few' : other < 32) :
    Area.Apart (data.headerArea slot) (data.headerArea other) := by
  unfold PortData.headerArea PortData.headerField sizeofCmdHeader
  by_cases below : slot < other
  · exact Area.parts_apart (by omega) (by omega)
  · exact (Area.parts_apart (by omega) (by omega)).symm

theorem pointers_kept (few : data.commandSlots ≤ 32) (inv : Inv data m) (moves : DriverMoves data m next) :
    data.pointersArea.Same m.memory next.memory := by
  apply moves.memory
  intro slot table work
  have below := (inv.prepared slot (work_prepared work)).1
  have own := inv.laid.table_pointers slot below
  unfold PortData.tableArea at own
  rw [← inv.work slot table work] at own
  exact ⟨inv.laid.pointers_list.mono (Area.Within.refl _) (header_in_list few below), own.symm⟩

/-- The driver leaves the header and the table of every outstanding slot alone. -/
theorem outstanding_kept (few : data.commandSlots ≤ 32) (inv : Inv data m) (moves : DriverMoves data m next)
    {slot : Nat} (below : slot < data.commandSlots) (outstanding : Outstanding m.port slot) :
    (data.headerArea slot).Same m.memory next.memory ∧ (data.tableArea m.memory slot).Same m.memory next.memory := by
  have different : ∀ other table, m.work data = some (other, table) → other < data.commandSlots ∧ slot ≠ other := by
    intro other table work
    obtain ⟨below', free⟩ := inv.prepared other (work_prepared work)
    refine ⟨below', ?_⟩
    rintro rfl
    exact free outstanding
  constructor
  · apply moves.memory
    intro other table work
    obtain ⟨below', apart⟩ := different other table work
    have own := inv.laid.table_list other below'
    unfold PortData.tableArea at own
    rw [← inv.work other table work] at own
    exact ⟨headers_apart apart (by omega) (by omega), own.symm.mono (header_in_list few below) (Area.Within.refl _)⟩
  · apply moves.memory
    intro other table work
    obtain ⟨below', apart⟩ := different other table work
    have own := inv.laid.table_table slot below other below' apart
    have list := inv.laid.table_list slot below
    unfold PortData.tableArea at own list ⊢
    rw [← inv.work other table work] at own
    exact ⟨list.mono (Area.Within.refl _) (header_in_list few below'), own⟩

theorem inv_driver (few : data.commandSlots ≤ 32) (inv : Inv data m) (moves : DriverMoves data m next) :
    Inv data next := by
  have pointers := pointers_kept few inv moves
  have prepared : ∀ slot, next.pc.prepared = some slot → slot < data.commandSlots ∧ ¬ Outstanding next.port slot := by
    intro slot some
    obtain ⟨ci, sact, old⟩ := moves.prepared slot some
    unfold Outstanding
    rw [ci, sact]
    rcases old with old | ⟨read, at_, found⟩
    · exact inv.prepared slot old
    · obtain ⟨below, clear, clear'⟩ := findCommandSlot_free few found
      refine ⟨below, ?_⟩
      -- a bit that was clear when `ci` was read has not been set since
      have still : m.port.ci.getLsbD slot ≠ true := by
        intro set
        rw [inv.read read at_ slot set] at clear
        simp at clear
      rw [clear']
      simp [still]
  refine ⟨laid_same few pointers inv.laid, prepared, ?_, ?_⟩
  · intro slot table work
    rcases moves.work slot table work with old | new
    · rw [tables_same few pointers (inv.prepared slot (work_prepared old)).1]
      exact inv.work slot table old
    · exact new
  · intro ci at_
    rw [moves.read ci at_]
    exact fun _ set => set

theorem outstanding_moved (moved : Moved data m next) {slot : Nat} (outstanding : Outstanding next.port slot) :
    Outstanding m.port slot := by
  rcases outstanding with ci | sact
  · exact Or.inl (moved.ci slot ci)
  · exact Or.inr (moved.sact slot sact)

theorem inv_moved (few : data.commandSlots ≤ 32) (inv : Inv data m) (moved : Moved data m next) : Inv data next := by
  have prepared : ∀ slot, next.pc.prepared = some slot → slot < data.commandSlots ∧ ¬ Outstanding next.port slot := by
    intro slot some
    rw [moved.pc] at some
    obtain ⟨below, free⟩ := inv.prepared slot some
    exact ⟨below, fun outstanding => free (outstanding_moved moved outstanding)⟩
  refine ⟨laid_same few moved.pointers inv.laid, prepared, ?_, ?_⟩
  · intro slot table work
    have below := (prepared slot (work_prepared work)).1
    unfold Machine.work at work
    rw [moved.pc] at work
    cases pc : m.pc with
    | clearTable other =>
      rw [pc] at work
      obtain ⟨rfl, rfl⟩ := Prod.mk.inj (Option.some.inj work)
      rfl
    | copyFis other old =>
      rw [tables_same few moved.pointers below]
      exact inv.work slot table (by rw [Machine.work, pc]; rw [pc] at work; exact work)
    | writeHeader other old =>
      rw [tables_same few moved.pointers below]
      exact inv.work slot table (by rw [Machine.work, pc]; rw [pc] at work; exact work)
    | writePrdt other old =>
      rw [tables_same few moved.pointers below]
      exact inv.work slot table (by rw [Machine.work, pc]; rw [pc] at work; exact work)
    | _ =>
      rw [pc] at work
      simp at work
  · intro ci at_
    rw [moved.pc] at at_
    exact fun slot set => inv.read ci at_ slot (moved.ci slot set)

theorem inv_step (few : data.commandSlots ≤ 32) (inv : Inv data m) (step : Step meantRoutines data m next) :
    Inv data next := by
  cases step with
  | call command between => exact ⟨inv.laid, nofun, nofun, nofun⟩
  | driver step => exact inv_driver few inv (driverStep_moves step)
  | moved moved => exact inv_moved few inv moved

theorem inv_run {start : Machine} (few : data.commandSlots ≤ 32) (inv : Inv data start)
    (run : Relation.ReflTransGen (Step meantRoutines data) start m) : Inv data m := by
  induction run with
  | refl => exact inv
  | tail _ step ih => exact inv_step few ih step

/-- Every slot of the port has a command under way. -/
def AllBusy (data : PortData) (m : Machine) : Prop := ∀ slot < data.commandSlots, Outstanding m.port slot

instance (data : PortData) (m : Machine) : Decidable (AllBusy data m) := by
  unfold AllBusy; infer_instance

/-- What is left of a call while every slot is busy: it has failed, or its next step changes nothing but brings
the search nearer to its end, which is a failure. -/
def Fails (routines : Routines) (data : PortData) (m : Machine) : Prop :=
  m.pc = .returned none false ∨ m.pc.Searching ∧ ∃ next, driverStep routines data m = some next ∧
    next.memory = m.memory ∧ next.port = m.port ∧ next.pc.searchLeft < m.pc.searchLeft ∧
    (next.pc = .returned none false ∨ next.pc.Searching)

theorem fails_of_busy (few : data.commandSlots ≤ 32) (inv : Inv data m) (busy : AllBusy data m)
    (at_ : m.pc = .returned none false ∨ m.pc.Searching) : Fails meantRoutines data m := by
  rcases at_ with returned | searching
  · exact Or.inl returned
  refine Or.inr ⟨searching, ?_⟩
  have read := inv.read
  obtain ⟨memory, port, command, pc⟩ := m
  cases pc with
  | called =>
    simp only [driverStep]
    split
    · exact ⟨_, rfl, rfl, rfl, show 0 < 3 by decide, Or.inl rfl⟩
    · split
      · exact ⟨_, rfl, rfl, rfl, show 0 < 3 by decide, Or.inl rfl⟩
      · exact ⟨_, rfl, rfl, rfl, show 2 < 3 by decide, Or.inr trivial⟩
  | readCi => exact ⟨_, rfl, rfl, rfl, show 1 < 2 by decide, Or.inr trivial⟩
  | readSact ci =>
    have none_ : findCommandSlot (ci ||| port.sact) data.commandSlots = none := by
      apply findCommandSlot_busy few
      intro slot below
      rw [BitVec.getLsbD_or, Bool.or_eq_true]
      exact (busy slot below).imp (read ci rfl slot) id
    simp only [driverStep, none_]
    exact ⟨_, rfl, rfl, rfl, show 0 < 1 by decide, Or.inl rfl⟩
  | _ => exact searching.elim

theorem busy_step (few : data.commandSlots ≤ 32) (inv : Inv data m) (busy : AllBusy data m)
    (at_ : m.pc = .returned none false ∨ m.pc.Searching) (step : Step meantRoutines data m next) :
    next.pc = .returned none false ∨ next.pc.Searching := by
  cases step with
  | call command between => exact Or.inr trivial
  | driver step =>
    rcases fails_of_busy few inv busy at_ with returned | ⟨_, other, step', _, _, _, kept⟩
    · rw [driverStep, returned] at step
      simp at step
    · obtain rfl := Option.some.inj (step.symm.trans step')
      exact kept
  | moved moved =>
    rw [moved.pc]
    exact at_

theorem busy_run {last : Machine} (few : data.commandSlots ≤ 32) (inv : Inv data m)
    (at_ : m.pc = .returned none false ∨ m.pc.Searching)
    (run : Relation.ReflTransGen (fun s t => AllBusy data s ∧ Step meantRoutines data s t) m last) :
    Inv data last ∧ (last.pc = .returned none false ∨ last.pc.Searching) := by
  induction run with
  | refl => exact ⟨inv, at_⟩
  | tail _ step ih => exact ⟨inv_step few ih.1 step.2, busy_step few ih.1 step.1 ih.2 step.2⟩

end

/-- In every run on a port that has been set up: a command is issued in a slot of the port that has no bit in
`ci` or `sact`, no step of the driver changes the header or the table of an outstanding slot, and a call made
while every slot is busy, and stays so, fails and changes nothing. -/
theorem commands_undisturbed {cr fr : Nat → BitVec 32} {low : Heap} {live : List Live} (formed : WellFormed low live)
    (blocks : low.blockSize = 512) {memory : Memory} {commandSlots : BitVec 64} {setUp : PortSetUp}
    (done : portConfigure meantRoutines cr fr low memory commandSlots = some setUp) {start m : Machine}
    (left : start.memory = setUp.memory) (idle : start.pc = .idle)
    (run : Relation.ReflTransGen (Step meantRoutines setUp.data) start m) :
    (∀ slot, m.pc = .issue slot → slot < setUp.data.commandSlots ∧ ¬ Outstanding m.port slot) ∧
      (∀ next, driverStep meantRoutines setUp.data m = some next → ∀ slot < setUp.data.commandSlots,
        Outstanding m.port slot → (setUp.data.headerArea slot).Same m.memory next.memory ∧
          (setUp.data.tableArea m.memory slot).Same m.memory next.memory) ∧
      (m.pc = .called → ∀ last, Relation.ReflTransGen
        (fun s t => AllBusy setUp.data s ∧ Step meantRoutines setUp.data s t) m last → AllBusy setUp.data last →
        Fails meantRoutines setUp.data last) := by
  obtain ⟨_, few, laid⟩ := portConfigure_laid formed blocks done
  have initial : Inv setUp.data start := by
    constructor
    · rw [left]
      exact laid
    · rw [idle]
      exact nofun
    · rw [Machine.work, idle]
      exact nofun
    · rw [idle]
      exact nofun
  have inv := inv_run few initial run
  refine ⟨?_, ?_, ?_⟩
  · intro slot issues
    exact inv.prepared slot (by rw [issues]; rfl)
  · intro next step slot below outstanding
    exact outstanding_kept few inv (driverStep_moves step) below outstanding
  · intro called last busy still
    have searching : m.pc = .returned none false ∨ m.pc.Searching := by
      rw [called]
      exact Or.inr trivial
    obtain ⟨inv', at_⟩ := busy_run few inv searching busy
    exact fails_of_busy few inv' still at_

theorem driver_run {routines : Routines} {data : PortData} {k : Nat} {m last : Machine}
    (passed : nth (driverStep routines data) k m = some last) :
    Relation.ReflTransGen (Step routines data) m last := by
  induction k generalizing m with
  | zero =>
    obtain rfl := Option.some.inj passed
    exact .refl
  | succ k ih =>
    obtain ⟨next, step, rest⟩ := Option.bind_eq_some_iff.mp passed
    exact .head (.driver step) (ih rest)

def eightBlocks : Heap := ⟨512, 0x200000, 4096, fun _ => .cleared, sector_pos⟩

theorem eightBlocks_formed : WellFormed eightBlocks [] := by
  constructor
  · exact pictured_cleared fun _ _ => rfl
  · decide
  · decide
  · decide

def twoSlotPort : Option PortSetUp := portConfigure meantRoutines (fun _ => 0) (fun _ => 0) eightBlocks (fun _ => 0) 2

def atRest (setUp : PortSetUp) : Machine := ⟨setUp.memory, ⟨0, 0, 0, 0, 0⟩, ⟨0, 0, 0, false⟩, .idle⟩

def readSector : Command := ⟨0x7000, 0x300000, 512, false⟩

def called (m : Machine) : Machine := { m with command := readSector, pc := .called }

def calling (data : PortData) (k : Nat) (m : Machine) : Option Machine :=
  nth (driverStep meantRoutines data) k (called m)

/-- A call whose command the controller reports an error for behind the first poll, and goes on with. -/
def failing (data : PortData) (m : Machine) : Option Machine :=
  (calling data 11 m).bind fun polled => driverStep meantRoutines data
    { polled with port := { polled.port with is := 0x40000000 } }

theorem calling_run {data : PortData} {k : Nat} {start m last : Machine}
    (run : Relation.ReflTransGen (Step meantRoutines data) start m)
    (between : m.pc = .idle ∨ ∃ issued success, m.pc = .returned issued success)
    (passed : calling data k m = some last) : Relation.ReflTransGen (Step meantRoutines data) start last :=
  (run.tail (.call readSector between)).trans (driver_run passed)

theorem failing_run {data : PortData} {start m last : Machine}
    (run : Relation.ReflTransGen (Step meantRoutines data) start m)
    (between : m.pc = .idle ∨ ∃ issued success, m.pc = .returned issued success)
    (passed : failing data m = some last) : Relation.ReflTransGen (Step meantRoutines data) start last := by
  obtain ⟨polled, called, step⟩ := Option.bind_eq_some_iff.mp passed
  have reported : Moved data polled { polled with port := { polled.port with is := 0x40000000 } } :=
    ⟨fun _ set => set, fun _ set => set, Area.Same.refl _ _, rfl, rfl⟩
  exact ((calling_run run between called).tail (.moved reported)).tail (.driver step)

/-- With a command outstanding in slot 0 the next one is prepared and issued in slot 1, and once both are
outstanding a call fails. -/
theorem commands_undisturbed_two_slots : ∃ setUp storing issuing searching, twoSlotPort = some setUp ∧
    (Relation.ReflTransGen (Step meantRoutines setUp.data) (atRest setUp) storing ∧
      storing.pc = .writeHeader 1 0x200A00 ∧ ∃ next, driverStep meantRoutines setUp.data storing = some next ∧
        (setUp.data.headerArea 0).Same storing.memory next.memory ∧
        (setUp.data.tableArea storing.memory 0).Same storing.memory next.memory) ∧
    (Relation.ReflTransGen (Step meantRoutines setUp.data) (atRest setUp) issuing ∧ issuing.pc = .issue 1 ∧
      Outstanding issuing.port 0 ∧ ¬ Outstanding issuing.port 1) ∧
    Relation.ReflTransGen (Step meantRoutines setUp.data) (atRest setUp) searching ∧ AllBusy setUp.data searching ∧
      searching.pc = .readSact 3 ∧ Fails meantRoutines setUp.data searching := by
  have whole : (twoSlotPort.bind fun setUp => (failing setUp.data (atRest setUp)).bind fun one =>
      (calling setUp.data 6 one).bind fun storing => (driverStep meantRoutines setUp.data storing).bind fun _ =>
      (calling setUp.data 9 one).bind fun issuing => (failing setUp.data one).bind fun two =>
      (driverStep meantRoutines setUp.data (called two)).bind fun reading =>
      (driverStep meantRoutines setUp.data reading).map fun searching =>
        decide (one.pc = .returned (some 0) false ∧ two.pc = .returned (some 1) false ∧
          storing.pc = .writeHeader 1 0x200A00 ∧ Outstanding storing.port 0 ∧ issuing.pc = .issue 1 ∧
          Outstanding issuing.port 0 ∧ 0 < setUp.data.commandSlots ∧ AllBusy setUp.data two ∧
          AllBusy setUp.data reading ∧ AllBusy setUp.data searching ∧ searching.pc = .readSact 3)) = some true := by
    decide +kernel
  obtain ⟨setUp, done, whole⟩ := Option.bind_eq_some_iff.mp whole
  obtain ⟨one, first, whole⟩ := Option.bind_eq_some_iff.mp whole
  obtain ⟨storing, stores, whole⟩ := Option.bind_eq_some_iff.mp whole
  obtain ⟨next, step, whole⟩ := Option.bind_eq_some_iff.mp whole
  obtain ⟨issuing, issues, whole⟩ := Option.bind_eq_some_iff.mp whole
  obtain ⟨two, second, whole⟩ := Option.bind_eq_some_iff.mp whole
  obtain ⟨reading, reads, whole⟩ := Option.bind_eq_some_iff.mp whole
  obtain ⟨searching, step', holds⟩ := Option.map_eq_some_iff.mp whole
  obtain ⟨oneEnds, twoEnds, storingAt, storingHolds, issuingAt, issuingHolds, slots, busy, busy', busy'', searchingAt⟩ :=
    of_decide_eq_true holds
  have run : Relation.ReflTransGen (Step meantRoutines setUp.data) (atRest setUp) one := failing_run .refl (Or.inl rfl) first
  have ended : one.pc = .idle ∨ ∃ issued success, one.pc = .returned issued success := Or.inr ⟨_, _, oneEnds⟩
  have ended' : two.pc = .idle ∨ ∃ issued success, two.pc = .returned issued success := Or.inr ⟨_, _, twoEnds⟩
  have runStoring := calling_run run ended stores
  have runIssuing := calling_run run ended issues
  have runCalled := (failing_run run ended second).tail (.call readSector ended')
  have kept := (commands_undisturbed eightBlocks_formed rfl done rfl rfl runStoring).2.1 next step 0 slots storingHolds
  have free := (commands_undisturbed eightBlocks_formed rfl done rfl rfl runIssuing).1 1 issuingAt
  have busyRun : Relation.ReflTransGen (fun s t => AllBusy setUp.data s ∧ Step meantRoutines setUp.data s t)
      (called two) searching :=
    (Relation.ReflTransGen.single ⟨busy, .driver reads⟩).tail ⟨busy', .driver step'⟩
  have fails := (commands_undisturbed eightBlocks_formed rfl done rfl rfl runCalled).2.2 rfl searching busyRun busy''
  exact ⟨setUp, storing, issuing, searching, done, ⟨runStoring, storingAt, next, step, kept⟩,
    ⟨runIssuing, issuingAt, issuingHolds, free.2⟩, (runCalled.tail (.driver reads)).tail (.driver step'), busy'',
    searchingAt, fails⟩

end Ketone.Disk.SataSteps
