import Ketone.Library.Polling
import Ketone.Disk.ModelString
import Ketone.Disk.SectorNumber

/-! The two ATA channels with the drives on them, and the driver that talks to them through ports while
they are at work in their own time. -/

namespace Ketone.Disk.AtaChannel
open Library.Bytes Library.Polling Ata SectorNumber

def CMD_IDENTIFY : BitVec 8 := 0xEC
def CMD_WRITE_PIO : BitVec 8 := 0x30
def CMD_WRITE_PIO_EXT : BitVec 8 := 0x34

abbrev Sector := Vector (BitVec 16) 256

structure Drive where
  identity : Sector
  sectors : Nat → Sector

inductive Chann where
  | primary
  | secondary
deriving DecidableEq

inductive Place where
  | master
  | slave
deriving DecidableEq

def Chann.main : Chann → BitVec 32
  | .primary => CHANN_PRIMARY
  | .secondary => CHANN_SECONDARY

def Place.sub : Place → BitVec 32
  | .master => MASTER
  | .slave => SLAVE

/-- The drives of a channel once a sector is stored. -/
def stored (drives : Place → Option Drive) (place : Place) (number : Nat) (words : Sector) : Place → Option Drive :=
  Function.update drives place ((drives place).map fun drive =>
    { drive with sectors := Function.update drive.sectors number words })

/-- What the selected drive is at: words are fetched before they are handed out, and taken before they
are stored. -/
inductive Phase where
  | rest (failed : Bool)
  | fetching (words : Sector)
  | sending (words : List (BitVec 16))
  | opening (place : Place) (number : Nat)
  | taking (place : Place) (number : Nat) (words : List (BitVec 16))
  | storing (place : Place) (number : Nat) (words : Sector)

/-- Both drives see what is written to the registers of their channel. -/
structure Channel where
  file : TaskFile
  drives : Place → Option Drive
  phase : Phase

def TaskFile.place (file : TaskFile) : Place := if (file CHANN_DRIVE).1.getLsbD 4 then .slave else .master

/-- Commands of 48 bits take the count of two writes, the others that of one. -/
def TaskFile.oneSector (file : TaskFile) (ext : Bool) : Prop :=
  (file CHANN_SECTOR_COUNT).1 = 1 ∧ (ext → (file CHANN_SECTOR_COUNT).2 = 0)

instance (file : TaskFile) (ext : Bool) : Decidable (TaskFile.oneSector file ext) :=
  inferInstanceAs (Decidable (_ ∧ _))

/-- What a drive does with the command in the registers; what is not about one sector is of no interest here. -/
def TaskFile.begin (file : TaskFile) (drive : Drive) : Phase :=
  let command := (file CHANN_CMD).1
  if command = CMD_IDENTIFY then .fetching drive.identity
  else if command = CMD_READ_PIO_EXT ∧ TaskFile.oneSector file true then .fetching (drive.sectors file.lba48)
  else if command = CMD_READ_PIO ∧ TaskFile.oneSector file false then .fetching (drive.sectors file.lba28)
  else if command = CMD_WRITE_PIO_EXT ∧ TaskFile.oneSector file true then .opening (TaskFile.place file) file.lba48
  else if command = CMD_WRITE_PIO ∧ TaskFile.oneSector file false then .opening (TaskFile.place file) file.lba28
  else .rest true

/-- No one answers for a drive that is not there. -/
def Channel.start (c : Channel) : Channel :=
  match c.drives (TaskFile.place c.file) with
  | none => { c with phase := .rest false }
  | some drive => { c with phase := TaskFile.begin c.file drive }

/-- A channel that is not at rest does not take what is written to its registers. A command leaves them as they are. -/
def Channel.outb (main : BitVec 32) (c : Channel) (out : Out) : Channel :=
  match c.phase with
  | .rest _ =>
      let c := { c with file := TaskFile.write main c.file out }
      if out.1 = (main + BitVec.ofNat 32 CHANN_CMD).setWidth 16 then c.start else c
  | _ => c

/-- Bit 7 says that a drive is at work, and then the other bits say nothing; else bit 3 says that it waits for the
driver, and bit 0 that it has given up. -/
def Channel.status (c : Channel) (others : BitVec 8) : BitVec 8 :=
  match c.phase with
  | .rest failed => if failed then others &&& ~~~0x89 ||| 0x01 else others &&& ~~~0x89
  | .fetching _ | .opening _ _ | .storing _ _ _ => others ||| 0x80
  | .sending _ | .taking _ _ _ => others &&& ~~~0x89 ||| 0x08

def Channel.inw (c : Channel) : BitVec 16 × Channel :=
  match c.phase with
  | .sending [] => (0, { c with phase := .rest false })
  | .sending [word] => (word, { c with phase := .rest false })
  | .sending (word :: rest) => (word, { c with phase := .sending rest })
  | _ => (0, c)

def Channel.outw (c : Channel) (word : BitVec 16) : Channel :=
  match c.phase with
  | .taking place number words =>
      let words := words ++ [word]
      if full : words.length = 256 then { c with phase := .storing place number ⟨words.toArray, full⟩ }
      else { c with phase := .taking place number words }
  | _ => c

/-- A drive may give up before it hands out or takes any word, and on the sector that it is to store. -/
inductive Move where
  | stays
  | succeeds
  | fails

def Channel.move (c : Channel) : Move → Channel
  | .stays => c
  | .succeeds =>
      match c.phase with
      | .fetching words => { c with phase := .sending words.toList }
      | .opening place number => { c with phase := .taking place number [] }
      | .storing place number words => { c with drives := stored c.drives place number words, phase := .rest false }
      | _ => c
  | .fails =>
      match c.phase with
      | .fetching _ | .opening _ _ | .storing _ _ _ => { c with phase := .rest true }
      | _ => c

/-- What a channel does by itself before an access, and what its other status bits show then. -/
structure Turn where
  move : Move
  others : BitVec 8

structure Machine where
  channels : Chann → Channel
  turns : Nat → Chann → Turn
  clock : Nat

def Machine.tick (m : Machine) : Machine :=
  { m with channels := fun chann => (m.channels chann).move (m.turns m.clock chann).move, clock := m.clock + 1 }

def Machine.outb (m : Machine) (out : Out) : Machine :=
  { m.tick with channels := fun chann => (m.tick.channels chann).outb chann.main out }

def Machine.status (chann : Chann) (m : Machine) : BitVec 8 × Machine :=
  ((m.tick.channels chann).status (m.turns m.clock chann).others, m.tick)

def Machine.inw (chann : Chann) (m : Machine) : BitVec 16 × Machine :=
  let (word, channel) := (m.tick.channels chann).inw
  (word, { m.tick with channels := Function.update m.tick.channels chann channel })

def Machine.outw (chann : Chann) (m : Machine) (word : BitVec 16) : Machine :=
  { m.tick with channels := Function.update m.tick.channels chann ((m.tick.channels chann).outw word) }

def command (disk : AtaDevice) (lba : BitVec 64) (ext pio : BitVec 8) : List Out :=
  if disk.hasLBA48 then
    [outb (port disk CHANN_DRIVE) (disk.channSub.setWidth 64 ||| 0x40),
      outb (port disk CHANN_SECTOR_COUNT) 0,
      outb (port disk CHANN_LBA_LOW) (lba >>> 24 &&& 0xFF),
      outb (port disk CHANN_LBA_MID) (lba >>> 32 &&& 0xFF),
      outb (port disk CHANN_LBA_HIGH) (lba >>> 40 &&& 0xFF),
      outb (port disk CHANN_SECTOR_COUNT) 1,
      outb (port disk CHANN_LBA_LOW) (lba &&& 0xFF),
      outb (port disk CHANN_LBA_MID) (lba >>> 8 &&& 0xFF),
      outb (port disk CHANN_LBA_HIGH) (lba >>> 16 &&& 0xFF),
      outb (port disk CHANN_CMD) (ext.setWidth 64)]
  else
    [outb (port disk CHANN_DRIVE) (disk.channSub.setWidth 64 ||| (0x40 : BitVec 64) ||| (lba >>> 24 &&& 0x0F)),
      outb (port disk CHANN_SECTOR_COUNT) 1,
      outb (port disk CHANN_LBA_LOW) (lba &&& 0xFF),
      outb (port disk CHANN_LBA_MID) (lba >>> 8 &&& 0xFF),
      outb (port disk CHANN_LBA_HIGH) (lba >>> 16 &&& 0xFF),
      outb (port disk CHANN_CMD) (pio.setWidth 64)]

def writeCommand (disk : AtaDevice) (lba : BitVec 64) : List Out := command disk lba CMD_WRITE_PIO_EXT CMD_WRITE_PIO

theorem readCommand_eq (disk : AtaDevice) (lba : BitVec 64) :
    readCommand disk lba = command disk lba CMD_READ_PIO_EXT CMD_READ_PIO := rfl

def identifyCommand (chann : Chann) (place : Place) : List Out :=
  [outb (chann.main + BitVec.ofNat 32 CHANN_DRIVE) (place.sub.setWidth 64),
    outb (chann.main + BitVec.ofNat 32 CHANN_CMD) (CMD_IDENTIFY.setWidth 64)]

def Answered (status : BitVec 8) : Prop := status &&& 0x01 ≠ 0 ∨ status &&& 0x08 ≠ 0

instance : DecidablePred Answered := fun _ => inferInstanceAs (Decidable (_ ∨ _))

def Machine.waitForData (chann : Chann) (m : Machine) : BitVec 8 × Machine :=
  poll (Machine.status chann) Answered 1000000 m 0

def Machine.inws (chann : Chann) : Nat → Machine → List (BitVec 16) × Machine
  | 0, m => ([], m)
  | left + 1, m =>
      let (word, m) := m.inw chann
      let (words, m) := m.inws chann left
      (word :: words, m)

def Machine.outws (chann : Chann) (m : Machine) (words : List (BitVec 16)) : Machine := words.foldl (Machine.outw chann) m

def chann (disk : AtaDevice) : Chann := if disk.channMain = CHANN_PRIMARY then .primary else .secondary

def place (disk : AtaDevice) : Place := if disk.channSub = MASTER then .master else .slave

/-- `ATA_read`, as far as what it returns and how it leaves the machine. -/
def ataRead (disk : AtaDevice) (lba : BitVec 64) (m : Machine) : Option (List (BitVec 16)) × Machine :=
  let (status, m) := ((readCommand disk lba).foldl Machine.outb m).waitForData (chann disk)
  if status &&& 0x01 ≠ 0 then (none, m)
  else if status &&& 0x08 = 0 then (none, m)
  else
    let (words, m) := m.inws (chann disk) 256
    (some words, m)

def ataWrite (disk : AtaDevice) (lba : BitVec 64) (buff : Sector) (m : Machine) : Bool × Machine :=
  let (status, m) := ((writeCommand disk lba).foldl Machine.outb m).waitForData (chann disk)
  if status &&& 0x01 ≠ 0 then (false, m)
  else if status &&& 0x08 = 0 then (false, m)
  else (true, m.outws (chann disk) buff.toList)

/-- `ATA_identify` takes all words of the block before it looks at them. -/
def ataIdentify (chann : Chann) (place : Place) (before : ModelString.DiskDevice) (m : Machine) :
    ModelString.DiskDevice × Machine :=
  let device := { before with channMain := chann.main, channSub := place.sub }
  let (status, m) := ((identifyCommand chann place).foldl Machine.outb m).waitForData chann
  if status &&& 0x01 ≠ 0 then ({ device with type := .none }, m)
  else if status &&& 0x08 = 0 then ({ device with type := .none }, m)
  else
    let (words, m) := m.inws chann 256
    let identify := fun i => words.getD i 0
    let hasLBA48 := identify 83 &&& 0x0400 ≠ 0
    ({ device with
      type := .ata
      name := ModelString.ataName identify device.name
      hasLBA48 := hasLBA48
      size := ModelString.ataSize identify hasLBA48 }, m)

/-- The answers behind a command, as the polls and the data port give them. -/
def Machine.answers (m : Machine) (chann : Chann) : AtaAnswers where
  status := view (Machine.status chann) m
  data k := ((m.waitForData chann).2.inws chann 256).1.getD k 0

section
variable {chann : Chann}

theorem status_poll (left i : Nat) (m : Machine) (last : BitVec 8) :
    Ata.waitForData (view (Machine.status chann) m) left i last =
      (poll (Machine.status chann) Answered left ((fun m => (Machine.status chann m).2)^[i] m) last).1 := by
  induction left generalizing i last with
  | zero => rfl
  | succ left ih =>
    unfold Ata.waitForData poll
    rw [ih, Function.iterate_succ_apply']
    by_cases seen : Answered (view (Machine.status chann) m i)
    · exact (if_pos seen).trans (congrArg Prod.fst (if_pos seen)).symm
    · exact (if_neg seen).trans (congrArg Prod.fst (if_neg seen)).symm

theorem length_inws (left : Nat) (m : Machine) : (m.inws chann left).1.length = left := by
  induction left generalizing m with
  | zero => rfl
  | succ left ih => exact congrArg (· + 1) (ih _)

theorem map_getD {words : List (BitVec 16)} {n : Nat} (long : words.length = n) :
    (List.range n).map (words.getD · 0) = words := by
  subst long
  refine List.ext_getElem (by simp) fun k _ below => ?_
  rw [List.getElem_map, List.getElem_range, List.getD_eq_getElem?_getD, List.getElem?_eq_getElem below, Option.getD_some]

theorem answers_status (m : Machine) (chann : Chann) :
    Ata.waitForData (m.answers chann).status 1000000 0 0 = (m.waitForData chann).1 := by
  unfold Machine.waitForData
  generalize 1000000 = polls
  exact status_poll polls 0 m 0

theorem answers_data (m : Machine) (chann : Chann) :
    (List.range 256).map (m.answers chann).data = ((m.waitForData chann).2.inws chann 256).1 := by
  unfold Machine.answers
  dsimp only
  generalize (m.waitForData chann).2 = waited
  generalize 256 = n
  exact map_getD (length_inws n waited)

end

/-- What is read is what `Ata.ataRead` makes of the answers of the channel. -/
theorem ataRead_answers (disk : AtaDevice) (lba : BitVec 64) (m : Machine) : (ataRead disk lba m).1 =
    (Ata.ataRead disk lba (((readCommand disk lba).foldl Machine.outb m).answers (chann disk))).1 := by
  unfold ataRead Ata.ataRead
  generalize (readCommand disk lba).foldl Machine.outb m = sent
  dsimp only
  rw [answers_status, answers_data]
  split
  · rfl
  · split <;> rfl

theorem ataIdentify_answers (chann : Chann) (place : Place) (before : ModelString.DiskDevice) (m : Machine) :
    (ataIdentify chann place before m).1 = ModelString.ataIdentify chann.main place.sub
      (((identifyCommand chann place).foldl Machine.outb m).answers chann) before := by
  unfold ataIdentify ModelString.ataIdentify
  generalize (identifyCommand chann place).foldl Machine.outb m = sent
  have data : (sent.answers chann).data = fun k => ((sent.waitForData chann).2.inws chann 256).1.getD k 0 := by
    dsimp only [Machine.answers]
  dsimp only
  rw [answers_status, data]
  split
  · rfl
  · split
    · rfl
    · congr

section
variable {disk : AtaDevice}

@[simp] theorem main_chann (disk : AtaDevice) : (chann disk).main = disk.channMain := by
  unfold chann
  rcases disk.main with main | main
  · rw [if_pos main, main]
    rfl
  · rw [main, if_neg (by decide)]
    rfl

@[simp] theorem sub_place (disk : AtaDevice) : (place disk).sub = disk.channSub := by
  unfold place
  rcases disk.sub with sub | sub
  · rw [if_pos sub, sub]
    rfl
  · rw [sub, if_neg (by decide)]
    rfl

def number (disk : AtaDevice) (lba : BitVec 64) : Nat := lba.toNat % if disk.hasLBA48 then 2 ^ 48 else 2 ^ 28

structure Addressed (disk : AtaDevice) (lba : BitVec 64) (cmd : BitVec 8) (file : TaskFile) : Prop where
  cmd : (file CHANN_CMD).1 = cmd
  place : TaskFile.place file = place disk
  one : TaskFile.oneSector file disk.hasLBA48
  number : (if disk.hasLBA48 then file.lba48 else file.lba28) = number disk lba

theorem command_file (lba : BitVec 64) (ext pio : BitVec 8) (before : TaskFile) :
    Addressed disk lba (if disk.hasLBA48 then ext else pio)
      ((command disk lba ext pio).foldl (TaskFile.write disk.channMain) before) := by
  have whole : ∀ x : BitVec 8, (x.setWidth 64).setWidth 8 = x := fun x => BitVec.setWidth_setWidth_of_le x (by decide)
  by_cases has : disk.hasLBA48 = true
  · unfold command
    rw [if_pos has, if_pos has]
    simp only [List.foldl_cons, List.foldl_nil]
    constructor
    · simp (disch := decide) only [write_same, whole]
    · unfold TaskFile.place
      simp (disch := decide) only [write_same, write_other]
      unfold place
      rcases disk.sub with sub | sub
      · rw [sub]
        decide
      · rw [sub]
        decide
    · unfold TaskFile.oneSector
      simp (disch := decide) only [write_same, write_other]
      exact ⟨rfl, fun _ => rfl⟩
    · rw [if_pos has, number, if_pos has]
      unfold TaskFile.lba48
      simp (disch := decide) only [write_same, write_other, masked_byte]
      exact littleEndian_lba lba
  · unfold command
    rw [if_neg has, if_neg has]
    simp only [List.foldl_cons, List.foldl_nil]
    constructor
    · simp (disch := decide) only [write_same, whole]
    · unfold TaskFile.place
      simp (disch := decide) only [write_same, write_other]
      unfold place
      rcases disk.sub with sub | sub
      · rw [sub]
        simp [MASTER]
      · rw [sub]
        simp [SLAVE, MASTER]
    · unfold TaskFile.oneSector
      simp (disch := decide) only [write_same, write_other]
      exact ⟨rfl, fun ext => absurd ext has⟩
    · rw [if_neg has, number, if_neg has]
      unfold TaskFile.lba28
      simp (disch := decide) only [write_same, write_other, masked_byte, drive_nibble]
      have nibble : ((lba >>> 24).setWidth 8 &&& 0x0F).toNat = lba.toNat / 2 ^ 24 % 16 := by
        rw [BitVec.toNat_and, BitVec.toNat_setWidth, BitVec.toNat_ushiftRight, Nat.shiftRight_eq_div_pow]
        change _ &&& 2 ^ 4 - 1 = _
        rw [Nat.and_two_pow_sub_one_eq_mod]
        omega
      simp only [littleEndian, List.getD_cons_zero, List.getD_cons_succ, nibble, BitVec.toNat_setWidth,
        BitVec.toNat_ushiftRight, Nat.shiftRight_eq_div_pow]
      omega

end

open Classical in
/-- The drives of a channel when they are done with what they have taken. -/
noncomputable def Channel.settled (c : Channel) (stores : Prop) : Place → Option Drive :=
  match c.phase with
  | .storing place number words => if stores then stored c.drives place number words else c.drives
  | _ => c.drives

/-- Sooner or later a drive stores the sector that it has taken, and does not give up on it before. -/
def Machine.Stores (m : Machine) (chann : Chann) : Prop :=
  ∃ n, m.clock ≤ n ∧ (m.turns n chann).move = .succeeds ∧ ∀ k, m.clock ≤ k → k < n → (m.turns k chann).move = .stays

noncomputable def Machine.contents (m : Machine) (chann : Chann) : Place → Option Drive :=
  (m.channels chann).settled (m.Stores chann)

theorem move_rest {c : Channel} {failed : Bool} (rest : c.phase = .rest failed) (move : Move) : c.move move = c := by
  cases move <;> simp [Channel.move, rest]

theorem stores_now {m : Machine} {chann : Chann} (succeeds : (m.turns m.clock chann).move = .succeeds) :
    m.Stores chann :=
  ⟨m.clock, Nat.le_refl _, succeeds, fun _ after below => absurd after (Nat.not_le_of_lt below)⟩

theorem stores_tick (m : Machine) (chann : Chann) :
    match (m.turns m.clock chann).move with
    | .stays => m.tick.Stores chann ↔ m.Stores chann
    | .succeeds => m.Stores chann
    | .fails => ¬ m.Stores chann := by
  cases move : (m.turns m.clock chann).move with
  | stays =>
    constructor
    · rintro ⟨n, later, succeeds, before⟩
      have le : m.clock + 1 ≤ n := later
      refine ⟨n, Nat.le_of_succ_le le, succeeds, ?_⟩
      intro k after below
      rcases Nat.eq_or_lt_of_le after with rfl | after
      · exact move
      · exact before k after below
    · rintro ⟨n, later, succeeds, before⟩
      have other : m.clock ≠ n := by
        rintro rfl
        cases move.symm.trans succeeds
      exact ⟨n, Nat.lt_of_le_of_ne later other, succeeds, fun k after below => before k (Nat.le_of_succ_le after) below⟩
  | succeeds => exact stores_now move
  | fails =>
    rintro ⟨n, later, succeeds, before⟩
    rcases Nat.eq_or_lt_of_le later with rfl | later
    · cases move.symm.trans succeeds
    · cases move.symm.trans (before m.clock (Nat.le_refl _) later)

@[simp] theorem contents_tick (m : Machine) : m.tick.contents = m.contents := by
  funext chann
  have fate := stores_tick m chann
  change ((m.channels chann).move (m.turns m.clock chann).move).settled (m.tick.Stores chann) =
    (m.channels chann).settled (m.Stores chann)
  generalize (m.turns m.clock chann).move = move at fate ⊢
  obtain ⟨file, drives, phase⟩ := m.channels chann
  cases phase with
  | storing place number words =>
    cases move with
    | stays => exact congrArg (Channel.settled _) (propext fate)
    | succeeds => exact (if_pos fate).symm
    | fails => exact (if_neg fate).symm
  | _ => cases move <;> rfl

theorem settled_inw (c : Channel) (stores : Prop) : c.inw.2.settled stores = c.settled stores := by
  obtain ⟨file, drives, phase⟩ := c
  cases phase with
  | sending words =>
    match words with
    | [] | [_] | _ :: _ :: _ => rfl
  | _ => rfl

@[simp] theorem contents_status (m : Machine) (chann : Chann) : (m.status chann).2.contents = m.contents := contents_tick m

@[simp] theorem contents_inw (m : Machine) (chann : Chann) : (m.inw chann).2.contents = m.contents := by
  rw [← contents_tick m]
  funext other
  unfold Machine.inw Machine.contents
  dsimp only
  by_cases same : other = chann
  · subst same
    rw [Function.update_self]
    exact settled_inw _ _
  · rw [Function.update_of_ne same]
    rfl

@[simp] theorem contents_inws (m : Machine) (chann : Chann) (left : Nat) : (m.inws chann left).2.contents = m.contents := by
  induction left generalizing m with
  | zero => rfl
  | succ left ih => exact (ih _).trans (contents_inw m chann)

@[simp] theorem contents_waitForData (m : Machine) (chann : Chann) : (m.waitForData chann).2.contents = m.contents :=
  @poll_keeps _ _ _ _ _ _ _ (fun s => s.contents = m.contents) (fun s same => (contents_status s chann).trans same) _ rfl

theorem turns_outbs (outs : List Out) (m : Machine) :
    (outs.foldl Machine.outb m).turns = m.turns ∧ (outs.foldl Machine.outb m).clock = m.clock + outs.length := by
  induction outs generalizing m with
  | nil => exact ⟨rfl, rfl⟩
  | cons out outs ih =>
    obtain ⟨turns, clock⟩ := ih (m.outb out)
    refine ⟨turns, clock.trans ?_⟩
    rw [List.length_cons, Nat.add_comm outs.length, ← Nat.add_assoc]
    rfl

theorem turns_outws {chann : Chann} (words : List (BitVec 16)) (m : Machine) :
    (m.outws chann words).turns = m.turns ∧ (m.outws chann words).clock = m.clock + words.length := by
  induction words generalizing m with
  | nil => exact ⟨rfl, rfl⟩
  | cons word words ih =>
    obtain ⟨turns, clock⟩ := ih (m.outw chann word)
    refine ⟨turns, clock.trans ?_⟩
    rw [List.length_cons, Nat.add_comm words.length, ← Nat.add_assoc]
    rfl

@[simp] theorem turns_inws (m : Machine) (chann : Chann) (left : Nat) : (m.inws chann left).2.turns = m.turns := by
  induction left generalizing m with
  | zero => rfl
  | succ left ih => exact (ih _).trans rfl

@[simp] theorem turns_waitForData (m : Machine) (chann : Chann) : (m.waitForData chann).2.turns = m.turns :=
  @poll_keeps _ _ _ _ _ _ _ (fun s : Machine => s.turns = m.turns) (fun _ same => same) _ rfl

@[simp] theorem turns_ataRead (disk : AtaDevice) (lba : BitVec 64) (m : Machine) : (ataRead disk lba m).2.turns = m.turns := by
  have sent := (turns_outbs (readCommand disk lba) m).1
  unfold ataRead
  dsimp only
  split
  · rw [turns_waitForData, sent]
  split
  · rw [turns_waitForData, sent]
  · dsimp only
    rw [turns_inws, turns_waitForData, sent]

@[simp] theorem turns_ataWrite (disk : AtaDevice) (lba : BitVec 64) (buff : Sector) (m : Machine) :
    (ataWrite disk lba buff m).2.turns = m.turns := by
  have sent := (turns_outbs (writeCommand disk lba) m).1
  unfold ataWrite
  dsimp only
  split
  · rw [turns_waitForData, sent]
  split
  · rw [turns_waitForData, sent]
  · dsimp only
    rw [(turns_outws _ _).1, turns_waitForData, sent]

@[simp] theorem turns_ataIdentify (chann : Chann) (place : Place) (before : ModelString.DiskDevice) (m : Machine) :
    (ataIdentify chann place before m).2.turns = m.turns := by
  have sent := (turns_outbs (identifyCommand chann place) m).1
  unfold ataIdentify
  dsimp only
  split
  · rw [turns_waitForData, sent]
  split
  · rw [turns_waitForData, sent]
  · dsimp only
    rw [turns_inws, turns_waitForData, sent]

/-- A write to a register of the channel that starts nothing. -/
def Quiet (chann : Chann) (out : Out) : Prop := ∃ k < CHANN_CMD, out.1 = (chann.main + BitVec.ofNat 32 k).setWidth 16

def Starts (chann : Chann) (out : Out) : Prop := out.1 = (chann.main + BitVec.ofNat 32 CHANN_CMD).setWidth 16

theorem ports_apart {chann other : Chann} (different : other ≠ chann) : ∀ k ≤ CHANN_CMD, ∀ k' ≤ CHANN_CMD,
    (chann.main + BitVec.ofNat 32 k).setWidth 16 ≠ (other.main + BitVec.ofNat 32 k').setWidth 16 := by
  cases chann <;> cases other <;> first | exact absurd rfl different | decide

theorem quiet_ne (chann : Chann) : ∀ k < CHANN_CMD,
    (chann.main + BitVec.ofNat 32 k).setWidth 16 ≠ (chann.main + BitVec.ofNat 32 CHANN_CMD).setWidth 16 := by
  cases chann <;> decide

theorem outb_foreign {chann other : Chann} (different : other ≠ chann) {out : Out} {k : Nat} (below : k ≤ CHANN_CMD)
    (port : out.1 = (chann.main + BitVec.ofNat 32 k).setWidth 16) (c : Channel) : c.outb other.main out = c := by
  have file : TaskFile.write other.main c.file out = c.file := by
    funext register
    unfold TaskFile.write
    by_cases small : register < 8
    · rw [if_neg fun both => ports_apart different k below register (Nat.le_of_lt_succ small) (port ▸ both.1)]
    · rw [if_neg fun both => small both.2]
  unfold Channel.outb
  split
  · dsimp only
    rw [if_neg fun starts => ports_apart different k below CHANN_CMD le_rfl (port ▸ starts), file]
  · rfl

section
variable {chann : Chann} {m : Machine} {failed : Bool} {front : List Out} {cmd : Out}

theorem tick_rest (rest : (m.channels chann).phase = .rest failed) : m.tick.channels chann = m.channels chann :=
  move_rest rest _

theorem outb_quiet (rest : (m.channels chann).phase = .rest failed) {out : Out} (quiet : Quiet chann out) :
    (m.outb out).channels chann =
      { m.channels chann with file := TaskFile.write chann.main (m.channels chann).file out } := by
  obtain ⟨k, below, port⟩ := quiet
  change (m.tick.channels chann).outb chann.main out = _
  rw [tick_rest rest]
  unfold Channel.outb
  rw [rest]
  dsimp only
  rw [if_neg (port ▸ quiet_ne chann k below), rest]

theorem outb_starts (rest : (m.channels chann).phase = .rest failed) (starts : Starts chann cmd) :
    (m.outb cmd).channels chann =
      ({ m.channels chann with file := TaskFile.write chann.main (m.channels chann).file cmd } : Channel).start := by
  change (m.tick.channels chann).outb chann.main cmd = _
  rw [tick_rest rest]
  unfold Channel.outb
  rw [rest]
  dsimp only
  rw [if_pos (show cmd.1 = _ from starts), rest]

theorem contents_outb_elsewhere {other : Chann} (different : other ≠ chann) {out : Out} {k : Nat} (below : k ≤ CHANN_CMD)
    (port : out.1 = (chann.main + BitVec.ofNat 32 k).setWidth 16) : (m.outb out).contents other = m.contents other := by
  rw [← contents_tick m]
  exact congrArg (Channel.settled · (m.tick.Stores other)) (outb_foreign different below port (m.tick.channels other))

theorem settled_rest {c : Channel} (rest : c.phase = .rest failed) (stores : Prop) : c.settled stores = c.drives := by
  unfold Channel.settled
  rw [rest]

theorem settled_start (c : Channel) (stores : Prop) : c.start.settled stores = c.drives := by
  unfold Channel.start
  split
  · rfl
  · unfold TaskFile.begin
    dsimp only
    repeat' split
    all_goals rfl

/-- The registers are written while the channel is at rest, then the command starts. -/
theorem sent (rest : (m.channels chann).phase = .rest failed) (quiet : ∀ out ∈ front, Quiet chann out)
    (starts : Starts chann cmd) :
    ((front ++ [cmd]).foldl Machine.outb m).channels chann = ({ m.channels chann with
        file := (front ++ [cmd]).foldl (TaskFile.write chann.main) (m.channels chann).file } : Channel).start ∧
      ((front ++ [cmd]).foldl Machine.outb m).contents = m.contents := by
  induction front generalizing m with
  | nil =>
    refine ⟨outb_starts rest starts, funext fun other => ?_⟩
    by_cases same : other = chann
    · subst same
      have drives : (m.outb cmd).contents other = (m.channels other).drives := by
        refine (congrArg (Channel.settled · ((m.outb cmd).Stores other)) (outb_starts rest starts)).trans ?_
        exact settled_start { m.channels other with file := _ } _
      exact drives.trans (settled_rest rest _).symm
    · exact contents_outb_elsewhere same le_rfl starts
  | cons out front ih =>
    have first := quiet out List.mem_cons_self
    have here := outb_quiet rest first
    have still : ((m.outb out).channels chann).phase = .rest failed := by rw [here, ← rest]
    obtain ⟨channel, contents⟩ := ih still fun next member => quiet next (List.mem_cons_of_mem _ member)
    constructor
    · refine channel.trans ?_
      rw [here]
      rfl
    · refine contents.trans (funext fun other => ?_)
      by_cases same : other = chann
      · subst same
        have drives : (m.outb out).contents other = (m.channels other).drives := by
          refine (settled_rest still _).trans ?_
          rw [here]
        exact drives.trans (settled_rest rest _).symm
      · obtain ⟨k, below, port⟩ := first
        exact contents_outb_elsewhere same below.le port

end

/-- A drive at work before any word is exchanged, and what it goes on to. -/
inductive Pending : Phase → Phase → Prop where
  | fetching (words : Sector) : Pending (.fetching words) (.sending words.toList)
  | opening (place : Place) (number : Nat) : Pending (.opening place number) (.taking place number [])

/-- A drive at work shows neither of the bits that the driver waits for. -/
def Machine.Plain (m : Machine) : Prop := ∀ n chann, (m.turns n chann).others &&& 0x09 = 0

theorem Machine.Plain.kept {m m' : Machine} (plain : m.Plain) (turns : m'.turns = m.turns) : m'.Plain := by
  unfold Machine.Plain
  rw [turns]
  exact plain

inductive Waited (c : Channel) (next : Phase) : BitVec 8 → Channel → Prop where
  | ready {status : BitVec 8} : status &&& 0x01 = 0 → status &&& 0x08 ≠ 0 → Waited c next status { c with phase := next }
  | gaveUp {status : BitVec 8} : status &&& 0x01 ≠ 0 → Waited c next status { c with phase := .rest true }
  | timedOut {status : BitVec 8} : status &&& 0x01 = 0 → status &&& 0x08 = 0 → Waited c next status c

section
variable {chann : Chann} {m : Machine} {c : Channel}

theorem status_bits (others : BitVec 8) :
    (others &&& 0x09 = 0 → (others ||| 0x80) &&& 0x01 = 0 ∧ (others ||| 0x80) &&& 0x08 = 0) ∧
    ((others &&& ~~~0x89 ||| 0x08) &&& 0x01 = 0 ∧ (others &&& ~~~0x89 ||| 0x08) &&& 0x08 ≠ 0) ∧
    (others &&& ~~~0x89 ||| 0x01) &&& 0x01 ≠ 0 ∧
    (others &&& ~~~0x89) &&& 0x01 = 0 ∧ (others &&& ~~~0x89) &&& 0x08 = 0 := by
  revert others
  decide

theorem not_answered_zero : ¬ Answered 0 := by decide

theorem not_answered {status : BitVec 8} (seen : ¬ Answered status) : status &&& 0x01 = 0 ∧ status &&& 0x08 = 0 :=
  ⟨not_not.mp fun err => seen (Or.inl err), not_not.mp fun data => seen (Or.inr data)⟩

theorem status_pending {next : Phase} (plain : m.Plain) (pending : Pending c.phase next) (here : m.channels chann = c) :
    Waited c next (m.status chann).1 ((m.status chann).2.channels chann) := by
  obtain ⟨busy, data, error, _⟩ := status_bits (m.turns m.clock chann).others
  have busy := busy (plain m.clock chann)
  change Waited c next (((m.channels chann).move (m.turns m.clock chann).move).status (m.turns m.clock chann).others)
    ((m.channels chann).move (m.turns m.clock chann).move)
  rw [here]
  generalize (m.turns m.clock chann).others = others at *
  obtain ⟨file, drives, phase⟩ := c
  cases pending with
  | fetching words =>
    cases (m.turns m.clock chann).move with
    | stays => exact .timedOut busy.1 busy.2
    | succeeds => exact .ready data.1 data.2
    | fails => exact .gaveUp error
  | opening place number =>
    cases (m.turns m.clock chann).move with
    | stays => exact .timedOut busy.1 busy.2
    | succeeds => exact .ready data.1 data.2
    | fails => exact .gaveUp error

theorem waitForData_pending {next : Phase} (plain : m.Plain) (pending : Pending c.phase next)
    (here : m.channels chann = c) :
    Waited c next (m.waitForData chann).1 ((m.waitForData chann).2.channels chann) := by
  have ends : ∀ s : Machine, s.Plain ∧ s.channels chann = c → Answered (s.status chann).1 →
      Waited c next (s.status chann).1 ((s.status chann).2.channels chann) :=
    fun s here _ => status_pending here.1 pending here.2
  have goes : ∀ s : Machine, s.Plain ∧ s.channels chann = c → ¬ Answered (s.status chann).1 →
      (s.status chann).2.Plain ∧ (s.status chann).2.channels chann = c := by
    intro s here unseen
    refine ⟨here.1, ?_⟩
    have looked := status_pending here.1 pending here.2
    generalize (s.status chann).1 = status at *
    generalize (s.status chann).2.channels chann = after at *
    cases looked with
    | ready err data => exact absurd (Or.inr data) unseen
    | gaveUp err => exact absurd (Or.inl err) unseen
    | timedOut err data => rfl
  unfold Machine.waitForData
  rcases @poll_cases _ _ _ _ _ _ _ _ (fun status s => Waited c next status (s.channels chann)) ends goes 1000000
    ⟨plain, here⟩ not_answered_zero with done | ⟨unseen, _, still⟩
  · exact done
  · obtain ⟨err, data⟩ := not_answered unseen
    rw [still]
    exact .timedOut err data

/-- No drive, no data. -/
theorem waitForData_absent (rest : c.phase = .rest false) (here : m.channels chann = c) :
    (m.waitForData chann).1 &&& 0x01 = 0 ∧ (m.waitForData chann).1 &&& 0x08 = 0 := by
  have looks : ∀ s : Machine, s.channels chann = c → ¬ Answered (s.status chann).1 ∧ (s.status chann).2.channels chann = c := by
    intro s here
    have same : s.tick.channels chann = c := by rw [← here, tick_rest (here ▸ rest)]
    obtain ⟨-, -, -, err, data⟩ := status_bits (s.turns s.clock chann).others
    refine ⟨?_, same⟩
    change ¬ Answered ((s.tick.channels chann).status _)
    rw [same]
    unfold Channel.status
    rw [rest]
    rintro (seen | seen)
    · exact seen err
    · exact seen data
  unfold Machine.waitForData
  rcases @poll_cases _ _ _ _ _ _ _ (fun s : Machine => s.channels chann = c) (fun _ _ => False)
    (fun s here seen => (looks s here).1 seen) (fun s here _ => (looks s here).2) 1000000 here not_answered_zero with
    impossible | ⟨unseen, _⟩
  · exact impossible.elim
  · exact not_answered unseen

theorem inw_sending {word : BitVec 16} {rest : List (BitVec 16)} (sending : (m.channels chann).phase = .sending (word :: rest)) :
    (m.inw chann).1 = word ∧
      ((m.inw chann).2.channels chann).phase = if rest = [] then .rest false else .sending rest := by
  have still : m.tick.channels chann = m.channels chann := by
    change (m.channels chann).move _ = _
    cases (m.turns m.clock chann).move <;> simp [Channel.move, sending]
  unfold Machine.inw
  dsimp only
  rw [still, Function.update_self]
  unfold Channel.inw
  rw [sending]
  cases rest <;> exact ⟨rfl, rfl⟩

/-- The words come out as they went in, and the channel is at rest behind the last one. -/
theorem inws_sending {words : List (BitVec 16)} (some_word : words ≠ []) (sending : (m.channels chann).phase = .sending words) :
    (m.inws chann words.length).1 = words ∧
      ((m.inws chann words.length).2.channels chann).phase = .rest false := by
  induction words generalizing m with
  | nil => exact absurd rfl some_word
  | cons word rest ih =>
    obtain ⟨first, left⟩ := inw_sending sending
    by_cases last : rest = []
    · subst last
      rw [if_pos rfl] at left
      exact ⟨congrArg (· :: []) first, left⟩
    · rw [if_neg last] at left
      obtain ⟨words, phase⟩ := ih last left
      refine ⟨?_, phase⟩
      calc
        _ = (m.inw chann).1 :: ((m.inw chann).2.inws chann rest.length).1 := rfl
        _ = _ := by rw [first, words]

theorem outw_taking {place : Place} {number : Nat} {words : List (BitVec 16)} (word : BitVec 16)
    (taking : (m.channels chann).phase = .taking place number words) :
    (m.outw chann word).channels chann =
      { m.channels chann with
        phase :=
          if full : (words ++ [word]).length = 256 then .storing place number ⟨(words ++ [word]).toArray, full⟩
          else .taking place number (words ++ [word]) } := by
  have still : m.tick.channels chann = m.channels chann := by
    change (m.channels chann).move _ = _
    cases (m.turns m.clock chann).move <;> simp [Channel.move, taking]
  unfold Machine.outw
  dsimp only
  rw [still, Function.update_self]
  unfold Channel.outw
  rw [taking]
  dsimp only
  split <;> rfl

theorem outw_elsewhere {other : Chann} (different : other ≠ chann) (word : BitVec 16) :
    (m.outw chann word).contents other = m.contents other := by
  rw [← contents_tick m]
  unfold Machine.outw Machine.contents
  dsimp only
  rw [Function.update_of_ne different]
  rfl

/-- The last word makes the sector whole. -/
theorem outws_taking {place : Place} {number : Nat} {buff : Sector} {before rest : List (BitVec 16)} (split : buff.toList = before ++ rest)
    (some_word : rest ≠ []) (taking : (m.channels chann).phase = .taking place number before) :
    (m.outws chann rest).channels chann = { m.channels chann with phase := .storing place number buff } ∧
      ∀ other ≠ chann, (m.outws chann rest).contents other = m.contents other := by
  induction rest generalizing m before with
  | nil => exact absurd rfl some_word
  | cons word rest ih =>
    have next := outw_taking word taking
    have long : before.length + (rest.length + 1) = 256 := by
      have whole := congrArg List.length split
      rw [Vector.length_toList, List.length_append, List.length_cons] at whole
      omega
    by_cases last : rest = []
    · subst last
      have full : (before ++ [word]).length = 256 := by
        rw [List.length_append]
        exact long
      rw [dif_pos full] at next
      have same : (⟨(before ++ [word]).toArray, full⟩ : Sector) = buff := by
        apply Vector.toList_inj.mp
        exact split.symm
      rw [same] at next
      exact ⟨next, fun other different => outw_elsewhere different word⟩
    · have more : ¬ (before ++ [word]).length = 256 := by
        have positive := List.length_pos_iff.mpr last
        rw [List.length_append, List.length_singleton]
        omega
      rw [dif_neg more] at next
      have taking' : ((m.outw chann word).channels chann).phase = .taking place number (before ++ [word]) := by rw [next]
      obtain ⟨stored, elsewhere⟩ := ih (by rw [split, List.append_assoc]; rfl) last taking'
      constructor
      · refine stored.trans ?_
        rw [next]
      · exact fun other different => (elsewhere other different).trans (outw_elsewhere different word)

end

end Ketone.Disk.AtaChannel
