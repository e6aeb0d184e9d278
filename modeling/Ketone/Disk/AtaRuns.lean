import Ketone.Disk.AtaChannel

/-! Runs of calls on the two ATA channels: what a read returns, and what a write leaves on the drives. -/

namespace Ketone.Disk.AtaRuns
open AtaChannel
open Ata hiding ataRead

section
variable {disk : AtaDevice} {lba : BitVec 64} {file : TaskFile} {m : Machine} {failed : Bool}

def issue (disk : AtaDevice) (cmd : BitVec 8) : Out := outb (port disk CHANN_CMD) (cmd.setWidth 64)

theorem issue_starts (disk : AtaDevice) (cmd : BitVec 8) : Starts (chann disk) (issue disk cmd) := by
  unfold Starts
  rw [main_chann]
  rfl

theorem command_split (disk : AtaDevice) (lba : BitVec 64) (ext pio : BitVec 8) :
    ∃ front, command disk lba ext pio = front ++ [issue disk (if disk.hasLBA48 then ext else pio)] ∧
      ∀ out ∈ front, Quiet (chann disk) out := by
  have quiet : ∀ k < CHANN_CMD, ∀ val, Quiet (chann disk) (outb (port disk k) val) := by
    intro k below val
    refine ⟨k, below, ?_⟩
    rw [main_chann]
    rfl
  unfold command
  split
  · refine ⟨[_, _, _, _, _, _, _, _, _], rfl, ?_⟩
    simp only [List.mem_cons, List.not_mem_nil, or_false, forall_eq_or_imp, forall_eq]
    simp (disch := decide) only [quiet, and_self]
  · refine ⟨[_, _, _, _, _], rfl, ?_⟩
    simp only [List.mem_cons, List.not_mem_nil, or_false, forall_eq_or_imp, forall_eq]
    simp (disch := decide) only [quiet, and_self]

theorem sent_command (rest : (m.channels (chann disk)).phase = .rest failed) (lba : BitVec 64) (ext pio : BitVec 8) :
    ((command disk lba ext pio).foldl Machine.outb m).contents = m.contents ∧
      ∃ file, Addressed disk lba (if disk.hasLBA48 then ext else pio) file ∧
        ((command disk lba ext pio).foldl Machine.outb m).channels (chann disk) =
          ({ m.channels (chann disk) with file := file } : Channel).start := by
  obtain ⟨front, same, quiet⟩ := command_split disk lba ext pio
  obtain ⟨channel, contents⟩ := sent rest quiet (issue_starts disk _)
  rw [← same] at channel contents
  refine ⟨contents, _, ?_, channel⟩
  rw [main_chann]
  exact command_file lba ext pio _

theorem begin_read (addressed : Addressed disk lba (if disk.hasLBA48 then CMD_READ_PIO_EXT else CMD_READ_PIO) file)
    (drive : Drive) : TaskFile.begin file drive = .fetching (drive.sectors (number disk lba)) := by
  obtain ⟨cmd, -, one, number⟩ := addressed
  unfold TaskFile.begin
  rw [← number]
  cases has : disk.hasLBA48 with
  | true =>
    rw [has] at cmd one
    simp [cmd, one, CMD_IDENTIFY, CMD_READ_PIO_EXT]
  | false =>
    rw [has] at cmd one
    simp [cmd, one, CMD_IDENTIFY, CMD_READ_PIO_EXT, CMD_READ_PIO]

theorem begin_write (addressed : Addressed disk lba (if disk.hasLBA48 then CMD_WRITE_PIO_EXT else CMD_WRITE_PIO) file)
    (drive : Drive) : TaskFile.begin file drive = .opening (place disk) (number disk lba) := by
  obtain ⟨cmd, place, one, number⟩ := addressed
  unfold TaskFile.begin
  rw [← number, place]
  cases has : disk.hasLBA48 with
  | true =>
    rw [has] at cmd one
    simp [cmd, one, CMD_IDENTIFY, CMD_READ_PIO_EXT, CMD_READ_PIO, CMD_WRITE_PIO_EXT]
  | false =>
    rw [has] at cmd one
    simp [cmd, one, CMD_IDENTIFY, CMD_READ_PIO_EXT, CMD_READ_PIO, CMD_WRITE_PIO_EXT, CMD_WRITE_PIO]

theorem start_absent {c : Channel} (absent : c.drives (TaskFile.place c.file) = none) : c.start = { c with phase := .rest false } := by
  unfold Channel.start
  rw [absent]

theorem start_present {c : Channel} {drive : Drive} (present : c.drives (TaskFile.place c.file) = some drive) :
    c.start = { c with phase := TaskFile.begin c.file drive } := by
  unfold Channel.start
  rw [present]

theorem waited_outcome {c after : Channel} {next : Phase} {status : BitVec 8} (waited : Waited c next status after) :
    (status &&& 0x01 ≠ 0 ∨ status &&& 0x01 = 0 ∧ status &&& 0x08 = 0) ∨
      status &&& 0x01 = 0 ∧ status &&& 0x08 ≠ 0 ∧ after = { c with phase := next } := by
  cases waited with
  | ready error data => exact Or.inr ⟨error, data, rfl⟩
  | gaveUp error => exact Or.inl (Or.inl error)
  | timedOut error data => exact Or.inl (Or.inr ⟨error, data⟩)

theorem toList_ne_nil (words : Sector) : words.toList ≠ [] := by
  intro empty
  have long := words.length_toList
  rw [empty] at long
  exact absurd long (by decide)

/-- Nothing is changed on the drives, and what is read is what the drive holds. -/
theorem ataRead_spec (plain : m.Plain) (rest : (m.channels (chann disk)).phase = .rest failed) (lba : BitVec 64) :
    (ataRead disk lba m).2.contents = m.contents ∧
      ∀ words, (ataRead disk lba m).1 = some words → ∃ drive, m.contents (chann disk) (place disk) = some drive ∧
        words = (drive.sectors (number disk lba)).toList ∧
          ((ataRead disk lba m).2.channels (chann disk)).phase = .rest false := by
  obtain ⟨contents, file, addressed, channel⟩ := sent_command rest lba CMD_READ_PIO_EXT CMD_READ_PIO
  rw [← readCommand_eq] at contents channel
  have drives : m.contents (chann disk) = (m.channels (chann disk)).drives := settled_rest rest _
  have plain := plain.kept (turns_outbs (readCommand disk lba) m).1
  unfold ataRead
  generalize (readCommand disk lba).foldl Machine.outb m = begun at *
  dsimp only
  rw [drives]
  cases holds : (m.channels (chann disk)).drives (place disk) with
  | none =>
    rw [start_absent (by rw [addressed.place]; exact holds)] at channel
    obtain ⟨error, data⟩ := waitForData_absent rfl channel
    rw [if_neg (not_not.mpr error), if_pos data]
    exact ⟨(contents_waitForData begun _).trans contents, fun words impossible => nomatch impossible⟩
  | some drive =>
    rw [start_present (by rw [addressed.place]; exact holds), begin_read addressed] at channel
    have waited := waitForData_pending plain (.fetching _) channel
    have kept := (contents_waitForData begun (chann disk)).trans contents
    rcases waited_outcome waited with (error | ⟨error, data⟩) | ⟨error, data, here⟩
    · rw [if_pos error]
      exact ⟨kept, fun words impossible => nomatch impossible⟩
    · rw [if_neg (not_not.mpr error), if_pos data]
      exact ⟨kept, fun words impossible => nomatch impossible⟩
    · rw [if_neg (not_not.mpr error), if_neg data]
      have phase : ((begun.waitForData (chann disk)).2.channels (chann disk)).phase =
          .sending (drive.sectors (number disk lba)).toList := by rw [here]
      obtain ⟨words, rested⟩ := inws_sending (toList_ne_nil _) phase
      rw [Vector.length_toList] at words rested
      have unchanged := (contents_inws (begun.waitForData (chann disk)).2 (chann disk) 256).trans kept
      generalize (begun.waitForData (chann disk)).2.inws (chann disk) 256 = result at *
      refine ⟨unchanged, fun read returned => ⟨drive, rfl, ?_, rested⟩⟩
      rw [← words]
      exact (Option.some.inj returned).symm

/-- A write that succeeds leaves the words with the drive, under the number, if that does not give up on them; else
nothing is changed. -/
theorem ataWrite_spec (plain : m.Plain) (rest : (m.channels (chann disk)).phase = .rest failed) (lba : BitVec 64) (buff : Sector) :
    ((ataWrite disk lba buff m).1 = false ∧ (ataWrite disk lba buff m).2.contents = m.contents) ∨
      (ataWrite disk lba buff m).1 = true ∧
        ((ataWrite disk lba buff m).2.channels (chann disk)).phase = .storing (place disk) (number disk lba) buff ∧
        (∃ drive, m.contents (chann disk) (place disk) = some drive) ∧
        ((ataWrite disk lba buff m).2.Stores (chann disk) → (ataWrite disk lba buff m).2.contents =
          Function.update m.contents (chann disk) (stored (m.contents (chann disk)) (place disk) (number disk lba) buff)) ∧
        (¬ (ataWrite disk lba buff m).2.Stores (chann disk) → (ataWrite disk lba buff m).2.contents = m.contents) := by
  obtain ⟨contents, file, addressed, channel⟩ := sent_command rest lba CMD_WRITE_PIO_EXT CMD_WRITE_PIO
  have drives : m.contents (chann disk) = (m.channels (chann disk)).drives := settled_rest rest _
  have plain := plain.kept (turns_outbs (command disk lba CMD_WRITE_PIO_EXT CMD_WRITE_PIO) m).1
  unfold ataWrite writeCommand
  generalize (command disk lba CMD_WRITE_PIO_EXT CMD_WRITE_PIO).foldl Machine.outb m = begun at *
  dsimp only
  have kept := (contents_waitForData begun (chann disk)).trans contents
  cases holds : (m.channels (chann disk)).drives (place disk) with
  | none =>
    rw [start_absent (by rw [addressed.place]; exact holds)] at channel
    obtain ⟨error, data⟩ := waitForData_absent rfl channel
    rw [if_neg (not_not.mpr error), if_pos data]
    exact Or.inl ⟨rfl, kept⟩
  | some drive =>
    rw [start_present (by rw [addressed.place]; exact holds), begin_write addressed] at channel
    have waited := waitForData_pending plain (.opening _ _) channel
    rcases waited_outcome waited with (error | ⟨error, data⟩) | ⟨error, data, here⟩
    · rw [if_pos error]
      exact Or.inl ⟨rfl, kept⟩
    · rw [if_neg (not_not.mpr error), if_pos data]
      exact Or.inl ⟨rfl, kept⟩
    · rw [if_neg (not_not.mpr error), if_neg data]
      have phase : ((begun.waitForData (chann disk)).2.channels (chann disk)).phase =
          .taking (place disk) (number disk lba) [] := by rw [here]
      obtain ⟨taken, elsewhere⟩ := outws_taking rfl (toList_ne_nil buff) phase
      have here : ((begun.waitForData (chann disk)).2.outws (chann disk) buff.toList).channels (chann disk) =
          ⟨file, (m.channels (chann disk)).drives, .storing (place disk) (number disk lba) buff⟩ := by
        rw [taken, here]
      refine Or.inr ⟨rfl, ?_, ⟨drive, by rw [drives, holds]⟩, ?_, ?_⟩
      · dsimp only
        rw [taken]
      · intro stores
        funext other
        by_cases same : other = chann disk
        · subst same
          rw [Function.update_self, drives]
          exact (congrArg (Channel.settled · _) here).trans (if_pos stores)
        · dsimp only
          rw [elsewhere other same, Function.update_of_ne same, kept]
      · intro gives
        funext other
        by_cases same : other = chann disk
        · subst same
          rw [drives]
          exact (congrArg (Channel.settled · _) here).trans (if_neg gives)
        · dsimp only
          rw [elsewhere other same, kept]

theorem begin_identify (chann : Chann) (place : Place) (before : TaskFile) :
    let file := (identifyCommand chann place).foldl (TaskFile.write chann.main) before
    TaskFile.place file = place ∧ ∀ drive, TaskFile.begin file drive = .fetching drive.identity := by
  intro file
  have registers : ∃ disk : AtaDevice, disk.channMain = chann.main ∧ disk.channSub = place.sub := by
    refine ⟨⟨chann.main, place.sub, true, ?_, ?_⟩, rfl, rfl⟩
    · cases chann <;> simp [Chann.main]
    · cases place <;> simp [Place.sub]
  obtain ⟨disk, main, sub⟩ := registers
  have same : file = TaskFile.write disk.channMain (TaskFile.write disk.channMain before
      (outb (port disk CHANN_DRIVE) (place.sub.setWidth 64))) (outb (port disk CHANN_CMD) (CMD_IDENTIFY.setWidth 64)) := by
    unfold port
    rw [main]
    rfl
  rw [same]
  constructor
  · unfold TaskFile.place
    simp (disch := decide) only [SectorNumber.write_same, SectorNumber.write_other]
    cases place <;> decide
  · intro drive
    unfold TaskFile.begin
    simp (disch := decide) only [SectorNumber.write_same]
    exact if_pos (by decide)

def record (chann : Chann) (place : Place) (before : ModelString.DiskDevice) (identity : Sector) : ModelString.DiskDevice :=
  let identify := fun i => identity.toList.getD i 0
  let hasLBA48 := identify 83 &&& 0x0400 ≠ 0
  { before with
    channMain := chann.main
    channSub := place.sub
    type := .ata
    name := ModelString.ataName identify before.name
    hasLBA48 := hasLBA48
    size := ModelString.ataSize identify hasLBA48 }

/-- The record is that of the drive at this place, or says that there is none. -/
theorem ataIdentify_spec {chann : Chann} (plain : m.Plain) (rest : (m.channels chann).phase = .rest failed) (place : Place)
    (before : ModelString.DiskDevice) :
    (ataIdentify chann place before m).2.contents = m.contents ∧
      ((ataIdentify chann place before m).1 =
          { before with channMain := chann.main, channSub := place.sub, type := .none } ∨
        ∃ drive, m.contents chann place = some drive ∧
          (ataIdentify chann place before m).1 = record chann place before drive.identity ∧
          ((ataIdentify chann place before m).2.channels chann).phase = .rest false) := by
  have sends := @sent _ _ _ [outb (chann.main + BitVec.ofNat 32 CHANN_DRIVE) (place.sub.setWidth 64)]
    (outb (chann.main + BitVec.ofNat 32 CHANN_CMD) (CMD_IDENTIFY.setWidth 64)) rest
    (by
      intro out member
      rw [List.mem_singleton.mp member]
      exact ⟨CHANN_DRIVE, by decide, rfl⟩) rfl
  obtain ⟨channel, contents⟩ := sends
  change (((identifyCommand chann place).foldl Machine.outb m).channels chann) = Channel.start
    { m.channels chann with file := (identifyCommand chann place).foldl (TaskFile.write chann.main) (m.channels chann).file } at channel
  change ((identifyCommand chann place).foldl Machine.outb m).contents = m.contents at contents
  have drives : m.contents chann = (m.channels chann).drives := settled_rest rest _
  obtain ⟨selected, begins⟩ := begin_identify chann place (m.channels chann).file
  have plain := plain.kept (turns_outbs (identifyCommand chann place) m).1
  unfold ataIdentify
  generalize (identifyCommand chann place).foldl Machine.outb m = begun at *
  dsimp only
  rw [drives]
  have kept := (contents_waitForData begun chann).trans contents
  cases holds : (m.channels chann).drives place with
  | none =>
    rw [start_absent (by rw [selected]; exact holds)] at channel
    obtain ⟨error, data⟩ := waitForData_absent rfl channel
    rw [if_neg (not_not.mpr error), if_pos data]
    exact ⟨kept, Or.inl rfl⟩
  | some drive =>
    rw [start_present (by rw [selected]; exact holds), begins] at channel
    have waited := waitForData_pending plain (.fetching _) channel
    rcases waited_outcome waited with (error | ⟨error, data⟩) | ⟨error, data, here⟩
    · rw [if_pos error]
      exact ⟨kept, Or.inl rfl⟩
    · rw [if_neg (not_not.mpr error), if_pos data]
      exact ⟨kept, Or.inl rfl⟩
    · rw [if_neg (not_not.mpr error), if_neg data]
      have phase : ((begun.waitForData chann).2.channels chann).phase = .sending drive.identity.toList := by rw [here]
      obtain ⟨words, rested⟩ := inws_sending (toList_ne_nil _) phase
      rw [Vector.length_toList] at words rested
      have unchanged := (contents_inws (begun.waitForData chann).2 chann 256).trans kept
      generalize (begun.waitForData chann).2.inws chann 256 = result at *
      refine ⟨unchanged, Or.inr ⟨drive, rfl, ?_, rested⟩⟩
      rw [words]
      rfl

end

inductive Call where
  | identify (chann : Chann) (place : Place) (before : ModelString.DiskDevice)
  | read (disk : AtaDevice) (lba : BitVec 64)
  | write (disk : AtaDevice) (lba : BitVec 64) (buff : Sector)

inductive Result where
  | identified (device : ModelString.DiskDevice)
  | read (words : Option (List (BitVec 16)))
  | wrote (done : Bool)

def Call.chann : Call → Chann
  | .identify chann _ _ => chann
  | .read disk _ | .write disk _ _ => AtaChannel.chann disk

def perform (m : Machine) : Call → Result × Machine
  | .identify chann place before => (.identified (ataIdentify chann place before m).1, (ataIdentify chann place before m).2)
  | .read disk lba => (.read (ataRead disk lba m).1, (ataRead disk lba m).2)
  | .write disk lba buff => (.wrote (ataWrite disk lba buff m).1, (ataWrite disk lba buff m).2)

/-- A call, its result, and whether a drive of its channel stores a sector that it has then taken. -/
structure Entry where
  call : Call
  result : Result
  kept : Prop

inductive Event where
  | call (call : Call)
  | pause

def run : Machine → List Event → List Entry × Machine
  | m, [] => ([], m)
  | m, .pause :: rest => run m.tick rest
  | m, .call call :: rest =>
      let (result, m) := perform m call
      let kept := m.Stores call.chann
      let (history, m) := run m rest
      (⟨call, result, kept⟩ :: history, m)

/-- The drives of a channel have come to rest before it is called upon again. -/
def Rested : Machine → List Event → Prop
  | _, [] => True
  | m, .pause :: rest => Rested m.tick rest
  | m, .call call :: rest => (∃ failed, (m.channels call.chann).phase = .rest failed) ∧ Rested (perform m call).2 rest

open Classical in
noncomputable def written (chann : Chann) (place : Place) (n : Nat) : Entry → Option Sector
  | ⟨.write disk lba buff, .wrote true, kept⟩ =>
      if kept ∧ AtaChannel.chann disk = chann ∧ AtaChannel.place disk = place ∧ number disk lba = n then some buff
      else none
  | _ => none

noncomputable def lastWritten (history : List Entry) (chann : Chann) (place : Place) (n : Nat) : Option Sector :=
  history.reverse.findSome? (written chann place n)

abbrev Contents := Chann → Place → Option Drive

/-- Drives that held `contents`, behind the writes of a history. -/
noncomputable def after (contents : Contents) (history : List Entry) : Contents := fun chann place =>
  (contents chann place).map fun drive =>
    { drive with sectors := fun n => (lastWritten history chann place n).getD (drive.sectors n) }

def Right (contents : Contents) : Call → Result → Prop
  | .identify chann place before, .identified device =>
      device = { before with channMain := chann.main, channSub := place.sub, type := .none } ∨
        ∃ drive, contents chann place = some drive ∧ device = record chann place before drive.identity
  | .read disk lba, .read words => ∀ read, words = some read → ∃ drive,
      contents (AtaChannel.chann disk) (place disk) = some drive ∧ read = (drive.sectors (number disk lba)).toList
  | .write disk _ _, .wrote done => done → ∃ drive, contents (AtaChannel.chann disk) (place disk) = some drive
  | _, _ => False

section
variable {contents : Contents} {history : List Entry}

theorem after_nil (contents : Contents) : after contents [] = contents := by
  funext chann place
  exact (congrArg (Option.map · _) (funext fun drive => rfl)).trans Option.map_id_apply

theorem lastWritten_snoc (entry : Entry) (chann : Chann) (place : Place) (n : Nat) :
    lastWritten (history ++ [entry]) chann place n =
      (written chann place n entry).or (lastWritten history chann place n) := by
  unfold lastWritten
  rw [List.reverse_append, List.reverse_singleton, List.singleton_append, List.findSome?_cons]
  cases written chann place n entry <;> rfl

theorem after_same {entry : Entry} (nothing : ∀ chann place n, written chann place n entry = none) :
    after contents (history ++ [entry]) = after contents history := by
  unfold after
  simp only [lastWritten_snoc, nothing, Option.none_or]

theorem after_lost (disk : AtaDevice) (lba : BitVec 64) (buff : Sector) {kept : Prop} (gives : ¬ kept) :
    after contents (history ++ [⟨.write disk lba buff, .wrote true, kept⟩]) = after contents history :=
  after_same fun _ _ _ => if_neg fun both => gives both.1

theorem after_write (disk : AtaDevice) (lba : BitVec 64) (buff : Sector) {kept : Prop} (stores : kept) :
    after contents (history ++ [⟨.write disk lba buff, .wrote true, kept⟩]) =
      Function.update (after contents history) (AtaChannel.chann disk)
        (stored (after contents history (AtaChannel.chann disk)) (place disk) (number disk lba) buff) := by
  have elsewhere : ∀ chann place, ¬ (AtaChannel.chann disk = chann ∧ AtaChannel.place disk = place) →
      after contents (history ++ [⟨.write disk lba buff, .wrote true, kept⟩]) chann place =
        after contents history chann place := by
    intro chann place different
    unfold after
    have nothing : ∀ n, written chann place n ⟨.write disk lba buff, .wrote true, kept⟩ = none :=
      fun n => if_neg fun both => different ⟨both.2.1, both.2.2.1⟩
    simp only [lastWritten_snoc, nothing, Option.none_or]
  funext chann place
  by_cases channel : chann = AtaChannel.chann disk
  · subst channel
    rw [Function.update_self]
    unfold stored
    by_cases here : place = AtaChannel.place disk
    · subst here
      rw [Function.update_self]
      unfold after
      rw [Option.map_map]
      congr
      funext drive
      have sectors : (fun n => (lastWritten (history ++ [⟨.write disk lba buff, .wrote true, kept⟩]) (AtaChannel.chann disk)
          (AtaChannel.place disk) n).getD (drive.sectors n)) = Function.update (fun n => (lastWritten history
            (AtaChannel.chann disk) (AtaChannel.place disk) n).getD (drive.sectors n)) (number disk lba) buff := by
        funext n
        rw [lastWritten_snoc]
        by_cases same : n = number disk lba
        · subst same
          rw [Function.update_self]
          simp [written, stores]
        · rw [Function.update_of_ne same]
          simp [written, Ne.symm same]
      rw [sectors]
      rfl
    · rw [Function.update_of_ne here]
      exact elsewhere _ place fun both => here both.2.symm
  · rw [Function.update_of_ne channel]
    exact elsewhere chann place fun both => channel both.1.symm

/-- One call keeps the drives in step with the history. -/
theorem perform_spec {m : Machine} {failed : Bool} (call : Call) (plain : m.Plain)
    (rest : (m.channels call.chann).phase = .rest failed) (holds : m.contents = after contents history) :
    Right (after contents history) call (perform m call).1 ∧
      (perform m call).2.contents =
        after contents (history ++ [⟨call, (perform m call).1, (perform m call).2.Stores call.chann⟩]) := by
  cases call with
  | identify chann place before =>
    obtain ⟨same, device⟩ := ataIdentify_spec plain rest place before
    constructor
    · rw [← holds]
      rcases device with none | ⟨drive, present, here, _⟩
      · exact Or.inl none
      · exact Or.inr ⟨drive, present, here⟩
    · rw [after_same fun _ _ _ => rfl]
      exact same.trans holds
  | read disk lba =>
    obtain ⟨same, words⟩ := ataRead_spec plain rest lba
    constructor
    · rw [← holds]
      intro read returned
      obtain ⟨drive, present, here, _⟩ := words read returned
      exact ⟨drive, present, here⟩
    · rw [after_same fun _ _ _ => rfl]
      exact same.trans holds
  | write disk lba buff =>
    unfold perform
    dsimp only
    rcases ataWrite_spec plain rest lba buff with ⟨fails, same⟩ | ⟨done, _, present, stores, gives⟩
    · rw [fails, after_same fun _ _ _ => rfl]
      exact ⟨(fun impossible => nomatch impossible), same.trans holds⟩
    · rw [done]
      refine ⟨fun _ => holds ▸ present, ?_⟩
      by_cases kept : (ataWrite disk lba buff m).2.Stores (AtaChannel.chann disk)
      · refine (stores kept).trans ?_
        rw [holds]
        exact (after_write disk lba buff kept).symm
      · refine (gives kept).trans ?_
        rw [holds]
        exact (after_lost disk lba buff kept).symm

theorem turns_perform (m : Machine) (call : Call) : (perform m call).2.turns = m.turns := by
  cases call with
  | identify chann place before => exact turns_ataIdentify chann place before m
  | read disk lba => exact turns_ataRead disk lba m
  | write disk lba buff => exact turns_ataWrite disk lba buff m

end

/-- Behind a history that the drives agree with, a run keeps them in step and gives the right results. -/
theorem run_spec {contents : Contents} {events : List Event} {m : Machine} {history : List Entry} (plain : m.Plain)
    (holds : m.contents = after contents history) (rested : Rested m events) :
    (run m events).2.contents = after contents (history ++ (run m events).1) ∧
      ∀ before entry later, (run m events).1 = before ++ entry :: later →
        Right (after contents (history ++ before)) entry.call entry.result := by
  induction events generalizing m history with
  | nil =>
    refine ⟨by rw [run, List.append_nil]; exact holds, fun before entry later split => ?_⟩
    exact absurd split.symm (List.append_ne_nil_of_right_ne_nil _ (List.cons_ne_nil _ _))
  | cons event rest ih =>
    cases event with
    | pause => exact ih (plain.kept rfl) ((contents_tick m).trans holds) rested
    | call call =>
      obtain ⟨⟨failed, atRest⟩, further⟩ := rested
      obtain ⟨right, next⟩ := perform_spec call plain atRest holds
      obtain ⟨final, results⟩ := ih (plain.kept (turns_perform m call)) next further
      rw [List.append_assoc] at final
      refine ⟨final, fun before entry later split => ?_⟩
      cases before with
      | nil =>
        obtain ⟨rfl, _⟩ := List.cons.inj split
        rw [List.append_nil]
        exact right
      | cons first before =>
        obtain ⟨rfl, tails⟩ := List.cons.inj split
        have here := results before entry later tails
        rw [List.append_assoc] at here
        exact here

/-- For every machine, every order of calls and pauses, and every pace of the drives, which may give up on any command
before its words are exchanged and on any sector that they are to store: if a channel is at rest whenever one of its
drives is called upon, and a drive at work shows neither of the bits that the driver waits for, then each read that
succeeds returns what was put under its number on this drive by the last write of this run that succeeded and that the
drive did not give up on, or what was there before; each identification describes the drive at its place or finds none;
and the drives end up with what they have stored and are otherwise unchanged. -/
theorem sectors_read_back (m : Machine) (events : List Event) (rested : Rested m events) (plain : m.Plain) :
    (run m events).2.contents = after m.contents (run m events).1 ∧
      ∀ before entry later, (run m events).1 = before ++ entry :: later →
        Right (after m.contents before) entry.call entry.result := by
  have spec := run_spec plain (after_nil m.contents).symm rested
  rw [List.nil_append] at spec
  exact spec

section
variable {disk : AtaDevice} {chann : Chann} {m : Machine} {c : Channel} {failed : Bool}

theorem waitForData_prompt {next : Phase} (pending : Pending c.phase next) (here : m.channels chann = c)
    (prompt : (m.turns m.clock chann).move = .succeeds) :
    (m.waitForData chann).1 &&& 0x01 = 0 ∧ (m.waitForData chann).1 &&& 0x08 ≠ 0 ∧
      (m.waitForData chann).2 = m.tick ∧ m.tick.channels chann = { c with phase := next } := by
  obtain ⟨file, drives, phase⟩ := c
  obtain ⟨-, data, -⟩ := status_bits (m.turns m.clock chann).others
  have moved : m.tick.channels chann = ⟨file, drives, next⟩ := by
    change (m.channels chann).move (m.turns m.clock chann).move = _
    rw [prompt, here]
    cases pending <;> rfl
  have seen : (m.status chann).1 = (m.turns m.clock chann).others &&& ~~~0x89 ||| 0x08 := by
    change (m.tick.channels chann).status _ = _
    rw [moved]
    cases pending <;> rfl
  have first : m.waitForData chann = m.status chann := by
    unfold Machine.waitForData
    exact Library.Polling.poll_first 999999 (Or.inr (seen ▸ data.2))
  rw [first, seen]
  exact ⟨data.1, data.2, rfl, moved⟩

theorem start_addressed {lba : BitVec 64} {cmd : BitVec 8} {file : TaskFile} {drive : Drive} (addressed : Addressed disk lba cmd file)
    (present : c.drives (place disk) = some drive) :
    ({ c with file := file } : Channel).start = { c with file := file, phase := TaskFile.begin file drive } :=
  start_present (by rw [addressed.place]; exact present)

def span (disk : AtaDevice) : Nat := (if disk.hasLBA48 then 10 else 6) + 257

theorem length_command (lba : BitVec 64) (ext pio : BitVec 8) :
    (command disk lba ext pio).length + 257 = span disk := by
  unfold command span
  split <;> rfl

theorem ataWrite_begun {begun : Machine} {n : Nat} {lba : BitVec 64} (buff : Sector)
    (sends : (writeCommand disk lba).foldl Machine.outb m = begun) (here : begun.channels (AtaChannel.chann disk) = c)
    (opening : c.phase = .opening (place disk) n)
    (prompt : (begun.turns begun.clock (AtaChannel.chann disk)).move = .succeeds) :
    (ataWrite disk lba buff m).1 = true ∧
      (ataWrite disk lba buff m).2.channels (AtaChannel.chann disk) = { c with phase := .storing (place disk) n buff } ∧
      (ataWrite disk lba buff m).2.turns = begun.turns ∧ (ataWrite disk lba buff m).2.clock = begun.clock + 257 := by
  have pending : Pending c.phase (.taking (place disk) n []) := opening ▸ Pending.opening (place disk) n
  obtain ⟨error, data, waited, taking⟩ := waitForData_prompt pending here prompt
  obtain ⟨taken, _⟩ := @outws_taking _ begun.tick _ _ buff [] _ rfl (toList_ne_nil buff) (by rw [taking])
  obtain ⟨turns, clock⟩ := @turns_outws (AtaChannel.chann disk) buff.toList begun.tick
  unfold ataWrite
  rw [sends]
  dsimp only
  rw [if_neg (not_not.mpr error), if_neg data, waited]
  refine ⟨rfl, ?_, turns, ?_⟩
  · refine taken.trans ?_
    rw [taking]
  · refine clock.trans ?_
    rw [Vector.length_toList]
    exact Nat.add_assoc begun.clock 1 256

theorem ataRead_begun {begun : Machine} {words : Sector} {lba : BitVec 64}
    (sends : (readCommand disk lba).foldl Machine.outb m = begun) (here : begun.channels (AtaChannel.chann disk) = c)
    (fetching : c.phase = .fetching words)
    (prompt : (begun.turns begun.clock (AtaChannel.chann disk)).move = .succeeds) :
    (ataRead disk lba m).1 = some words.toList := by
  have pending : Pending c.phase (.sending words.toList) := fetching ▸ Pending.fetching words
  obtain ⟨error, data, waited, sending⟩ := waitForData_prompt pending here prompt
  obtain ⟨read, _⟩ := @inws_sending (AtaChannel.chann disk) begun.tick _ (toList_ne_nil words) (by rw [sending])
  rw [Vector.length_toList] at read
  unfold ataRead
  rw [sends]
  dsimp only
  rw [if_neg (not_not.mpr error), if_neg data, waited]
  exact congrArg some read

theorem ataWrite_prompt {drive : Drive} (rest : (m.channels (AtaChannel.chann disk)).phase = .rest failed)
    (present : (m.channels (AtaChannel.chann disk)).drives (place disk) = some drive) (lba : BitVec 64) (buff : Sector)
    (prompt : ∀ n, n = m.clock + (writeCommand disk lba).length → (m.turns n (AtaChannel.chann disk)).move = .succeeds) :
    (ataWrite disk lba buff m).1 = true ∧ (∃ file,
      Addressed disk lba (if disk.hasLBA48 then CMD_WRITE_PIO_EXT else CMD_WRITE_PIO) file ∧
        (ataWrite disk lba buff m).2.channels (AtaChannel.chann disk) =
          ⟨file, (m.channels (AtaChannel.chann disk)).drives, .storing (place disk) (number disk lba) buff⟩) ∧
      (ataWrite disk lba buff m).2.turns = m.turns ∧ (ataWrite disk lba buff m).2.clock = m.clock + span disk := by
  obtain ⟨_, file, addressed, channel⟩ := sent_command rest lba CMD_WRITE_PIO_EXT CMD_WRITE_PIO
  obtain ⟨turns, clock⟩ := turns_outbs (writeCommand disk lba) m
  rw [start_addressed addressed present, begin_write addressed] at channel
  obtain ⟨done, taken, turns', clock'⟩ := ataWrite_begun buff rfl channel rfl (by
    rw [turns]
    exact prompt _ clock)
  refine ⟨done, ⟨file, addressed, taken⟩, turns'.trans turns, ?_⟩
  refine clock'.trans ?_
  rw [clock, Nat.add_assoc, writeCommand, length_command]

theorem ataRead_prompt {drive : Drive} (rest : (m.channels (AtaChannel.chann disk)).phase = .rest failed)
    (present : (m.channels (AtaChannel.chann disk)).drives (place disk) = some drive) (lba : BitVec 64)
    (prompt : ∀ n, (m.turns n (AtaChannel.chann disk)).move = .succeeds) :
    (ataRead disk lba m).1 = some (drive.sectors (number disk lba)).toList := by
  obtain ⟨_, file, addressed, channel⟩ := sent_command rest lba CMD_READ_PIO_EXT CMD_READ_PIO
  obtain ⟨turns, _⟩ := turns_outbs (readCommand disk lba) m
  rw [start_addressed addressed present, begin_read addressed] at channel
  exact ataRead_begun rfl channel rfl (by
    rw [turns]
    exact prompt _)

theorem outb_storing {place : Place} {n : Nat} {buff : Sector} {out : Out}
    (storing : (m.channels chann).phase = .storing place n buff) (stays : (m.turns m.clock chann).move = .stays) :
    (m.outb out).channels chann = m.channels chann := by
  change ((m.channels chann).move (m.turns m.clock chann).move).outb chann.main out = _
  rw [stays]
  unfold Channel.move Channel.outb
  dsimp only
  rw [storing]

theorem foldl_storing {place : Place} {n : Nat} {buff : Sector} (outs : List Out)
    (storing : (m.channels chann).phase = .storing place n buff)
    (stays : ∀ k < outs.length, (m.turns (m.clock + k) chann).move = .stays) :
    (outs.foldl Machine.outb m).channels chann = m.channels chann := by
  induction outs generalizing m with
  | nil => rfl
  | cons out outs ih =>
    have first := @outb_storing _ _ _ _ _ out storing (stays 0 (Nat.succ_pos _))
    refine (ih (m := m.outb out) (by rw [first]; exact storing) ?_).trans first
    intro k below
    have later := stays (k + 1) (Nat.succ_lt_succ below)
    rw [← Nat.add_assoc, Nat.add_right_comm] at later
    exact later

theorem addressed_again {lba : BitVec 64} {cmd : BitVec 8} {file : TaskFile} (addressed : Addressed disk lba cmd file)
    (next : BitVec 8) : Addressed disk lba next (TaskFile.write disk.channMain file (issue disk next)) := by
  obtain ⟨_, place, one, number⟩ := addressed
  unfold issue
  constructor
  · simp (disch := decide) only [SectorNumber.write_same]
    exact BitVec.setWidth_setWidth_of_le next (by decide)
  · unfold TaskFile.place at place ⊢
    simp (disch := decide) only [SectorNumber.write_other]
    exact place
  · unfold TaskFile.oneSector at one ⊢
    simp (disch := decide) only [SectorNumber.write_other]
    exact one
  · unfold TaskFile.lba48 TaskFile.lba28 at number ⊢
    simp (disch := decide) only [SectorNumber.write_other]
    exact number

/-- A drive that has stored its sector just before the command sees the registers of the write before. -/
theorem late_command {file : TaskFile} {drives : Place → Option Drive} {drive : Drive} {first second : BitVec 64} {cmd : BitVec 8}
    {buff : Sector} (addressed : Addressed disk first cmd file) (present : drives (place disk) = some drive)
    (here : m.channels (AtaChannel.chann disk) = ⟨file, drives, .storing (place disk) (number disk first) buff⟩)
    (ext pio : BitVec 8)
    (stays : ∀ k < (command disk second ext pio).length - 1, (m.turns (m.clock + k) (AtaChannel.chann disk)).move = .stays)
    (succeeds : (m.turns (m.clock + ((command disk second ext pio).length - 1)) (AtaChannel.chann disk)).move = .succeeds) :
    ∃ file, Addressed disk first (if disk.hasLBA48 then ext else pio) file ∧
      ((command disk second ext pio).foldl Machine.outb m).channels (AtaChannel.chann disk) =
        ⟨file, stored drives (place disk) (number disk first) buff, TaskFile.begin file
          { drive with sectors := Function.update drive.sectors (number disk first) buff }⟩ := by
  obtain ⟨front, same, _⟩ := command_split disk second ext pio
  rw [same, List.length_append, List.length_singleton, Nat.add_sub_cancel] at stays succeeds
  have still := foldl_storing front (by rw [here]) stays
  obtain ⟨turns, clock⟩ := turns_outbs front m
  have again := addressed_again addressed (if disk.hasLBA48 then ext else pio)
  refine ⟨_, again, ?_⟩
  rw [same, List.foldl_append, List.foldl_cons, List.foldl_nil]
  generalize front.foldl Machine.outb m = waiting at *
  change ((waiting.channels (AtaChannel.chann disk)).move (waiting.turns waiting.clock (AtaChannel.chann disk)).move).outb
    (AtaChannel.chann disk).main _ = _
  rw [still, here, turns, clock, succeeds]
  unfold Channel.move Channel.outb
  dsimp only
  rw [if_pos (show (issue disk _).1 = _ from issue_starts disk _), main_chann]
  refine start_addressed (c := ⟨file, stored drives (place disk) (number disk first) buff, .rest false⟩) again ?_
  unfold stored
  dsimp only
  rw [Function.update_self, present]
  rfl

end

/-- The drive is prompt but for the second command: it stores its sector until the last register is written. -/
def lateTurns (disk : AtaDevice) (m : Machine) : Nat → Chann → Turn := fun n _ =>
  ⟨if m.clock + span disk ≤ n ∧ n < m.clock + span disk + (span disk - 258) then .stays else .succeeds, 0⟩

section
variable {m wrote : Machine} {disk : AtaDevice}

theorem lateTurns_never (disk : AtaDevice) (m : Machine) (n : Nat) (chann : Chann) :
    (lateTurns disk m n chann).move ≠ .fails := by
  unfold lateTurns
  split <;> exact fun impossible => nomatch impossible

theorem lateTurns_early {n : Nat} (below : n < m.clock + span disk) (chann : Chann) :
    (lateTurns disk m n chann).move = .succeeds :=
  if_neg fun both => by omega

theorem lateTurns_stays {k : Nat} (below : k < span disk - 258) (chann : Chann) :
    (lateTurns disk m (m.clock + span disk + k) chann).move = .stays :=
  if_pos (by omega)

theorem lateTurns_late {n : Nat} (above : m.clock + span disk + (span disk - 258) ≤ n) (chann : Chann) :
    (lateTurns disk m n chann).move = .succeeds :=
  if_neg fun both => by omega

theorem length_front (lba : BitVec 64) (ext pio : BitVec 8) :
    (command disk lba ext pio).length - 1 = span disk - 258 := by
  rw [← length_command lba ext pio]
  omega

/-- The drive is done with the sector when the last register of the second command has been written. -/
theorem lateTurns_behind (turns : wrote.turns = lateTurns disk m) (clock : wrote.clock = m.clock + span disk)
    (second : BitVec 64) (ext pio : BitVec 8) {k : Nat} (chann : Chann) :
    (((command disk second ext pio).foldl Machine.outb wrote).turns
      (((command disk second ext pio).foldl Machine.outb wrote).clock + k) chann).move = .succeeds := by
  obtain ⟨same, later⟩ := turns_outbs (command disk second ext pio) wrote
  rw [same, later, turns, clock]
  have whole := @length_command disk second ext pio
  exact lateTurns_late (by omega) _

/-- The second command starts with the registers of the first. -/
theorem second_command {file : TaskFile} {drives : Place → Option Drive} {drive : Drive} {first : BitVec 64}
    {cmd : BitVec 8} {buff : Sector} (turns : wrote.turns = lateTurns disk m) (clock : wrote.clock = m.clock + span disk)
    (addressed : Addressed disk first cmd file) (present : drives (place disk) = some drive)
    (here : wrote.channels (AtaChannel.chann disk) = ⟨file, drives, .storing (place disk) (number disk first) buff⟩)
    (second : BitVec 64) (ext pio : BitVec 8) :
    ∃ file, Addressed disk first (if disk.hasLBA48 then ext else pio) file ∧
      ((command disk second ext pio).foldl Machine.outb wrote).channels (AtaChannel.chann disk) =
        ⟨file, stored drives (place disk) (number disk first) buff, TaskFile.begin file
          { drive with sectors := Function.update drive.sectors (number disk first) buff }⟩ := by
  refine late_command addressed present here ext pio ?_ ?_
  · rw [turns, clock, length_front]
    exact fun k below => lateTurns_stays below _
  · rw [turns, clock, length_front]
    exact lateTurns_late le_rfl _

end

/-- `ATA_write` returns while the drive still stores the sector, and no call waits for that. So for every drive at rest
and any two numbers, the drive, though it never gives up, may be at such a pace that a call right behind the write is
about the number of the write before: a read returns true and the words just written, whatever its number holds, and a
second write returns true and replaces the words of the first. -/
theorem late_calls (m : Machine) (disk : AtaDevice) {failed : Bool}
    (rest : (m.channels (AtaChannel.chann disk)).phase = .rest failed) {drive : Drive}
    (present : m.contents (AtaChannel.chann disk) (place disk) = some drive) (first second : BitVec 64)
    (buff buff' : Sector) :
    ∃ turns : Nat → Chann → Turn, (∀ n chann, (turns n chann).move ≠ .fails) ∧
      let wrote := ataWrite disk first buff { m with turns := turns }
      wrote.1 = true ∧ (ataRead disk second wrote.2).1 = some buff.toList ∧
        (ataWrite disk second buff' wrote.2).1 = true ∧
        (ataWrite disk second buff' wrote.2).2.contents (AtaChannel.chann disk) (place disk) =
          some { drive with sectors := Function.update drive.sectors (number disk first) buff' } := by
  have drives : (m.channels (AtaChannel.chann disk)).drives (place disk) = some drive := by
    rw [← present]
    exact (congrFun (settled_rest rest _) _).symm
  refine ⟨lateTurns disk m, lateTurns_never disk m, ?_⟩
  intro wrote
  obtain ⟨done, ⟨file, addressed, channel⟩, turns, clock⟩ := ataWrite_prompt (m := { m with turns := lateTurns disk m }) rest drives
    first buff fun n here => lateTurns_early (by
      have whole := @length_command disk first CMD_WRITE_PIO_EXT CMD_WRITE_PIO
      unfold writeCommand at here
      dsimp only at here
      omega) (AtaChannel.chann disk)
  change wrote.2.turns = lateTurns disk m at turns
  change wrote.2.clock = m.clock + span disk at clock
  have commands := second_command turns clock addressed drives channel second
  have prompt := fun ext pio k => @lateTurns_behind _ _ disk turns clock second ext pio k (AtaChannel.chann disk)
  refine ⟨done, ?_, ?_⟩
  · obtain ⟨file, addressed, channel⟩ := commands CMD_READ_PIO_EXT CMD_READ_PIO
    rw [begin_read addressed] at channel
    dsimp only at channel
    rw [Function.update_self] at channel
    exact ataRead_begun rfl channel rfl (prompt _ _ 0)
  · obtain ⟨file, addressed, channel⟩ := commands CMD_WRITE_PIO_EXT CMD_WRITE_PIO
    rw [begin_write addressed] at channel
    obtain ⟨done, taken, turns', clock'⟩ := ataWrite_begun buff' rfl channel rfl (prompt _ _ 0)
    have stores : (ataWrite disk second buff' wrote.2).2.Stores (AtaChannel.chann disk) := by
      apply stores_now
      rw [turns', clock']
      exact prompt _ _ _
    refine ⟨done, ?_⟩
    unfold Machine.contents
    rw [taken]
    unfold Channel.settled
    dsimp only
    rw [if_pos stores]
    unfold stored
    rw [Function.update_self, Function.update_self, drives, Option.map_some, Option.map_some, Function.update_idem]

/-- A master drive on either channel, and drives that are always prompt. -/
def twoDrives : Machine where
  channels _ :=
    { file := fun _ => (0, 0)
      drives := fun place => if place = .master then some ⟨Vector.replicate 256 0, fun _ => Vector.replicate 256 0⟩ else none
      phase := .rest false }
  turns _ _ := ⟨.succeeds, 0⟩
  clock := 0

def writtenThenRead (disk : AtaDevice) (lba : BitVec 64) (buff : Sector) : List Event :=
  [.call (.write disk lba buff), .pause, .call (.read disk lba)]

theorem sectors_read_back_once :
    let disk := SectorNumber.masterDrive true
    let buff := Vector.replicate 256 0xABCD
    Rested twoDrives (writtenThenRead disk 5 buff) ∧
      ∃ kept kept', kept ∧ (run twoDrives (writtenThenRead disk 5 buff)).1 =
        [⟨.write disk 5 buff, .wrote true, kept⟩, ⟨.read disk 5, .read (some buff.toList), kept'⟩] ∧
      ∃ drive, after twoDrives.contents [⟨.write disk 5 buff, .wrote true, kept⟩] .primary .master = some drive ∧
        buff.toList = (drive.sectors 5).toList := by
  intro disk buff
  have atRest : (twoDrives.channels (AtaChannel.chann disk)).phase = .rest false := rfl
  have prompt : ∀ n, (twoDrives.turns n (AtaChannel.chann disk)).move = .succeeds := fun n => rfl
  obtain ⟨wrote, ⟨file, _, channel⟩, turns, _⟩ := ataWrite_prompt atRest rfl 5 buff fun n _ => prompt n
  generalize written : ataWrite disk 5 buff twoDrives = outcome at *
  obtain ⟨done, m⟩ := outcome
  dsimp only at wrote channel turns
  have stores : m.Stores (AtaChannel.chann disk) := stores_now (by rw [turns, prompt])
  have settled : m.tick.channels (AtaChannel.chann disk) =
      ⟨file, stored (twoDrives.channels (AtaChannel.chann disk)).drives (place disk) (number disk 5) buff, .rest false⟩ := by
    change (m.channels (AtaChannel.chann disk)).move _ = _
    rw [channel, turns, prompt]
    rfl
  have read : (ataRead disk 5 m.tick).1 = some buff.toList := by
    have returned := @ataRead_prompt disk m.tick _ _ (by rw [settled]) (by rw [settled]; rfl) 5 fun n => by
      change (m.turns n _).move = _
      rw [turns, prompt]
    rw [returned]
    dsimp only
    rw [Function.update_self]
  have rested : Rested twoDrives (writtenThenRead disk 5 buff) := by
    refine ⟨⟨false, atRest⟩, ⟨false, ?_⟩, trivial⟩
    change (((ataWrite disk 5 buff twoDrives).2.tick.channels (AtaChannel.chann disk))).phase = _
    rw [written, settled]
  have history : (run twoDrives (writtenThenRead disk 5 buff)).1 =
      [⟨.write disk 5 buff, .wrote true, m.Stores (AtaChannel.chann disk)⟩, ⟨.read disk 5, .read (some buff.toList),
        (ataRead disk 5 m.tick).2.Stores (AtaChannel.chann disk)⟩] := by
    unfold writtenThenRead run run run perform
    dsimp only
    rw [written]
    dsimp only [run]
    rw [wrote, read]
    rfl
  refine ⟨rested, _, _, stores, history, ?_⟩
  obtain ⟨_, right⟩ := sectors_read_back twoDrives (writtenThenRead disk 5 buff) rested fun _ _ => BitVec.zero_and
  exact right [_] _ [] history buff.toList rfl

theorem late_calls_five_seven :
    let disk := SectorNumber.masterDrive true
    let buff := Vector.replicate 256 0xABCD
    ∃ turns : Nat → Chann → Turn, (∀ n chann, (turns n chann).move ≠ .fails) ∧
      let wrote := ataWrite disk 5 buff { twoDrives with turns := turns }
      wrote.1 = true ∧ (ataRead disk 7 wrote.2).1 = some buff.toList := by
  intro disk buff
  obtain ⟨turns, never, wrote, read, _⟩ := late_calls twoDrives disk rfl rfl 5 7 buff (Vector.replicate 256 0)
  exact ⟨turns, never, wrote, read⟩

end Ketone.Disk.AtaRuns
