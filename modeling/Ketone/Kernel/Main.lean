import Ketone.Disk.ModelString
import Ketone.Exfat.StoredTree
import Ketone.Mbr.DiskImage

/-! The kernel after its start: it looks through the drives for partitions of exFAT, and prints one file of each. -/

namespace Ketone.Kernel.Main
open Library Library.Bytes Library.Loop Library.Components Library.NameTree Io.Serial Io.Uart
open Exfat.OpenFile Exfat.Volume Exfat.ReadFile Exfat.PathResolution Exfat.WholeFile Exfat.SectorBuffers Exfat.OwedBlocks
open Exfat.NoLeaks Exfat.StoredTree Mbr.Partitions Mbr.DiskImage MemManager.BlockRuns
open MemManager.Allocator hiding Call

structure Drive where
  type : Disk.ModelString.DiskType
  name : Str
  machine : Machine

/-- What has been printed, and the calls made so far. -/
structure Output where
  calls : List Call
  trace : Trace

def HELLO : Str := code "/ketone/hello".toList

/-- What the set-up of the file system prints: the signature has eight bytes. -/
def exfatReport (buff : Buffer) (name : Str) : List Call :=
  [.printLN ((List.range' 3 8).map buff), .print (code "EXFAT init for: ".toList), .printLN name,
    .print (code "EXFAT root cluster at: ".toList), .printHexLN (readU32Le buff 0x60)]

def exfatInitPrints (machine : Machine) (lbaStart : BitVec 32) (name : Str) (trace : Trace) : List Call :=
  let (_, trace) := trace.kalloc 512
  let stale := machine.stale trace.reads
  let (buff, _) := readDisk machine trace (lbaStart.setWidth 64) stale 0
  exfatReport (buff.getD stale) name

/-- The loop over the bytes of the file. There is no saying what it prints without a length, or from the null pointer. -/
def printFile (answer : Answer) : Option (List Call) :=
  match answer.size, answer.data with
  | none, _ => none
  | some size, some data => some ((List.range size.toNat).map fun i => .write (data.bytes i))
  | some size, none => if size = 0 then some [] else none

/-- The null pointer is not given back. -/
def freeBuffer (answer : Answer) : Trace :=
  match answer.data with
  | some data => answer.trace.kfree data.block
  | none => answer.trace

def tryPartition (bound : Nat) (drive : Drive) (out : Output) (partition : MbrPartition) : Option Output :=
  if partition.type = 0x07 then
    let calls := out.calls ++ exfatInitPrints drive.machine partition.lbaStart drive.name out.trace
    let (fs, trace) := exfatInit drive.machine partition.lbaStart out.trace
    match openFile drive.machine fs HELLO bound trace with
    | some (.returned none, trace) => some ⟨calls, trace⟩
    | some (.returned (some held), trace) =>
        match readFileAll drive.machine held.entry bound trace with
        | none => none
        | some answer => (printFile answer).map fun bytes => ⟨calls ++ bytes ++ [.write 0x0A], freeBuffer answer⟩
    | some (.smashed, _) => none
    | none => none
  else some out

def tryDrive (bound : Nat) (out : Output) (numbered : Drive × Nat) : Option Output :=
  let (drive, i) := numbered
  if drive.type = .none then some out
  else
    let calls := out.calls ++ [.printHexLN (BitVec.ofNat 32 i), .printLN drive.name]
    let (partitions, trace) := out.trace.kalloc 32
    let result := mbrGetPartitions drive.machine trace
    let calls := calls ++ result.printed
    match result.partitions with
    | none => some ⟨calls, result.trace.kfree partitions⟩
    | some found =>
        (found.map Stored.partition).foldlM (tryPartition bound drive)
          ⟨calls ++ [.printHexLN (BitVec.ofNat 32 found.length)], result.trace⟩

/-- What comes behind `init`, with a bound on the iterations of the loops of the file system. -/
def kernelMain (bound : Nat) (drives : List Drive) (started : Output) : Option Output :=
  drives.zipIdx.foldlM (tryDrive bound) started

def Ends (drives : List Drive) (started out : Output) : Prop := ∃ bound, kernelMain bound drives started = some out

/-- A disk, the boot sector on it if there is one, and the trees of files of its partitions. -/
structure Content where
  disk : Disk
  boot : Option BootSector
  trees : MbrPartition → List (Str × Tree Str Bytes)

def helloPath : CString := ⟨HELLO, by decide +kernel⟩

namespace Content
variable (content : Content)

def sector (partition : MbrPartition) : Buffer := content.disk partition.lbaStart.toNat

def volume (partition : MbrPartition) : ExfatInstance := instanceOf (content.sector partition) partition.lbaStart

def hello (partition : MbrPartition) : Option (Tree Str Bytes) :=
  (Tree.branch (content.trees partition)).lookup helloPath.components

/-- A partition that holds its tree; what has the name of the file is no directory. -/
structure Mounted (partition : MbrPartition) : Prop where
  sectors : (content.volume partition).bytesPerSectorShift = 9
  clusters : (content.volume partition).sectorsPerClusterShift ≤ 16
  holds : HoldsChildren content.disk (content.volume partition) (content.volume partition).rootCluster
    (content.trees partition)
  plain : ∀ children, content.hello partition ≠ some (.branch children)

structure On (memory : List (BitVec 64) → Buffer) (drive : Drive) : Prop where
  machine : drive.machine = whole content.disk memory
  table : ∀ boot, Holds (content.disk 0) boot ↔ content.boot = some boot
  mounted : ∀ boot, content.boot = some boot → ∀ partition ∈ boot.kept, partition.type = 0x07 →
    content.Mounted partition

def volumeText (name : Str) (partition : MbrPartition) : Str :=
  cString ((List.range' 3 8).map (content.sector partition)) ++ code "\n".toList ++
    code "EXFAT init for: ".toList ++ cString name ++ code "\n".toList ++
    code "EXFAT root cluster at: ".toList ++
    hexNumeral 8 (field 32 (content.sector partition) 0x60).toNat ++ code "\n".toList

def partitionText (name : Str) (partition : MbrPartition) : Str :=
  if partition.type = 0x07 then
    content.volumeText name partition ++
      match content.hello partition with
      | some (.leaf data) => data ++ code "\n".toList
      | _ => []
  else []

def entryText (partition : MbrPartition) : Str :=
  if partition.type = 0x07 then
    code "MBR EXFAT: ".toList ++ hexNumeral 8 partition.type.toNat ++ code "\n".toList ++
      code "MBR EXFAT at: ".toList ++ hexNumeral 8 partition.lbaStart.toNat ++ code "\n".toList ++
      code "MBR EXFAT sectors: ".toList ++ hexNumeral 8 partition.sectors.toNat ++ code "\n".toList
  else []

def driveText (i : Nat) (name : Str) : Str :=
  hexNumeral 8 (i % 2 ^ 32) ++ code "\n".toList ++ cString name ++ code "\n".toList ++
    match content.boot with
    | none => []
    | some boot => boot.kept.flatMap entryText ++ hexNumeral 8 boot.kept.length ++ code "\n".toList ++
        boot.kept.flatMap (content.partitionText name)

end Content

def drivesText (drives : List (Drive × Content)) : Str :=
  drives.zipIdx.flatMap fun numbered =>
    if numbered.1.1.type = .none then [] else numbered.1.2.driveText numbered.2 numbered.1.1.name

def textOf (calls : List Call) : Str := calls.flatMap Call.text

/-- From one point to another a text is printed, and blocks of the heap are taken and given back. -/
structure Goes (out out' : Output) (printed : Str) : Prop where
  text : textOf out'.calls = textOf out.calls ++ printed
  owes : ∃ blocks, Owes out.trace.heap out'.trace.heap blocks

section
variable {memory : List (BitVec 64) → Buffer} {content : Content} {drive : Drive} {partition : MbrPartition}

theorem textOf_append (first second : List Call) : textOf (first ++ second) = textOf first ++ textOf second :=
  List.flatMap_append

theorem textOf_write (bytes : Str) : textOf (bytes.map Call.write) = bytes := by
  unfold textOf
  rw [List.flatMap_map]
  exact List.flatMap_singleton' bytes

theorem Goes.trans {first second third : Output} {printed more : Str} (goes : Goes first second printed)
    (further : Goes second third more) : Goes first third (printed ++ more) := by
  obtain ⟨_, owes⟩ := goes.owes
  obtain ⟨_, owes'⟩ := further.owes
  refine ⟨?_, _, owes.trans owes'⟩
  rw [further.text, goes.text, List.append_assoc]

theorem foldlM_prints {α : Type} {step : Nat → Output → α → Option Output} {printed : α → Str} (items : List α)
    (each : ∀ item ∈ items, ∀ out, ∃ least out', (∀ bound, least ≤ bound → step bound out item = some out') ∧
      Goes out out' (printed item)) (out : Output) :
    ∃ least out', (∀ bound, least ≤ bound → items.foldlM (step bound) out = some out') ∧
      Goes out out' (items.flatMap printed) := by
  induction items generalizing out with
  | nil => exact ⟨0, out, fun _ _ => rfl, ⟨by simp, [], .start⟩⟩
  | cons item rest ih =>
    obtain ⟨first, middle, taken, goes⟩ := each item (List.mem_cons_self ..) out
    obtain ⟨second, last, finished, further⟩ := ih (fun other member => each other (List.mem_cons_of_mem _ member)) middle
    refine ⟨max first second, last, ?_, ?_⟩
    · intro bound enough
      rw [List.foldlM_cons, taken bound (by omega)]
      exact finished bound (by omega)
    · rw [List.flatMap_cons]
      exact goes.trans further

theorem exfatReport_fill (stale sector : Buffer) (name : Str) :
    exfatReport (fill stale 0 sector) name = exfatReport sector name := by
  have byte : ∀ p < 512, fill stale 0 sector p = sector p := by
    intro p below
    unfold fill SECTOR_SIZE
    rw [if_pos ⟨Nat.zero_le p, by omega⟩, Nat.sub_zero]
  have signature : (List.range' 3 8).map (fill stale 0 sector) = (List.range' 3 8).map sector := by
    apply List.map_congr_left
    intro p member
    exact byte p (by have := (List.mem_range'_1.mp member).2; omega)
  unfold exfatReport readU32Le
  rw [signature]
  simp (disch := omega) only [byte]

theorem text_exfatReport (content : Content) (name : Str) (partition : MbrPartition) :
    textOf (exfatReport (content.sector partition) name) = content.volumeText name partition := by
  have first : cString (code "EXFAT init for: ".toList) = code "EXFAT init for: ".toList := by decide
  have second : cString (code "EXFAT root cluster at: ".toList) = code "EXFAT root cluster at: ".toList := by decide
  unfold Content.volumeText
  rw [← readU32Le_field]
  simp only [textOf, exfatReport, List.flatMap_cons, List.flatMap_nil, Call.text, first, second, List.append_nil,
    List.append_assoc]
  rfl

theorem text_reportOf (partition : MbrPartition) : textOf (reportOf partition) = Content.entryText partition := by
  unfold reportOf Content.entryText
  split
  · have first : cString (code "MBR EXFAT: ".toList) = code "MBR EXFAT: ".toList := by decide
    have second : cString (code "MBR EXFAT at: ".toList) = code "MBR EXFAT at: ".toList := by decide
    have third : cString (code "MBR EXFAT sectors: ".toList) = code "MBR EXFAT sectors: ".toList := by decide
    have type : (partition.type.setWidth 32).toNat = partition.type.toNat := BitVec.toNat_setWidth_of_le (by decide)
    simp only [textOf, report, List.flatMap_cons, List.flatMap_nil, Call.text, first, second, third, type,
      List.append_nil, List.append_assoc]
    rfl
  · rfl

theorem exfatInit_on (on : content.On memory drive) (partition : MbrPartition) (trace : Trace) :
    (exfatInit drive.machine partition.lbaStart trace).1 = content.volume partition ∧
      textOf (exfatInitPrints drive.machine partition.lbaStart drive.name trace) =
        content.volumeText drive.name partition := by
  have address : ((partition.lbaStart.setWidth 64).setWidth 32).toNat = partition.lbaStart.toNat := by
    rw [BitVec.setWidth_setWidth_of_le _ (by decide), BitVec.setWidth_eq]
  rw [on.machine]
  constructor
  · change instanceOf (fill _ 0 (content.disk ((partition.lbaStart.setWidth 64).setWidth 32).toNat)) _ = _
    rw [address, instanceOf_fill]
    rfl
  · rw [← text_exfatReport]
    change textOf (exfatReport (fill _ 0 (content.disk ((partition.lbaStart.setWidth 64).setWidth 32).toNat)) _) = _
    rw [address, exfatReport_fill]
    rfl

theorem owes_exfatInit (machine : Machine) (lbaStart : BitVec 32) (trace : Trace) :
    Owes trace.heap (exfatInit machine lbaStart trace).2.heap [] := .kfree (.kalloc 512 .start)

theorem owes_freeBuffer {machine : Machine} {file : Exfat.OpenFile.FileEntry} {bound : Nat} {trace : Trace} {answer : Answer}
    (returns : readFileAll machine file bound trace = some answer) :
    ∃ blocks, Owes trace.heap (freeBuffer answer).heap blocks := by
  have owes := owes_readFileAll returns
  unfold freeBuffer
  cases given : answer.data with
  | none => exact ⟨_, owes⟩
  | some data =>
    have some : file.dataLength ≠ 0 := by
      intro empty
      rw [Exfat.FileClusters.readFileAll_empty empty returns] at given
      simp at given
    unfold answerBlocks at owes
    rw [if_neg some, given] at owes
    exact ⟨[], .kfree owes⟩

theorem hello_opens (memory : List (BitVec 64) → Buffer) (mounted : content.Mounted partition) (trace : Trace) :
    ∃ least found trace', (∀ bound, least ≤ bound →
        openFile (whole content.disk memory) (content.volume partition) HELLO bound trace =
          some (.returned found, trace')) ∧
      Opened content.disk (content.volume partition) helloPath.components.getLast? (content.hello partition) found := by
  have short : ∀ c ∈ helloPath.components, c.length ≤ 255 := by decide +kernel
  have some : helloPath.components ≠ [] := by decide +kernel
  obtain ⟨least, found, trace', ended, opened⟩ := open_children memory mounted.sectors mounted.clusters some short
    mounted.holds (cursor_skip helloPath.whole) (components_skip helloPath.bytes) trace.reads trace.heap
  refine ⟨least, found, trace', ?_, opened⟩
  intro bound enough
  exact runPartial_mono (openBody_mono enough) enough ended

theorem contents_print (memory : List (BitVec 64) → Buffer) {file : Exfat.OpenFile.FileEntry} {data : Bytes}
    (sectors : file.fs.bytesPerSectorShift = 9) (clusters : file.fs.sectorsPerClusterShift ≤ 16)
    (contents : Contents content.disk file data) (trace : Trace) :
    ∃ least answer calls, (∀ bound, least ≤ bound →
        readFileAll (whole content.disk memory) file bound trace = some answer) ∧
      printFile answer = some calls ∧ textOf calls = data := by
  obtain ⟨least, answer, returns, size, empty, bytes⟩ := read_contents memory sectors clusters contents trace
  have length : (BitVec.ofNat 64 data.length).toNat = data.length := by
    rw [← contents.length, BitVec.ofNat_toNat, BitVec.setWidth_eq]
  have ends : ∀ bound, least ≤ bound → readFileAll (whole content.disk memory) file bound trace = some answer := by
    intro bound enough
    rw [Exfat.FileClusters.readFileAll_eq] at returns ⊢
    exact run_mono enough returns
  by_cases none : data = []
  · refine ⟨least, answer, [], ends, ?_, none.symm⟩
    unfold printFile
    rw [size, empty none, none]
    exact if_pos rfl
  · obtain ⟨block, given, same⟩ := bytes none
    refine ⟨least, answer, data.map Call.write, ends, ?_, textOf_write data⟩
    have all : (List.range data.length).map (fun i => Call.write (block.bytes i)) = data.map Call.write := by
      apply List.ext_getElem
      · simp
      · intro p below below'
        rw [List.length_map] at below'
        rw [List.getElem_map, List.getElem_map, List.getElem_range, same p below', List.getD_eq_getElem _ _ below']
    unfold printFile
    rw [size, given]
    dsimp only
    rw [length, all]

/-- A partition that holds its tree. -/
theorem volume_prints (on : content.On memory drive) (exfat : partition.type = 0x07)
    (mounted : content.Mounted partition) (out : Output) :
    ∃ least out', (∀ bound, least ≤ bound → tryPartition bound drive out partition = some out') ∧
      Goes out out' (content.partitionText drive.name partition) := by
  obtain ⟨volume, report⟩ := exfatInit_on on partition out.trace
  have mounts := owes_exfatInit drive.machine partition.lbaStart out.trace
  obtain ⟨least, found, trace', opens, opened⟩ := hello_opens memory mounted
    (exfatInit drive.machine partition.lbaStart out.trace).2
  have owes := @owes_openFile _ _ helloPath _ _ _ ⟨least, opens least (Nat.le_refl least)⟩
  rw [← on.machine] at opens
  unfold Content.partitionText
  rw [if_pos exfat, ← report]
  unfold Opened at opened
  cases node : content.hello partition with
  | none =>
    rw [node] at opened
    subst opened
    refine ⟨least, ⟨out.calls ++ exfatInitPrints drive.machine partition.lbaStart drive.name out.trace, trace'⟩,
      ?_, ?_, _, mounts.trans owes⟩
    · intro bound enough
      unfold tryPartition
      rw [if_pos exfat]
      dsimp only
      rw [volume, opens bound enough]
    · rw [List.append_nil]
      exact textOf_append ..
  | some node' =>
    rw [node] at opened
    obtain ⟨held, set, rfl, entry, _, stands⟩ := opened
    cases stands with
    | directory directory holds => exact absurd node (mounted.plain _)
    | @file _ data plain contents =>
      rw [← entry] at contents
      have fs : held.entry.fs = content.volume partition := congrArg Exfat.OpenFile.FileEntry.fs entry
      obtain ⟨enough', answer, bytes, reads, prints, same⟩ := contents_print memory
        (by rw [fs]; exact mounted.sectors) (by rw [fs]; exact mounted.clusters) contents trace'
      obtain ⟨_, freed⟩ := owes_freeBuffer (reads enough' (Nat.le_refl enough'))
      rw [← on.machine] at reads
      refine ⟨max least enough', ⟨out.calls ++ exfatInitPrints drive.machine partition.lbaStart drive.name out.trace ++
        bytes ++ [.write 0x0A], freeBuffer answer⟩, ?_, ?_, _, (mounts.trans owes).trans freed⟩
      · intro bound enough
        unfold tryPartition
        rw [if_pos exfat]
        dsimp only
        rw [volume, opens bound (by omega)]
        dsimp only
        rw [reads bound (by omega)]
        dsimp only
        rw [prints]
        rfl
      · dsimp only
        rw [textOf_append, textOf_append, textOf_append, same, List.append_assoc, List.append_assoc]
        rfl

theorem partition_prints (on : content.On memory drive)
    (mounted : partition.type = 0x07 → content.Mounted partition) (out : Output) :
    ∃ least out', (∀ bound, least ≤ bound → tryPartition bound drive out partition = some out') ∧
      Goes out out' (content.partitionText drive.name partition) := by
  by_cases exfat : partition.type = 0x07
  · exact volume_prints on exfat (mounted exfat) out
  · refine ⟨0, out, fun bound _ => if_neg exfat, ?_, [], .start⟩
    unfold Content.partitionText
    rw [if_neg exfat, List.append_nil]

theorem text_drive (i : Nat) (name : Str) :
    textOf [.printHexLN (BitVec.ofNat 32 i), .printLN name] =
      hexNumeral 8 (i % 2 ^ 32) ++ code "\n".toList ++ cString name ++ code "\n".toList := by
  simp only [textOf, List.flatMap_cons, List.flatMap_nil, Call.text, List.append_nil, BitVec.toNat_ofNat,
    List.append_assoc]
  rfl

/-- A drive with a boot sector. -/
theorem table_prints (on : content.On memory drive) {boot : BootSector} (table : content.boot = some boot)
    (present : drive.type ≠ .none) (i : Nat) (out : Output) :
    ∃ least out', (∀ bound, least ≤ bound → tryDrive bound out (drive, i) = some out') ∧
      Goes out out' (content.driveText i drive.name) := by
  have asked : drive.machine.drive (out.trace.kalloc 32).2.reads 0 = some (content.disk 0) := by
    rw [on.machine]
    rfl
  obtain ⟨found, gone, called⟩ := mbr_taken asked ((on.table boot).mpr table)
  obtain ⟨least, out', ends, goes⟩ := @foldlM_prints _ (tryPartition · drive) _ boot.kept
    (fun partition member => partition_prints on (on.mounted boot table partition member))
    ⟨out.calls ++ [.printHexLN (BitVec.ofNat 32 i), .printLN drive.name] ++ found.printed ++
      [.printHexLN (BitVec.ofNat 32 found.partitions.length)], found.trace.kfree (out.trace.kalloc 32).2.heap.length⟩
  have kept : found.partitions.map Stored.partition = boot.kept := gone.kept
  have count : found.partitions.length = boot.kept.length := by rw [← kept, List.length_map]
  have few : (BitVec.ofNat 32 boot.kept.length).toNat = boot.kept.length := by
    have four : boot.kept.length ≤ (boot.records.map Record.partition).length := List.length_filter_le ..
    rw [List.length_map, boot.records_length] at four
    rw [BitVec.toNat_ofNat, Nat.mod_eq_of_lt (by omega)]
  refine ⟨least, out', ?_, ?_⟩
  · intro bound enough
    unfold tryDrive
    dsimp only
    rw [if_neg present, called]
    dsimp only
    rw [kept]
    exact ends bound enough
  · have printed : textOf found.printed = boot.kept.flatMap Content.entryText := by
      have reports : found.printed = boot.kept.flatMap reportOf := gone.printed
      rw [reports]
      unfold textOf
      rw [List.flatMap_assoc]
      exact congrArg (boot.kept.flatMap ·) (funext text_reportOf)
    have first : Goes out ⟨out.calls ++ [.printHexLN (BitVec.ofNat 32 i), .printLN drive.name] ++ found.printed ++
        [.printHexLN (BitVec.ofNat 32 found.partitions.length)], found.trace.kfree (out.trace.kalloc 32).2.heap.length⟩
        (hexNumeral 8 (i % 2 ^ 32) ++ code "\n".toList ++ cString drive.name ++ code "\n".toList ++
          (boot.kept.flatMap Content.entryText ++ hexNumeral 8 boot.kept.length ++ code "\n".toList)) := by
      have array : Owes out.trace.heap (out.trace.kalloc 32).2.heap [⟨out.trace.heap.length, 32⟩] := .kalloc 32 .start
      have freed : Owes (out.trace.kalloc 32).2.heap (found.trace.kfree (out.trace.kalloc 32).2.heap.length).heap
          (blocksOf found.partitions) := .kfree (gone.owes.perm List.perm_append_comm)
      refine ⟨?_, _, array.trans freed⟩
      have number : textOf [.printHexLN (BitVec.ofNat 32 found.partitions.length)] =
          hexNumeral 8 boot.kept.length ++ code "\n".toList := by
        rw [count]
        simp only [textOf, List.flatMap_cons, List.flatMap_nil, Call.text, few, List.append_nil]
        rfl
      dsimp only
      rw [textOf_append, textOf_append, textOf_append, printed, number, text_drive]
      simp only [List.append_assoc]
    have both := first.trans goes
    unfold Content.driveText
    rw [table]
    simpa only [List.append_assoc] using both

theorem refused_prints (on : content.On memory drive) (table : content.boot = none) (present : drive.type ≠ .none)
    (i : Nat) (out : Output) :
    ∃ out', (∀ bound, tryDrive bound out (drive, i) = some out') ∧ Goes out out' (content.driveText i drive.name) := by
  have refused : ∀ sector boot, drive.machine.drive (out.trace.kalloc 32).2.reads 0 = some sector → ¬ Holds sector boot := by
    intro sector boot answer holds
    rw [on.machine] at answer
    obtain rfl := Option.some.inj answer
    exact absurd (table.symm.trans ((on.table boot).mp holds)) (by simp)
  refine ⟨⟨out.calls ++ [.printHexLN (BitVec.ofNat 32 i), .printLN drive.name] ++ [],
    (mbrGetPartitions drive.machine (out.trace.kalloc 32).2).trace.kfree (out.trace.kalloc 32).1⟩, ?_, ?_, ?_⟩
  · intro bound
    unfold tryDrive
    dsimp only
    rw [if_neg present, mbr_refused refused]
  · unfold Content.driveText
    rw [table, List.append_nil, List.append_nil]
    dsimp only
    rw [textOf_append, text_drive]
  · have array : Owes out.trace.heap (out.trace.kalloc 32).2.heap [⟨out.trace.heap.length, 32⟩] := .kalloc 32 .start
    have buffer : Owes (out.trace.kalloc 32).2.heap
        ((out.trace.kalloc 32).2.heap ++ [.kalloc 512] ++ [.kfree (out.trace.kalloc 32).2.heap.length]) [] :=
      .kfree (.kalloc 512 .start)
    rw [mbr_refused refused]
    exact ⟨[], .kfree (array.trans buffer)⟩

theorem drive_prints (on : drive.type ≠ .none → content.On memory drive) (i : Nat) (out : Output) :
    ∃ least out', (∀ bound, least ≤ bound → tryDrive bound out (drive, i) = some out') ∧
      Goes out out' (if drive.type = .none then [] else content.driveText i drive.name) := by
  by_cases absent : drive.type = .none
  · rw [if_pos absent]
    exact ⟨0, out, fun bound _ => if_pos absent, by simp, [], .start⟩
  · rw [if_neg absent]
    cases table : content.boot with
    | none =>
      obtain ⟨out', ends, goes⟩ := refused_prints (on absent) table absent i out
      exact ⟨0, out', fun bound _ => ends bound, goes⟩
    | some boot => exact table_prints (on absent) table absent i out

theorem drives_print (drives : List (Drive × Content))
    (on : ∀ pair ∈ drives, pair.1.type ≠ .none → pair.2.On memory pair.1) (started : Output) :
    ∃ least out, (∀ bound, least ≤ bound → kernelMain bound (drives.map Prod.fst) started = some out) ∧
      Goes started out (drivesText drives) := by
  have each : ∀ numbered ∈ drives.zipIdx, ∀ out, ∃ least out',
      (∀ bound, least ≤ bound → tryDrive bound out (numbered.1.1, numbered.2) = some out') ∧
      Goes out out' (if numbered.1.1.type = .none then [] else numbered.1.2.driveText numbered.2 numbered.1.1.name) := by
    intro numbered member out
    have here : numbered.1 ∈ drives := List.fst_mem_of_mem_zipIdx member
    exact drive_prints (on numbered.1 here) numbered.2 out
  obtain ⟨least, out, ends, prints⟩ := @foldlM_prints _ (fun bound out numbered => tryDrive bound out
    (numbered.1.1, numbered.2)) _ drives.zipIdx each started
  refine ⟨least, out, ?_, prints⟩
  intro bound enough
  have same := ends bound enough
  unfold kernelMain
  rw [List.zipIdx_map, List.foldlM_map]
  exact same

end

section
variable {bound larger : Nat} {drive : Drive} {out out' : Output}

theorem openFile_mono {machine : Machine} {fs : ExfatInstance} {path : Str} {trace : Trace} {outcome : Outcome × Trace}
    (le : bound ≤ larger) (ended : openFile machine fs path bound trace = some outcome) :
    openFile machine fs path larger trace = some outcome := runPartial_mono (openBody_mono le) le ended

theorem readFileAll_mono {machine : Machine} {file : Exfat.OpenFile.FileEntry} {trace : Trace} {answer : Answer}
    (le : bound ≤ larger) (ended : readFileAll machine file bound trace = some answer) :
    readFileAll machine file larger trace = some answer := by
  rw [Exfat.FileClusters.readFileAll_eq] at ended ⊢
  exact run_mono le ended

theorem tryPartition_mono {partition : MbrPartition} (le : bound ≤ larger)
    (ended : tryPartition bound drive out partition = some out') : tryPartition larger drive out partition = some out' := by
  unfold tryPartition at ended ⊢
  by_cases exfat : partition.type = 0x07
  · rw [if_pos exfat] at ended ⊢
    dsimp only at ended ⊢
    cases opened : openFile drive.machine (exfatInit drive.machine partition.lbaStart out.trace).1 HELLO bound
        (exfatInit drive.machine partition.lbaStart out.trace).2 with
    | none =>
      rw [opened] at ended
      cases ended
    | some result =>
      rw [openFile_mono le opened]
      rw [opened] at ended
      match result, ended with
      | (.returned none, trace), ended => exact ended
      | (.returned (some held), trace), ended =>
        dsimp only at ended ⊢
        cases read : readFileAll drive.machine held.entry bound trace with
        | none =>
          rw [read] at ended
          cases ended
        | some answer =>
          rw [readFileAll_mono le read]
          rw [read] at ended
          exact ended
  · rw [if_neg exfat] at ended ⊢
    exact ended

theorem foldlM_mono {α : Type} {step : Nat → Output → α → Option Output}
    (mono : ∀ {out item out'}, step bound out item = some out' → step larger out item = some out') {items : List α}
    (ended : items.foldlM (step bound) out = some out') : items.foldlM (step larger) out = some out' := by
  induction items generalizing out with
  | nil => exact ended
  | cons item rest ih =>
    obtain ⟨middle, taken, finished⟩ := Option.bind_eq_some_iff.mp ended
    rw [List.foldlM_cons, mono taken]
    exact ih finished

theorem tryDrive_mono {numbered : Drive × Nat} (le : bound ≤ larger)
    (ended : tryDrive bound out numbered = some out') : tryDrive larger out numbered = some out' := by
  obtain ⟨drive, i⟩ := numbered
  unfold tryDrive at ended ⊢
  dsimp only at ended ⊢
  by_cases absent : drive.type = .none
  · rw [if_pos absent] at ended ⊢
    exact ended
  · rw [if_neg absent] at ended ⊢
    cases table : (mbrGetPartitions drive.machine (out.trace.kalloc 32).2).partitions with
    | none =>
      rw [table] at ended
      exact ended
    | some found =>
      rw [table] at ended
      exact @foldlM_mono bound larger _ _ _ (tryPartition · drive) (tryPartition_mono le) _ ended

theorem ends_unique {drives : List Drive} {started : Output} (ends : Ends drives started out)
    (ends' : Ends drives started out') : out = out' := by
  obtain ⟨bound, ended⟩ := ends
  obtain ⟨bound', ended'⟩ := ends'
  have left := foldlM_mono (tryDrive_mono (Nat.le_max_left bound bound')) ended
  have right := foldlM_mono (tryDrive_mono (Nat.le_max_right bound bound')) ended'
  exact Option.some.inj (left.symm.trans right)

end

/-- On the serial line, whatever happens between the accesses of the driver, nothing has come out but a part of what was
in the device before and of the text behind that, and the device can send all of it. -/
def Sent (calls : List Call) (printed : Str) : Prop :=
  ∀ (line : Line) events, let s := run ⟨line, serialInit ++ calls.flatMap Call.ops⟩ events
    (∃ before, before <+: line.sender.stream ∧ s.line.sender.stream <+: before ++ printed) ∧
    ∃ more before, before <+: line.sender.stream ∧ (run s more).todo = [] ∧
      (run s more).line.sender.sent = before ++ printed

theorem sent_text (calls : List Call) : Sent calls (textOf calls) := by
  intro line events s
  have same : calls.flatMap Call.ops = pairs (textOf calls) := ops_calls calls
  constructor
  · have phases := run_phases events (Or.inl ⟨0, initial_phase line (textOf calls)⟩)
    rw [← same] at phases
    rcases phases with ⟨k, starting⟩ | ⟨_, before, part, left, early, split, stream, _⟩
    · exact ⟨s.line.sender.stream, starting.stream, List.prefix_append ..⟩
    · refine ⟨before, early, ?_⟩
      change (run _ events).line.sender.stream <+: _
      rw [stream, split, ← List.append_assoc]
      exact List.prefix_append ..
  · have finish := all_sent line (textOf calls) events
    rw [← same] at finish
    obtain ⟨more, before, early, done, _, sent⟩ := finish
    exact ⟨more, before, early, done, sent⟩

/-- For all drives that each hold no boot sector, or one whose partitions of the type of exFAT hold trees of files, and
every well-formed heap that serves what is asked of it: the kernel comes to its end, with one outcome, and has printed, behind what was printed before, for each drive its number and name and what its table says, and for
each such partition its report and, where the tree has one, the file `/ketone/hello` from its first byte to its last and
a new line. On the serial line these texts come behind a part of what was in the device before, nothing else does, and
the device can send all of it. The heap is left with live allocations on top of those before. -/
theorem kernel_prints (memory : List (BitVec 64) → Buffer) (drives : List (Drive × Content)) (started : Output)
    (start : Played) (live : List Live) (ready : Ready start live started.trace.heap)
    (on : ∀ pair ∈ drives, pair.1.type ≠ .none → pair.2.On memory pair.1) :
    ∃ out, (∀ out', Ends (drives.map Prod.fst) started out' ↔ out' = out) ∧
      Leaves start started.trace.heap out.trace.heap fun p =>
        textOf out.calls = textOf started.calls ++ drivesText drives ∧
        Sent out.calls (textOf started.calls ++ drivesText drives) ∧
        SameRecord start.heap p.heap ∧ ∃ new, Pictured p.heap (new ++ live) := by
  obtain ⟨least, out, ends, goes⟩ := drives_print drives on started
  obtain ⟨_, owes⟩ := goes.owes
  have sent := sent_text out.calls
  rw [goes.text] at sent
  have ended : Ends (drives.map Prod.fst) started out := ⟨least, ends least (Nat.le_refl least)⟩
  refine ⟨out, ?_, (leaves_pictured ready owes).imp fun p left => ⟨goes.text, sent, left⟩⟩
  intro out'
  constructor
  · intro other
    exact ends_unique other ended
  · rintro rfl
    exact ended

def ketoneSet : Exfat.EntrySets.FileSet :=
  plainSet ((code "ketone".toList).map (·.setWidth 16)) 0x10 3 0 (by decide) (by decide)

def helloSet : Exfat.EntrySets.FileSet :=
  plainSet ((code "hello".toList).map (·.setWidth 16)) 0x20 4 3 (by decide) (by decide)

def helloParts : Parts :=
  { smallParts with
    volume := fun sector =>
      if sector = 0 then fun p => if p = 0x50 then 1 else if p = 0x58 then 2 else if p = 0x60 then 2
        else if p = 0x6C then 9 else 0
      else if sector = 2 then packed [.fileSet ketoneSet] else if sector = 3 then packed [.fileSet helloSet]
      else if sector = 4 then fun p => [0x68, 0x69, 0x21].getD p 0 else fun _ => 0 }

def helloContent : Content where
  disk := helloParts.image
  boot := some helloParts.bootSector
  trees _ := [(code "ketone".toList, .branch [(code "hello".toList, .leaf [0x68, 0x69, 0x21])])]

def helloDrive : Drive := ⟨.sata, code "QEMU".toList, whole helloParts.image fun _ _ => 0⟩

theorem helloContent_disk : helloContent.disk = helloParts.image := rfl

theorem helloContent_boot : helloContent.boot = some helloParts.bootSector := rfl

theorem helloContent_mounted : helloContent.Mounted helloParts.partition := by
  have sector : ∀ k < 5, helloParts.image (9 + k) = helloParts.volume k := by
    intro k below
    have inside : k < helloParts.partitionSectors := Nat.lt_trans below (by decide)
    exact image_volume inside
  have volume : helloContent.volume helloParts.partition = ⟨9, 0, 0, 1, 0, 2, 0, 2, 9, 0, 0⟩ := by
    have address : helloParts.partition.lbaStart.toNat = 9 + 0 := by decide +kernel
    have first : helloContent.sector helloParts.partition = helloParts.volume 0 := by
      unfold Content.sector
      rw [address, helloContent_disk]
      exact sector 0 (by decide)
    unfold Content.volume
    rw [first]
    decide +kernel
  have root : clusterStart ⟨9, 0, 0, 1, 0, 2, 0, 2, 9, 0, 0⟩ 2 = 9 + 2 := by decide
  have inner : clusterStart ⟨9, 0, 0, 1, 0, 2, 0, 2, 9, 0, 0⟩ 3 = 9 + 3 := by decide
  have file : clusterStart ⟨9, 0, 0, 1, 0, 2, 0, 2, 9, 0, 0⟩ 4 = 9 + 4 := by decide
  constructor
  · rw [volume]
  · rw [volume]
    decide
  · rw [volume]
    have outside : Listing helloParts.image ⟨9, 0, 0, 1, 0, 2, 0, 2, 9, 0, 0⟩ 2 [.fileSet ketoneSet] :=
      listing_packed rfl (by rw [root]; decide) (fun q _ => by rw [root, sector 2 (by decide)]; rfl) (by decide +kernel)
    have inside : Listing helloParts.image ⟨9, 0, 0, 1, 0, 2, 0, 2, 9, 0, 0⟩ 3 [.fileSet helloSet] :=
      listing_packed rfl (by rw [inner]; decide) (fun q _ => by rw [inner, sector 3 (by decide)]; rfl) (by decide +kernel)
    have data : Contents helloParts.image (helloSet.entry ⟨9, 0, 0, 1, 0, 2, 0, 2, 9, 0, 0⟩) [0x68, 0x69, 0x21] := by
      have total : clusterTotal (helloSet.entry ⟨9, 0, 0, 1, 0, 2, 0, 2, 9, 0, 0⟩) = 1 := by decide +kernel
      refine ⟨rfl, ?_, ?_, ?_⟩
      · intro j below _
        rw [total] at below ⊢
        obtain rfl : j = 0 := by omega
        exact ⟨by decide +kernel, fun more => absurd more (by decide)⟩
      · intro _ j below
        rw [total] at below
        omega
      · decide +kernel
    refine holds_single outside (by decide +kernel) (.directory (by decide +kernel) ?_)
    exact holds_single inside (by decide +kernel) (.file (by decide +kernel) data)
  · intro children
    have node : helloContent.hello helloParts.partition = some (.leaf [0x68, 0x69, 0x21]) := by
      have components : helloPath.components = [code "ketone".toList, code "hello".toList] := by decide +kernel
      unfold Content.hello
      rw [components]
      simp [helloContent, Tree.lookup, Tree.child_branch]
    rw [node]
    simp

theorem helloContent_on : helloContent.On (fun _ _ => 0) helloDrive := by
  have holds : Holds (helloParts.image 0) helloParts.bootSector := fun p below => image_boot below
  refine ⟨rfl, ?_, ?_⟩
  · intro boot
    constructor
    · intro holds'
      rw [helloContent_boot, boot_unique holds holds']
    · intro same
      rw [helloContent_boot] at same
      rw [helloContent_disk, ← Option.some.inj same]
      exact holds
  · intro boot same partition member exfat
    rw [helloContent_boot] at same
    rw [← Option.some.inj same, kept_table (by decide)] at member
    rcases List.mem_cons.mp member with rfl | empty
    · exact helloContent_mounted
    · rw [(List.mem_replicate.mp empty).2] at exfat
      exact absurd exfat (by decide)

def sixteenBlocks : Heap := ⟨512, 0x200000, 8192, fun _ => .cleared, sector_pos⟩

theorem hello_served : ∃ out, Ends [helloDrive] ⟨[], ⟨[], []⟩⟩ out ∧ AllServed ⟨sixteenBlocks, []⟩ out.trace.heap := by
  have served : (kernelMain 4 [helloDrive] ⟨[], ⟨[], []⟩⟩).any
      (fun out => AllServed ⟨sixteenBlocks, []⟩ out.trace.heap) = true := by decide +kernel
  obtain ⟨out, ended, served⟩ := (Option.any_eq_true _ _).mp served
  exact ⟨out, ⟨4, ended⟩, of_decide_eq_true served⟩

theorem hello_printed : ∃ out p, Ends [helloDrive] ⟨[], ⟨[], []⟩⟩ out ∧
    replay ⟨sixteenBlocks, []⟩ out.trace.heap = some p ∧ [0x68, 0x69, 0x21, 0x0A] <:+ textOf out.calls := by
  obtain ⟨out, ends, served⟩ := hello_served
  obtain ⟨out', unique, calls, split, printed⟩ := kernel_prints (fun _ _ => 0) [(helloDrive, helloContent)] ⟨[], ⟨[], []⟩⟩
    ⟨sixteenBlocks, []⟩ [] ⟨pictured_cleared fun _ _ => rfl, by decide, rfl⟩ (by simpa using fun _ => helloContent_on)
  obtain rfl := (unique out).mp ends
  obtain rfl : out.trace.heap = calls := split
  obtain ⟨p, played, text, _⟩ := printed served
  refine ⟨out, p, ends, played, ?_⟩
  rw [text]
  decide +kernel

end Ketone.Kernel.Main
