import Ketone.Exfat.OwedBlocks
import Ketone.Exfat.TwoReaders

/-! The buffers that sectors are read into, and the two bytes of the boot sector that their sizes come from. -/

namespace Ketone.Exfat.SectorBuffers
open Library Library.Loop Library.Components Volume OpenFile ReadFile Lookup FileClusters PathResolution Descent
open TwoReaders OwedBlocks

/-- Nothing of the sector is checked. -/
def instanceOf (buff : Buffer) (lbaStart : BitVec 32) : ExfatInstance where
  sectorOnDiskLBA := lbaStart.setWidth 64
  partitionOffset := readU64Le buff 0x40
  volumeLength := readU64Le buff 0x48
  fatOffset := readU32Le buff 0x50
  fatLength := readU32Le buff 0x54
  clusterHeapOffset := readU32Le buff 0x58
  clusterCount := readU32Le buff 0x5C
  rootCluster := readU32Le buff 0x60
  bytesPerSectorShift := buff 0x6C
  sectorsPerClusterShift := buff 0x6D
  numberOfFats := buff 0x6E

/-- If the sector cannot be read, what the memory held is taken for it. -/
def exfatInit (machine : Machine) (lbaStart : BitVec 32) (trace : Trace) : ExfatInstance × Trace :=
  let (block, trace) := trace.kalloc 512
  let stale := machine.stale trace.reads
  let (buff, trace) := readDisk machine trace (lbaStart.setWidth 64) stale 0
  (instanceOf (buff.getD stale) lbaStart, trace.kfree block)

/-- A sector is to be stored at an offset of a block; the log is that of the heap at this time. -/
structure Request where
  heap : List HeapCall
  block : Nat
  offset : BitVec 64

/-- The sector lies in what has been requested for the block. -/
def Request.Inside (request : Request) : Prop :=
  ∃ size, request.heap[request.block]? = some (.kalloc size) ∧ request.offset.toNat + SECTOR_SIZE ≤ size.toNat

section
variable (machine : Machine) (fs : ExfatInstance) (file : FileEntry)

def fatEntryRequest (trace : Trace) : Request :=
  let (block, trace) := trace.kalloc (bytesPerSector fs)
  ⟨trace.heap, block, 0⟩

/-- The requests for the sectors of a cluster, up to the first that fails. -/
def clusterRequests (heap : List HeapCall) (block : Nat) (lba : BitVec 64) :
    Nat → Nat → List (BitVec 64) → List Request
  | 0, _, _ => []
  | todo + 1, s, reads =>
      ⟨heap, block, BitVec.ofNat 64 s * bytesPerSector fs⟩ ::
        match machine.drive reads ((lba + BitVec.ofNat 64 s).setWidth 32) with
        | none => []
        | some _ => clusterRequests heap block lba todo (s + 1) (reads ++ [lba + BitVec.ofNat 64 s])

def walkRequests (component : Str) (block : Nat) (w : Walk) : List Request :=
  clusterRequests machine fs w.trace.heap block (clusterToLba fs w.cluster) (sectorsPerCluster fs).toNat 0 w.trace.reads ++
    match readCluster fs machine w.cluster w.buffer w.trace with
    | (none, _) => []
    | (some buffer, trace) =>
        match scanCluster fs component buffer trace with
        | (.directoryDone _, _) => []
        | (.exhausted, trace) => [fatEntryRequest fs trace]

/-- The look at the table behind a cluster, where there is more to read and the file is chained. -/
def behindRequests (r : Reading) (trace : Trace) : List Request :=
  if r.bytesRead + copySize file r.bytesRead ≥ file.dataLength then []
  else if noFatChain file then []
  else [fatEntryRequest file.fs trace]

def readAllRequests (block : Nat) (r : Reading) : List Request :=
  if ¬ r.bytesRead < file.dataLength then []
  else
    clusterRequests machine file.fs r.trace.heap block (clusterToLba file.fs r.cluster)
        (sectorsPerCluster file.fs).toNat 0 r.trace.reads ++
      match readCluster file.fs machine r.cluster r.clusterBuffer r.trace with
      | (none, _) => []
      | (some _, trace) => behindRequests file r trace

/-- One turn of the reader that does not check its reads: a failure ends nothing. -/
def readFileRequests (block : Nat) (r : Reading) : List Request :=
  if ¬ r.bytesRead < file.dataLength then []
  else
    let (_, trace) := readSectorsUnchecked file.fs machine (clusterToLba file.fs r.cluster)
      (sectorsPerCluster file.fs).toNat 0 r.clusterBuffer r.trace
    (List.range (sectorsPerCluster file.fs).toNat).map
        (fun i => ⟨r.trace.heap, block, BitVec.ofNat 64 i * bytesPerSector file.fs⟩) ++
      behindRequests file r trace

/-- A shift by one of the two bytes, and the width of what is shifted. -/
structure Shift where
  count : BitVec 8
  width : Nat

def clusterToLbaShifts : List Shift := [⟨fs.sectorsPerClusterShift, 32⟩]

def fatEntryShifts : List Shift := [⟨fs.bytesPerSectorShift, 64⟩]

/-- Each component has its buffer, and the two sizes after it. -/
def openFileShifts : List Shift :=
  [⟨fs.bytesPerSectorShift, 64⟩, ⟨fs.sectorsPerClusterShift, 64⟩, ⟨fs.bytesPerSectorShift, 64⟩,
    ⟨fs.sectorsPerClusterShift, 64⟩]

/-- The buffer's size is computed with numbers of type `int`. -/
def readFileShifts : List Shift :=
  [⟨fs.bytesPerSectorShift, 32⟩, ⟨fs.sectorsPerClusterShift, 32⟩, ⟨fs.bytesPerSectorShift, 64⟩,
    ⟨fs.sectorsPerClusterShift, 64⟩]

def readFileAllShifts : List Shift := [⟨fs.bytesPerSectorShift, 64⟩, ⟨fs.sectorsPerClusterShift, 64⟩]

def shifts : List Shift :=
  clusterToLbaShifts fs ++ fatEntryShifts fs ++ openFileShifts fs ++ readFileShifts fs ++ readFileAllShifts fs

/-- Whatever is opened or read on the volume, in every turn of every loop: each sector lies in the block that it is
stored to, and no shift count reaches the width. -/
structure BuffersFit : Prop where
  table : ∀ trace, (fatEntryRequest fs trace).Inside
  opens : ∀ path trace o, Reaches machine fs path trace o → o.current ≠ [] →
    ∀ k w, nth (onward (walkOf machine fs o)) k (walkStart machine fs o) = some w →
      ∀ request ∈ walkRequests machine fs (piece SLASH o.current) o.trace.heap.length w, request.Inside
  readsAll : ∀ file : FileEntry, file.fs = fs → ∀ trace k r,
    nth (onward (readAllBody machine file (dataBlock trace) (bufferBlock file trace))) k (readStart machine file trace) =
      some r →
    ∀ request ∈ readAllRequests machine file (bufferBlock file trace) r, request.Inside
  reads : ∀ file : FileEntry, file.fs = fs → ∀ trace k r,
    nth (onward (readFileBody machine file (dataBlock trace) (bufferBlock file trace))) k (fileStart machine file trace) =
      some r →
    ∀ request ∈ readFileRequests machine file (bufferBlock file trace) r, request.Inside
  shifts : ∀ shift ∈ shifts fs, shift.count.toNat < shift.width

/-- A sector has 512 bytes at least, and a cluster less than 4 GiB. -/
structure Geometry : Prop where
  sector : 9 ≤ fs.bytesPerSectorShift.toNat
  cluster : fs.bytesPerSectorShift.toNat + fs.sectorsPerClusterShift.toNat ≤ 31

end

section
variable {fs : ExfatInstance}

theorem Geometry.bytesPerSector (geometry : Geometry fs) :
    (bytesPerSector fs).toNat = 2 ^ fs.bytesPerSectorShift.toNat := by
  have cluster := geometry.cluster
  rw [toNat_bytesPerSector, Nat.mod_eq_of_lt (by omega)]

theorem Geometry.sectorsPerCluster (geometry : Geometry fs) :
    (sectorsPerCluster fs).toNat = 2 ^ fs.sectorsPerClusterShift.toNat := by
  have cluster := geometry.cluster
  rw [toNat_sectorsPerCluster, Nat.mod_eq_of_lt (by omega)]

def clusterBytes (fs : ExfatInstance) : Nat := 2 ^ fs.sectorsPerClusterShift.toNat * 2 ^ fs.bytesPerSectorShift.toNat

theorem clusterBytes_le (geometry : Geometry fs) : clusterBytes fs ≤ 2 ^ 31 := by
  have cluster := geometry.cluster
  unfold clusterBytes
  rw [← Nat.pow_add]
  exact Nat.pow_le_pow_right (by decide) (by omega)

theorem toNat_clusterSize (geometry : Geometry fs) : (clusterSize fs).toNat = clusterBytes fs := by
  have small := clusterBytes_le geometry
  unfold clusterSize
  rw [BitVec.toNat_mul, geometry.bytesPerSector, geometry.sectorsPerCluster, Nat.mul_comm]
  change clusterBytes fs % 2 ^ 64 = _
  exact Nat.mod_eq_of_lt (by omega)

theorem toNat_intShift {count : Nat} (below : count < 32) : (BitVec.ofNat 32 (1 <<< count)).toNat = 2 ^ count := by
  rw [BitVec.toNat_ofNat, Nat.one_shiftLeft]
  exact Nat.mod_eq_of_lt (Nat.pow_lt_pow_right (by decide) below)

/-- The product of two numbers of type `int`. -/
def intProduct (fs : ExfatInstance) : BitVec 32 :=
  BitVec.ofNat 32 (1 <<< (fs.bytesPerSectorShift.toNat % 32)) *
    BitVec.ofNat 32 (1 <<< (fs.sectorsPerClusterShift.toNat % 32))

theorem intClusterSize_eq (fs : ExfatInstance) : intClusterSize fs = (intProduct fs).signExtend 64 := rfl

theorem toNat_intProduct (sector : fs.bytesPerSectorShift.toNat < 32) (cluster : fs.sectorsPerClusterShift.toNat < 32) :
    (intProduct fs).toNat = clusterBytes fs % 2 ^ 32 := by
  unfold intProduct
  rw [BitVec.toNat_mul, toNat_intShift (Nat.mod_lt _ (by decide)), toNat_intShift (Nat.mod_lt _ (by decide)),
    Nat.mod_eq_of_lt sector, Nat.mod_eq_of_lt cluster, Nat.mul_comm]
  rfl

theorem le_intClusterSize (geometry : Geometry fs) : clusterBytes fs ≤ (intClusterSize fs).toNat := by
  have small := clusterBytes_le geometry
  have sum := geometry.cluster
  have product := @toNat_intProduct fs (by omega) (by omega)
  rw [intClusterSize_eq, BitVec.toNat_signExtend, BitVec.toNat_setWidth_of_le (by decide), product, Nat.mod_eq_of_lt (by omega)]
  exact Nat.le_add_right _ _

theorem intClusterSize_zero (sector : fs.bytesPerSectorShift.toNat < 32) (cluster : fs.sectorsPerClusterShift.toNat < 32)
    (large : 32 ≤ fs.bytesPerSectorShift.toNat + fs.sectorsPerClusterShift.toNat) : intClusterSize fs = 0 := by
  have zero : clusterBytes fs % 2 ^ 32 = 0 := by
    unfold clusterBytes
    rw [← Nat.pow_add]
    exact Nat.mod_eq_zero_of_dvd (Nat.pow_dvd_pow 2 (by omega))
  have product := toNat_intProduct sector cluster
  have nothing : intProduct fs = 0 := BitVec.eq_of_toNat_eq (product.trans zero)
  rw [intClusterSize_eq, nothing]
  rfl

/-- A sector of a cluster lies in a block of the size of a cluster. -/
theorem sector_inside (geometry : Geometry fs) {heap : List HeapCall} {block : Nat} {size : BitVec 64}
    (requested : heap[block]? = some (.kalloc size)) (room : clusterBytes fs ≤ size.toNat) {i : Nat}
    (below : i < (sectorsPerCluster fs).toNat) :
    (Request.mk heap block (BitVec.ofNat 64 i * bytesPerSector fs)).Inside := by
  have small := clusterBytes_le geometry
  have sector : SECTOR_SIZE ≤ 2 ^ fs.bytesPerSectorShift.toNat :=
    show 2 ^ 9 ≤ _ from Nat.pow_le_pow_right (by decide) geometry.sector
  rw [geometry.sectorsPerCluster] at below
  have ends : i * 2 ^ fs.bytesPerSectorShift.toNat + SECTOR_SIZE ≤ clusterBytes fs :=
    calc i * 2 ^ fs.bytesPerSectorShift.toNat + SECTOR_SIZE ≤ (i + 1) * 2 ^ fs.bytesPerSectorShift.toNat := by
          rw [Nat.succ_mul]
          omega
      _ ≤ clusterBytes fs := Nat.mul_le_mul_right _ below
  have index : i ≤ i * 2 ^ fs.bytesPerSectorShift.toNat := Nat.le_mul_of_pos_right _ (Nat.two_pow_pos _)
  refine ⟨size, requested, ?_⟩
  dsimp only
  rw [BitVec.toNat_mul, geometry.bytesPerSector, BitVec.toNat_ofNat, Nat.mod_eq_of_lt (show i < 2 ^ 64 by omega),
    Nat.mod_eq_of_lt (by omega)]
  omega

theorem fatEntryRequest_inside_iff (trace : Trace) :
    (fatEntryRequest fs trace).Inside ↔ 9 ≤ fs.bytesPerSectorShift.toNat % 64 := by
  have requested : (fatEntryRequest fs trace).heap[(fatEntryRequest fs trace).block]? =
      some (.kalloc (bytesPerSector fs)) := List.getElem?_concat_length
  have room : (fatEntryRequest fs trace).Inside ↔ SECTOR_SIZE ≤ 2 ^ (fs.bytesPerSectorShift.toNat % 64) := by
    rw [← toNat_bytesPerSector]
    constructor
    · intro ⟨size, same, room⟩
      rw [requested] at same
      obtain rfl := HeapCall.kalloc.inj (Option.some.inj same)
      exact Nat.le_trans (Nat.le_add_left _ _) room
    · intro room
      exact ⟨_, requested, Nat.le_trans (Nat.le_of_eq (Nat.zero_add _)) room⟩
  rw [room]
  exact Nat.pow_le_pow_iff_right (a := 2) (n := 9) (by decide)

end

section
variable {machine : Machine} {fs : ExfatInstance} {file : FileEntry}

theorem clusterRequests_mem {heap : List HeapCall} {block : Nat} {lba : BitVec 64} {todo s : Nat}
    {reads : List (BitVec 64)} {request : Request}
    (member : request ∈ clusterRequests machine fs heap block lba todo s reads) :
    ∃ i, i < s + todo ∧ request = ⟨heap, block, BitVec.ofNat 64 i * bytesPerSector fs⟩ := by
  induction todo generalizing s reads with
  | zero => cases member
  | succ todo ih =>
    unfold clusterRequests at member
    rcases List.mem_cons.mp member with rfl | later
    · exact ⟨s, by omega, rfl⟩
    · split at later
      · cases later
      · obtain ⟨i, below, same⟩ := ih later
        exact ⟨i, by omega, same⟩

theorem readSectorsUnchecked_heap (lba : BitVec 64) (todo s : Nat) (buffer : Buffer) (trace : Trace) :
    (readSectorsUnchecked fs machine lba todo s buffer trace).2.heap = trace.heap := by
  induction todo generalizing s buffer trace with
  | zero => rfl
  | succ todo ih =>
    unfold readSectorsUnchecked readDisk
    cases machine.drive trace.reads ((lba + BitVec.ofNat 64 s).setWidth 32) with
    | none => exact ih _ _ _
    | some sector => exact ih _ _ _

theorem owes_readFileBody {data clusterBuffer : Nat} {before : List HeapCall} {blocks : List Block} {r next : Reading}
    (owes : Owes before r.trace.heap blocks) (again : readFileBody machine file data clusterBuffer r = .again next) :
    Owes before next.trace.heap blocks := by
  rw [← @readSectorsUnchecked_heap machine file.fs (clusterToLba file.fs r.cluster) (sectorsPerCluster file.fs).toNat 0
    r.clusterBuffer] at owes
  unfold readFileBody at again
  dsimp only at again
  generalize readSectorsUnchecked file.fs machine (clusterToLba file.fs r.cluster) (sectorsPerCluster file.fs).toNat 0
    r.clusterBuffer r.trace = read at owes again
  split at again
  · cases again
  split at again
  · cases again
  split at again
  · cases again
  split at again
  · rw [← Turn.again.inj again]
    exact owes
  · rw [← Turn.again.inj again]
    exact owes_getFatEntry _ owes

theorem fatEntry_inside (geometry : Geometry fs) (trace : Trace) : (fatEntryRequest fs trace).Inside := by
  have sector := geometry.sector
  have cluster := geometry.cluster
  rw [fatEntryRequest_inside_iff, Nat.mod_eq_of_lt (by omega)]
  exact sector

theorem cluster_inside (geometry : Geometry fs) {heap : List HeapCall} {block : Nat} {size : BitVec 64}
    (requested : heap[block]? = some (.kalloc size)) (room : clusterBytes fs ≤ size.toNat) {lba : BitVec 64}
    {reads : List (BitVec 64)} {request : Request}
    (member : request ∈ clusterRequests machine fs heap block lba (sectorsPerCluster fs).toNat 0 reads) :
    request.Inside := by
  obtain ⟨i, below, rfl⟩ := clusterRequests_mem member
  rw [Nat.zero_add] at below
  exact sector_inside geometry requested room below

theorem walk_inside (geometry : Geometry fs) {component : Str} {block : Nat} {w : Walk}
    (requested : w.trace.heap[block]? = some (.kalloc (clusterSize fs))) :
    ∀ request ∈ walkRequests machine fs component block w, request.Inside := by
  intro request member
  rcases List.mem_append.mp member with sector | table
  · exact cluster_inside geometry requested (Nat.le_of_eq (toNat_clusterSize geometry).symm) sector
  · split at table
    · cases table
    · split at table
      · cases table
      · rw [List.mem_singleton.mp table]
        exact fatEntry_inside geometry _

theorem behind_inside (geometry : Geometry file.fs) {r : Reading} {trace : Trace} :
    ∀ request ∈ behindRequests file r trace, request.Inside := by
  intro request member
  unfold behindRequests at member
  split at member
  · cases member
  split at member
  · cases member
  · rw [List.mem_singleton.mp member]
    exact fatEntry_inside geometry _

theorem readAll_inside (geometry : Geometry file.fs) {block : Nat} {r : Reading}
    (requested : r.trace.heap[block]? = some (.kalloc (clusterSize file.fs))) :
    ∀ request ∈ readAllRequests machine file block r, request.Inside := by
  intro request member
  unfold readAllRequests at member
  split at member
  · cases member
  rcases List.mem_append.mp member with sector | behind
  · exact cluster_inside geometry requested (Nat.le_of_eq (toNat_clusterSize geometry).symm) sector
  · split at behind
    · cases behind
    · exact behind_inside geometry request behind

theorem readFile_inside (geometry : Geometry file.fs) {block : Nat} {r : Reading}
    (requested : r.trace.heap[block]? = some (.kalloc (intClusterSize file.fs))) :
    ∀ request ∈ readFileRequests machine file block r, request.Inside := by
  intro request member
  unfold readFileRequests at member
  split at member
  · cases member
  rcases List.mem_append.mp member with sector | behind
  · obtain ⟨i, inside, rfl⟩ := List.mem_map.mp sector
    exact sector_inside geometry requested (le_intClusterSize geometry) (List.mem_range.mp inside)
  · exact behind_inside geometry request behind

theorem shifts_fit_iff : (∀ shift ∈ shifts fs, shift.count.toNat < shift.width) ↔
    fs.bytesPerSectorShift.toNat < 32 ∧ fs.sectorsPerClusterShift.toNat < 32 := by
  simp [shifts, clusterToLbaShifts, fatEntryShifts, openFileShifts, readFileShifts, readFileAllShifts]
  omega

theorem walk_requested {path : CString} {trace : Trace} {o : Opening} (reaches : Reaches machine fs path trace o) {k : Nat}
    {w : Walk} (passed : nth (onward (walkOf machine fs o)) k (walkStart machine fs o) = some w) :
    w.trace.heap[o.trace.heap.length]? = some (.kalloc (clusterSize fs)) := by
  have initial : Owes trace.heap (walkStart machine fs o).trace.heap [⟨o.trace.heap.length, clusterSize fs⟩] :=
    .kalloc _ (owes_reached reaches)
  have owes := nth_turns (fun w : Walk => Owes trace.heap w.trace.heap [⟨o.trace.heap.length, clusterSize fs⟩]) _
    (fun _ => owes_walkBody) initial passed
  exact owes.requested _ (List.mem_singleton_self _)

theorem readAll_requested {trace : Trace} {k : Nat} {r : Reading}
    (passed : nth (onward (readAllBody machine file (dataBlock trace) (bufferBlock file trace))) k
      (readStart machine file trace) = some r) :
    r.trace.heap[bufferBlock file trace]? = some (.kalloc (clusterSize file.fs)) := by
  have initial : Owes trace.heap (readStart machine file trace).trace.heap
      [⟨bufferBlock file trace, clusterSize file.fs⟩, ⟨dataBlock trace, file.dataLength⟩] := .kalloc _ (.kalloc _ .start)
  have owes := nth_turns (fun r : Reading => Owes trace.heap r.trace.heap
    [⟨bufferBlock file trace, clusterSize file.fs⟩, ⟨dataBlock trace, file.dataLength⟩]) _ (fun _ => owes_readAllBody)
    initial passed
  exact owes.requested _ (List.mem_cons_self ..)

theorem readFile_requested {trace : Trace} {k : Nat} {r : Reading}
    (passed : nth (onward (readFileBody machine file (dataBlock trace) (bufferBlock file trace))) k
      (fileStart machine file trace) = some r) :
    r.trace.heap[bufferBlock file trace]? = some (.kalloc (intClusterSize file.fs)) := by
  have initial : Owes trace.heap (fileStart machine file trace).trace.heap
      [⟨bufferBlock file trace, intClusterSize file.fs⟩, ⟨dataBlock trace, file.dataLength⟩] :=
    .kalloc _ (.kalloc _ .start)
  have owes := nth_keeps (fun r : Reading => Owes trace.heap r.trace.heap
    [⟨bufferBlock file trace, intClusterSize file.fs⟩, ⟨dataBlock trace, file.dataLength⟩])
    (fun _ _ owes again => owes_readFileBody owes (onward_eq_some.mp again)) initial passed
  exact owes.requested _ (List.mem_cons_self ..)

theorem buffers_fit_of_geometry (geometry : Geometry fs) : BuffersFit machine fs := by
  have sector := geometry.sector
  have cluster := geometry.cluster
  apply BuffersFit.mk
  · exact fatEntry_inside geometry
  · intro path trace o reaches _ k w passed
    exact walk_inside geometry (walk_requested reaches passed)
  · intro file volume trace k r passed
    subst volume
    exact readAll_inside geometry (readAll_requested passed)
  · intro file volume trace k r passed
    subst volume
    exact readFile_inside geometry (readFile_requested passed)
  · exact shifts_fit_iff.mpr ⟨by omega, by omega⟩

def byteFile (fs : ExfatInstance) : FileEntry := ⟨[], fs, 0, 2, none, 1, 0, none, none⟩

theorem sector_of_byteFile (fits : BuffersFit machine fs) : SECTOR_SIZE ≤ (intClusterSize fs).toNat := by
  have member : ⟨(fileStart machine (byteFile fs) ⟨[], []⟩).trace.heap, 1, BitVec.ofNat 64 0 * bytesPerSector fs⟩ ∈
      readFileRequests machine (byteFile fs) 1 (fileStart machine (byteFile fs) ⟨[], []⟩) := by
    have first : 0 ∈ List.range (sectorsPerCluster fs).toNat := by
      rw [List.mem_range, toNat_sectorsPerCluster]
      exact Nat.two_pow_pos _
    exact List.mem_append_left _ (List.mem_map_of_mem first)
  obtain ⟨size, same, room⟩ := fits.reads (byteFile fs) rfl ⟨[], []⟩ 0 _ rfl _ member
  obtain rfl := HeapCall.kalloc.inj (Option.some.inj same)
  exact Nat.le_trans (Nat.le_add_left _ _) room

theorem geometry_of_buffers_fit (fits : BuffersFit machine fs) : Geometry fs := by
  obtain ⟨sector, cluster⟩ := shifts_fit_iff.mp fits.shifts
  have table := (fatEntryRequest_inside_iff ⟨[], []⟩).mp (fits.table ⟨[], []⟩)
  rw [Nat.mod_eq_of_lt (by omega)] at table
  apply Geometry.mk
  · exact table
  · by_contra large
    have room := sector_of_byteFile fits
    rw [intClusterSize_zero sector cluster (by omega)] at room
    exact absurd room (by decide)

theorem exfatInit_shifts {lbaStart : BitVec 32} {trace : Trace} {sector : Buffer}
    (answers : machine.drive trace.reads lbaStart = some sector) :
    (exfatInit machine lbaStart trace).1.bytesPerSectorShift = sector 0x6C ∧
      (exfatInit machine lbaStart trace).1.sectorsPerClusterShift = sector 0x6D := by
  have same : (lbaStart.setWidth 64).setWidth 32 = lbaStart := by simp
  have byte : ∀ p, p < SECTOR_SIZE → fill (machine.stale trace.reads) (0 : BitVec 64).toNat sector p = sector p := by
    intro p below
    exact if_pos ⟨Nat.zero_le p, by simpa using below⟩
  unfold exfatInit readDisk Trace.kalloc
  dsimp only
  rw [same, answers, Option.map_some, Option.getD_some]
  unfold instanceOf
  exact ⟨byte 0x6C (by decide), byte 0x6D (by decide)⟩

end

/-- For every boot sector, drive and place of the partition: whatever is opened or read on the volume, all sectors stay in
the blocks that they are stored to and no shift count reaches its width exactly when the sectors of the volume have 512
bytes at least and its clusters less than 4 GiB. -/
theorem sector_buffers_fit_iff (machine : Machine) (lbaStart : BitVec 32) (trace : Trace) (sector : Buffer)
    (answers : machine.drive trace.reads lbaStart = some sector) :
    BuffersFit machine (exfatInit machine lbaStart trace).1 ↔
      9 ≤ (sector 0x6C).toNat ∧ (sector 0x6C).toNat + (sector 0x6D).toNat ≤ 31 := by
  obtain ⟨first, second⟩ := exfatInit_shifts answers
  rw [← first, ← second]
  constructor
  · intro fits
    have geometry := geometry_of_buffers_fit fits
    exact ⟨geometry.sector, geometry.cluster⟩
  · intro geometry
    exact buffers_fit_of_geometry ⟨geometry.1, geometry.2⟩

/-- A drive whose sectors all have these two bytes, and else zeros. -/
def shiftBytes (sector cluster : BitVec 8) : Machine :=
  ⟨fun _ _ => some fun p => if p = 0x6C then sector else if p = 0x6D then cluster else 0, fun _ _ => 0⟩

/-- Sectors of 512 bytes in clusters of eight. -/
theorem usual_buffers_fit : BuffersFit (shiftBytes 9 3) (exfatInit (shiftBytes 9 3) 2048 ⟨[], []⟩).1 :=
  (sector_buffers_fit_iff (shiftBytes 9 3) 2048 ⟨[], []⟩ _ rfl).mpr (by decide)

/-- A boot sector of zeros: the block for a sector of the table has one byte. -/
theorem zero_sector_overflows : ¬ BuffersFit (shiftBytes 0 0) (exfatInit (shiftBytes 0 0) 2048 ⟨[], []⟩).1 := by
  intro fits
  have inside := fits.table ⟨[], []⟩
  rw [fatEntryRequest_inside_iff] at inside
  exact absurd inside (by decide)

end Ketone.Exfat.SectorBuffers
