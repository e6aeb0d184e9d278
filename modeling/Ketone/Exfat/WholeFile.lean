import Ketone.Exfat.TwoReaders
import Ketone.Exfat.SteadyVolume
import Ketone.Library.Bytes

/-! What a volume says the contents of a file are, and that the reader that checks returns them. -/

namespace Ketone.Exfat.WholeFile
open Library Library.Loop Library.Bytes Volume OpenFile ReadFile Lookup FileClusters TwoReaders SteadyVolume

/-- A volume is the bytes of the disk, sector by sector. -/
abbrev Disk := Nat → Buffer

section
variable (disk : Disk) (fs : ExfatInstance)

def fatStart : Nat := fs.sectorOnDiskLBA.toNat + fs.fatOffset.toNat

def clusterStart (cluster : BitVec 32) : Nat :=
  fs.sectorOnDiskLBA.toNat + fs.clusterHeapOffset.toNat + (cluster - 2).toNat * 2 ^ fs.sectorsPerClusterShift.toNat

def sizeOfCluster : Nat := SECTOR_SIZE * 2 ^ fs.sectorsPerClusterShift.toNat

def fatByte : Buffer := fun q => disk (fatStart fs + q / SECTOR_SIZE) (q % SECTOR_SIZE)

def clusterByte (cluster : BitVec 32) : Buffer := fun q =>
  disk (clusterStart fs cluster + q / SECTOR_SIZE) (q % SECTOR_SIZE)

def fatEntry (cluster : BitVec 32) : BitVec 32 := field 32 (fatByte disk fs) (4 * cluster.toNat)

end

section
variable (disk : Disk) (file : FileEntry)

def fileCluster : Nat → BitVec 32
  | 0 => file.firstCluster
  | j + 1 => if noFatChain file then fileCluster j + 1 else fatEntry disk file.fs (fileCluster j)

def fileByte (p : Nat) : BitVec 8 :=
  clusterByte disk file.fs (fileCluster disk file (p / sizeOfCluster file.fs)) (p % sizeOfCluster file.fs)

def clusterTotal : Nat := (file.dataLength.toNat + sizeOfCluster file.fs - 1) / sizeOfCluster file.fs

/-- None of the table's values that lead to the first `n` clusters ends the chain. -/
def Reached (n : Nat) : Prop :=
  noFatChain file = false → ∀ j, j + 1 < n → fatEntry disk file.fs (fileCluster disk file j) < END_OF_CHAIN

/-- The sectors of the clusters that are reached, and those that hold the entries between them, have
numbers of 32 bits. -/
def ShortAddresses : Prop :=
  ∀ j, j < clusterTotal file → Reached disk file (j + 1) →
    clusterStart file.fs (fileCluster disk file j) + 2 ^ file.fs.sectorsPerClusterShift.toNat ≤ 2 ^ 32 ∧
    (j + 1 < clusterTotal file → noFatChain file = false →
      fatStart file.fs + 4 * (fileCluster disk file j).toNat / SECTOR_SIZE < 2 ^ 32)

end

def whole (disk : Disk) (memory : List (BitVec 64) → Buffer) : Machine :=
  ⟨fun _ lba => some (disk lba.toNat), memory⟩

section
variable {disk : Disk} {memory : List (BitVec 64) → Buffer} {fs : ExfatInstance}

theorem bytesPerSector_eq (sectors : fs.bytesPerSectorShift = 9) : bytesPerSector fs = BitVec.ofNat 64 SECTOR_SIZE := by
  apply BitVec.eq_of_toNat_eq
  rw [toNat_bytesPerSector, sectors]
  decide

theorem toNat_clusterSize (sectors : fs.bytesPerSectorShift = 9) (clusters : fs.sectorsPerClusterShift ≤ 16) :
    (clusterSize fs).toNat = sizeOfCluster fs := by
  have shift : fs.sectorsPerClusterShift.toNat ≤ 16 := clusters
  have small : 2 ^ fs.sectorsPerClusterShift.toNat ≤ 2 ^ 16 := Nat.pow_le_pow_right (by decide) shift
  unfold clusterSize sizeOfCluster
  rw [BitVec.toNat_mul, bytesPerSector_eq sectors, toNat_sectorsPerCluster, Nat.mod_eq_of_lt (show _ < 64 by omega)]
  change SECTOR_SIZE * _ % _ = _
  unfold SECTOR_SIZE
  exact Nat.mod_eq_of_lt (by omega)

theorem readSectors_whole (sectors : fs.bytesPerSectorShift = 9) (lba : BitVec 64) (todo s : Nat)
    (few : s + todo ≤ 2 ^ 16) (short : lba.toNat + s + todo ≤ 2 ^ 32) (buffer : Buffer) (trace : Trace) :
    ∃ page, (readSectors fs (whole disk memory) lba todo s buffer trace).1 = some page ∧
      (∀ q, q < s * SECTOR_SIZE → page q = buffer q) ∧
      ∀ q, s * SECTOR_SIZE ≤ q → q < (s + todo) * SECTOR_SIZE →
        page q = disk (lba.toNat + q / SECTOR_SIZE) (q % SECTOR_SIZE) := by
  induction todo generalizing s buffer trace with
  | zero =>
    refine ⟨buffer, rfl, fun _ _ => rfl, ?_⟩
    intro q low high
    rw [Nat.add_zero] at high
    omega
  | succ todo ih =>
    have place : (BitVec.ofNat 64 s * bytesPerSector fs).toNat = s * SECTOR_SIZE := by
      rw [bytesPerSector_eq sectors, BitVec.toNat_mul, BitVec.toNat_ofNat, BitVec.toNat_ofNat]
      unfold SECTOR_SIZE
      omega
    have address : ((lba + BitVec.ofNat 64 s).setWidth 32).toNat = lba.toNat + s := by
      rw [BitVec.toNat_setWidth, BitVec.toNat_add, BitVec.toNat_ofNat]
      omega
    obtain ⟨page, read, before, behind⟩ := ih (s + 1) (by omega) (by omega)
      (fill buffer (s * SECTOR_SIZE) (disk (lba.toNat + s))) ⟨trace.reads ++ [lba + BitVec.ofNat 64 s], trace.heap⟩
    refine ⟨page, ?_, ?_, ?_⟩
    · unfold readSectors readDisk whole
      dsimp only [Option.map_some]
      rw [place, address]
      exact read
    · intro q low
      have step : (s + 1) * SECTOR_SIZE = s * SECTOR_SIZE + SECTOR_SIZE := Nat.succ_mul ..
      rw [before q (by omega)]
      exact if_neg (by omega)
    · intro q low high
      have step : (s + 1) * SECTOR_SIZE = s * SECTOR_SIZE + SECTOR_SIZE := Nat.succ_mul ..
      by_cases here : q < (s + 1) * SECTOR_SIZE
      · rw [before q here]
        unfold fill
        rw [if_pos ⟨low, by omega⟩]
        unfold SECTOR_SIZE at low here step ⊢
        rw [show q / 512 = s by omega, show q - s * 512 = q % 512 by omega]
      · exact behind q (by omega) (by rw [show s + 1 + todo = s + (todo + 1) by omega]; exact high)

theorem toNat_clusterToLba (clusters : fs.sectorsPerClusterShift ≤ 16) {cluster : BitVec 32}
    (short : clusterStart fs cluster < 2 ^ 32) : (clusterToLba fs cluster).toNat = clusterStart fs cluster := by
  have shift : fs.sectorsPerClusterShift.toNat ≤ 16 := clusters
  unfold clusterStart at short ⊢
  rw [clusterToLba_eq, Nat.mod_eq_of_lt (show _ < 32 by omega), BitVec.toNat_add, BitVec.toNat_ofNat,
    Nat.mod_eq_of_lt (show _ + _ * _ < 2 ^ 64 by omega), ← Nat.add_assoc]
  exact Nat.mod_eq_of_lt (by omega)

/-- The buffer shows the bytes of the cluster. -/
theorem showCluster_whole (sectors : fs.bytesPerSectorShift = 9) (clusters : fs.sectorsPerClusterShift ≤ 16)
    {cluster : BitVec 32} (short : clusterStart fs cluster + 2 ^ fs.sectorsPerClusterShift.toNat ≤ 2 ^ 32)
    (stale : Buffer) (reads : List (BitVec 64)) :
    ∃ page seen, showCluster (whole disk memory) fs stale reads cluster = (some page, seen) ∧
      ∀ q < sizeOfCluster fs, page q = clusterByte disk fs cluster q := by
  have shift : fs.sectorsPerClusterShift.toNat ≤ 16 := clusters
  have small : 2 ^ fs.sectorsPerClusterShift.toNat ≤ 2 ^ 16 := Nat.pow_le_pow_right (by decide) shift
  have positive : 0 < 2 ^ fs.sectorsPerClusterShift.toNat := Nat.pow_pos (by decide)
  have count : (sectorsPerCluster fs).toNat = 2 ^ fs.sectorsPerClusterShift.toNat := by
    rw [toNat_sectorsPerCluster, Nat.mod_eq_of_lt (show _ < 64 by omega)]
  have address := toNat_clusterToLba clusters (show clusterStart fs cluster < 2 ^ 32 by omega)
  obtain ⟨page, read, _, bytes⟩ := @readSectors_whole disk memory fs sectors (clusterToLba fs cluster)
    (sectorsPerCluster fs).toNat 0 (by omega) (by omega) stale ⟨reads, []⟩
  refine ⟨page, _, Prod.ext read rfl, ?_⟩
  intro q below
  have inside : q < (0 + (sectorsPerCluster fs).toNat) * SECTOR_SIZE := by
    rw [Nat.zero_add, count, Nat.mul_comm]
    exact below
  rw [bytes q (by omega) inside, address]
  rfl

theorem readU32Le_field (buffer : Buffer) (offset : Nat) : readU32Le buffer offset = field 32 buffer offset := by
  have byte := (buffer offset).isLt
  have byte' := (buffer (offset + 1)).isLt
  have byte'' := (buffer (offset + 2)).isLt
  have first : ((buffer offset).setWidth 32).toNat = (buffer offset).toNat :=
    BitVec.toNat_setWidth_of_le (by decide)
  have two := toNat_or_byte ((buffer offset).setWidth 32) (buffer (offset + 1)) 8
    (by rw [first]; exact byte) (by decide)
  have three := toNat_or_byte _ (buffer (offset + 2)) 16 (by rw [two, first]; omega) (by decide)
  have four := toNat_or_byte _ (buffer (offset + 3)) 24 (by rw [three, two, first]; omega) (by decide)
  apply BitVec.eq_of_toNat_eq
  rw [toNat_field buffer 32 offset rfl]
  unfold readU32Le
  rw [four, three, two, first]
  simp only [littleEndian, Nat.add_assoc, Nat.reduceAdd, show (32 : Nat) / 8 = 4 from rfl]
  omega

/-- The code finds the entry that the table holds for the cluster. -/
theorem chain_whole (sectors : fs.bytesPerSectorShift = 9) {cluster : BitVec 32}
    (short : fatStart fs + 4 * cluster.toNat / SECTOR_SIZE < 2 ^ 32) (reads : List (BitVec 64)) :
    (chain (whole disk memory) fs reads cluster).1 = fatEntry disk fs cluster := by
  have bound := cluster.isLt
  have entry : (cluster.setWidth 64 * 4).toNat = 4 * cluster.toNat := by
    rw [BitVec.toNat_mul, BitVec.toNat_setWidth_of_le (by decide), Nat.mul_comm 4]
    exact Nat.mod_eq_of_lt (by simp; omega)
  have size : (bytesPerSector fs).toNat = SECTOR_SIZE := by
    rw [bytesPerSector_eq sectors]
    rfl
  have place : fatPlace fs cluster = 4 * cluster.toNat % SECTOR_SIZE := by
    unfold fatPlace
    rw [BitVec.toNat_umod, entry, size]
  have sector : ((fatLba fs cluster).setWidth 32).toNat = fatStart fs + 4 * cluster.toNat / SECTOR_SIZE := by
    unfold fatLba fatStart at *
    rw [BitVec.toNat_setWidth, BitVec.toNat_add, BitVec.toNat_add, BitVec.toNat_udiv, entry, size,
      BitVec.toNat_setWidth_of_le (by decide)]
    generalize 4 * cluster.toNat / SECTOR_SIZE = index at short ⊢
    rw [Nat.mod_eq_of_lt (show fs.sectorOnDiskLBA.toNat + fs.fatOffset.toNat < 2 ^ 64 by omega)]
    rw [Nat.mod_eq_of_lt (show _ < 2 ^ 64 by omega)]
    exact Nat.mod_eq_of_lt short
  have small : fs.bytesPerSectorShift.toNat % 64 ≤ 9 := by
    rw [sectors]
    decide
  unfold chain
  rw [getFatEntry_eq]
  change readU32Le (fill _ 0 (disk ((fatLba fs cluster).setWidth 32).toNat)) _ = _
  rw [readU32Le_sector _ _ cluster small, readU32Le_field, sector, place]
  apply congrArg (BitVec.ofNat 32)
  apply littleEndian_congr
  intro k below
  change k < 4 at below
  unfold fatByte SECTOR_SIZE
  rw [show (4 * cluster.toNat + k) / 512 = 4 * cluster.toNat / 512 by omega,
    show (4 * cluster.toNat + k) % 512 = 4 * cluster.toNat % 512 + k by omega]

end

section
variable {disk : Disk} {memory : List (BitVec 64) → Buffer} {file : FileEntry} {j : Nat} {r : Reading}

theorem sizeOfCluster_pos : 0 < sizeOfCluster file.fs :=
  Nat.mul_pos (by decide) (Nat.pow_pos (by decide))

theorem lt_clusterTotal_iff : j < clusterTotal file ↔ j * sizeOfCluster file.fs < file.dataLength.toNat := by
  have positive := @sizeOfCluster_pos file
  unfold clusterTotal
  rw [Nat.lt_iff_add_one_le, Nat.le_div_iff_mul_le positive]
  have step : (j + 1) * sizeOfCluster file.fs = j * sizeOfCluster file.fs + _ := Nat.succ_mul ..
  omega

theorem Reached.le {n m : Nat} (reached : Reached disk file n) (le : m ≤ n) : Reached disk file m := by
  intro chained i below
  exact reached chained i (by omega)

theorem Reached.succ_iff : Reached disk file (j + 2) ↔ Reached disk file (j + 1) ∧
    (noFatChain file = false → fatEntry disk file.fs (fileCluster disk file j) < END_OF_CHAIN) := by
  constructor
  · intro reached
    exact ⟨reached.le (Nat.le_succ _), fun chained => reached chained j (by omega)⟩
  · intro both chained i below
    by_cases last : i = j
    · rw [last]
      exact both.2 chained
    · exact both.1 chained i (by omega)

theorem fileCluster_succ : fileCluster disk file (j + 1) =
    if noFatChain file then fileCluster disk file j + 1 else fatEntry disk file.fs (fileCluster disk file j) :=
  rfl

/-- The reader before the `j`-th cluster, with the bytes of the clusters before it. -/
structure Copied (disk : Disk) (memory : List (BitVec 64) → Buffer) (file : FileEntry) (trace : Trace) (j : Nat)
    (r : Reading) : Prop where
  here : At (whole disk memory) file (memory trace.reads) trace.reads j r
  cluster : r.cluster = fileCluster disk file j
  reached : Reached disk file (j + 1)
  bytes : ∀ p < j * sizeOfCluster file.fs, r.data p = fileByte disk file p

theorem fileByte_eq {p : Nat} (low : j * sizeOfCluster file.fs ≤ p) (high : p < (j + 1) * sizeOfCluster file.fs) :
    fileByte disk file p =
      clusterByte disk file.fs (fileCluster disk file j) (p - j * sizeOfCluster file.fs) := by
  have quotient : p / sizeOfCluster file.fs = j := Nat.div_eq_of_lt_le low high
  have remainder : p % sizeOfCluster file.fs = p - j * sizeOfCluster file.fs := by
    rw [Nat.mod_eq_sub_mul_div, quotient, Nat.mul_comm]
  unfold fileByte
  rw [quotient, remainder]

theorem copy_fileByte {data page : Buffer} {count : Nat}
    (bytes : ∀ p < j * sizeOfCluster file.fs, data p = fileByte disk file p)
    (shown : ∀ q < sizeOfCluster file.fs, page q = clusterByte disk file.fs (fileCluster disk file j) q)
    (few : count ≤ sizeOfCluster file.fs) :
    ∀ p < j * sizeOfCluster file.fs + count, copy data (j * sizeOfCluster file.fs) count page p =
      fileByte disk file p := by
  intro p below
  have step : (j + 1) * sizeOfCluster file.fs = j * sizeOfCluster file.fs + _ := Nat.succ_mul ..
  unfold copy
  by_cases old : p < j * sizeOfCluster file.fs
  · rw [if_neg (by omega)]
    exact bytes p old
  · have place : fileByte disk file p = _ := fileByte_eq (show j * sizeOfCluster file.fs ≤ p by omega) (by omega)
    rw [if_pos ⟨by omega, below⟩, shown _ (by omega), place]

theorem clusterAt_succ {reads seen : List (BitVec 64)} {page : Buffer}
    (place : clusterAt (whole disk memory) file (memory reads) reads j = some ⟨r.trace.reads, r.cluster⟩)
    (shown : showCluster (whole disk memory) file.fs (memory reads) r.trace.reads r.cluster = (some page, seen)) :
    clusterAt (whole disk memory) file (memory reads) reads (j + 1) =
      if noFatChain file then some ⟨seen, r.cluster + 1⟩
      else if END_OF_CHAIN ≤ (chain (whole disk memory) file.fs seen r.cluster).1 then none
      else some ⟨(chain (whole disk memory) file.fs seen r.cluster).2,
        (chain (whole disk memory) file.fs seen r.cluster).1⟩ := by
  unfold clusterAt at place ⊢
  rw [nth_succ, place, Option.bind_some]
  unfold follow
  rw [shown]

/-- Behind a cluster that has been read the reader finds the next one of the file, unless the chain ends there. -/
theorem clusterAt_whole (sectors : file.fs.bytesPerSectorShift = 9) {trace : Trace} (copied : Copied disk memory file trace j r)
    {seen : List (BitVec 64)} {page : Buffer}
    (shown : showCluster (whole disk memory) file.fs (memory trace.reads) r.trace.reads r.cluster = (some page, seen))
    (table : noFatChain file = false → fatStart file.fs + 4 * (fileCluster disk file j).toNat / SECTOR_SIZE < 2 ^ 32) :
    match clusterAt (whole disk memory) file (memory trace.reads) trace.reads (j + 1) with
    | none => ¬ Reached disk file (j + 2)
    | some place => place.cluster = fileCluster disk file (j + 1) ∧ Reached disk file (j + 2) := by
  rw [clusterAt_succ copied.here.place shown, Reached.succ_iff, fileCluster_succ]
  by_cases consecutive : noFatChain file = true
  · rw [if_pos consecutive, if_pos consecutive, copied.cluster]
    exact ⟨rfl, copied.reached, fun chained => absurd (consecutive.symm.trans chained) (by decide)⟩
  · have chained := eq_false_of_ne_true consecutive
    have entry : (chain (whole disk memory) file.fs seen r.cluster).1 = fatEntry disk file.fs (fileCluster disk file j) := by
      rw [copied.cluster]
      exact chain_whole sectors (table chained) seen
    rw [if_neg consecutive, if_neg consecutive, entry]
    by_cases stop : END_OF_CHAIN ≤ fatEntry disk file.fs (fileCluster disk file j)
    · rw [if_pos stop]
      exact fun reached => absurd (reached.2 chained) (BitVec.not_lt.mpr stop)
    · rw [if_neg stop]
      exact ⟨rfl, copied.reached, fun _ => BitVec.not_le.mp stop⟩

/-- What a call returns to a caller whose file has all of its clusters, and to one whose has not. -/
def ReturnsFile (disk : Disk) (file : FileEntry) (answer : Answer) : Prop :=
  (Reached disk file (clusterTotal file) → answer.size = some file.dataLength ∧
    ∃ data, answer.data = some data ∧ ∀ p < file.dataLength.toNat, data.bytes p = fileByte disk file p) ∧
  (¬ Reached disk file (clusterTotal file) → answer.data = none)

/-- One turn of the reader: it returns, or it has copied one cluster more. -/
theorem readAllBody_whole (sectors : file.fs.bytesPerSectorShift = 9) (clusters : file.fs.sectorsPerClusterShift ≤ 16)
    (nonempty : file.dataLength ≠ 0) (short : ShortAddresses disk file) {trace : Trace}
    (copied : Copied disk memory file trace j r) (below : j < clusterTotal file) (data clusterBuffer : Nat) :
    (∃ answer, readAllBody (whole disk memory) file data clusterBuffer r = .leave answer ∧
      ReturnsFile disk file answer) ∨
    ∃ next, readAllBody (whole disk memory) file data clusterBuffer r = .again next ∧
      Copied disk memory file trace (j + 1) next ∧ j + 1 < clusterTotal file := by
  have size := toNat_clusterSize sectors clusters
  have given : ∀ bytes, pointer file.dataLength data bytes = some ⟨data, bytes⟩ := fun bytes => if_neg nonempty
  obtain ⟨room, table⟩ := short j below copied.reached
  obtain ⟨page, seen, shown, bytes⟩ := @showCluster_whole disk memory _ sectors clusters _ room
    (memory trace.reads) r.trace.reads
  rw [← copied.cluster] at shown
  have inside := lt_clusterTotal_iff.mp below
  have more := @lt_clusterTotal_iff file (j + 1)
  have step : (j + 1) * sizeOfCluster file.fs = j * sizeOfCluster file.fs + _ := Nat.succ_mul ..
  rcases readAllBody_cases data clusterBuffer copied.here with ⟨done, _⟩ | ⟨_, unreadable, _⟩ |
    ⟨page', seen', shown', _, cases⟩
  · rw [size] at done
    omega
  · unfold Readable at unreadable
    rw [shown] at unreadable
    exact absurd rfl unreadable
  · obtain ⟨same, rfl⟩ := Prod.mk.inj (shown.symm.trans shown')
    obtain rfl := Option.some.inj same
    have behind := fun onward => clusterAt_whole sectors copied shown (table (more.mpr onward))
    rw [size] at cases
    rcases cases with ⟨last, left, leaves⟩ | ⟨onward, missing, left, refuses⟩ | ⟨onward, next, again, at_next, data'⟩
    · refine Or.inl ⟨_, leaves, ?_, ?_⟩
      · intro _
        refine ⟨rfl, _, given _, ?_⟩
        intro p small
        exact copy_fileByte copied.bytes bytes (by omega) p (by omega)
      · intro broken
        refine absurd (copied.reached.le ?_) broken
        exact Nat.le_of_not_lt fun another => absurd (more.mp another) (by omega)
    · refine Or.inl ⟨_, refuses, ?_, fun _ => rfl⟩
      intro reached
      have ends := behind onward
      rw [missing] at ends
      exact absurd (reached.le (more.mpr onward)) ends
    · have follows := behind onward
      rw [at_next.place] at follows
      refine Or.inr ⟨next, again, ⟨at_next, follows.1, follows.2, ?_⟩, more.mpr onward⟩
      intro p small
      rw [data']
      exact copy_fileByte copied.bytes bytes (Nat.le_refl _) p (by omega)

/-- For every volume with sectors of 512 bytes and clusters of at most 32 MiB, every entry with some
data and every table: the call ends; if the chain has as many clusters as the data need it
returns the data and their size, and if it ends before that, the null pointer. -/
theorem whole_file_read (disk : Disk) (memory : List (BitVec 64) → Buffer) (file : FileEntry) (trace : Trace)
    (sectors : file.fs.bytesPerSectorShift = 9) (clusters : file.fs.sectorsPerClusterShift ≤ 16)
    (nonempty : file.dataLength ≠ 0) (short : ShortAddresses disk file) :
    ∃ bound answer, readFileAll (whole disk memory) file bound trace = some answer ∧ ReturnsFile disk file answer := by
  have size := toNat_clusterSize sectors clusters
  have positive := @sizeOfCluster_pos file
  obtain ⟨_, bound, answer, returns, _⟩ := @readsAll_ends (whole disk memory) file trace (by omega)
  refine ⟨bound, answer, returns, ?_⟩
  rw [readFileAll_eq] at returns
  have initial : Copied disk memory file trace 0 (readStart (whole disk memory) file trace) := by
    refine ⟨at_readStart (whole disk memory) file trace, rfl, ?_, ?_⟩
    · intro _ i below
      omega
    · intro p below
      rw [Nat.zero_mul] at below
      omega
  have some_cluster : 0 < clusterTotal file := by
    rw [lt_clusterTotal_iff, Nat.zero_mul]
    exact BitVec.toNat_pos_of_ne_zero nonempty
  apply run_turns (fun r => ∃ j, Copied disk memory file trace j r ∧ j < clusterTotal file) (ReturnsFile disk file)
    _ ⟨0, initial, some_cluster⟩ returns
  intro r inv
  obtain ⟨j, copied, below⟩ := inv
  rcases readAllBody_whole sectors clusters nonempty short copied below (dataBlock trace) (bufferBlock file trace) with
    ⟨answer, leaves, right⟩ | ⟨next, again, kept, more⟩
  · exact Or.inr ⟨answer, leaves, right⟩
  · exact Or.inl ⟨next, again, j + 1, kept, more⟩

end

/-- The table's first sector is the second of the disk, and leads from cluster 2 to cluster 3. -/
def chainedDisk : Disk := fun sector p => if sector = 1 ∧ p = 8 then 3 else BitVec.ofNat 8 (sector + p)

def partFile : FileEntry := { chainedFile with validDataLength := some 600, dataLength := 600 }

theorem chained_file_read : ∃ bound answer, readFileAll (whole chainedDisk fun _ _ => 0) partFile bound ⟨[], []⟩ =
    some answer ∧ answer.size = some 600 ∧
    ∃ data, answer.data = some data ∧ ∀ p < 600, data.bytes p = fileByte chainedDisk partFile p := by
  have total : clusterTotal partFile = 2 := by decide +kernel
  have reached : Reached chainedDisk partFile (clusterTotal partFile) := by
    rw [total]
    intro _ j below
    obtain rfl : j = 0 := by omega
    decide +kernel
  have short : ShortAddresses chainedDisk partFile := by
    intro j below _
    rw [total] at below ⊢
    match j, below with
    | 0, _ => exact ⟨by decide +kernel, fun _ _ => by decide +kernel⟩
    | 1, _ => exact ⟨by decide +kernel, fun more => absurd more (by decide)⟩
  obtain ⟨bound, answer, returns, complete, _⟩ := whole_file_read chainedDisk (fun _ _ => 0) partFile ⟨[], []⟩ rfl
    (by decide) (by decide) short
  exact ⟨bound, answer, returns, complete reached⟩

end Ketone.Exfat.WholeFile
