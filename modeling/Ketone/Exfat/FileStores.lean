import Ketone.Exfat.ReadErrors
import Ketone.MemManager.GivenMemory

/-! Where the reader that checks stores what it reads. The blocks are those that the heap gives for its first
two requests. -/

namespace Ketone.Exfat.FileStores
open Library.Loop Library.Ram MemManager.Allocator MemManager.BlockRuns MemManager.AllocBounds MemManager.FirstFit
open MemManager.GivenMemory Volume OpenFile ReadFile Lookup FileClusters ReadErrors

/-- The offsets in the buffer to which the sectors of a cluster go from the `s`-th on, up to one that cannot be
read. -/
def sectorOffsets (fs : ExfatInstance) (machine : Machine) (lba : BitVec 64) :
    Nat → Nat → List (BitVec 64) → List (BitVec 64)
  | 0, _, _ => []
  | todo + 1, s, reads =>
      match machine.drive reads ((lba + BitVec.ofNat 64 s).setWidth 32) with
      | none => []
      | some _ =>
          BitVec.ofNat 64 s * bytesPerSector fs ::
            sectorOffsets fs machine lba todo (s + 1) (reads ++ [lba + BitVec.ofNat 64 s])

structure Stores where
  sectors : List Area
  bytes : List Area

/-- What a turn stores: sectors to the cluster buffer and, if all of them could be read, bytes to the data. -/
def turnStores (machine : Machine) (file : FileEntry) (data clusterBuffer : BitVec 64) (r : Reading) : Stores :=
  if ¬ r.bytesRead < file.dataLength then ⟨[], []⟩
  else
    let offsets := sectorOffsets file.fs machine (clusterToLba file.fs r.cluster) (sectorsPerCluster file.fs).toNat 0
      r.trace.reads
    let sectors : List Area := offsets.map fun offset => ⟨clusterBuffer + offset, SECTOR_SIZE⟩
    match readCluster file.fs machine r.cluster r.clusterBuffer r.trace with
    | (none, _) => ⟨sectors, []⟩
    | (some _, _) => ⟨sectors, [⟨data + r.bytesRead, (copySize file r.bytesRead).toNat⟩]⟩

section
variable (machine : Machine) (file : FileEntry) (trace : Trace)

/-- The reader is in the state before its `k`-th turn. -/
def Passes (k : Nat) (r : Reading) : Prop :=
  nth (onward (readAllBody machine file (dataBlock trace) (bufferBlock file trace))) k (readStart machine file trace) =
    some r

/-- Every sector goes to memory that the heap has given for the cluster buffer, and every byte of the file to
memory given for the data. If one of the two is not given, nothing is stored and nothing returned. -/
structure OwnStores (heap : Heap) (data clusterBuffer : Call) : Prop where
  sectors : ∀ k r, Passes machine file trace k r →
    ∀ area ∈ (turnStores machine file data.ptr clusterBuffer.ptr r).sectors, ∀ addr, area.Has addr →
      Given data.heap clusterBuffer addr
  bytes : ∀ k r, Passes machine file trace k r →
    ∀ area ∈ (turnStores machine file data.ptr clusterBuffer.ptr r).bytes, ∀ addr, area.Has addr →
      Given heap data addr
  refused : data.ptr = 0 ∨ clusterBuffer.ptr = 0 →
    (∀ k r, Passes machine file trace k r → turnStores machine file data.ptr clusterBuffer.ptr r = ⟨[], []⟩) ∧
      ∃ bound answer, readFileAll machine file bound trace = some answer ∧ answer.data = none

/-- The sectors of the first cluster that the drive delivers end in the run of the cluster buffer, and the
clusters that can be reached and read hold no more bytes of the file than the run of the data. -/
structure RunsSuffice (heap : Heap) (data clusterBuffer : Call) : Prop where
  given : data.ptr ≠ 0 ∧ clusterBuffer.ptr ≠ 0
  sectors : ∀ offset ∈ sectorOffsets file.fs machine (clusterToLba file.fs file.firstCluster)
    (sectorsPerCluster file.fs).toNat 0 trace.reads, offset.toNat + SECTOR_SIZE ≤ room data.heap clusterBuffer
  bytes : ∀ j place, j * (clusterSize file.fs).toNat < file.dataLength.toNat →
    clusterAt machine file (machine.stale trace.reads) trace.reads j = some place →
    Readable machine file (machine.stale trace.reads) place →
    min ((j + 1) * (clusterSize file.fs).toNat) file.dataLength.toNat ≤ room heap data

end

section
variable {fs : ExfatInstance} {machine : Machine} {lba : BitVec 64}

theorem sectorOffsets_mem {todo s : Nat} {reads : List (BitVec 64)} {offset : BitVec 64}
    (member : offset ∈ sectorOffsets fs machine lba todo s reads) :
    ∃ i ∈ List.range' s todo, BitVec.ofNat 64 i * bytesPerSector fs = offset := by
  induction todo generalizing s reads with
  | zero => simp [sectorOffsets] at member
  | succ todo ih =>
    rw [sectorOffsets] at member
    rw [List.range'_succ]
    split at member
    · simp at member
    · rcases List.mem_cons.mp member with rfl | later
      · exact ⟨s, List.mem_cons_self .., rfl⟩
      · obtain ⟨i, inside, same⟩ := ih later
        exact ⟨i, List.mem_cons_of_mem _ inside, same⟩

theorem sectorOffsets_whole {todo s : Nat} {buffer page : Buffer} {trace : Trace}
    (read : (readSectors fs machine lba todo s buffer trace).1 = some page) :
    sectorOffsets fs machine lba todo s trace.reads =
      (List.range' s todo).map fun i => BitVec.ofNat 64 i * bytesPerSector fs := by
  induction todo generalizing s buffer trace with
  | zero => rfl
  | succ todo ih =>
    rw [readSectors, readDisk] at read
    rw [sectorOffsets, List.range'_succ, List.map_cons]
    cases answer : machine.drive trace.reads ((lba + BitVec.ofNat 64 s).setWidth 32) with
    | none =>
      rw [answer] at read
      simp at read
    | some sector =>
      rw [answer] at read
      exact congrArg (_ :: ·) (ih read)

theorem sectorOffsets_nil_iff {reads : List (BitVec 64)} :
    sectorOffsets fs machine lba (sectorsPerCluster fs).toNat 0 reads = [] ↔
      machine.drive reads (lba.setWidth 32) = none := by
  obtain ⟨more, some⟩ : ∃ more, (sectorsPerCluster fs).toNat = more + 1 := by
    have positive : 0 < (sectorsPerCluster fs).toNat := by
      rw [toNat_sectorsPerCluster]
      exact Nat.two_pow_pos _
    exact ⟨(sectorsPerCluster fs).toNat - 1, by omega⟩
  rw [some, sectorOffsets, show lba + BitVec.ofNat 64 0 = lba from BitVec.add_zero lba]
  cases machine.drive reads (lba.setWidth 32) with
  | none => exact iff_of_true rfl rfl
  | some sector => exact iff_of_false (List.cons_ne_nil _ _) (Option.some_ne_none _)

theorem readCluster_none {cluster : BitVec 32} (buffer : Buffer) (trace : Trace)
    (unreadable : machine.drive trace.reads ((clusterToLba fs cluster).setWidth 32) = none) :
    (readCluster fs machine cluster buffer trace).1 = none := by
  cases read : (readCluster fs machine cluster buffer trace).1 with
  | none => rfl
  | some page =>
    have whole := sectorOffsets_whole read
    rw [sectorOffsets_nil_iff.mpr unreadable] at whole
    have positive : 0 < (sectorsPerCluster fs).toNat := by
      rw [toNat_sectorsPerCluster]
      exact Nat.two_pow_pos _
    have length := congrArg List.length whole
    rw [List.length_nil, List.length_map, List.length_range'] at length
    omega

end

section
variable {machine : Machine} {file : FileEntry} {trace : Trace} {k : Nat} {r : Reading}

theorem passes_at (passes : Passes machine file trace k r) :
    At machine file (machine.stale trace.reads) trace.reads k r := by
  induction k generalizing r with
  | zero =>
    obtain rfl := Option.some.inj passes
    exact at_readStart machine file trace
  | succ k ih =>
    unfold Passes at passes
    rw [nth_succ] at passes
    obtain ⟨before, passed, again⟩ := Option.bind_eq_some_iff.mp passes
    rw [onward_eq_some] at again
    rcases readAllBody_cases (dataBlock trace) (bufferBlock file trace) (ih passed) with
      ⟨_, _, left⟩ | ⟨_, _, _, left⟩ | ⟨_, _, _, _, ⟨_, _, left⟩ | ⟨_, _, _, left⟩ | ⟨_, next, goes, here, _⟩⟩
    · cases again.symm.trans left
    · cases again.symm.trans left
    · cases again.symm.trans left
    · cases again.symm.trans left
    · obtain rfl := Turn.again.inj (again.symm.trans goes)
      exact here

/-- The reader comes to every cluster that the file needs and that can be reached. -/
theorem passes_of_clusterAt {place : Place} (needed : k * (clusterSize file.fs).toNat < file.dataLength.toNat)
    (reached : clusterAt machine file (machine.stale trace.reads) trace.reads k = some place) :
    ∃ r, Passes machine file trace k r ∧ place = ⟨r.trace.reads, r.cluster⟩ := by
  induction k generalizing place with
  | zero =>
    obtain rfl := Option.some.inj reached
    exact ⟨readStart machine file trace, rfl, rfl⟩
  | succ k ih =>
    have step : (k + 1) * (clusterSize file.fs).toNat = k * (clusterSize file.fs).toNat + (clusterSize file.fs).toNat :=
      Nat.succ_mul ..
    have followed := reached
    unfold clusterAt at followed
    rw [nth_succ] at followed
    obtain ⟨before, earlier, follows⟩ := Option.bind_eq_some_iff.mp followed
    obtain ⟨r, passes, rfl⟩ := ih (by omega) earlier
    have readable : Readable machine file (machine.stale trace.reads) ⟨r.trace.reads, r.cluster⟩ := by
      unfold Readable
      unfold follow at follows
      split at follows
      · simp at follows
      next page seen shown =>
        dsimp only at shown ⊢
        rw [shown]
        rfl
    rcases readAllBody_cases (dataBlock trace) (bufferBlock file trace) (passes_at passes) with
      ⟨done, _⟩ | ⟨_, not, _⟩ | ⟨_, _, _, _, ⟨done, _⟩ | ⟨_, none_, _⟩ | ⟨_, next, goes, here, _⟩⟩
    · omega
    · exact (not readable).elim
    · omega
    · rw [reached] at none_
      simp at none_
    · refine ⟨next, ?_, Option.some.inj (reached.symm.trans here.place)⟩
      unfold Passes at *
      rw [nth_succ, passes]
      exact onward_again goes

theorem more_iff (here : At machine file (machine.stale trace.reads) trace.reads k r) :
    r.bytesRead < file.dataLength ↔ k * (clusterSize file.fs).toNat < file.dataLength.toNat := by
  rw [BitVec.lt_def, here.bytes]

theorem bytes_end (here : At machine file (machine.stale trace.reads) trace.reads k r)
    (more : r.bytesRead < file.dataLength) :
    r.bytesRead.toNat + (copySize file r.bytesRead).toNat =
      min ((k + 1) * (clusterSize file.fs).toNat) file.dataLength.toNat := by
  have below := (more_iff here).mp more
  have size := toNat_copySize more
  rw [here.bytes] at size
  calc
    r.bytesRead.toNat + (copySize file r.bytesRead).toNat =
        k * (clusterSize file.fs).toNat +
          min (file.dataLength.toNat - k * (clusterSize file.fs).toNat) (clusterSize file.fs).toNat := by
      rw [here.bytes, size]
    _ = min (k * (clusterSize file.fs).toNat + (clusterSize file.fs).toNat) file.dataLength.toNat := by omega
    _ = min ((k + 1) * (clusterSize file.fs).toNat) file.dataLength.toNat := by rw [Nat.succ_mul]

/-- A turn that stores bytes has read its cluster, and stores as many as the cluster holds of the file. -/
theorem turnStores_bytes (passes : Passes machine file trace k r) {data clusterBuffer : BitVec 64} {area : Area}
    (member : area ∈ (turnStores machine file data clusterBuffer r).bytes) :
    k * (clusterSize file.fs).toNat < file.dataLength.toNat ∧
      Readable machine file (machine.stale trace.reads) ⟨r.trace.reads, r.cluster⟩ ∧
      area = ⟨data + r.bytesRead, (copySize file r.bytesRead).toNat⟩ := by
  have here := passes_at passes
  unfold turnStores at member
  split at member
  · simp at member
  next more =>
  rw [not_not] at more
  dsimp only at member
  split at member
  · simp at member
  next page seen read =>
  refine ⟨(more_iff here).mp more, ?_, List.mem_singleton.mp member⟩
  unfold Readable
  cases shown : showCluster machine file.fs (machine.stale trace.reads) r.trace.reads r.cluster with
  | mk shown seen =>
    have same := readCluster_shows r.trace.heap here.buffer shown
    obtain ⟨rfl, _⟩ := Prod.mk.inj (same.symm.trans read)
    rfl

theorem turnStores_more (machine : Machine) (more : r.bytesRead < file.dataLength) (data clusterBuffer : BitVec 64) :
    turnStores machine file data clusterBuffer r =
      ⟨(sectorOffsets file.fs machine (clusterToLba file.fs r.cluster) (sectorsPerCluster file.fs).toNat 0
          r.trace.reads).map fun offset => ⟨clusterBuffer + offset, SECTOR_SIZE⟩,
        match (readCluster file.fs machine r.cluster r.clusterBuffer r.trace).1 with
        | none => []
        | some _ => [⟨data + r.bytesRead, (copySize file r.bytesRead).toNat⟩]⟩ := by
  unfold turnStores
  rw [if_neg (not_not.mpr more)]
  cases readCluster file.fs machine r.cluster r.clusterBuffer r.trace with
  | mk page seen =>
    cases page with
    | none => rfl
    | some page => rfl

theorem turnStores_readable (here : At machine file (machine.stale trace.reads) trace.reads k r)
    (more : r.bytesRead < file.dataLength)
    (readable : Readable machine file (machine.stale trace.reads) ⟨r.trace.reads, r.cluster⟩)
    (data clusterBuffer : BitVec 64) :
    ⟨data + r.bytesRead, (copySize file r.bytesRead).toNat⟩ ∈ (turnStores machine file data clusterBuffer r).bytes := by
  rw [turnStores_more machine more]
  cases shown : showCluster machine file.fs (machine.stale trace.reads) r.trace.reads r.cluster with
  | mk page seen =>
    have read := readCluster_shows r.trace.heap here.buffer shown
    unfold Readable at readable
    rw [shown] at readable
    obtain ⟨page', rfl⟩ := Option.isSome_iff_exists.mp readable
    have answer : (readCluster file.fs machine r.cluster r.clusterBuffer r.trace).1 = some page' := congrArg Prod.fst read
    rw [answer]
    exact List.mem_singleton_self _

theorem turnStores_done (done : ¬ r.bytesRead < file.dataLength) (data clusterBuffer : BitVec 64) :
    turnStores machine file data clusterBuffer r = ⟨[], []⟩ := if_pos done

theorem refuses_unread (data clusterBuffer : Nat) (more : r.bytesRead < file.dataLength)
    (unread : (readCluster file.fs machine r.cluster r.clusterBuffer r.trace).1 = none) :
    Refuses data clusterBuffer machine file r := by
  unfold Refuses readAllBody
  rw [if_neg (not_not.mpr more)]
  cases read : readCluster file.fs machine r.cluster r.clusterBuffer r.trace with
  | mk page seen =>
    rw [read] at unread
    obtain rfl : page = none := unread
    exact ⟨_, rfl⟩

theorem first_cluster_read (passes : Passes machine file trace (k + 1) r) :
    ∃ page, (readCluster file.fs machine file.firstCluster (machine.stale trace.reads)
      (readStart machine file trace).trace).1 = some page := by
  unfold Passes at passes
  obtain ⟨next, goes, _⟩ := Option.bind_eq_some_iff.mp passes
  rw [onward_eq_some] at goes
  apply Option.ne_none_iff_exists'.mp
  intro unread
  have more : (readStart machine file trace).bytesRead < file.dataLength := by
    by_contra done
    unfold readAllBody at goes
    rw [if_pos done] at goes
    cases goes
  obtain ⟨last, left⟩ := refuses_unread (dataBlock trace) (bufferBlock file trace) more unread
  cases goes.symm.trans left

theorem offset_of_first (passes : Passes machine file trace k r) {offset : BitVec 64}
    (member : offset ∈ sectorOffsets file.fs machine (clusterToLba file.fs r.cluster)
      (sectorsPerCluster file.fs).toNat 0 r.trace.reads) :
    offset ∈ sectorOffsets file.fs machine (clusterToLba file.fs file.firstCluster)
      (sectorsPerCluster file.fs).toNat 0 trace.reads := by
  cases k with
  | zero =>
    obtain rfl := Option.some.inj passes
    exact member
  | succ k =>
    obtain ⟨page, read⟩ := first_cluster_read passes
    have whole := sectorOffsets_whole read
    change sectorOffsets file.fs machine (clusterToLba file.fs file.firstCluster)
      (sectorsPerCluster file.fs).toNat 0 trace.reads = _ at whole
    rw [whole]
    obtain ⟨i, inside, same⟩ := sectorOffsets_mem member
    exact List.mem_map.mpr ⟨i, inside, same⟩

end

section
variable {machine : Machine} {file : FileEntry} {trace : Trace}

/-- There are no bytes to read, or the first sector of them is not delivered; a SATA driver delivers none to the
null pointer. -/
def NothingRead (machine : Machine) (file : FileEntry) (trace : Trace) : Prop :=
  file.dataLength = 0 ∨ machine.drive trace.reads ((clusterToLba file.fs file.firstCluster).setWidth 32) = none

theorem nothing_stored (nothing : NothingRead machine file trace) {k : Nat} {r : Reading}
    (passes : Passes machine file trace k r) (data clusterBuffer : BitVec 64) :
    turnStores machine file data clusterBuffer r = ⟨[], []⟩ := by
  by_cases more : r.bytesRead < file.dataLength
  case neg => exact turnStores_done more data clusterBuffer
  rcases nothing with empty | unreadable
  · rw [empty] at more
    exact (BitVec.not_lt_zero more).elim
  cases k with
  | succ k =>
    obtain ⟨page, read⟩ := first_cluster_read passes
    have unread : (readCluster file.fs machine file.firstCluster (machine.stale trace.reads)
      (readStart machine file trace).trace).1 = none := readCluster_none _ _ unreadable
    cases unread.symm.trans read
  | zero =>
    obtain rfl : readStart machine file trace = r := Option.some.inj passes
    generalize same : readStart machine file trace = r at more ⊢
    have offsets : sectorOffsets file.fs machine (clusterToLba file.fs r.cluster)
        (sectorsPerCluster file.fs).toNat 0 r.trace.reads = [] := by
      rw [← same]
      exact sectorOffsets_nil_iff.mpr unreadable
    have unread : (readCluster file.fs machine r.cluster r.clusterBuffer r.trace).1 = none := by
      rw [← same]
      exact readCluster_none _ _ unreadable
    rw [turnStores_more machine more, offsets, unread]
    rfl

theorem null_returned (nothing : NothingRead machine file trace) :
    ∃ bound answer, readFileAll machine file bound trace = some answer ∧ answer.data = none := by
  by_cases empty : file.dataLength = 0
  · have done : ¬ (0 : BitVec 64) < file.dataLength := by
      rw [empty]
      decide
    have turn : readAllBody machine file (dataBlock trace) (bufferBlock file trace) (readStart machine file trace) =
        .leave _ := if_pos done
    have returns := (readFileAll_eq machine file trace 1).trans (run_leave 0 turn)
    exact ⟨1, _, returns, readFileAll_empty empty returns⟩
  · have more : (readStart machine file trace).bytesRead < file.dataLength := BitVec.toNat_pos_of_ne_zero empty
    have unread : (readCluster file.fs machine file.firstCluster (machine.stale trace.reads)
      (readStart machine file trace).trace).1 = none := readCluster_none _ _ (nothing.resolve_left empty)
    obtain ⟨last, left⟩ := refuses_unread (dataBlock trace) (bufferBlock file trace) more unread
    exact ⟨1, _, (readFileAll_eq machine file trace 1).trans (run_leave 0 left), rfl⟩

end

section
variable {heap : Heap} {machine : Machine} {file : FileEntry} {trace : Trace} {data clusterBuffer : Call}

theorem own_of_nothing (nothing : NothingRead machine file trace) : OwnStores machine file trace heap data clusterBuffer := by
  constructor
  · intro k r passes area member
    rw [nothing_stored nothing passes] at member
    cases member
  · intro k r passes area member
    rw [nothing_stored nothing passes] at member
    cases member
  · intro _
    exact ⟨fun k r passes => nothing_stored nothing passes _ _, null_returned nothing⟩

theorem own_of_runs (area : heap.startAddr.toNat + heap.maxSize.toNat ≤ 2 ^ 64)
    (got : alloc heap file.dataLength = some data) (got' : alloc data.heap (clusterSize file.fs) = some clusterBuffer)
    (runs : RunsSuffice machine file trace heap data clusterBuffer) :
    OwnStores machine file trace heap data clusterBuffer := by
  have record := settled_record (alloc_settled got)
  have area' := record.area area
  constructor
  · intro k r passes place member
    by_cases more : r.bytesRead < file.dataLength
    case neg =>
      rw [turnStores_done more] at member
      cases member
    rw [turnStores_more machine more] at member
    obtain ⟨offset, stored, rfl⟩ := List.mem_map.mp member
    exact (given_part_iff area' got' (by decide)).mpr (runs.sectors offset (offset_of_first passes stored))
  · intro k r passes place member
    obtain ⟨below, readable, rfl⟩ := turnStores_bytes passes member
    have here := passes_at passes
    have more := (more_iff here).mpr below
    by_cases none : (copySize file r.bytesRead).toNat = 0
    · intro addr has
      rw [none] at has
      exact (Nat.not_lt_zero _ has).elim
    · apply (given_part_iff area got (Nat.pos_of_ne_zero none)).mpr
      rw [bytes_end here more]
      exact runs.bytes k ⟨r.trace.reads, r.cluster⟩ below here.place readable
  · rintro (null | null)
    · exact (runs.given.1 null).elim
    · exact (runs.given.2 null).elim

theorem runs_of_own (area : heap.startAddr.toNat + heap.maxSize.toNat ≤ 2 ^ 64)
    (got : alloc heap file.dataLength = some data) (got' : alloc data.heap (clusterSize file.fs) = some clusterBuffer)
    (own : OwnStores machine file trace heap data clusterBuffer) (stores : ¬ NothingRead machine file trace) :
    RunsSuffice machine file trace heap data clusterBuffer := by
  have record := settled_record (alloc_settled got)
  have area' := record.area area
  unfold NothingRead at stores
  rw [not_or] at stores
  obtain ⟨some, delivered⟩ := stores
  have start : Passes machine file trace 0 (readStart machine file trace) := rfl
  have more : (readStart machine file trace).bytesRead < file.dataLength := BitVec.toNat_pos_of_ne_zero some
  have first := turnStores_more machine more data.ptr clusterBuffer.ptr
  have given : data.ptr ≠ 0 ∧ clusterBuffer.ptr ≠ 0 := by
    rw [ne_eq, ne_eq, ← not_or]
    intro null
    have silent := (own.refused null).1 0 _ start
    have offsets := congrArg Stores.sectors (first.symm.trans silent)
    exact delivered (sectorOffsets_nil_iff.mp (List.map_eq_nil_iff.mp offsets))
  constructor
  · exact given
  · intro offset stored
    apply (given_part_iff area' got' (by decide)).mp
    apply own.sectors 0 _ start
    rw [first]
    exact List.mem_map.mpr ⟨offset, stored, rfl⟩
  · intro j place needed reached readable
    have whole : clusterSize file.fs ≠ 0 := by
      intro zero
      rw [zero] at got'
      obtain rfl := Option.some.inj got'
      exact given.2 rfl
    have positive : 0 < (clusterSize file.fs).toNat := BitVec.toNat_pos_of_ne_zero whole
    obtain ⟨r, passes, rfl⟩ := passes_of_clusterAt needed reached
    have here := passes_at passes
    have more := (more_iff here).mpr needed
    have stored := turnStores_readable here more readable data.ptr clusterBuffer.ptr
    have some : 0 < (copySize file r.bytesRead).toNat := by
      rw [toNat_copySize more, here.bytes]
      omega
    rw [← bytes_end here more]
    exact (given_part_iff area got some).mp (own.bytes j r passes _ stored)

end

/-- For every well-formed heap, volume, file entry and answers of the drive: the stores of a call go to the blocks that
the heap gives for it exactly if there are none, or if both requests are served by runs with room for them. -/
theorem stores_own_iff (machine : Machine) (file : FileEntry) (trace : Trace) (heap : Heap) (live : List Live)
    (formed : WellFormed heap live) (data clusterBuffer : Call) (got : alloc heap file.dataLength = some data)
    (got' : alloc data.heap (clusterSize file.fs) = some clusterBuffer) :
    OwnStores machine file trace heap data clusterBuffer ↔
      NothingRead machine file trace ∨ RunsSuffice machine file trace heap data clusterBuffer := by
  constructor
  · intro own
    by_cases nothing : NothingRead machine file trace
    · exact Or.inl nothing
    · exact Or.inr (runs_of_own formed.area got got' own nothing)
  · rintro (nothing | runs)
    · exact own_of_nothing nothing
    · exact own_of_runs formed.area got got' runs

/-- A file of one cluster on a heap of four free blocks. -/
theorem short_file_stores_own :
    OwnStores withoutTable shortFile ⟨[], []⟩ fourBlocks (grant fourBlocks 0 1 [0, 0])
      (grant (fourBlocks.mark 0 1) 1 1 [0, 1, 1]) := by
  have got : alloc fourBlocks shortFile.dataLength = some (grant fourBlocks 0 1 [0, 0]) := rfl
  have got' : alloc (fourBlocks.mark 0 1) (clusterSize shortFile.fs) = some (grant (fourBlocks.mark 0 1) 1 1 [0, 1, 1]) :=
    rfl
  apply (stores_own_iff withoutTable shortFile ⟨[], []⟩ fourBlocks [] fourBlocks_formed _ _ got got').mpr
  have delivered : sectorOffsets shortFile.fs withoutTable (clusterToLba shortFile.fs shortFile.firstCluster)
      (sectorsPerCluster shortFile.fs).toNat 0 [] = [0] := by decide +kernel
  have data : room fourBlocks (grant fourBlocks 0 1 [0, 0]) = 512 := by decide
  have clusterBuffer : room (fourBlocks.mark 0 1) (grant (fourBlocks.mark 0 1) 1 1 [0, 1, 1]) = 512 := by decide
  refine Or.inr ⟨by decide, ?_, ?_⟩
  · intro offset member
    rw [delivered] at member
    obtain rfl := List.mem_singleton.mp member
    exact clusterBuffer.ge
  · intro j place _ _ _
    rw [data]
    exact Nat.min_le_right ..

/-- The first and the third of four blocks are free. -/
def spotted : Heap := (fourBlocks.mark 1 2).mark 3 4

/-- There is no run for a file of two blocks: its first cluster is stored to the null pointer, where no block is. -/
theorem file_stored_to_null :
    WellFormed spotted [⟨3, 4, 512⟩, ⟨1, 2, 512⟩] ∧
      alloc spotted chainedFile.dataLength = some (refuse spotted [0, 0, 1, 2, 2, 3]) ∧
      alloc spotted (clusterSize chainedFile.fs) = some (grant spotted 0 1 [0, 0]) ∧
      (⟨0, 512⟩ : Area) ∈ (turnStores withoutTable chainedFile 0 (spotted.blockAddr 0)
        (readStart withoutTable chainedFile ⟨[], []⟩)).bytes ∧
      ¬ OwnStores withoutTable chainedFile ⟨[], []⟩ spotted (refuse spotted [0, 0, 1, 2, 2, 3]) (grant spotted 0 1 [0, 0]) := by
  have formed : WellFormed spotted [⟨3, 4, 512⟩, ⟨1, 2, 512⟩] := by
    constructor
    · have second := pictured_mark fourBlocks_formed.pictured ⟨1, 2, 512⟩ (fun _ _ _ => rfl) (by decide) (by decide)
        (by decide)
      apply pictured_mark second ⟨3, 4, 512⟩ _ (by decide) (by decide) (by decide)
      intro k low high
      obtain rfl : k = 3 := by
        dsimp only at low high
        omega
      rfl
    · decide
    · decide
    · decide
  have stored : (⟨0, 512⟩ : Area) ∈ (turnStores withoutTable chainedFile 0 (spotted.blockAddr 0)
      (readStart withoutTable chainedFile ⟨[], []⟩)).bytes := by decide +kernel
  refine ⟨formed, rfl, rfl, stored, ?_⟩
  intro own
  obtain ⟨k, _, free, taken, _⟩ := own.bytes 0 _ rfl _ stored 0 (by decide)
  exact Bool.false_ne_true (free.symm.trans taken)

end Ketone.Exfat.FileStores
