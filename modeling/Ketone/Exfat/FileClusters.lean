import Ketone.Exfat.Lookup
import Ketone.Exfat.ReadFile

/-! The clusters of a file, in the order in which they are read, and what one turn of the reader
that checks does with the `j`-th of them. -/

namespace Ketone.Exfat.FileClusters
open Library.Loop Volume OpenFile ReadFile Lookup

structure Place where
  reads : List (BitVec 64)
  cluster : BitVec 32

section
variable (machine : Machine) (file : FileEntry) (stale : Buffer)

/-- The next cluster is the one behind, or the one that the table names; there is none after a
cluster that cannot be read. -/
def follow (place : Place) : Option Place :=
  match showCluster machine file.fs stale place.reads place.cluster with
  | (none, _) => none
  | (some _, seen) =>
      if noFatChain file then some ⟨seen, place.cluster + 1⟩
      else
        let (behind, known) := chain machine file.fs seen place.cluster
        if END_OF_CHAIN ≤ behind then none else some ⟨known, behind⟩

def clusterAt (reads : List (BitVec 64)) (j : Nat) : Option Place :=
  nth (follow machine file stale) j ⟨reads, file.firstCluster⟩

def Readable (place : Place) : Prop :=
  (showCluster machine file.fs stale place.reads place.cluster).1.isSome = true

instance (place : Place) : Decidable (Readable machine file stale place) := by
  unfold Readable; infer_instance

/-- Every cluster that holds bytes of the file is reached and can be read. -/
def Complete (reads : List (BitVec 64)) : Prop :=
  ∀ j, j * (clusterSize file.fs).toNat < file.dataLength.toNat →
    ∃ place, clusterAt machine file stale reads j = some place ∧ Readable machine file stale place

structure At (reads : List (BitVec 64)) (j : Nat) (r : Reading) : Prop where
  bytes : r.bytesRead.toNat = j * (clusterSize file.fs).toNat
  place : clusterAt machine file stale reads j = some ⟨r.trace.reads, r.cluster⟩
  buffer : ∀ p, r.clusterBuffer p ≠ stale p → Overwritten file.fs 0 (sectorsPerCluster file.fs).toNat p

end

section
variable {file : FileEntry} {bytesRead : BitVec 64}

theorem toNat_copySize (more : bytesRead < file.dataLength) :
    (copySize file bytesRead).toNat = min (file.dataLength.toNat - bytesRead.toNat) (clusterSize file.fs).toNat := by
  have remaining : (file.dataLength - bytesRead).toNat = file.dataLength.toNat - bytesRead.toNat :=
    BitVec.toNat_sub_of_le (BitVec.le_of_lt more)
  unfold copySize
  dsimp only
  split
  next less =>
    rw [BitVec.lt_def, remaining] at less
    omega
  next enough =>
    rw [BitVec.lt_def, remaining] at enough
    omega

theorem toNat_bytesRead (more : bytesRead < file.dataLength) :
    (bytesRead + copySize file bytesRead).toNat =
      min file.dataLength.toNat (bytesRead.toNat + (clusterSize file.fs).toNat) := by
  have size := toNat_copySize more
  have bound := file.dataLength.isLt
  rw [BitVec.lt_def] at more
  rw [BitVec.toNat_add, size]
  omega

end

section
variable {machine : Machine} {file : FileEntry} {stale : Buffer} {reads : List (BitVec 64)} {j : Nat} {r : Reading}

theorem at_start (heap : List HeapCall) :
    At machine file stale reads 0 ⟨0, file.firstCluster, stale, stale, ⟨reads, heap⟩⟩ := by
  refine ⟨?_, rfl, ?_⟩
  · rw [Nat.zero_mul]
    rfl
  · intro p changed
    exact absurd rfl changed

/-- What is left of a turn once the cluster has been read. -/
theorem readAllBody_read (data clusterBuffer : Nat) {buffer : Buffer} {trace : Trace}
    (more : r.bytesRead < file.dataLength)
    (read : readCluster file.fs machine r.cluster r.clusterBuffer r.trace = (some buffer, trace)) :
    readAllBody machine file data clusterBuffer r =
      if r.bytesRead + copySize file r.bytesRead ≥ file.dataLength then
        .leave ⟨pointer file.dataLength data
            (copy r.data r.bytesRead.toNat (copySize file r.bytesRead).toNat buffer),
          some (r.bytesRead + copySize file r.bytesRead), trace.kfree clusterBuffer⟩
      else if noFatChain file then
        .again ⟨r.bytesRead + copySize file r.bytesRead, r.cluster + 1,
          copy r.data r.bytesRead.toNat (copySize file r.bytesRead).toNat buffer, buffer, trace⟩
      else if (getFatEntry file.fs machine trace r.cluster).1 ≥ 0xFFFFFFF8 then
        .leave ⟨none, none, ((getFatEntry file.fs machine trace r.cluster).2.kfree clusterBuffer).kfree data⟩
      else
        .again ⟨r.bytesRead + copySize file r.bytesRead, (getFatEntry file.fs machine trace r.cluster).1,
          copy r.data r.bytesRead.toNat (copySize file r.bytesRead).toNat buffer, buffer,
          (getFatEntry file.fs machine trace r.cluster).2⟩ := by
  unfold readAllBody
  rw [if_neg (not_not.mpr more), read]

/-- How a turn of the reader ends when something is missing. -/
def Refuses (data clusterBuffer : Nat) (machine : Machine) (file : FileEntry) (r : Reading) : Prop :=
  ∃ trace, readAllBody machine file data clusterBuffer r = .leave ⟨none, none, trace⟩

theorem At.follows (here : At machine file stale reads j r) :
    clusterAt machine file stale reads (j + 1) = follow machine file stale ⟨r.trace.reads, r.cluster⟩ := by
  have place := here.place
  unfold clusterAt at place ⊢
  rw [nth_succ, place, Option.bind_some]

theorem readAllBody_behind (data clusterBuffer : Nat) (here : At machine file stale reads j r) {page : Buffer}
    {seen : List (BitVec 64)} (shown : showCluster machine file.fs stale r.trace.reads r.cluster = (some page, seen))
    (below : (j + 1) * (clusterSize file.fs).toNat < file.dataLength.toNat) :
    (clusterAt machine file stale reads (j + 1) = none ∧ Refuses data clusterBuffer machine file r) ∨
    ∃ next, readAllBody machine file data clusterBuffer r = .again next ∧ At machine file stale reads (j + 1) next ∧
      next.data = copy r.data (j * (clusterSize file.fs).toNat) (clusterSize file.fs).toNat page := by
  have step : (j + 1) * (clusterSize file.fs).toNat = j * (clusterSize file.fs).toNat + (clusterSize file.fs).toNat :=
    Nat.succ_mul ..
  have more : r.bytesRead < file.dataLength := by
    rw [BitVec.lt_def, here.bytes]
    omega
  have copied : (copySize file r.bytesRead).toNat = (clusterSize file.fs).toNat := by
    rw [toNat_copySize more, here.bytes]
    omega
  have bytes : (r.bytesRead + copySize file r.bytesRead).toNat = (j + 1) * (clusterSize file.fs).toNat := by
    rw [toNat_bytesRead more, here.bytes]
    omega
  have turn := readAllBody_read data clusterBuffer more (readCluster_shows r.trace.heap here.buffer shown)
  rw [if_neg (by rw [ge_iff_le, BitVec.le_def, bytes]; omega), here.bytes, copied] at turn
  have followed := here.follows
  unfold follow at followed
  rw [shown] at followed
  dsimp only at followed
  by_cases consecutive : noFatChain file = true
  · rw [if_pos consecutive] at turn followed
    exact Or.inr ⟨_, turn, ⟨bytes, followed, showCluster_frame shown⟩, rfl⟩
  · rw [if_neg consecutive] at turn followed
    cases follows : chain machine file.fs seen r.cluster with
    | mk behind known =>
      obtain ⟨heap, fat⟩ := getFatEntry_chain r.trace.heap follows
      rw [fat] at turn
      rw [follows] at followed
      dsimp only at turn followed
      by_cases stop : END_OF_CHAIN ≤ behind
      · rw [if_pos stop] at followed
        exact Or.inl ⟨followed, _, turn.trans (if_pos stop)⟩
      · rw [if_neg stop] at followed
        exact Or.inr ⟨_, turn.trans (if_neg stop), ⟨bytes, followed, showCluster_frame shown⟩, rfl⟩

/-- Everything one turn of the reader can do: the file is complete; its cluster cannot be read; it
was the last one; there is none behind it; or the reader goes on to that one. -/
theorem readAllBody_cases (data clusterBuffer : Nat) (here : At machine file stale reads j r) :
    let size := (clusterSize file.fs).toNat
    (file.dataLength.toNat ≤ j * size ∧ ∃ trace, readAllBody machine file data clusterBuffer r =
      .leave ⟨pointer file.dataLength data r.data, some r.bytesRead, trace⟩) ∨
    (j * size < file.dataLength.toNat ∧ ¬ Readable machine file stale ⟨r.trace.reads, r.cluster⟩ ∧
      Refuses data clusterBuffer machine file r) ∨
    ∃ page seen, showCluster machine file.fs stale r.trace.reads r.cluster = (some page, seen) ∧
      j * size < file.dataLength.toNat ∧
      ((file.dataLength.toNat ≤ (j + 1) * size ∧ ∃ trace, readAllBody machine file data clusterBuffer r =
          .leave ⟨pointer file.dataLength data (copy r.data (j * size) (file.dataLength.toNat - j * size) page),
            some file.dataLength, trace⟩) ∨
        ((j + 1) * size < file.dataLength.toNat ∧ clusterAt machine file stale reads (j + 1) = none ∧
          Refuses data clusterBuffer machine file r) ∨
        ((j + 1) * size < file.dataLength.toNat ∧ ∃ next, readAllBody machine file data clusterBuffer r =
          .again next ∧ At machine file stale reads (j + 1) next ∧
          next.data = copy r.data (j * size) size page)) := by
  intro size
  have start : r.bytesRead.toNat = j * size := here.bytes
  have step : (j + 1) * size = j * size + size := Nat.succ_mul j size
  by_cases more : r.bytesRead < file.dataLength
  case neg =>
    rw [BitVec.lt_def, start] at more
    refine Or.inl ⟨by omega, ?_⟩
    unfold readAllBody
    rw [if_pos (by rw [BitVec.lt_def, start]; exact more)]
    exact ⟨_, rfl⟩
  have below := more
  rw [BitVec.lt_def, start] at below
  have copied := toNat_copySize more
  have got := toNat_bytesRead more
  rw [start] at copied got
  change _ = min _ size at copied
  change _ = min _ (_ + size) at got
  refine Or.inr ?_
  cases shown : showCluster machine file.fs stale r.trace.reads r.cluster with
  | mk page seen =>
    have read := readCluster_shows r.trace.heap here.buffer shown
    cases page with
    | none =>
      refine Or.inl ⟨below, ?_, ?_⟩
      · unfold Readable
        rw [shown]
        exact Bool.false_ne_true
      · refine ⟨(⟨seen, r.trace.heap⟩ : Trace).kfree clusterBuffer |>.kfree data, ?_⟩
        unfold readAllBody
        rw [if_neg (not_not.mpr more), read]
    | some page =>
      refine Or.inr ⟨page, seen, rfl, below, ?_⟩
      by_cases last : file.dataLength.toNat ≤ (j + 1) * size
      · have turn := readAllBody_read data clusterBuffer more read
        have whole : r.bytesRead + copySize file r.bytesRead = file.dataLength := by
          apply BitVec.eq_of_toNat_eq
          rw [got]
          omega
        rw [if_pos (by rw [whole]; exact BitVec.le_refl _), whole, start, copied,
          show min (file.dataLength.toNat - j * size) size = file.dataLength.toNat - j * size by omega] at turn
        exact Or.inl ⟨last, _, turn⟩
      · have more' : (j + 1) * size < file.dataLength.toNat := Nat.lt_of_not_le last
        rcases readAllBody_behind data clusterBuffer here shown more' with ⟨none, refuses⟩ | ⟨next, turn, at_next, stored⟩
        · exact Or.inr (Or.inl ⟨more', none, refuses⟩)
        · exact Or.inr (Or.inr ⟨more', next, turn, at_next, stored⟩)

/-- A reader that goes on has read a whole cluster and is not at the end. -/
theorem readAllBody_grows {data clusterBuffer : Nat} {next : Reading}
    (turn : readAllBody machine file data clusterBuffer r = .again next) :
    next.bytesRead.toNat = r.bytesRead.toNat + (clusterSize file.fs).toNat ∧
      next.bytesRead.toNat < file.dataLength.toNat := by
  by_cases more : r.bytesRead < file.dataLength
  case neg =>
    unfold readAllBody at turn
    rw [if_pos more] at turn
    simp at turn
  have got := toNat_bytesRead more
  cases read : readCluster file.fs machine r.cluster r.clusterBuffer r.trace with
  | mk buffer trace =>
    cases buffer with
    | none =>
      unfold readAllBody at turn
      rw [if_neg (not_not.mpr more), read] at turn
      simp at turn
    | some buffer =>
      rw [readAllBody_read data clusterBuffer more read] at turn
      split at turn
      · simp at turn
      next incomplete =>
        rw [ge_iff_le, BitVec.le_def, got] at incomplete
        have bytes : next.bytesRead = r.bytesRead + copySize file r.bytesRead := by
          split at turn
          · rw [← Turn.again.inj turn]
          · split at turn
            · simp at turn
            · rw [← Turn.again.inj turn]
        rw [bytes, got]
        omega

end

section
variable (machine : Machine) (file : FileEntry) (trace : Trace)

def dataBlock : Nat := trace.heap.length

def bufferBlock : Nat := (trace.kalloc file.dataLength).2.heap.length

def readStart : Reading :=
  ⟨0, file.firstCluster, machine.stale trace.reads, machine.stale trace.reads,
    ((trace.kalloc file.dataLength).2.kalloc (clusterSize file.fs)).2⟩

theorem readFileAll_eq (bound : Nat) : readFileAll machine file bound trace =
    run (readAllBody machine file (dataBlock trace) (bufferBlock file trace)) bound (readStart machine file trace) :=
  rfl

theorem at_readStart : At machine file (machine.stale trace.reads) trace.reads 0 (readStart machine file trace) :=
  at_start _

end

section
variable {machine : Machine} {file : FileEntry} {trace : Trace}

/-- A file without bytes has no data. -/
theorem readFileAll_empty {bound : Nat} {answer : Answer} (empty : file.dataLength = 0)
    (returns : readFileAll machine file bound trace = some answer) : answer.data = none := by
  cases bound with
  | zero => cases returns
  | succ bound =>
    have done : ¬ (0 : BitVec 64) < file.dataLength := by
      rw [empty]
      decide
    have turn : readAllBody machine file (dataBlock trace) (bufferBlock file trace) (readStart machine file trace) =
        .leave _ := if_pos done
    rw [readFileAll_eq, run_leave bound turn] at returns
    rw [← Option.some.inj returns]
    exact if_pos empty

end

def chainedFile : FileEntry := ⟨[], smallVolume, 0x20, 2, some 1024, 1024, 1, some 0, some 1⟩

end Ketone.Exfat.FileClusters
