import Ketone.Exfat.OpenFile

/-! Reading a file: its clusters are read one after the other into a buffer and copied behind
each other into the block that is returned. There are two readers. -/

namespace Ketone.Exfat.ReadFile
open Library.Loop Volume OpenFile

structure Data where
  block : Nat
  bytes : Buffer

structure Reading where
  bytesRead : BitVec 64
  cluster : BitVec 32
  data : Buffer
  clusterBuffer : Buffer
  trace : Trace

/-- What a reader returns, and what it has stored through its second argument. -/
structure Answer where
  data : Option Data
  size : Option (BitVec 64)
  trace : Trace

/-- A request for no bytes gets the null pointer. -/
def pointer (size : BitVec 64) (block : Nat) (bytes : Buffer) : Option Data :=
  if size = 0 then none else some ⟨block, bytes⟩

def copy (data : Buffer) (start count : Nat) (clusterBuffer : Buffer) : Buffer := fun p =>
  if start ≤ p ∧ p < start + count then clusterBuffer (p - start) else data p

/-- The clusters of the file are consecutive. An entry to which no flags have been stored has no
bytes to read either. -/
def noFatChain (file : FileEntry) : Bool := file.flags.getD 0 &&& 0x02 != 0

def copySize (file : FileEntry) (bytesRead : BitVec 64) : BitVec 64 :=
  let remaining := file.dataLength - bytesRead
  if remaining < clusterSize file.fs then remaining else clusterSize file.fs

def readAllBody (machine : Machine) (file : FileEntry) (data clusterBuffer : Nat) (r : Reading) :
    Turn Reading Answer :=
  if ¬ r.bytesRead < file.dataLength then
    .leave ⟨pointer file.dataLength data r.data, some r.bytesRead, r.trace.kfree clusterBuffer⟩
  else
    match readCluster file.fs machine r.cluster r.clusterBuffer r.trace with
    | (none, trace) => .leave ⟨none, none, (trace.kfree clusterBuffer).kfree data⟩
    | (some buffer, trace) =>
        let bytes := copy r.data r.bytesRead.toNat (copySize file r.bytesRead).toNat buffer
        let bytesRead := r.bytesRead + copySize file r.bytesRead
        if bytesRead ≥ file.dataLength then
          .leave ⟨pointer file.dataLength data bytes, some bytesRead, trace.kfree clusterBuffer⟩
        else if noFatChain file then .again ⟨bytesRead, r.cluster + 1, bytes, buffer, trace⟩
        else
          let (cluster, trace) := getFatEntry file.fs machine trace r.cluster
          if cluster ≥ 0xFFFFFFF8 then .leave ⟨none, none, (trace.kfree clusterBuffer).kfree data⟩
          else .again ⟨bytesRead, cluster, bytes, buffer, trace⟩

def readFileAll (machine : Machine) (file : FileEntry) (bound : Nat) (trace : Trace) : Option Answer :=
  let (data, trace) := trace.kalloc file.dataLength
  let (clusterBuffer, trace) := trace.kalloc (clusterSize file.fs)
  run (readAllBody machine file data clusterBuffer) bound
    ⟨0, file.firstCluster, machine.stale trace.reads, machine.stale trace.reads, trace⟩

/-- The sectors of a cluster, where a failed read leaves the buffer as it is. -/
def readSectorsUnchecked (fs : ExfatInstance) (machine : Machine) (lba : BitVec 64) :
    Nat → Nat → Buffer → Trace → Buffer × Trace
  | 0, _, buffer, trace => (buffer, trace)
  | todo + 1, s, buffer, trace =>
      match readDisk machine trace (lba + BitVec.ofNat 64 s) buffer (BitVec.ofNat 64 s * bytesPerSector fs) with
      | (none, trace) => readSectorsUnchecked fs machine lba todo (s + 1) buffer trace
      | (some buffer, trace) => readSectorsUnchecked fs machine lba todo (s + 1) buffer trace

/-- The size of the cluster buffer is a product of two numbers of type `int`. -/
def intClusterSize (fs : ExfatInstance) : BitVec 64 :=
  let bytesPerSector : BitVec 32 := 1 <<< (fs.bytesPerSectorShift.toNat % 32)
  let sectorsPerCluster : BitVec 32 := 1 <<< (fs.sectorsPerClusterShift.toNat % 32)
  (bytesPerSector * sectorsPerCluster).signExtend 64

/-- Sectors that do not fit the cluster buffer are stored past the end of it. -/
inductive FileOutcome where
  | returned (answer : Answer)
  | smashed

def readFileBody (machine : Machine) (file : FileEntry) (data clusterBuffer : Nat) (r : Reading) :
    Turn Reading FileOutcome :=
  let done (bytes : Buffer) (trace : Trace) : Turn Reading FileOutcome :=
    .leave (.returned ⟨pointer file.dataLength data bytes, some file.dataLength, trace.kfree clusterBuffer⟩)
  if ¬ r.bytesRead < file.dataLength then done r.data r.trace
  else if intClusterSize file.fs < clusterSize file.fs then .leave .smashed
  else
    let (buffer, trace) := readSectorsUnchecked file.fs machine (clusterToLba file.fs r.cluster)
      (sectorsPerCluster file.fs).toNat 0 r.clusterBuffer r.trace
    let bytes := copy r.data r.bytesRead.toNat (copySize file r.bytesRead).toNat buffer
    let bytesRead := r.bytesRead + copySize file r.bytesRead
    if bytesRead ≥ file.dataLength then done bytes trace
    else if noFatChain file then .again ⟨bytesRead, r.cluster + 1, bytes, buffer, trace⟩
    else
      let (cluster, trace) := getFatEntry file.fs machine trace r.cluster
      .again ⟨bytesRead, cluster, bytes, buffer, trace⟩

def readFile (machine : Machine) (file : FileEntry) (bound : Nat) (trace : Trace) : Option FileOutcome :=
  let (data, trace) := trace.kalloc file.dataLength
  let (clusterBuffer, trace) := trace.kalloc (intClusterSize file.fs)
  run (readFileBody machine file data clusterBuffer) bound
    ⟨0, file.firstCluster, machine.stale trace.reads, machine.stale trace.reads, trace⟩

end Ketone.Exfat.ReadFile
