import Ketone.Exfat.Volume
import Ketone.Library.Bytes
import Ketone.Library.Components

/-! Opening a file: the path is taken component by component, and each component is looked up
in one directory, whose clusters are read one after the other into a buffer. -/

namespace Ketone.Exfat.OpenFile
open Library Library.Loop Volume

/-- The string at a pointer ends at the first NUL. -/
def strcmp : Str → Str → Int
  | [], b => 0 - (b.headD 0).toNat
  | x :: a, b => if x ≠ 0 ∧ x = b.headD 0 then strcmp a b.tail else x.toNat - (b.headD 0).toNat

/-- A field that nothing has been stored to holds nothing. -/
structure FileEntry where
  path : Str
  fs : ExfatInstance
  attributes : BitVec 16
  firstCluster : BitVec 32
  validDataLength : Option (BitVec 64)
  dataLength : BitVec 64
  nameLength : BitVec 8
  nameHash : Option (BitVec 16)
  flags : Option (BitVec 8)
deriving DecidableEq

def sizeofFileEntry : BitVec 64 := 48

structure Decoding where
  file : FileEntry
  filename : Str
deriving DecidableEq

/-- Up to fifteen characters, each cut to its low byte, until the name is complete. -/
def decodeName (buffer : Buffer) (offset : Nat) (d : Decoding) : Decoding :=
  (List.range 15).foldl (fun d k =>
    if d.filename.length ≥ d.file.nameLength.toNat then d
    else { d with filename := d.filename ++ [(readU16Le buffer (offset + 0x02 + k * 2)).setWidth 8] }) d

def decodeSecondary (buffer : Buffer) (i : Nat) (d : Decoding) (f : Nat) : Decoding :=
  let offset := (i + 1 + f) * 32
  let d := if buffer offset = 0xC0 then
      { d with file := { d.file with
          nameLength := buffer (offset + 0x03)
          nameHash := some (readU16Le buffer (offset + 0x04))
          flags := some (buffer (offset + 0x01))
          validDataLength := some (readU64Le buffer (offset + 0x08))
          firstCluster := readU32Le buffer (offset + 0x14)
          dataLength := readU64Le buffer (offset + 0x18) } }
    else d
  if buffer offset = 0xC1 then decodeName buffer offset d else d

/-- The set whose file entry is the `i`-th of the cluster. -/
def decodeSet (fs : ExfatInstance) (buffer : Buffer) (i : Nat) : Decoding :=
  let secondaryCount := buffer (i * 32 + 0x01)
  (List.range secondaryCount.toNat).foldl (decodeSecondary buffer i)
    ⟨⟨[], fs, readU16Le buffer (i * 32 + 0x04), 0, none, 0, 0, none, none⟩, []⟩

structure Held where
  entry : FileEntry
  file : Nat
  filename : Nat
deriving DecidableEq

def Held.kfree (held : Held) (trace : Trace) : Trace := (trace.kfree held.filename).kfree held.file

/-- Where the loop over the entries of a cluster leads: past `directory_done`, or to the next cluster. -/
inductive Scan where
  | directoryDone (found : Option Held)
  | exhausted
deriving DecidableEq

def scanEntries (fs : ExfatInstance) (component : Str) (buffer : Buffer) : Nat → Nat → Trace → Scan × Trace
  | 0, _, trace => (.exhausted, trace)
  | todo + 1, i, trace =>
      if buffer (i * 32) = 0x00 then (.directoryDone none, trace)
      else if buffer (i * 32) ≠ 0x85 then scanEntries fs component buffer todo (i + 1) trace
      else
        let (file, trace) := trace.kalloc sizeofFileEntry
        let (filename, trace) := trace.kalloc 256
        let d := decodeSet fs buffer i
        let held : Held := ⟨{ d.file with path := d.filename }, file, filename⟩
        if strcmp d.filename component = 0 then (.directoryDone (some held), trace)
        else scanEntries fs component buffer todo (i + 1) (held.kfree trace)

def scanCluster (fs : ExfatInstance) (component : Str) (buffer : Buffer) (trace : Trace) : Scan × Trace :=
  scanEntries fs component buffer (clusterSize fs / 32).toNat 0 trace

structure Walk where
  cluster : BitVec 32
  buffer : Buffer
  trace : Trace

/-- A read failure returns from the whole call; the buffer is free by then. -/
inductive Walked where
  | unreadable (trace : Trace)
  | directoryDone (found : Option Held) (trace : Trace)
deriving DecidableEq

def walkBody (machine : Machine) (fs : ExfatInstance) (component : Str) (block : Nat) (w : Walk) :
    Turn Walk Walked :=
  match readCluster fs machine w.cluster w.buffer w.trace with
  | (none, trace) => .leave (.unreadable (trace.kfree block))
  | (some buffer, trace) =>
      match scanCluster fs component buffer trace with
      | (.directoryDone found, trace) => .leave (.directoryDone found trace)
      | (.exhausted, trace) =>
          let (nextCluster, trace) := getFatEntry fs machine trace w.cluster
          if nextCluster ≥ 0xFFFFFFF8 then .leave (.directoryDone none trace)
          else .again ⟨nextCluster, buffer, trace⟩

def SLASH : BitVec 8 := 0x2F

structure Opening where
  current : Str
  directoryCluster : BitVec 32
  trace : Trace

/-- A component that does not fit its array of 256 is stored past the end of it. -/
inductive Outcome where
  | returned (found : Option Held)
  | smashed
deriving DecidableEq

def openBody (machine : Machine) (fs : ExfatInstance) (bound : Nat) (o : Opening) :
    Option (Turn Opening (Outcome × Trace)) :=
  if o.current.headD 0 = 0 then some (.leave (.returned none, o.trace))
  else
    let component := o.current.takeWhile fun c => c ≠ SLASH ∧ c ≠ 0
    if component.length ≥ 256 then some (.leave (.smashed, o.trace))
    else
      let next := (o.current.drop component.length).dropWhile (· = SLASH)
      let (block, trace) := o.trace.kalloc (clusterSize fs)
      match run (walkBody machine fs component block) bound
          ⟨o.directoryCluster, machine.stale trace.reads, trace⟩ with
      | none => none
      | some (.unreadable trace) => some (.leave (.returned none, trace))
      | some (.directoryDone found trace) =>
          let trace := trace.kfree block
          match found with
          | none => some (.leave (.returned none, trace))
          | some held =>
              if next.headD 0 = 0 then some (.leave (.returned (some held), trace))
              else if held.entry.attributes &&& 0x0010 = 0 then some (.leave (.returned none, held.kfree trace))
              else some (.again ⟨next, held.entry.firstCluster, held.kfree trace⟩)

/-- The call, with a bound on the iterations of each of its loops. -/
def openFile (machine : Machine) (fs : ExfatInstance) (path : Str) (bound : Nat) (trace : Trace) :
    Option (Outcome × Trace) :=
  runPartial (openBody machine fs bound) bound ⟨path.dropWhile (· = SLASH), fs.rootCluster, trace⟩

/-- The call ends, with this outcome. -/
def Opens (machine : Machine) (fs : ExfatInstance) (path : Str) (trace : Trace) (outcome : Outcome × Trace) : Prop :=
  ∃ bound, openFile machine fs path bound trace = some outcome

end Ketone.Exfat.OpenFile
