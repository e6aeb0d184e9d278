import Ketone.Exfat.Asked
import Ketone.Exfat.FileClusters

/-! What becomes of a call when a sector cannot be read. -/

namespace Ketone.Exfat.ReadErrors
open Library Library.Loop Library.Components Volume OpenFile ReadFile Lookup FileClusters PathResolution Descent Asked

/-- The drive gives the sector of the table with the entry of a cluster. -/
def TableAnswers (machine : Machine) (fs : ExfatInstance) (seen : Trace) (cluster : BitVec 32) : Prop :=
  machine.drive seen.reads ((fatLba fs cluster).setWidth 32) ≠ none

section
variable (machine : Machine) (fs : ExfatInstance) (path : CString) (file : FileEntry) (trace : Trace)

/-- No read of the table fails while a file is opened. -/
def OpenTableAnswers : Prop :=
  ∀ o w seen, Walking machine fs path trace o w → LooksBehind machine fs (piece SLASH o.current) w seen →
    TableAnswers machine fs seen w.cluster

/-- A read that fails while a file is opened ends the call on the spot. -/
def OpenErrorsStop : Prop :=
  ∀ o w, Walking machine fs path trace o w →
    FailsFrom machine w.trace.reads.length (afterTurn (walkOf machine fs o w)).reads →
    ∃ trace', walkOf machine fs o w = .leave (.unreadable trace')

/-- If a read fails while a file is opened, the call returns the null pointer. -/
def OpenErrorsGiveNull : Prop :=
  ∀ o w, Walking machine fs path trace o w →
    FailsFrom machine w.trace.reads.length (afterTurn (walkOf machine fs o w)).reads →
    ∃ trace', Opens machine fs path.bytes trace (.returned none, trace')

def Passes (r : Reading) : Prop :=
  ∃ k, nth (onward (readAllBody machine file (dataBlock trace) (bufferBlock file trace))) k
    (readStart machine file trace) = some r

def ReadTableAnswers : Prop :=
  ∀ r seen, Passes machine file trace r → NeedsBehind machine file r seen →
    TableAnswers machine file.fs seen r.cluster

/-- A read that fails while a file is read ends the call on the spot. -/
def ReadErrorsStop : Prop :=
  ∀ r, Passes machine file trace r → FailsFrom machine r.trace.reads.length
      (afterReading (readAllBody machine file (dataBlock trace) (bufferBlock file trace) r)).reads →
    ∃ trace', readAllBody machine file (dataBlock trace) (bufferBlock file trace) r = .leave ⟨none, none, trace'⟩

/-- If a read fails while a file is read, the call returns the null pointer. -/
def ReadErrorsGiveNull : Prop :=
  ∀ r, Passes machine file trace r → FailsFrom machine r.trace.reads.length
      (afterReading (readAllBody machine file (dataBlock trace) (bufferBlock file trace) r)).reads →
    ∃ bound answer, readFileAll machine file bound trace = some answer ∧ answer.data = none

end

section
variable {machine : Machine} {fs : ExfatInstance} {path : CString} {file : FileEntry} {trace : Trace}

theorem failsFrom_table {n : Nat} {seen : Trace} {cluster : BitVec 32} (le : n ≤ seen.reads.length)
    (clean : ¬ FailsFrom machine n seen.reads) :
    FailsFrom machine n (seen.reads ++ [fatLba fs cluster]) ↔ ¬ TableAnswers machine fs seen cluster := by
  rw [failsFrom_append le]
  unfold TableAnswers
  rw [not_not]
  exact or_iff_right clean

theorem readCluster_length (cluster : BitVec 32) (buffer : Buffer) :
    trace.reads.length ≤ (readCluster fs machine cluster buffer trace).2.reads.length := by
  obtain ⟨count, _, asked⟩ := @readSectors_asks machine fs (clusterToLba fs cluster) (sectorsPerCluster fs).toNat 0
    buffer trace
  unfold readCluster
  rw [asked, List.length_append]
  exact Nat.le_add_right _ _

theorem walkBody_fails {component : Str} {block : Nat} {w : Walk}
    (failed : FailsFrom machine w.trace.reads.length (afterTurn (walkBody machine fs component block w)).reads) :
    (∃ trace, walkBody machine fs component block w = .leave (.unreadable trace)) ∨
      ∃ seen, LooksBehind machine fs component w seen ∧ ¬ TableAnswers machine fs seen w.cluster := by
  have clean := @readCluster_none_iff machine fs w.cluster w.buffer w.trace
  have longer := @readCluster_length machine fs w.trace w.cluster w.buffer
  rcases @walkBody_asks machine fs component block w with ⟨gives, _⟩ | ⟨read, same | ⟨seen, looks, table⟩⟩
  · exact Or.inl gives
  · rw [same] at failed
    exact absurd (clean.mpr failed) read
  · refine Or.inr ⟨seen, looks, ?_⟩
    obtain ⟨page, shown, _⟩ := looks
    rw [shown] at clean longer read
    rw [table] at failed
    exact (failsFrom_table longer fun before => read (clean.mpr before)).mp failed

theorem readAllBody_fails {data clusterBuffer : Nat} {r : Reading}
    (failed : FailsFrom machine r.trace.reads.length
      (afterReading (readAllBody machine file data clusterBuffer r)).reads) :
    (∃ trace, readAllBody machine file data clusterBuffer r = .leave ⟨none, none, trace⟩) ∨
      ∃ seen, NeedsBehind machine file r seen ∧ ¬ TableAnswers machine file.fs seen r.cluster := by
  have clean := @readCluster_none_iff machine file.fs r.cluster r.clusterBuffer r.trace
  have longer := @readCluster_length machine file.fs r.trace r.cluster r.clusterBuffer
  rcases @readAllBody_asks machine file data clusterBuffer r with
    idle | ⟨_, ⟨gives, _⟩ | ⟨read, same | ⟨seen, needs, table⟩⟩⟩
  · rw [idle] at failed
    exact absurd failed (not_failsFrom_self _)
  · exact Or.inl gives
  · rw [same] at failed
    exact absurd (clean.mpr failed) read
  · refine Or.inr ⟨seen, needs, ?_⟩
    obtain ⟨_, ⟨page, shown⟩, _⟩ := needs
    rw [shown] at clean longer read
    rw [table] at failed
    exact (failsFrom_table longer fun before => read (clean.mpr before)).mp failed

theorem walkBody_refused {component : Str} (block : Nat) {w : Walk} {seen : Trace}
    (looks : LooksBehind machine fs component w seen) (refused : ¬ TableAnswers machine fs seen w.cluster) :
    FailsFrom machine w.trace.reads.length (afterTurn (walkBody machine fs component block w)).reads ∧
      ∃ next, walkBody machine fs component block w = .again next ∧ next.cluster = 0 := by
  obtain ⟨page, shown, exhausted⟩ := looks
  have longer := @readCluster_length machine fs w.trace w.cluster w.buffer
  have kept : (scanCluster fs component page seen).2.reads = seen.reads := scanEntries_reads ..
  have entry := getFatEntry_eq fs machine (scanCluster fs component page seen).2 w.cluster
  have none := not_not.mp refused
  rw [shown] at longer
  rw [kept, none] at entry
  have goes : ∃ next, walkBody machine fs component block w = .again next ∧ next.cluster = 0 ∧
      next.trace.reads = seen.reads ++ [fatLba fs w.cluster] := by
    unfold walkBody
    rw [shown]
    dsimp only
    cases scanned : scanCluster fs component page seen with
    | mk scan trace =>
      rw [scanned] at exhausted entry
      obtain rfl : scan = .exhausted := exhausted
      dsimp only at entry ⊢
      rw [entry]
      exact ⟨_, rfl, rfl, rfl⟩
  obtain ⟨next, again, zero, reads⟩ := goes
  refine ⟨?_, next, again, zero⟩
  rw [again]
  change FailsFrom machine _ next.trace.reads
  rw [reads]
  exact (failsFrom_append longer _).mpr (Or.inr none)

theorem readAllBody_refused (data clusterBuffer : Nat) {r : Reading} {seen : Trace}
    (needs : NeedsBehind machine file r seen) (refused : ¬ TableAnswers machine file.fs seen r.cluster) :
    FailsFrom machine r.trace.reads.length (afterReading (readAllBody machine file data clusterBuffer r)).reads ∧
      ∃ next, readAllBody machine file data clusterBuffer r = .again next ∧ next.cluster = 0 := by
  obtain ⟨more, ⟨page, shown⟩, incomplete, chained⟩ := needs
  have longer := @readCluster_length machine file.fs r.trace r.cluster r.clusterBuffer
  have entry := getFatEntry_eq file.fs machine seen r.cluster
  have none := not_not.mp refused
  have turn := readAllBody_read data clusterBuffer more shown
  rw [shown] at longer
  rw [none, Option.map_none, Option.getD_none] at entry
  rw [if_neg (BitVec.not_le.mpr incomplete), if_neg (by rw [chained]; decide), entry,
    if_neg (show ¬ (0 : BitVec 32) ≥ 0xFFFFFFF8 by decide)] at turn
  refine ⟨?_, _, turn, rfl⟩
  rw [turn]
  exact (failsFrom_append longer _).mpr (Or.inr none)

/-- For every volume, path, entry and pattern of answers of the drive: each failed read ends the call
on the spot exactly when no read of the table fails in it; and then a call in which a read fails
returns the null pointer. -/
theorem errors_give_null (machine : Machine) (fs : ExfatInstance) (path : CString) (file : FileEntry) (trace : Trace) :
    ((OpenErrorsStop machine fs path trace ↔ OpenTableAnswers machine fs path trace) ∧
      (OpenTableAnswers machine fs path trace → OpenErrorsGiveNull machine fs path trace)) ∧
    (ReadErrorsStop machine file trace ↔ ReadTableAnswers machine file trace) ∧
      (ReadTableAnswers machine file trace → ReadErrorsGiveNull machine file trace) := by
  have opened : OpenTableAnswers machine fs path trace → OpenErrorsStop machine fs path trace := by
    intro answers o w walking failed
    rcases walkBody_fails failed with gives | ⟨seen, looks, refused⟩
    · exact gives
    · exact absurd (answers o w seen walking looks) refused
  have read : ReadTableAnswers machine file trace → ReadErrorsStop machine file trace := by
    intro answers r passes failed
    rcases readAllBody_fails failed with gives | ⟨seen, needs, refused⟩
    · exact gives
    · exact absurd (answers r seen passes needs) refused
  refine ⟨⟨⟨?_, opened⟩, ?_⟩, ⟨?_, read⟩, ?_⟩
  · intro stops o w seen walking looks
    by_contra refused
    obtain ⟨failed, next, again, _⟩ := walkBody_refused o.trace.heap.length looks refused
    obtain ⟨left, gives⟩ := stops o w walking failed
    unfold walkOf at gives
    rw [again] at gives
    simp at gives
  · intro answers o w walking failed
    obtain ⟨left, gives⟩ := opened answers o w walking failed
    obtain ⟨bound, leaves⟩ := walking.leaves gives
    exact ⟨left, opens_of_reaches walking.reaches leaves⟩
  · intro stops r seen passes needs
    by_contra refused
    obtain ⟨failed, next, again, _⟩ := readAllBody_refused (dataBlock trace) (bufferBlock file trace) needs refused
    obtain ⟨left, gives⟩ := stops r passes failed
    rw [again] at gives
    simp at gives
  · intro answers r passes failed
    obtain ⟨left, gives⟩ := read answers r passes failed
    obtain ⟨k, passed⟩ := passes
    refine ⟨k + 1, ⟨none, none, left⟩, ?_, rfl⟩
    rw [readFileAll_eq, run_nth passed]
    exact run_leave 0 gives

end

/-- A drive that refuses the sector of the table; every other sector holds the file set of `f`. -/
def withoutTable : Machine := ⟨fun _ lba => if lba = 1 then none else some (oneSet 0x66 0x20 2), fun _ _ => 0⟩

/-- The second half of the file comes from cluster 0. -/
theorem refused_table_gives_data : ¬ ReadErrorsGiveNull withoutTable chainedFile ⟨[], []⟩ := by
  intro null
  have needs : NeedsBehind withoutTable chainedFile (readStart withoutTable chainedFile ⟨[], []⟩) ⟨[2], _⟩ :=
    ⟨by decide, ⟨_, rfl⟩, by decide, by decide⟩
  obtain ⟨failed, _⟩ := readAllBody_refused (dataBlock ⟨[], []⟩) (bufferBlock chainedFile ⟨[], []⟩) needs (by
    unfold TableAnswers
    decide)
  obtain ⟨bound, answer, returns, nothing⟩ := null _ ⟨0, rfl⟩ failed
  have given : (readFileAll withoutTable chainedFile 2 ⟨[], []⟩).map (·.data.isSome) = some true := by decide +kernel
  obtain ⟨answer', returns', some⟩ := Option.map_eq_some_iff.mp given
  have same := (run_mono (Nat.le_max_left bound 2) returns).symm.trans (run_mono (Nat.le_max_right bound 2) returns')
  rw [Option.some.inj same] at nothing
  rw [nothing] at some
  exact absurd some (by decide)

def shortFile : FileEntry := { chainedFile with dataLength := 512 }

def withoutFile : Machine := ⟨fun _ lba => if lba = 2 then none else some (oneSet 0x66 0x20 2), fun _ _ => 0⟩

theorem refused_file_gives_null : ∃ bound answer,
    readFileAll withoutFile shortFile bound ⟨[], []⟩ = some answer ∧ answer.data = none := by
  have answers : ReadTableAnswers withoutFile shortFile ⟨[], []⟩ := by
    rintro r seen ⟨k, passed⟩ needs
    cases k with
    | zero =>
      obtain rfl := Option.some.inj passed
      exact absurd needs.2.2.1 (by decide)
    | succ k =>
      have last : (onward (readAllBody withoutFile shortFile (dataBlock ⟨[], []⟩) (bufferBlock shortFile ⟨[], []⟩))
          (readStart withoutFile shortFile ⟨[], []⟩)).isNone = true := by decide +kernel
      rw [nth, Option.isNone_iff_eq_none.mp last] at passed
      simp at passed
  apply (errors_give_null withoutFile shortFile.fs ⟨[], by decide⟩ shortFile ⟨[], []⟩).2.2 answers _ ⟨0, rfl⟩
  exact ⟨0, Nat.le_refl 0, 2, by decide +kernel, by decide +kernel⟩

end Ketone.Exfat.ReadErrors
