import Ketone.Exfat.Descent
import Ketone.Exfat.ReadFile

/-! The sectors that one turn of a loop asks the drive for, and whether it gets them. -/

namespace Ketone.Exfat.Asked
open Library Library.Loop Library.Components Volume OpenFile ReadFile PathResolution Descent

/-- The `i`-th read of a call has failed. -/
def Fails (machine : Machine) (reads : List (BitVec 64)) (i : Nat) : Prop :=
  ∃ lba, reads[i]? = some lba ∧ machine.drive (reads.take i) (lba.setWidth 32) = none

/-- A read from the `n`-th on has failed. -/
def FailsFrom (machine : Machine) (n : Nat) (reads : List (BitVec 64)) : Prop := ∃ i, n ≤ i ∧ Fails machine reads i

def sectorsFrom (lba : BitVec 64) (s count : Nat) : List (BitVec 64) :=
  (List.range' s count).map fun k => lba + BitVec.ofNat 64 k

section
variable {machine : Machine} {fs : ExfatInstance}

/-- One read more. -/
theorem failsFrom_append {n : Nat} {reads : List (BitVec 64)} (le : n ≤ reads.length) (lba : BitVec 64) :
    FailsFrom machine n (reads ++ [lba]) ↔
      FailsFrom machine n reads ∨ machine.drive reads (lba.setWidth 32) = none := by
  constructor
  · rintro ⟨i, from_n, asked, here, failed⟩
    rcases Nat.lt_trichotomy i reads.length with before | rfl | behind
    · rw [List.getElem?_append_left before] at here
      rw [List.take_append_of_le_length (by omega)] at failed
      exact Or.inl ⟨i, from_n, asked, here, failed⟩
    · rw [List.getElem?_append_right (Nat.le_refl _), Nat.sub_self] at here
      obtain rfl := Option.some.inj here
      rw [List.take_left] at failed
      exact Or.inr failed
    · rw [List.getElem?_eq_none (by rw [List.length_append]; exact behind)] at here
      simp at here
  · rintro (⟨i, from_n, asked, here, failed⟩ | failed)
    · have before : i < reads.length := (List.getElem?_eq_some_iff.mp here).1
      refine ⟨i, from_n, asked, ?_, ?_⟩
      · rw [List.getElem?_append_left before]
        exact here
      · rw [List.take_append_of_le_length (by omega)]
        exact failed
    · refine ⟨reads.length, le, lba, ?_, ?_⟩
      · rw [List.getElem?_append_right (Nat.le_refl _), Nat.sub_self]
        rfl
      · rw [List.take_left]
        exact failed

theorem not_failsFrom_self (reads : List (BitVec 64)) : ¬ FailsFrom machine reads.length reads := by
  rintro ⟨i, from_n, lba, here, _⟩
  rw [List.getElem?_eq_none from_n] at here
  simp at here

theorem readSectors_asks (lba : BitVec 64) (todo s : Nat) (buffer : Buffer) (trace : Trace) :
    ∃ count, count ≤ todo ∧ (readSectors fs machine lba todo s buffer trace).2 =
      ⟨trace.reads ++ sectorsFrom lba s count, trace.heap⟩ := by
  induction todo generalizing s buffer trace with
  | zero => exact ⟨0, Nat.le_refl 0, by simp [readSectors, sectorsFrom]⟩
  | succ todo ih =>
    unfold readSectors readDisk
    cases machine.drive trace.reads ((lba + BitVec.ofNat 64 s).setWidth 32) with
    | none => exact ⟨1, Nat.succ_le_succ (Nat.zero_le _), by simp [sectorsFrom]⟩
    | some sector =>
      obtain ⟨count, le, asked⟩ := ih (s + 1) (fill buffer (BitVec.ofNat 64 s * bytesPerSector fs).toNat sector)
        ⟨trace.reads ++ [lba + BitVec.ofNat 64 s], trace.heap⟩
      refine ⟨count + 1, by omega, asked.trans ?_⟩
      simp [sectorsFrom, List.range'_succ]

theorem readSectors_none_iff (lba : BitVec 64) (todo s : Nat) (buffer : Buffer) (trace : Trace) {n : Nat}
    (le : n ≤ trace.reads.length) (clean : ¬ FailsFrom machine n trace.reads) :
    (readSectors fs machine lba todo s buffer trace).1 = none ↔
      FailsFrom machine n (readSectors fs machine lba todo s buffer trace).2.reads := by
  induction todo generalizing s buffer trace with
  | zero => exact iff_of_false (Option.some_ne_none _) clean
  | succ todo ih =>
    have one := @failsFrom_append machine _ _ le (lba + BitVec.ofNat 64 s)
    unfold readSectors readDisk
    cases answer : machine.drive trace.reads ((lba + BitVec.ofNat 64 s).setWidth 32) with
    | none => exact iff_of_true rfl (one.mpr (Or.inr answer))
    | some sector =>
      apply ih
      · rw [List.length_append]
        omega
      · intro failed
        rcases one.mp failed with before | failed
        · exact clean before
        · rw [answer] at failed
          simp at failed

theorem readCluster_none_iff (cluster : BitVec 32) (buffer : Buffer) (trace : Trace) :
    (readCluster fs machine cluster buffer trace).1 = none ↔
      FailsFrom machine trace.reads.length (readCluster fs machine cluster buffer trace).2.reads :=
  readSectors_none_iff _ _ _ _ _ (Nat.le_refl _) (not_failsFrom_self _)

end

def Walked.trace : Walked → Trace
  | .unreadable trace => trace
  | .directoryDone _ trace => trace

def afterTurn (turn : Turn Walk Walked) : Trace := turn.after Walk.trace Walked.trace

section
variable {machine : Machine} {fs : ExfatInstance} {component : Str}

theorem scanEntries_reads (buffer : Buffer) (todo i : Nat) (trace : Trace) :
    (scanEntries fs component buffer todo i trace).2.reads = trace.reads := by
  induction todo generalizing i trace with
  | zero => rfl
  | succ todo ih =>
    unfold scanEntries
    split
    · rfl
    · split
      · exact ih _ _
      · dsimp only
        split
        · rfl
        · exact ih _ _

/-- The walk searches the cluster to its end and looks into the table. -/
def LooksBehind (machine : Machine) (fs : ExfatInstance) (component : Str) (w : Walk) (seen : Trace) : Prop :=
  ∃ page, readCluster fs machine w.cluster w.buffer w.trace = (some page, seen) ∧
    (scanCluster fs component page seen).1 = .exhausted

/-- What a turn asks for: the sectors of the cluster, and where the walk looks behind it the sector
of the table that holds its entry. -/
theorem walkBody_asks (block : Nat) (w : Walk) :
    ((∃ trace, walkBody machine fs component block w = .leave (.unreadable trace)) ∧
      (readCluster fs machine w.cluster w.buffer w.trace).1 = none ∧
      (afterTurn (walkBody machine fs component block w)).reads =
        (readCluster fs machine w.cluster w.buffer w.trace).2.reads) ∨
    (readCluster fs machine w.cluster w.buffer w.trace).1 ≠ none ∧
      ((afterTurn (walkBody machine fs component block w)).reads =
          (readCluster fs machine w.cluster w.buffer w.trace).2.reads ∨
        ∃ seen, LooksBehind machine fs component w seen ∧
          (afterTurn (walkBody machine fs component block w)).reads = seen.reads ++ [fatLba fs w.cluster]) := by
  unfold walkBody LooksBehind
  cases readCluster fs machine w.cluster w.buffer w.trace with
  | mk shown seen =>
    cases shown with
    | none => exact Or.inl ⟨⟨_, rfl⟩, rfl, rfl⟩
    | some page =>
      refine Or.inr ⟨Option.some_ne_none _, ?_⟩
      have kept : (scanCluster fs component page seen).2.reads = seen.reads := scanEntries_reads ..
      dsimp only
      cases scanned : scanCluster fs component page seen with
      | mk scan trace =>
        rw [scanned] at kept
        cases scan with
        | directoryDone found => exact Or.inl kept
        | exhausted =>
          refine Or.inr ⟨seen, ⟨page, rfl, by rw [scanned]⟩, ?_⟩
          rw [← kept]
          dsimp only
          rw [getFatEntry_eq]
          dsimp only
          split <;> rfl

end

def afterReading (turn : Turn Reading Answer) : Trace := turn.after Reading.trace Answer.trace

/-- The reader has a cluster of a chained file and needs another. -/
def NeedsBehind (machine : Machine) (file : FileEntry) (r : Reading) (seen : Trace) : Prop :=
  r.bytesRead < file.dataLength ∧ (∃ page, readCluster file.fs machine r.cluster r.clusterBuffer r.trace = (some page, seen)) ∧
    r.bytesRead + copySize file r.bytesRead < file.dataLength ∧ noFatChain file = false

section
variable {machine : Machine} {file : FileEntry}

/-- What a turn asks for: nothing when the file is complete, else the sectors of the cluster, and for
a chained file that is not complete the sector of the table that holds its entry. -/
theorem readAllBody_asks (data clusterBuffer : Nat) (r : Reading) :
    (afterReading (readAllBody machine file data clusterBuffer r)).reads = r.trace.reads ∨
    r.bytesRead < file.dataLength ∧
      (((∃ trace, readAllBody machine file data clusterBuffer r = .leave ⟨none, none, trace⟩) ∧
          (readCluster file.fs machine r.cluster r.clusterBuffer r.trace).1 = none ∧
          (afterReading (readAllBody machine file data clusterBuffer r)).reads =
            (readCluster file.fs machine r.cluster r.clusterBuffer r.trace).2.reads) ∨
        (readCluster file.fs machine r.cluster r.clusterBuffer r.trace).1 ≠ none ∧
          ((afterReading (readAllBody machine file data clusterBuffer r)).reads =
              (readCluster file.fs machine r.cluster r.clusterBuffer r.trace).2.reads ∨
            ∃ seen, NeedsBehind machine file r seen ∧
              (afterReading (readAllBody machine file data clusterBuffer r)).reads =
                seen.reads ++ [fatLba file.fs r.cluster])) := by
  unfold readAllBody NeedsBehind
  by_cases more : r.bytesRead < file.dataLength
  case neg =>
    rw [if_pos more]
    exact Or.inl rfl
  rw [if_neg (not_not.mpr more)]
  refine Or.inr ⟨more, ?_⟩
  cases readCluster file.fs machine r.cluster r.clusterBuffer r.trace with
  | mk shown seen =>
    cases shown with
    | none => exact Or.inl ⟨⟨_, rfl⟩, rfl, rfl⟩
    | some page =>
      refine Or.inr ⟨Option.some_ne_none _, ?_⟩
      dsimp only
      by_cases last : r.bytesRead + copySize file r.bytesRead ≥ file.dataLength
      · rw [if_pos last]
        exact Or.inl rfl
      rw [if_neg last]
      by_cases consecutive : noFatChain file = true
      · rw [if_pos consecutive]
        exact Or.inl rfl
      rw [if_neg consecutive, getFatEntry_eq]
      refine Or.inr ⟨seen, ⟨more, ⟨page, rfl⟩, BitVec.not_le.mp last, eq_false_of_ne_true consecutive⟩, ?_⟩
      dsimp only
      split <;> rfl

end

end Ketone.Exfat.Asked
