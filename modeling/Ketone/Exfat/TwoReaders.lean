import Ketone.Exfat.FileClusters

/-! Both readers of a file copy the same clusters, but only one of them looks at what the reads
and the table answer. -/

namespace Ketone.Exfat.TwoReaders
open Library.Loop Volume OpenFile ReadFile Lookup FileClusters

def Answer.shown (answer : Answer) : Option (Option (BitVec 64) × List (BitVec 8)) :=
  answer.data.map fun data => (answer.size, (List.range (answer.size.getD 0).toNat).map data.bytes)

def ReadsAll (machine : Machine) (file : FileEntry) (trace : Trace)
    (shown : Option (Option (BitVec 64) × List (BitVec 8))) : Prop :=
  ∃ bound answer, readFileAll machine file bound trace = some answer ∧ Answer.shown answer = shown

def Reads (machine : Machine) (file : FileEntry) (trace : Trace)
    (shown : Option (Option (BitVec 64) × List (BitVec 8))) : Prop :=
  ∃ bound answer, readFile machine file bound trace = some (.returned answer) ∧ Answer.shown answer = shown

def Agree (machine : Machine) (file : FileEntry) (trace : Trace) : Prop :=
  ∀ shown, Reads machine file trace shown ↔ ReadsAll machine file trace shown

section
variable {machine : Machine} {file : FileEntry} {stale : Buffer} {reads : List (BitVec 64)} {j : Nat} {r : Reading}

theorem readSectorsUnchecked_read {fs : ExfatInstance} {lba : BitVec 64} {todo s : Nat} {buffer page : Buffer}
    {trace seen : Trace} (read : readSectors fs machine lba todo s buffer trace = (some page, seen)) :
    readSectorsUnchecked fs machine lba todo s buffer trace = (page, seen) := by
  induction todo generalizing s buffer trace with
  | zero =>
    obtain ⟨same, rfl⟩ := Prod.mk.inj read
    obtain rfl := Option.some.inj same
    rfl
  | succ todo ih =>
    unfold readSectors at read
    unfold readSectorsUnchecked
    generalize readDisk machine trace (lba + BitVec.ofNat 64 s) buffer
      (BitVec.ofNat 64 s * bytesPerSector fs) = answer at read ⊢
    obtain ⟨sector, trace'⟩ := answer
    cases sector with
    | none => exact absurd (Prod.mk.inj read).1 (by simp)
    | some buffer' => exact ih read

theorem readFileBody_read (data clusterBuffer : Nat) {buffer : Buffer} {trace : Trace}
    (more : r.bytesRead < file.dataLength) (fits : clusterSize file.fs ≤ intClusterSize file.fs)
    (read : readCluster file.fs machine r.cluster r.clusterBuffer r.trace = (some buffer, trace)) :
    readFileBody machine file data clusterBuffer r =
      if r.bytesRead + copySize file r.bytesRead ≥ file.dataLength then
        .leave (.returned ⟨pointer file.dataLength data
            (copy r.data r.bytesRead.toNat (copySize file r.bytesRead).toNat buffer),
          some file.dataLength, trace.kfree clusterBuffer⟩)
      else if noFatChain file then
        .again ⟨r.bytesRead + copySize file r.bytesRead, r.cluster + 1,
          copy r.data r.bytesRead.toNat (copySize file r.bytesRead).toNat buffer, buffer, trace⟩
      else
        .again ⟨r.bytesRead + copySize file r.bytesRead, (getFatEntry file.fs machine trace r.cluster).1,
          copy r.data r.bytesRead.toNat (copySize file r.bytesRead).toNat buffer, buffer,
          (getFatEntry file.fs machine trace r.cluster).2⟩ := by
  unfold readFileBody
  dsimp only
  rw [if_neg (not_not.mpr more), if_neg (BitVec.not_lt.mpr fits), readSectorsUnchecked_read read]

/-- A turn that finds its cluster, and the one behind it where there is more to read. -/
theorem readFileBody_turn (data clusterBuffer : Nat) (fits : clusterSize file.fs ≤ intClusterSize file.fs)
    (here : At machine file stale reads j r) {page : Buffer} {seen : List (BitVec 64)}
    (shown : showCluster machine file.fs stale r.trace.reads r.cluster = (some page, seen))
    (below : j * (clusterSize file.fs).toNat < file.dataLength.toNat)
    (behind : (j + 1) * (clusterSize file.fs).toNat < file.dataLength.toNat →
      clusterAt machine file stale reads (j + 1) ≠ none) :
    let size := (clusterSize file.fs).toNat
    (file.dataLength.toNat ≤ (j + 1) * size ∧ ∃ trace, readFileBody machine file data clusterBuffer r =
      .leave (.returned ⟨pointer file.dataLength data
        (copy r.data (j * size) (file.dataLength.toNat - j * size) page), some file.dataLength, trace⟩)) ∨
    ((j + 1) * size < file.dataLength.toNat ∧ ∃ next, readFileBody machine file data clusterBuffer r = .again next ∧
      At machine file stale reads (j + 1) next ∧ next.data = copy r.data (j * size) size page) := by
  intro size
  have more : r.bytesRead < file.dataLength := by
    rw [BitVec.lt_def, here.bytes]
    exact below
  have read := readCluster_shows r.trace.heap here.buffer shown
  have all := readAllBody_read data clusterBuffer more read
  have turn := readFileBody_read data clusterBuffer more fits read
  rcases readAllBody_cases data clusterBuffer here with ⟨done, _⟩ | ⟨_, unreadable, _⟩ |
    ⟨page', seen', shown', _, cases⟩
  · omega
  · unfold Readable at unreadable
    rw [shown] at unreadable
    exact absurd rfl unreadable
  · obtain ⟨same, rfl⟩ := Prod.mk.inj (shown.symm.trans shown')
    obtain rfl := Option.some.inj same
    rcases cases with ⟨last, trace, leaves⟩ | ⟨onward, missing, _⟩ | ⟨onward, next, again, at_next, copied⟩
    · rw [leaves] at all
      split at all
      next complete =>
        rw [if_pos complete] at turn
        simp only [Turn.leave.injEq, Answer.mk.injEq] at all
        rw [← all.1] at turn
        exact Or.inl ⟨last, _, turn⟩
      next =>
        split at all
        · simp at all
        · split at all <;> simp at all
    · exact absurd missing (behind onward)
    · refine Or.inr ⟨onward, next, ?_, at_next, copied⟩
      rw [again] at all
      split at all
      · simp at all
      next incomplete =>
        rw [if_neg incomplete] at turn
        split at all
        next consecutive =>
          rw [if_pos consecutive] at turn
          rw [turn, Turn.again.inj all]
        next chained =>
          rw [if_neg chained] at turn
          split at all
          · simp at all
          · rw [turn, Turn.again.inj all]

def Alongside (machine : Machine) (file : FileEntry) (stale : Buffer) (reads : List (BitVec 64))
    (r r' : Reading) : Prop :=
  ∃ j, At machine file stale reads j r ∧ At machine file stale reads j r' ∧ r'.data = r.data ∧
    j * (clusterSize file.fs).toNat < file.dataLength.toNat

/-- Where nothing is missing the readers stay alongside, and return the same. -/
theorem readers_alongside (data clusterBuffer data' clusterBuffer' : Nat)
    (fits : clusterSize file.fs ≤ intClusterSize file.fs) (complete : Complete machine file stale reads)
    {r' : Reading} (alongside : Alongside machine file stale reads r r') :
    (∃ answer answer', readAllBody machine file data clusterBuffer r = .leave answer ∧
      readFileBody machine file data' clusterBuffer' r' = .leave (.returned answer') ∧
      Answer.shown answer = Answer.shown answer') ∨
    ∃ next next', readAllBody machine file data clusterBuffer r = .again next ∧
      readFileBody machine file data' clusterBuffer' r' = .again next' ∧
      Alongside machine file stale reads next next' := by
  obtain ⟨j, here, here', same, below⟩ := alongside
  have reached : ∀ i, i * (clusterSize file.fs).toNat < file.dataLength.toNat →
      clusterAt machine file stale reads i ≠ none := by
    intro i inside missing
    obtain ⟨place, known, _⟩ := complete i inside
    rw [missing] at known
    simp at known
  have place := Option.some.inj (here.place.symm.trans here'.place)
  rw [Place.mk.injEq] at place
  rcases readAllBody_cases data clusterBuffer here with ⟨done, _⟩ | ⟨_, unreadable, _⟩ |
    ⟨page, seen, shown, _, cases⟩
  · omega
  · obtain ⟨known, at_known, readable⟩ := complete j below
    rw [here.place] at at_known
    obtain rfl := Option.some.inj at_known
    exact absurd readable unreadable
  · rw [place.1, place.2] at shown
    have turn := readFileBody_turn data' clusterBuffer' fits here' shown below (reached (j + 1))
    rw [same] at turn
    rcases cases with ⟨last, _, leaves⟩ | ⟨onward, missing, _⟩ | ⟨onward, next, again, at_next, copied⟩
    · rcases turn with ⟨_, _, leaves'⟩ | ⟨onward, _⟩
      · refine Or.inl ⟨_, _, leaves, leaves', ?_⟩
        unfold Answer.shown pointer
        split <;> rfl
      · omega
    · exact absurd missing (reached (j + 1) onward)
    · rcases turn with ⟨last, _⟩ | ⟨_, next', again', at_next', copied'⟩
      · omega
      · exact Or.inr ⟨next, next', again, again', j + 1, at_next, at_next', copied'.trans copied.symm, onward⟩

end

section
variable {machine : Machine} {file : FileEntry} {trace : Trace}

/-- The reader that does not check, before it has read anything. -/
def fileStart (machine : Machine) (file : FileEntry) (trace : Trace) : Reading :=
  ⟨0, file.firstCluster, machine.stale trace.reads, machine.stale trace.reads,
    ((trace.kalloc file.dataLength).2.kalloc (intClusterSize file.fs)).2⟩

theorem readFile_eq (bound : Nat) : readFile machine file bound trace =
    run (readFileBody machine file (dataBlock trace) (bufferBlock file trace)) bound
      (fileStart machine file trace) :=
  rfl

theorem agree_of_empty (empty : file.dataLength = 0) : Agree machine file trace := by
  have null : ∀ bytes block, pointer file.dataLength block bytes = none := fun _ _ => if_pos empty
  have stop : ¬ (0 : BitVec 64) < file.dataLength := by
    rw [empty]
    decide
  have file_none : ∀ shown, Reads machine file trace shown ↔ shown = none := by
    intro shown
    have turn : readFileBody machine file (dataBlock trace) (bufferBlock file trace) (fileStart machine file trace) =
        .leave (.returned ⟨pointer _ _ _, _, _⟩) := if_pos stop
    constructor
    · rintro ⟨bound, answer, returns, rfl⟩
      cases bound with
      | zero => simp [readFile_eq, run] at returns
      | succ bound =>
        rw [readFile_eq, run_leave bound turn, null] at returns
        rw [← FileOutcome.returned.inj (Option.some.inj returns)]
        rfl
    · rintro rfl
      exact ⟨1, _, run_leave 0 turn, congrArg (Option.map _) (null _ _)⟩
  have all_none : ∀ shown, ReadsAll machine file trace shown ↔ shown = none := by
    intro shown
    have turn : readAllBody machine file (dataBlock trace) (bufferBlock file trace) (readStart machine file trace) =
        .leave ⟨pointer _ _ _, _, _⟩ := if_pos stop
    constructor
    · rintro ⟨bound, answer, returns, rfl⟩
      exact congrArg (Option.map _) (readFileAll_empty empty returns)
    · rintro rfl
      exact ⟨1, _, run_leave 0 turn, congrArg (Option.map _) (null _ _)⟩
  intro shown
  rw [file_none, all_none]

theorem reads_nonnull (nonempty : file.dataLength ≠ 0) : ¬ Reads machine file trace none := by
  rintro ⟨bound, answer, returns, null⟩
  have given : ∀ bytes block, pointer file.dataLength block bytes ≠ none := by
    intro bytes block
    unfold pointer
    rw [if_neg nonempty]
    simp
  have holds : ∀ answer', FileOutcome.returned answer = .returned answer' → answer'.data ≠ none := by
    refine run_invariant (fun _ => True) (fun outcome => ∀ answer', outcome = .returned answer' → answer'.data ≠ none)
      (fun _ _ _ _ => trivial) ?_ trivial returns
    intro r outcome _ turn answer' same
    unfold readFileBody at turn
    dsimp only at turn
    subst same
    split at turn
    · rw [← FileOutcome.returned.inj (Turn.leave.inj turn)]
      exact given _ _
    · split at turn
      · simp at turn
      · split at turn
        · rw [← FileOutcome.returned.inj (Turn.leave.inj turn)]
          exact given _ _
        · split at turn <;> simp at turn
  exact holds answer rfl (Option.map_eq_none_iff.mp null)

theorem readsAll_ends (positive : 0 < (clusterSize file.fs).toNat) : ∃ shown, ReadsAll machine file trace shown := by
  have ends : ∃ answer, run (readAllBody machine file (dataBlock trace) (bufferBlock file trace))
      (file.dataLength.toNat + 1) (readStart machine file trace) = some answer := by
    apply run_ends (fun _ => True) fun r : Reading => file.dataLength.toNat - r.bytesRead.toNat
    · intro r next _ turn
      have grows := readAllBody_grows turn
      exact ⟨trivial, by omega⟩
    · trivial
    · omega
  obtain ⟨answer, returns⟩ := ends
  exact ⟨_, _, answer, (readFileAll_eq ..).trans returns, rfl⟩

theorem readsAll_none {j : Nat} {r : Reading}
    (passed : nth (onward (readAllBody machine file (dataBlock trace) (bufferBlock file trace))) j
      (readStart machine file trace) = some r)
    (refuses : Refuses (dataBlock trace) (bufferBlock file trace) machine file r) : ReadsAll machine file trace none := by
  obtain ⟨left, turn⟩ := refuses
  have returns : readFileAll machine file (j + 1) trace = some ⟨none, none, left⟩ := by
    rw [readFileAll_eq, run_nth passed]
    exact run_leave 0 turn
  exact ⟨j + 1, _, returns, rfl⟩

/-- A reader that returns its data has found every cluster. -/
theorem complete_of_data (returns : ¬ ReadsAll machine file trace none) :
    Complete machine file (machine.stale trace.reads) trace.reads := by
  have passes : ∀ j, j * (clusterSize file.fs).toNat < file.dataLength.toNat → ∃ r,
      nth (onward (readAllBody machine file (dataBlock trace) (bufferBlock file trace))) j
        (readStart machine file trace) = some r ∧
      At machine file (machine.stale trace.reads) trace.reads j r := by
    intro j
    induction j with
    | zero => exact fun _ => ⟨_, rfl, at_readStart machine file trace⟩
    | succ j ih =>
      intro below
      have step : (j + 1) * (clusterSize file.fs).toNat = j * (clusterSize file.fs).toNat + _ := Nat.succ_mul ..
      obtain ⟨r, passed, here⟩ := ih (by omega)
      rcases readAllBody_cases (dataBlock trace) (bufferBlock file trace) here with ⟨done, _⟩ | ⟨_, _, refuses⟩ |
        ⟨_, _, _, _, ⟨last, _⟩ | ⟨_, _, refuses⟩ | ⟨_, next, again, at_next, _⟩⟩
      · omega
      · exact absurd (readsAll_none passed refuses) returns
      · omega
      · exact absurd (readsAll_none passed refuses) returns
      · exact ⟨next, by rw [nth_succ, passed]; exact onward_again again, at_next⟩
  intro j below
  obtain ⟨r, passed, here⟩ := passes j below
  refine ⟨_, here.place, ?_⟩
  by_contra unreadable
  rcases readAllBody_cases (dataBlock trace) (bufferBlock file trace) here with ⟨done, _⟩ | ⟨_, _, refuses⟩ |
    ⟨_, _, shown, _⟩
  · omega
  · exact returns (readsAll_none passed refuses)
  · unfold Readable at unreadable
    rw [shown] at unreadable
    exact unreadable rfl

end

/-- For every entry, table and answers of the drive, the two readers have the same outcome exactly
when there is nothing to read, or every cluster that the file needs is there to be read and its
size fits a positive `int`. -/
theorem two_readers_agree_iff (machine : Machine) (file : FileEntry) (trace : Trace) :
    Agree machine file trace ↔ file.dataLength = 0 ∨ clusterSize file.fs ≤ intClusterSize file.fs ∧
      Complete machine file (machine.stale trace.reads) trace.reads := by
  constructor
  · intro agree
    by_cases empty : file.dataLength = 0
    · exact Or.inl empty
    have returns : ¬ ReadsAll machine file trace none := fun null => reads_nonnull empty ((agree none).mpr null)
    refine Or.inr ⟨?_, complete_of_data returns⟩
    by_contra small
    have less := BitVec.not_le.mp small
    obtain ⟨shown, all⟩ := @readsAll_ends machine file trace (by rw [BitVec.lt_def] at less; omega)
    obtain ⟨bound, answer, returned, _⟩ := (agree shown).mpr all
    have more : (0 : BitVec 64) < file.dataLength := BitVec.toNat_pos_of_ne_zero empty
    have turn : readFileBody machine file (dataBlock trace) (bufferBlock file trace) (fileStart machine file trace) =
        .leave .smashed := (if_neg (not_not.mpr more)).trans (if_pos less)
    cases bound with
    | zero => simp [readFile_eq, run] at returned
    | succ bound =>
      rw [readFile_eq, run_leave bound turn] at returned
      simp at returned
  · rintro (empty | ⟨fits, complete⟩)
    · exact agree_of_empty empty
    · by_cases empty : file.dataLength = 0
      · exact agree_of_empty empty
      have more : 0 * (clusterSize file.fs).toNat < file.dataLength.toNat := by
        rw [Nat.zero_mul]
        exact BitVec.toNat_pos_of_ne_zero empty
      have alongside : Alongside machine file (machine.stale trace.reads) trace.reads (readStart machine file trace)
          (fileStart machine file trace) := ⟨0, at_start _, at_start _, rfl, more⟩
      have same : ∀ bound, Option.Rel
          (fun answer outcome => ∃ answer', outcome = .returned answer' ∧ Answer.shown answer = Answer.shown answer')
          (readFileAll machine file bound trace) (readFile machine file bound trace) := by
        intro bound
        rw [readFileAll_eq, readFile_eq]
        apply run_related (Alongside machine file (machine.stale trace.reads) trace.reads) _ _ alongside
        intro r r' kept
        rcases readers_alongside (dataBlock trace) (bufferBlock file trace) (dataBlock trace) (bufferBlock file trace)
          fits complete kept with ⟨answer, answer', leaves, leaves', equal⟩ | onward
        · exact Or.inl ⟨answer, _, leaves, leaves', answer', rfl, equal⟩
        · exact Or.inr onward
      intro shown
      constructor
      · rintro ⟨bound, answer', returned, rfl⟩
        have both := same bound
        rw [returned] at both
        generalize all : readFileAll machine file bound trace = answer at both
        cases both with
        | some kept =>
          obtain ⟨answer'', outcome, equal⟩ := kept
          obtain rfl := FileOutcome.returned.inj outcome
          exact ⟨bound, _, all, equal⟩
      · rintro ⟨bound, answer, returned, rfl⟩
        have both := same bound
        rw [returned] at both
        generalize one : readFile machine file bound trace = outcome at both
        cases both with
        | some kept =>
          obtain ⟨answer', rfl, equal⟩ := kept
          exact ⟨bound, answer', one, equal.symm⟩

/-- Every entry of the table is the end of a chain. -/
def ones : Machine := ⟨fun _ _ => some fun _ => 0xFF, fun _ _ => 0⟩

/-- The reader that does not look goes on at cluster `0xFFFFFFFF`. -/
theorem read_past_end_of_chain : ¬ Agree ones chainedFile ⟨[], []⟩ := by
  intro agree
  have null : ReadsAll ones chainedFile ⟨[], []⟩ none := ⟨1, ⟨none, none, _⟩, rfl, rfl⟩
  exact reads_nonnull (by decide) ((agree none).mpr null)

end Ketone.Exfat.TwoReaders
