import Ketone.Exfat.FileStores
import Ketone.Exfat.TwoReaders

/-! The length that the reader that checks reports through its second argument, and the bytes that the kernel prints
by it. -/

namespace Ketone.Exfat.ReportedLength
open Library.Loop Library.Ram Volume OpenFile ReadFile Lookup FileClusters FileStores TwoReaders
open ReadErrors (withoutFile shortFile)

def sizeAfter (before : BitVec 64) (answer : Answer) : BitVec 64 := answer.size.getD before

/-- The pointer that a call returns, by what the heap has given for the data. -/
def returnedPointer (data : BitVec 64) (answer : Answer) : BitVec 64 := if answer.data.isSome then data else 0

/-- The addresses from which `kernel_main` prints. -/
def printed (buff size : BitVec 64) : List (BitVec 64) := (List.range size.toNat).map fun i => buff + BitVec.ofNat 64 i

section
variable (machine : Machine) (file : FileEntry) (trace : Trace)

/-- Some turn of the call stores a byte of the file to this place in the data. -/
def StoredAt (p : BitVec 64) : Prop :=
  ∃ k r, Passes machine file trace k r ∧ ∃ area ∈ (turnStores machine file 0 0 r).bytes, area.Has p

/-- The length reported is that of what the returned buffer holds, and what is printed lies in it. -/
structure Reported (data before : BitVec 64) (answer : Answer) : Prop where
  null : returnedPointer data answer = 0 → sizeAfter before answer = 0
  stored : returnedPointer data answer ≠ 0 → ∀ p, StoredAt machine file trace p ↔ p < sizeAfter before answer
  prints : ∀ addr ∈ printed (returnedPointer data answer) (sizeAfter before answer),
    returnedPointer data answer ≠ 0 ∧ (⟨returnedPointer data answer, file.dataLength.toNat⟩ : Area).Has addr

/-- The file is found whole and there is memory for it; or it is not found, and the caller's variable is zero
already. -/
def Sound (data before : BitVec 64) : Prop :=
  (Complete machine file (machine.stale trace.reads) trace.reads →
    file.dataLength = 0 ∨ data ≠ 0 ∨ clusterSize file.fs = 0) ∧
  (¬ Complete machine file (machine.stale trace.reads) trace.reads → before = 0)

end

section
variable {machine : Machine} {file : FileEntry} {trace : Trace}

theorem not_readsAll_none {bound : Nat} {answer : Answer} (returns : readFileAll machine file bound trace = some answer)
    (given : answer.data ≠ none) : ¬ ReadsAll machine file trace none := by
  intro ⟨bound', other, returns', null⟩
  have same : answer = other := returns_unique ⟨bound, returns⟩ ⟨bound', returns'⟩
  rw [← same] at null
  exact given (Option.map_eq_none_iff.mp null)

theorem passes_below {k : Nat} {r : Reading} (passes : Passes machine file trace (k + 1) r) :
    r.bytesRead.toNat < file.dataLength.toNat := by
  unfold Passes at passes
  rw [nth_succ] at passes
  obtain ⟨before, _, again⟩ := Option.bind_eq_some_iff.mp passes
  exact (readAllBody_grows (onward_eq_some.mp again)).2

theorem empty_of_done {k : Nat} {r : Reading} (passes : Passes machine file trace k r)
    (done : file.dataLength.toNat ≤ k * (clusterSize file.fs).toNat) : file.dataLength = 0 ∧ r.bytesRead = 0 := by
  have here := passes_at passes
  have first : k = 0 := by
    cases k with
    | zero => rfl
    | succ k =>
      have inside := passes_below passes
      rw [here.bytes] at inside
      omega
  rw [first, Nat.zero_mul] at done
  refine ⟨BitVec.eq_of_toNat_eq (Nat.le_zero.mp done), BitVec.eq_of_toNat_eq ?_⟩
  rw [here.bytes, first, Nat.zero_mul]
  rfl

/-- What a call returns: the length of the file if all its clusters can be read, and else nothing. -/
theorem answer_cases {bound : Nat} {answer : Answer} (returns : readFileAll machine file bound trace = some answer) :
    (¬ Complete machine file (machine.stale trace.reads) trace.reads ∧ answer.data = none ∧ answer.size = none) ∨
    (Complete machine file (machine.stale trace.reads) trace.reads ∧ answer.size = some file.dataLength ∧
      (file.dataLength = 0 ∧ answer.data = none ∨ clusterSize file.fs ≠ 0 ∧ file.dataLength ≠ 0 ∧ answer.data ≠ none)) := by
  obtain ⟨k, r, passed, left⟩ := leaves_of_run returns
  have passes : Passes machine file trace k r := passed
  have here := passes_at passes
  rcases readAllBody_cases (dataBlock trace) (bufferBlock file trace) here with ⟨done, last, turn⟩ |
    ⟨below, unreadable, last, turn⟩ | ⟨page, seen, shown, below, ⟨done, last, turn⟩ | ⟨below', gone, last, turn⟩ |
      ⟨_, next, turn, _⟩⟩
  · obtain rfl := Turn.leave.inj (left.symm.trans turn)
    obtain ⟨empty, none⟩ := empty_of_done passes done
    refine Or.inr ⟨?_, congrArg some (none.trans empty.symm), Or.inl ⟨empty, if_pos empty⟩⟩
    intro j needed
    rw [empty] at needed
    cases needed
  · obtain rfl := Turn.leave.inj (left.symm.trans turn)
    refine Or.inl ⟨?_, rfl, rfl⟩
    intro complete
    obtain ⟨place, reached, readable⟩ := complete k below
    obtain rfl := Option.some.inj (reached.symm.trans here.place)
    exact unreadable readable
  · obtain rfl := Turn.leave.inj (left.symm.trans turn)
    have nonempty : file.dataLength ≠ 0 := by
      intro empty
      rw [empty] at below
      exact Nat.not_lt_zero _ below
    have cluster : clusterSize file.fs ≠ 0 := by
      intro zero
      rw [zero] at below done
      exact absurd below (Nat.not_lt_of_le done)
    have given : ∀ bytes, pointer file.dataLength (dataBlock trace) bytes ≠ none := by
      intro bytes
      unfold pointer
      rw [if_neg nonempty]
      exact Option.some_ne_none _
    exact Or.inr ⟨complete_of_data (not_readsAll_none returns (given _)), rfl, Or.inr ⟨cluster, nonempty, given _⟩⟩
  · obtain rfl := Turn.leave.inj (left.symm.trans turn)
    refine Or.inl ⟨?_, rfl, rfl⟩
    intro complete
    obtain ⟨place, reached, _⟩ := complete (k + 1) below'
    rw [gone] at reached
    cases reached
  · cases left.symm.trans turn

/-- A reader that finds the file whole stores each of its bytes, and no others. -/
theorem stored_iff (complete : Complete machine file (machine.stale trace.reads) trace.reads)
    (cluster : clusterSize file.fs ≠ 0) (p : BitVec 64) : StoredAt machine file trace p ↔ p < file.dataLength := by
  have bound := file.dataLength.isLt
  have positive : 0 < (clusterSize file.fs).toNat := BitVec.toNat_pos_of_ne_zero cluster
  have has : ∀ {k r}, At machine file (machine.stale trace.reads) trace.reads k r → r.bytesRead < file.dataLength →
      ((⟨0 + r.bytesRead, (copySize file r.bytesRead).toNat⟩ : Area).Has p ↔
        k * (clusterSize file.fs).toNat ≤ p.toNat ∧
          p.toNat < min ((k + 1) * (clusterSize file.fs).toNat) file.dataLength.toNat) := by
    intro k r here more
    have ends := bytes_end here more
    have base : ((0 : BitVec 64) + r.bytesRead).toNat = k * (clusterSize file.fs).toNat := by
      rw [show (0 : BitVec 64) + r.bytesRead = r.bytesRead from BitVec.zero_add _, here.bytes]
    rw [here.bytes] at ends
    rw [Area.has_iff (by dsimp only; omega)]
    dsimp only
    rw [base, ends]
  constructor
  · intro ⟨k, r, passes, area, member, inside⟩
    obtain ⟨below, _, rfl⟩ := turnStores_bytes passes member
    have here := passes_at passes
    have within := ((has here ((more_iff here).mpr below)).mp inside).2
    rw [BitVec.lt_def]
    omega
  · intro below
    rw [BitVec.lt_def] at below
    have low : p.toNat / (clusterSize file.fs).toNat * (clusterSize file.fs).toNat ≤ p.toNat := Nat.div_mul_le_self ..
    have high : p.toNat < (p.toNat / (clusterSize file.fs).toNat + 1) * (clusterSize file.fs).toNat :=
      Nat.lt_mul_of_div_lt (Nat.lt_succ_self _) positive
    have needed := Nat.lt_of_le_of_lt low below
    obtain ⟨place, reached, readable⟩ := complete _ needed
    obtain ⟨r, passes, rfl⟩ := passes_of_clusterAt needed reached
    have here := passes_at passes
    have more := (more_iff here).mpr needed
    refine ⟨_, r, passes, _, turnStores_readable here more readable 0 0, (has here more).mpr ⟨low, ?_⟩⟩
    exact Nat.lt_min.mpr ⟨high, below⟩

theorem printed_zero (buff : BitVec 64) : printed buff 0 = [] := rfl

theorem printed_inside {buff size addr : BitVec 64} (member : addr ∈ printed buff size) :
    (⟨buff, size.toNat⟩ : Area).Has addr := by
  obtain ⟨i, below, rfl⟩ := List.mem_map.mp member
  have bound := size.isLt
  have less := List.mem_range.mp below
  unfold Area.Has
  dsimp only
  have offset : buff + BitVec.ofNat 64 i - buff = BitVec.ofNat 64 i := by
    rw [BitVec.add_comm, BitVec.add_sub_cancel]
  rw [offset, BitVec.toNat_ofNat, Nat.mod_eq_of_lt (by omega)]
  exact less

variable {data before : BitVec 64}

theorem reported_null {answer : Answer} (null : returnedPointer data answer = 0) :
    Reported machine file trace data before answer ↔ sizeAfter before answer = 0 := by
  constructor
  · intro reported
    exact reported.null null
  · intro zero
    apply Reported.mk
    · exact fun _ => zero
    · exact fun some => absurd null some
    · rw [zero, printed_zero]
      intro addr member
      cases member

theorem returnedPointer_none {answer : Answer} (none : answer.data = none) : returnedPointer data answer = 0 := by
  unfold returnedPointer
  rw [none]
  rfl

theorem returnedPointer_some {answer : Answer} (some : answer.data ≠ none) : returnedPointer data answer = data :=
  if_pos (Option.isSome_iff_ne_none.mpr some)

theorem reported_whole {answer : Answer} (complete : Complete machine file (machine.stale trace.reads) trace.reads)
    (cluster : clusterSize file.fs ≠ 0) (given : data ≠ 0) (there : answer.data ≠ none)
    (size : answer.size = some file.dataLength) : Reported machine file trace data before answer := by
  have pointer : returnedPointer data answer = data := returnedPointer_some there
  have after : sizeAfter before answer = file.dataLength := by
    unfold sizeAfter
    rw [size, Option.getD_some]
  apply Reported.mk
  · rw [pointer]
    exact fun null => absurd null given
  · rw [after]
    exact fun _ => stored_iff complete cluster
  · rw [pointer, after]
    exact fun addr member => ⟨given, printed_inside member⟩

theorem reported_of_sound (sound : Sound machine file trace data before) {bound : Nat} {answer : Answer}
    (returns : readFileAll machine file bound trace = some answer) : Reported machine file trace data before answer := by
  rcases answer_cases returns with ⟨incomplete, none, size⟩ | ⟨complete, size, ⟨empty, none⟩ | ⟨cluster, nonempty, some⟩⟩
  · apply (reported_null (returnedPointer_none none)).mpr
    unfold sizeAfter
    rw [size, Option.getD_none, sound.2 incomplete]
  · apply (reported_null (returnedPointer_none none)).mpr
    unfold sizeAfter
    rw [size, Option.getD_some, empty]
  · have given : data ≠ 0 := ((sound.1 complete).resolve_left nonempty).resolve_right cluster
    exact reported_whole complete cluster given some size

theorem sound_of_reported (reported : ∀ bound answer, readFileAll machine file bound trace = some answer →
    Reported machine file trace data before answer) : Sound machine file trace data before := by
  constructor
  · intro complete
    by_contra bad
    rw [not_or, not_or] at bad
    obtain ⟨nonempty, null, cluster⟩ := bad
    obtain ⟨_, bound, answer, returns, _⟩ := @readsAll_ends machine file trace (BitVec.toNat_pos_of_ne_zero cluster)
    have zero : returnedPointer data answer = 0 := by
      unfold returnedPointer
      rw [not_not.mp null, ite_self]
    have after := (reported bound answer returns).null zero
    rcases answer_cases returns with ⟨incomplete, _⟩ | ⟨_, size, _⟩
    · exact incomplete complete
    · unfold sizeAfter at after
      rw [size, Option.getD_some] at after
      exact nonempty after
  · intro incomplete
    have refuses : ReadsAll machine file trace none := not_not.mp fun returns => incomplete (complete_of_data returns)
    obtain ⟨bound, answer, returns, _⟩ := refuses
    rcases answer_cases returns with ⟨_, none, size⟩ | ⟨complete, _⟩
    · have after := (reported bound answer returns).null (returnedPointer_none none)
      unfold sizeAfter at after
      rw [size, Option.getD_none] at after
      exact after
    · exact absurd complete incomplete

end

/-- For every file entry, volume, answers of the drive, answer of the heap to the request for the data, and earlier value
of the caller's variable: the length that a call reports is that of what its buffer holds exactly when the file is found
whole and there is memory for it, or it is not found whole and the variable was zero. -/
theorem reported_length_iff (machine : Machine) (file : FileEntry) (trace : Trace) (data before : BitVec 64) :
    (∀ bound answer, readFileAll machine file bound trace = some answer →
      Reported machine file trace data before answer) ↔ Sound machine file trace data before :=
  ⟨sound_of_reported, fun sound _ _ => reported_of_sound sound⟩

/-- The first sector of the file cannot be read: the caller goes on with the null pointer and what its variable held. -/
theorem length_left : ¬ ∀ bound answer, readFileAll withoutFile shortFile bound ⟨[], []⟩ = some answer →
    Reported withoutFile shortFile ⟨[], []⟩ 0x200000 7 answer := by
  intro reported
  have refused : (readFileAll withoutFile shortFile 1 ⟨[], []⟩).map (fun answer => (answer.data.isSome, answer.size)) =
      some (false, none) := by decide +kernel
  obtain ⟨answer, returns, left⟩ := Option.map_eq_some_iff.mp refused
  obtain ⟨none, size⟩ := Prod.mk.inj left
  have after := (reported 1 answer returns).null (returnedPointer_none (Option.not_isSome_iff_eq_none.mp (ne_true_of_eq_false none)))
  unfold sizeAfter at after
  rw [size] at after
  exact absurd after (by decide)

end Ketone.Exfat.ReportedLength
