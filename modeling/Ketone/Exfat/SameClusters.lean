import Ketone.Exfat.PathResolution
import Ketone.Exfat.SteadyVolume
import Ketone.Exfat.FileClusters

/-! The clusters of a directory, as the walk visits them and as a reader of the same entry would. -/

namespace Ketone.Exfat.SameClusters
open Library.Loop Volume OpenFile ReadFile Lookup FileClusters PathResolution SteadyVolume

section
variable (machine : Machine) (directory : FileEntry) (component : CString) (trace : Trace)

def walkAt (k : Nat) : Option Walk :=
  nth (onward (walkBody machine directory.fs component.bytes trace.heap.length)) k
    ⟨directory.firstCluster, machine.stale trace.reads, (trace.kalloc (clusterSize directory.fs)).2⟩

def readAt (k : Nat) : Option Reading :=
  nth (onward (readAllBody machine directory (dataBlock trace) (bufferBlock directory trace))) k
    (readStart machine directory trace)

def walkVisits (k : Nat) : Option (BitVec 32) := (walkAt machine directory component trace k).map Walk.cluster

def readVisits (k : Nat) : Option (BitVec 32) :=
  ((readAt machine directory trace k).filter (·.bytesRead < directory.dataLength)).map Reading.cluster

/-- The walk has searched a cluster to its end and found neither the name nor an unused entry. -/
def Exhausts (w : Walk) : Prop :=
  ∃ page seen, readCluster directory.fs machine w.cluster w.buffer w.trace = (some page, seen) ∧
    (scanCluster directory.fs component.bytes page seen).1 = .exhausted

def Asks : Nat → Prop
  | 0 => True
  | k + 1 => ∃ w, walkAt machine directory component trace k = some w ∧ Exhausts machine directory component w

/-- As far as the walk looks, it visits the clusters that the reader would visit. -/
def VisitsAgree : Prop :=
  ∀ k, Asks machine directory component trace k →
    walkVisits machine directory component trace k = readVisits machine directory trace k

def Barren (cluster : BitVec 32) : Prop :=
  ∃ page, clusterPage machine directory.fs (machine.stale trace.reads) cluster = some page ∧
    (fileSets directory.fs page (positions directory.fs)).find? (Named component.bytes ·) = none ∧
    ∀ i ∈ positions directory.fs, Used page i

def entryBehind (cluster : BitVec 32) : Option (BitVec 32) :=
  if noFatChain directory then some (cluster + 1)
  else if END_OF_CHAIN ≤ fatValue machine directory.fs cluster then none
  else some (fatValue machine directory.fs cluster)

inductive Searched : Nat → BitVec 32 → Prop where
  | first : Searched 0 directory.firstCluster
  | next {j cluster behind} (searched : Searched j cluster) (barren : Barren machine directory component trace cluster)
      (follows : entryBehind machine directory cluster = some behind) : Searched (j + 1) behind

/-- Behind each cluster that is searched to its end, the table names the one that the entry says, and
it ends the chain behind the last one. -/
def TableFollows : Prop :=
  ∀ j cluster, j * (clusterSize directory.fs).toNat < directory.dataLength.toNat →
    Searched machine directory component trace j cluster → Barren machine directory component trace cluster →
    if (j + 1) * (clusterSize directory.fs).toNat < directory.dataLength.toNat then
      noFatChain directory = true →
        fatValue machine directory.fs cluster = cluster + 1 ∧ cluster + 1 < END_OF_CHAIN
    else END_OF_CHAIN ≤ fatValue machine directory.fs cluster

end

section
variable {machine : Machine} {directory : FileEntry} {component : CString} {trace : Trace} {j : Nat}
  {cluster : BitVec 32}

structure Together (machine : Machine) (directory : FileEntry) (component : CString) (trace : Trace) (j : Nat)
    (cluster : BitVec 32) (w : Walk) (r : Reading) : Prop where
  walk : walkAt machine directory component trace j = some w
  frame : ∀ p, w.buffer p ≠ machine.stale trace.reads p →
    Overwritten directory.fs 0 (sectorsPerCluster directory.fs).toNat p
  walks : w.cluster = cluster
  read : readAt machine directory trace j = some r
  place : At machine directory (machine.stale trace.reads) trace.reads j r
  reads : r.cluster = cluster
  below : j * (clusterSize directory.fs).toNat < directory.dataLength.toNat

def tableBehind (machine : Machine) (directory : FileEntry) (cluster : BitVec 32) : Option (BitVec 32) :=
  if END_OF_CHAIN ≤ fatValue machine directory.fs cluster then none
  else some (fatValue machine directory.fs cluster)

theorem exhausts_iff (steady : Steady machine directory.fs) {w : Walk}
    (frame : ∀ p, w.buffer p ≠ machine.stale trace.reads p →
      Overwritten directory.fs 0 (sectorsPerCluster directory.fs).toNat p) :
    Exhausts machine directory component w ↔ Barren machine directory component trace w.cluster := by
  unfold Exhausts Barren
  cases shown : showCluster machine directory.fs (machine.stale trace.reads) w.trace.reads w.cluster with
  | mk shows seen =>
    have read := readCluster_shows w.trace.heap frame shown
    have same := steady.page (machine.stale trace.reads) w.trace.reads w.cluster
    rw [shown] at same
    rw [← same, read]
    cases shows with
    | none => simp
    | some page =>
      obtain ⟨scan, heap, result, spec⟩ := @scanCluster_spec directory.fs _ component.whole page seen w.trace.heap
      constructor
      · rintro ⟨page', seen', shown', exhausted⟩
        obtain ⟨page_eq, rfl⟩ := Prod.mk.inj shown'
        obtain rfl := Option.some.inj page_eq
        rw [result] at exhausted
        subst exhausted
        refine ⟨page, rfl, ?_⟩
        cases first : (fileSets directory.fs page (positions directory.fs)).find? (Named component.bytes ·) with
        | some entry =>
          rw [first] at spec
          simp at spec
        | none =>
          rw [first] at spec
          by_cases full : ∀ i ∈ positions directory.fs, Used page i
          · exact ⟨rfl, full⟩
          · exact absurd ((if_neg full).mp spec) (by simp)
      · rintro ⟨page', page_eq, missing, full⟩
        obtain rfl := Option.some.inj page_eq
        rw [missing] at spec
        refine ⟨page, _, rfl, ?_⟩
        rw [result]
        exact (if_pos full).mp spec

theorem barren_of_onward (steady : Steady machine directory.fs) {w next : Walk} {block : Nat}
    (frame : ∀ p, w.buffer p ≠ machine.stale trace.reads p →
      Overwritten directory.fs 0 (sectorsPerCluster directory.fs).toNat p)
    (step : onward (walkBody machine directory.fs component.bytes block) w = some next) :
    Barren machine directory component trace w.cluster := by
  have turn := onward_eq_some.mp step
  have same := steady.page (machine.stale trace.reads) w.trace.reads w.cluster
  rcases walkBody_cases component.whole block w frame with ⟨_, _, _, leaves⟩ | ⟨page, seen, shown, cases⟩
  · rw [turn] at leaves
    simp at leaves
  · rw [shown] at same
    rcases cases with ⟨_, _, _, leaves⟩ | ⟨missing, ⟨_, _, leaves⟩ | ⟨full, _⟩⟩
    · rw [turn] at leaves
      simp at leaves
    · rw [turn] at leaves
      simp at leaves
    · exact ⟨page, same.symm, missing, full⟩

theorem walk_onward (steady : Steady machine directory.fs) {w : Walk}
    (frame : ∀ p, w.buffer p ≠ machine.stale trace.reads p →
      Overwritten directory.fs 0 (sectorsPerCluster directory.fs).toNat p)
    (barren : Barren machine directory component trace w.cluster) (block : Nat) :
    Option.Rel (fun next behind => next.cluster = behind ∧ ∀ p, next.buffer p ≠ machine.stale trace.reads p →
        Overwritten directory.fs 0 (sectorsPerCluster directory.fs).toNat p)
      (onward (walkBody machine directory.fs component.bytes block) w) (tableBehind machine directory w.cluster) := by
  obtain ⟨page, shows, missing, full⟩ := barren
  have same := steady.page (machine.stale trace.reads) w.trace.reads w.cluster
  rw [shows] at same
  rcases walkBody_cases component.whole block w frame with ⟨seen, heap, unreadable, _⟩ |
    ⟨page', seen, shown, cases⟩
  · rw [unreadable] at same
    simp at same
  · rw [shown] at same
    obtain rfl := Option.some.inj same
    rcases cases with ⟨held, heap, first, _⟩ | ⟨_, ⟨unused, _⟩ | ⟨_, behind, known, heap, follows, turn⟩⟩
    · rw [missing] at first
      simp at first
    · exact absurd full unused
    · have value := steady.table seen w.cluster
      rw [follows] at value
      obtain rfl : behind = fatValue machine directory.fs w.cluster := value
      unfold tableBehind
      by_cases stop : END_OF_CHAIN ≤ fatValue machine directory.fs w.cluster
      · rw [if_pos stop] at turn ⊢
        rw [onward_leave turn]
        exact .none
      · rw [if_neg stop] at turn ⊢
        rw [onward_again turn]
        exact .some ⟨rfl, showCluster_frame shown⟩

/-- A reader that can read its cluster goes where the entry says, as long as there is more to read. -/
theorem read_onward (steady : Steady machine directory.fs) {r : Reading}
    (here : At machine directory (machine.stale trace.reads) trace.reads j r) {page : Buffer}
    (shows : clusterPage machine directory.fs (machine.stale trace.reads) r.cluster = some page)
    (below : j * (clusterSize directory.fs).toNat < directory.dataLength.toNat) (data clusterBuffer : Nat) :
    Option.Rel (fun next behind => next.cluster = behind ∧
        At machine directory (machine.stale trace.reads) trace.reads (j + 1) next ∧
        (j + 1) * (clusterSize directory.fs).toNat < directory.dataLength.toNat)
      (onward (readAllBody machine directory data clusterBuffer) r)
      (if (j + 1) * (clusterSize directory.fs).toNat < directory.dataLength.toNat then
        entryBehind machine directory r.cluster else none) := by
  have same := steady.page (machine.stale trace.reads) r.trace.reads r.cluster
  rw [shows] at same
  rcases readAllBody_cases data clusterBuffer here with ⟨done, _⟩ | ⟨_, unreadable, _⟩ |
    ⟨page', seen, shown, _, cases⟩
  · omega
  · unfold Readable at unreadable
    dsimp only at unreadable
    rw [same] at unreadable
    exact absurd rfl unreadable
  · have behind : clusterAt machine directory (machine.stale trace.reads) trace.reads (j + 1) =
        follow machine directory (machine.stale trace.reads) ⟨r.trace.reads, r.cluster⟩ := by
      have place := here.place
      unfold clusterAt at place ⊢
      rw [nth_succ, place, Option.bind_some]
    have value := steady.table seen r.cluster
    unfold follow at behind
    rw [shown] at behind
    dsimp only at behind
    rw [value] at behind
    unfold entryBehind
    rcases cases with ⟨last, _, leaves⟩ | ⟨more, missing, _, leaves⟩ | ⟨more, next, again, at_next, _⟩
    · rw [if_neg (by omega), onward_leave leaves]
      exact .none
    · rw [if_pos more, onward_leave leaves]
      rw [missing] at behind
      by_cases consecutive : noFatChain directory = true
      · rw [if_pos consecutive] at behind
        simp at behind
      · rw [if_neg consecutive] at behind ⊢
        by_cases stop : END_OF_CHAIN ≤ fatValue machine directory.fs r.cluster
        · rw [if_pos stop]
          exact .none
        · rw [if_neg stop] at behind
          simp at behind
    · rw [if_pos more, onward_again again]
      rw [at_next.place] at behind
      by_cases consecutive : noFatChain directory = true
      · rw [if_pos consecutive, Option.some.injEq, Place.mk.injEq] at behind
        rw [if_pos consecutive]
        exact .some ⟨behind.2, at_next, more⟩
      · rw [if_neg consecutive] at behind ⊢
        by_cases stop : END_OF_CHAIN ≤ fatValue machine directory.fs r.cluster
        · rw [if_pos stop] at behind
          simp at behind
        · rw [if_neg stop, Option.some.injEq, Place.mk.injEq] at behind
          rw [if_neg stop]
          exact .some ⟨behind.2, at_next, more⟩

def wanted (machine : Machine) (directory : FileEntry) (j : Nat) (cluster : BitVec 32) : Option (BitVec 32) :=
  if (j + 1) * (clusterSize directory.fs).toNat < directory.dataLength.toNat then
    entryBehind machine directory cluster
  else none

theorem tableBehind_eq_wanted_iff : tableBehind machine directory cluster = wanted machine directory j cluster ↔
    if (j + 1) * (clusterSize directory.fs).toNat < directory.dataLength.toNat then
      noFatChain directory = true →
        fatValue machine directory.fs cluster = cluster + 1 ∧ cluster + 1 < END_OF_CHAIN
    else END_OF_CHAIN ≤ fatValue machine directory.fs cluster := by
  unfold tableBehind wanted entryBehind
  by_cases more : (j + 1) * (clusterSize directory.fs).toNat < directory.dataLength.toNat
  · rw [if_pos more, if_pos more]
    by_cases consecutive : noFatChain directory = true
    · simp only [consecutive, true_implies, if_true]
      by_cases stop : END_OF_CHAIN ≤ fatValue machine directory.fs cluster
      · rw [if_pos stop]
        refine iff_of_false (by simp) ?_
        intro both
        rw [both.1] at stop
        exact BitVec.not_lt.mpr stop both.2
      · rw [if_neg stop, Option.some.injEq]
        constructor
        · intro same
          rw [same] at stop
          exact ⟨same, BitVec.not_le.mp stop⟩
        · intro both
          exact both.1
    · rw [if_neg consecutive]
      exact iff_of_true rfl fun flag => absurd flag consecutive
  · rw [if_neg more, if_neg more]
    by_cases stop : END_OF_CHAIN ≤ fatValue machine directory.fs cluster
    · simp [stop]
    · simp [stop]

/-- From a barren cluster the walk goes where the table leads, and the reader where it wants to. -/
theorem Together.step (steady : Steady machine directory.fs) {w : Walk} {r : Reading}
    (together : Together machine directory component trace j cluster w r)
    (barren : Barren machine directory component trace cluster) :
    walkVisits machine directory component trace (j + 1) = tableBehind machine directory cluster ∧
    readVisits machine directory trace (j + 1) = wanted machine directory j cluster ∧
    (tableBehind machine directory cluster = wanted machine directory j cluster →
      ∀ behind, tableBehind machine directory cluster = some behind →
        ∃ w' r', Together machine directory component trace (j + 1) behind w' r') := by
  have walks : walkAt machine directory component trace (j + 1) = _ := nth_succ j _
  have reads : readAt machine directory trace (j + 1) = _ := nth_succ j _
  have walk := together.walk
  have read := together.read
  unfold walkAt at walk
  unfold readAt at read
  rw [walk, Option.bind_some] at walks
  rw [read, Option.bind_some] at reads
  have walked := walk_onward steady together.frame (together.walks ▸ barren) trace.heap.length
  obtain ⟨page, shows, _⟩ := barren
  have followed := read_onward steady together.place (together.reads ▸ shows) together.below (dataBlock trace)
    (bufferBlock directory trace)
  rw [← walks, together.walks] at walked
  rw [← reads, together.reads] at followed
  change Option.Rel _ _ (wanted machine directory j cluster) at followed
  refine ⟨?_, ?_, ?_⟩
  · unfold walkVisits
    generalize walkAt machine directory component trace (j + 1) = next at walked
    generalize tableBehind machine directory cluster = behind at walked
    cases walked with
    | none => rfl
    | some related => exact congrArg some related.1
  · unfold readVisits
    generalize readAt machine directory trace (j + 1) = next at followed
    generalize wanted machine directory j cluster = behind at followed
    cases followed with
    | none => rfl
    | some related =>
      obtain ⟨same, here, below⟩ := related
      rw [Option.filter_some, if_pos (by rw [decide_eq_true_eq, BitVec.lt_def, here.bytes]; exact below)]
      exact congrArg some same
  · intro same behind named
    rw [← same, named] at followed
    rw [named] at walked
    generalize next : walkAt machine directory component trace (j + 1) = w' at walked
    generalize next' : readAt machine directory trace (j + 1) = r' at followed
    cases walked with
    | some related =>
      cases followed with
      | some related' =>
        exact ⟨_, _, next, related.2, related.1, next', related'.2.1, related'.1, related'.2.2⟩

theorem together_start (nonempty : directory.dataLength ≠ 0) :
    ∃ w r, Together machine directory component trace 0 directory.firstCluster w r := by
  refine ⟨_, _, rfl, fun p changed => absurd rfl changed, rfl, rfl, at_readStart machine directory trace, rfl, ?_⟩
  rw [Nat.zero_mul]
  exact BitVec.toNat_pos_of_ne_zero nonempty

theorem together_of_table (steady : Steady machine directory.fs) (nonempty : directory.dataLength ≠ 0)
    (follows : TableFollows machine directory component trace) {w : Walk}
    (passed : walkAt machine directory component trace j = some w) :
    ∃ r, Together machine directory component trace j w.cluster w r ∧
      Searched machine directory component trace j w.cluster := by
  induction j generalizing w with
  | zero =>
    obtain ⟨w', r, together⟩ := @together_start machine directory component trace nonempty
    obtain rfl := Option.some.inj (passed.symm.trans together.walk)
    rw [together.walks]
    exact ⟨r, together, .first⟩
  | succ j ih =>
    have taken : walkAt machine directory component trace (j + 1) = _ := nth_succ j _
    rw [passed] at taken
    obtain ⟨before, passed', step⟩ := Option.bind_eq_some_iff.mp taken.symm
    obtain ⟨r, together, searched⟩ := ih passed'
    have barren := barren_of_onward steady together.frame step
    have agree := tableBehind_eq_wanted_iff.mpr (follows j before.cluster together.below searched barren)
    obtain ⟨walks, reads, onward⟩ := together.step steady barren
    unfold walkVisits at walks
    rw [passed, Option.map_some] at walks
    obtain ⟨w', r', together'⟩ := onward agree w.cluster walks.symm
    obtain rfl := Option.some.inj (passed.symm.trans together'.walk)
    refine ⟨r', together', .next searched barren ?_⟩
    rw [← walks] at agree
    unfold wanted at agree
    split at agree
    · exact agree.symm
    · simp at agree

/-- For every entry, table and volume that does not change, the walk visits the clusters that the
reader of the entry would visit, as far as it looks, exactly when the entry has some data and
the table names behind each cluster searched the one that the entry says. -/
theorem same_clusters_iff (machine : Machine) (directory : FileEntry) (component : CString) (trace : Trace)
    (steady : Steady machine directory.fs) :
    VisitsAgree machine directory component trace ↔
      directory.dataLength ≠ 0 ∧ TableFollows machine directory component trace := by
  constructor
  · intro agree
    have nonempty : directory.dataLength ≠ 0 := by
      intro empty
      have first := agree 0 trivial
      have stop : readVisits machine directory trace 0 = none := by
        unfold readVisits
        rw [Option.map_eq_none_iff]
        apply Option.filter_eq_none_iff.mpr
        intro r _
        simp [empty]
      rw [stop] at first
      simp [walkVisits, walkAt, nth] at first
    have asks : ∀ {j cluster w r}, Together machine directory component trace j cluster w r →
        Barren machine directory component trace cluster → tableBehind machine directory cluster =
          wanted machine directory j cluster := by
      intro j cluster w r together barren
      obtain ⟨walks, reads, _⟩ := together.step steady barren
      rw [← walks, ← reads]
      exact agree (j + 1) ⟨w, together.walk, (exhausts_iff steady together.frame).mpr (together.walks ▸ barren)⟩
    have stays : ∀ j cluster, Searched machine directory component trace j cluster →
        j * (clusterSize directory.fs).toNat < directory.dataLength.toNat →
        ∃ w r, Together machine directory component trace j cluster w r := by
      intro j cluster searched
      induction searched with
      | first => exact fun _ => together_start nonempty
      | @next j cluster behind _ barren leads ih =>
        intro below
        have step : (j + 1) * (clusterSize directory.fs).toNat = j * (clusterSize directory.fs).toNat + _ :=
          Nat.succ_mul ..
        obtain ⟨w, r, together⟩ := ih (by omega)
        have same := asks together barren
        refine (together.step steady barren).2.2 same behind ?_
        rw [same]
        exact (if_pos below).trans leads
    refine ⟨nonempty, ?_⟩
    intro j cluster below searched barren
    obtain ⟨w, r, together⟩ := stays j cluster searched below
    exact tableBehind_eq_wanted_iff.mp (asks together barren)
  · rintro ⟨nonempty, follows⟩ k asks
    cases k with
    | zero =>
      obtain ⟨w, r, together⟩ := @together_start machine directory component trace nonempty
      unfold walkVisits readVisits
      have filled : decide (r.bytesRead < directory.dataLength) = true := by
        rw [decide_eq_true_eq, BitVec.lt_def, together.place.bytes]
        exact together.below
      rw [together.walk, together.read, Option.filter_some, if_pos filled, Option.map_some, Option.map_some,
        together.walks, together.reads]
    | succ k =>
      obtain ⟨w, passed, exhausts⟩ := asks
      obtain ⟨r, together, searched⟩ := together_of_table steady nonempty follows passed
      have barren := (exhausts_iff steady together.frame).mp exhausts
      obtain ⟨walks, reads, _⟩ := together.step steady barren
      rw [walks, reads]
      exact tableBehind_eq_wanted_iff.mpr (follows k w.cluster together.below searched barren)

end

def consecutiveDirectory : FileEntry :=
  ⟨[], smallVolume, 0x10, 2, some 1024, 1024, 1, some 0, some 3⟩

def erased (table : Buffer) : Machine := ⟨fun _ lba => some (if lba = 1 then table else fun _ => 0x05), fun _ _ => 0⟩

/-- A table without entries for the clusters sends the walk to cluster 0. -/
theorem walk_leaves_directory : ¬ VisitsAgree (erased fun _ => 0) consecutiveDirectory shortPath ⟨[], []⟩ := by
  intro agree
  have walks : walkVisits (erased fun _ => 0) consecutiveDirectory shortPath ⟨[], []⟩ 1 = some 0 := by decide +kernel
  have reads : readVisits (erased fun _ => 0) consecutiveDirectory ⟨[], []⟩ 1 = some 3 := by decide +kernel
  have same := agree 1 ⟨_, rfl, _, _, rfl, by decide +kernel⟩
  rw [walks, reads] at same
  exact absurd same (by decide)

/-- The entries of clusters 2 and 3: the one leads to the other, which is the last one. -/
def filledTable : Buffer := fun p => if p = 8 then 3 else if 12 ≤ p ∧ p < 16 then 0xFF else 0

theorem filled_table_agrees : VisitsAgree (erased filledTable) consecutiveDirectory shortPath ⟨[], []⟩ := by
  have steady : Steady (erased filledTable) consecutiveDirectory.fs := steady_of_drive (fun _ => rfl) (by decide)
  apply (same_clusters_iff _ _ _ _ steady).mpr
  refine ⟨by decide, ?_⟩
  intro j cluster below searched _
  have size : (clusterSize consecutiveDirectory.fs).toNat = 512 := by decide
  rw [size] at below ⊢
  change j * 512 < 1024 at below
  cases searched with
  | first => decide +kernel
  | @next j cluster _ before _ follows =>
    obtain rfl : j = 0 := by omega
    cases before with
    | first =>
      obtain rfl := Option.some.inj follows
      decide +kernel

end Ketone.Exfat.SameClusters
