import Ketone.Exfat.OpenFile

/-! One directory, as the clusters of its chain show it: the file sets before the first unused
entry, in order, of which a lookup takes the first with the name sought. -/

namespace Ketone.Exfat.Lookup
open Library Library.Loop Volume OpenFile

def cstr (memory : Str) : Str := memory.takeWhile (· ≠ 0)

theorem cstr_of_zero {memory : Str} (zero : memory.headD 0 = 0) : cstr memory = [] := by
  cases memory with
  | nil => rfl
  | cons x rest => exact List.takeWhile_cons_of_neg (by simpa using zero)

theorem cstr_of_head {memory : Str} (nonzero : memory.headD 0 ≠ 0) :
    cstr memory = memory.headD 0 :: cstr memory.tail := by
  cases memory with
  | nil => exact absurd rfl nonzero
  | cons x rest => exact List.takeWhile_cons_of_pos (by simpa using nonzero)

theorem cstr_cons {x : BitVec 8} (nonzero : x ≠ 0) (rest : Str) : cstr (x :: rest) = x :: cstr rest :=
  List.takeWhile_cons_of_pos (by simpa using nonzero)

theorem cstr_of_mem {memory : Str} (whole : 0 ∉ memory) : cstr memory = memory := by
  induction memory with
  | nil => rfl
  | cons c rest ih =>
    rw [List.mem_cons, not_or] at whole
    rw [cstr_cons (Ne.symm whole.1)]
    exact congrArg (c :: ·) (ih whole.2)

theorem difference_eq_zero_iff (x y : BitVec 8) : (x.toNat : Int) - y.toNat = 0 ↔ x = y := by
  constructor
  · intro same
    exact BitVec.eq_of_toNat_eq (by omega)
  · rintro rfl
    exact Int.sub_self _

theorem strcmp_eq_zero_iff (a b : Str) : strcmp a b = 0 ↔ cstr a = cstr b := by
  induction a generalizing b with
  | nil =>
    have difference := difference_eq_zero_iff 0 (b.headD 0)
    change (0 : Int) - _ = 0 ↔ [] = cstr b
    by_cases zero : b.headD 0 = 0
    · rw [cstr_of_zero zero, zero]
      decide
    · rw [cstr_of_head zero]
      refine iff_of_false ?_ (List.cons_ne_nil _ _).symm
      intro same
      exact zero (difference.mp same).symm
  | cons x a ih =>
    have difference := difference_eq_zero_iff x (b.headD 0)
    unfold strcmp
    by_cases zero : x = 0
    · rw [if_neg (fun both => both.1 zero), difference, zero, cstr_of_zero (show (0 :: a).headD 0 = 0 from rfl)]
      by_cases zero' : b.headD 0 = 0
      · rw [cstr_of_zero zero', zero']
        exact iff_of_true rfl rfl
      · rw [cstr_of_head zero']
        exact iff_of_false (fun same => zero' same.symm) (List.cons_ne_nil _ _).symm
    · rw [cstr_cons zero]
      by_cases same : x = b.headD 0
      · rw [if_pos ⟨zero, same⟩, ih, cstr_of_head (fun null => zero (same.trans null)), ← same]
        simp
      · rw [if_neg (fun both => same both.2), difference]
        refine iff_of_false same ?_
        by_cases zero' : b.headD 0 = 0
        · rw [cstr_of_zero zero']
          exact List.cons_ne_nil _ _
        · rw [cstr_of_head zero']
          intro equal
          exact same (List.cons.inj equal).1

section
variable (fs : ExfatInstance) (page : Buffer)

def entrySet (i : Nat) : FileEntry :=
  let d := decodeSet fs page i
  { d.file with path := d.filename }

def Used (i : Nat) : Prop := page (i * 32) ≠ 0x00

instance (i : Nat) : Decidable (Used page i) := by
  unfold Used; infer_instance

/-- The file sets among some positions, up to the end of the directory. -/
def fileSets (positions : List Nat) : List FileEntry :=
  ((positions.takeWhile (Used page ·)).filter fun i => page (i * 32) = 0x85).map (entrySet fs page)

def positions : List Nat := List.range (clusterSize fs / 32).toNat

def Named (component : Str) (entry : FileEntry) : Prop := cstr entry.path = component

instance (component : Str) (entry : FileEntry) : Decidable (Named component entry) := by
  unfold Named; infer_instance

end

section
variable {fs : ExfatInstance} {page : Buffer} {component : Str}

theorem fileSets_unused {i : Nat} (unused : ¬ Used page i) (rest : List Nat) : fileSets fs page (i :: rest) = [] := by
  unfold fileSets
  have none : (i :: rest).takeWhile (Used page ·) = [] := List.takeWhile_cons_of_neg (by simpa using unused)
  rw [none]
  rfl

theorem fileSets_file {i : Nat} (used : Used page i) (file : page (i * 32) = 0x85) (rest : List Nat) :
    fileSets fs page (i :: rest) = entrySet fs page i :: fileSets fs page rest := by
  unfold fileSets
  have kept : (i :: rest).takeWhile (Used page ·) = i :: rest.takeWhile (Used page ·) :=
    List.takeWhile_cons_of_pos (decide_eq_true used)
  rw [kept, List.filter_cons_of_pos (by simpa using file), List.map_cons]

theorem fileSets_other {i : Nat} (used : Used page i) (other : page (i * 32) ≠ 0x85) (rest : List Nat) :
    fileSets fs page (i :: rest) = fileSets fs page rest := by
  unfold fileSets
  have kept : (i :: rest).takeWhile (Used page ·) = i :: rest.takeWhile (Used page ·) :=
    List.takeWhile_cons_of_pos (decide_eq_true used)
  rw [kept, List.filter_cons_of_neg (by simpa using other)]

/-- The loop over the entries of a cluster finds the first set of that name. -/
theorem scanEntries_spec (whole : 0 ∉ component) (todo i : Nat) (trace : Trace) :
    ∃ scan heap, scanEntries fs component page todo i trace = (scan, ⟨trace.reads, heap⟩) ∧
      match (fileSets fs page (List.range' i todo)).find? (Named component ·) with
      | some entry => ∃ held, scan = .directoryDone (some held) ∧ held.entry = entry
      | none => if ∀ k ∈ List.range' i todo, Used page k then scan = .exhausted else scan = .directoryDone none := by
  induction todo generalizing i trace with
  | zero => exact ⟨.exhausted, trace.heap, rfl, by simp [fileSets]⟩
  | succ todo ih =>
    rw [List.range'_succ]
    unfold scanEntries
    by_cases unused : page (i * 32) = 0
    · rw [if_pos unused, fileSets_unused (not_not.mpr unused)]
      refine ⟨.directoryDone none, trace.heap, rfl, ?_⟩
      simp [Used, unused]
    rw [if_neg unused]
    have used : (∀ k ∈ i :: List.range' (i + 1) todo, Used page k) ↔
        ∀ k ∈ List.range' (i + 1) todo, Used page k := by
      rw [List.forall_mem_cons]
      exact and_iff_right unused
    simp only [used]
    by_cases file : page (i * 32) = 0x85
    · rw [if_neg (not_not.mpr file), fileSets_file unused file]
      by_cases named : Named component (entrySet fs page i)
      · have same : strcmp (decodeSet fs page i).filename component = 0 :=
          (strcmp_eq_zero_iff _ _).mpr (named.trans (cstr_of_mem whole).symm)
        rw [if_pos same, List.find?_cons_of_pos (by simpa using named)]
        exact ⟨_, _, rfl, _, rfl, rfl⟩
      · have other : strcmp (decodeSet fs page i).filename component ≠ 0 := by
          intro same
          exact named (((strcmp_eq_zero_iff _ _).mp same).trans (cstr_of_mem whole))
        rw [if_neg other, List.find?_cons_of_neg (by simpa using named)]
        obtain ⟨scan, heap, result, spec⟩ := ih (i + 1) _
        exact ⟨scan, heap, result, spec⟩
    · rw [if_pos file, fileSets_other unused file]
      obtain ⟨scan, heap, result, spec⟩ := ih (i + 1) trace
      exact ⟨scan, heap, result, spec⟩

end

/-! Every cluster is read over the one before it, to the same places, so what the buffer shows
of a cluster does not depend on what was read into it before. -/

section
variable {fs : ExfatInstance} {machine : Machine}

/-- A byte of the buffer that the sectors from the `s`-th on, `todo` of them, are read over. -/
def Overwritten (fs : ExfatInstance) (s todo p : Nat) : Prop :=
  ∃ k, s ≤ k ∧ k < s + todo ∧ (BitVec.ofNat 64 k * bytesPerSector fs).toNat ≤ p ∧
    p < (BitVec.ofNat 64 k * bytesPerSector fs).toNat + SECTOR_SIZE

theorem readSectors_same (lba : BitVec 64) (todo s : Nat) {first second : Buffer} (reads : List (BitVec 64))
    (heap : List HeapCall) (differ : ∀ p, first p ≠ second p → Overwritten fs s todo p) :
    readSectors fs machine lba todo s first ⟨reads, heap⟩ =
      ((readSectors fs machine lba todo s second ⟨reads, []⟩).1,
        ⟨(readSectors fs machine lba todo s second ⟨reads, []⟩).2.reads, heap⟩) := by
  induction todo generalizing s first second reads with
  | zero =>
    have same : first = second := by
      funext p
      by_contra different
      obtain ⟨k, low, high, _⟩ := differ p different
      omega
    rw [same]
    rfl
  | succ todo ih =>
    unfold readSectors readDisk
    cases machine.drive reads ((lba + BitVec.ofNat 64 s).setWidth 32) with
    | none => rfl
    | some sector =>
      dsimp only [Option.map_some]
      apply ih
      intro p different
      unfold fill at different
      by_cases inside : (BitVec.ofNat 64 s * bytesPerSector fs).toNat ≤ p ∧
          p < (BitVec.ofNat 64 s * bytesPerSector fs).toNat + SECTOR_SIZE
      · rw [if_pos inside, if_pos inside] at different
        exact absurd rfl different
      · rw [if_neg inside, if_neg inside] at different
        obtain ⟨k, low, high, place⟩ := differ p different
        have later : k ≠ s := by
          rintro rfl
          exact inside place
        exact ⟨k, by omega, by omega, place⟩

theorem readSectors_frame (lba : BitVec 64) (todo s : Nat) {buffer page : Buffer} {trace : Trace}
    (read : (readSectors fs machine lba todo s buffer trace).1 = some page) (p : Nat) (changed : page p ≠ buffer p) :
    Overwritten fs s todo p := by
  induction todo generalizing s buffer trace with
  | zero =>
    obtain rfl := Option.some.inj read
    exact absurd rfl changed
  | succ todo ih =>
    unfold readSectors readDisk at read
    cases answer : machine.drive trace.reads ((lba + BitVec.ofNat 64 s).setWidth 32) with
    | none => simp [answer] at read
    | some sector =>
      rw [answer] at read
      dsimp only [Option.map_some] at read
      by_cases inside : (BitVec.ofNat 64 s * bytesPerSector fs).toNat ≤ p ∧
          p < (BitVec.ofNat 64 s * bytesPerSector fs).toNat + SECTOR_SIZE
      · exact ⟨s, Nat.le_refl s, by omega, inside⟩
      · have outside : fill buffer (BitVec.ofNat 64 s * bytesPerSector fs).toNat sector p = buffer p := if_neg inside
        obtain ⟨k, low, high, place⟩ := ih (s + 1) read (by rw [outside]; exact changed)
        exact ⟨k, by omega, by omega, place⟩

end

section
variable (machine : Machine) (fs : ExfatInstance)

/-- What a buffer with the given old contents shows of a cluster, and the reads after it. -/
def showCluster (stale : Buffer) (reads : List (BitVec 64)) (cluster : BitVec 32) :
    Option Buffer × List (BitVec 64) :=
  let shown := readCluster fs machine cluster stale ⟨reads, []⟩
  (shown.1, shown.2.reads)

/-- The cluster behind another in its chain, and the reads after it is known. -/
def chain (reads : List (BitVec 64)) (cluster : BitVec 32) : BitVec 32 × List (BitVec 64) :=
  let entry := getFatEntry fs machine ⟨reads, []⟩ cluster
  (entry.1, entry.2.reads)

def END_OF_CHAIN : BitVec 32 := 0xFFFFFFF8

/-- Looking a name up in the directory that starts at a cluster: each cluster of the chain is
searched for the first file set of that name, up to the end of the directory. The lists are
the reads before and after. -/
inductive Finds (component : Str) (stale : Buffer) :
    List (BitVec 64) → BitVec 32 → Option FileEntry → List (BitVec 64) → Prop where
  | unreadable {reads cluster seen} (shown : showCluster machine fs stale reads cluster = (none, seen)) :
      Finds component stale reads cluster none seen
  | found {reads cluster page seen entry} (shown : showCluster machine fs stale reads cluster = (some page, seen))
      (first : (fileSets fs page (positions fs)).find? (Named component ·) = some entry) :
      Finds component stale reads cluster (some entry) seen
  | ended {reads cluster page seen} (shown : showCluster machine fs stale reads cluster = (some page, seen))
      (missing : (fileSets fs page (positions fs)).find? (Named component ·) = none)
      (unused : ¬ ∀ i ∈ positions fs, Used page i) : Finds component stale reads cluster none seen
  | last {reads cluster page seen behind known}
      (shown : showCluster machine fs stale reads cluster = (some page, seen))
      (missing : (fileSets fs page (positions fs)).find? (Named component ·) = none)
      (full : ∀ i ∈ positions fs, Used page i) (follows : chain machine fs seen cluster = (behind, known))
      (stop : END_OF_CHAIN ≤ behind) : Finds component stale reads cluster none known
  | onward {reads cluster page seen behind known entry left}
      (shown : showCluster machine fs stale reads cluster = (some page, seen))
      (missing : (fileSets fs page (positions fs)).find? (Named component ·) = none)
      (full : ∀ i ∈ positions fs, Used page i) (follows : chain machine fs seen cluster = (behind, known))
      (proper : ¬ END_OF_CHAIN ≤ behind) (rest : Finds component stale known behind entry left) :
      Finds component stale reads cluster entry left

end

section
variable {machine : Machine} {fs : ExfatInstance} {component : Str} {stale : Buffer}

/-- How a walk of the code ends, by what it has found and the reads after it. -/
inductive Walks (reads : List (BitVec 64)) : Option FileEntry → Walked → Prop where
  | unreadable (heap : List HeapCall) : Walks reads none (.unreadable ⟨reads, heap⟩)
  | missing (heap : List HeapCall) : Walks reads none (.directoryDone none ⟨reads, heap⟩)
  | found (held : Held) (heap : List HeapCall) :
      Walks reads (some held.entry) (.directoryDone (some held) ⟨reads, heap⟩)

theorem readCluster_shows {reads seen : List (BitVec 64)} {cluster : BitVec 32} {buffer : Buffer}
    {shown : Option Buffer} (heap : List HeapCall)
    (differ : ∀ p, buffer p ≠ stale p → Overwritten fs 0 (sectorsPerCluster fs).toNat p)
    (shows : showCluster machine fs stale reads cluster = (shown, seen)) :
    readCluster fs machine cluster buffer ⟨reads, heap⟩ = (shown, ⟨seen, heap⟩) := by
  unfold showCluster at shows
  obtain ⟨rfl, rfl⟩ := Prod.mk.inj shows
  exact readSectors_same _ _ _ _ _ differ

theorem showCluster_frame {reads seen : List (BitVec 64)} {cluster : BitVec 32} {page : Buffer}
    (shows : showCluster machine fs stale reads cluster = (some page, seen)) (p : Nat) (changed : page p ≠ stale p) :
    Overwritten fs 0 (sectorsPerCluster fs).toNat p :=
  readSectors_frame _ _ _ (Prod.mk.inj shows).1 p changed

theorem getFatEntry_chain {reads known : List (BitVec 64)} {cluster behind : BitVec 32} (heap : List HeapCall)
    (follows : chain machine fs reads cluster = (behind, known)) :
    ∃ heap', getFatEntry fs machine ⟨reads, heap⟩ cluster = (behind, ⟨known, heap'⟩) := by
  obtain ⟨rfl, rfl⟩ := Prod.mk.inj follows
  unfold getFatEntry readDisk Trace.kalloc Trace.kfree
  dsimp only
  cases machine.drive reads ((fs.sectorOnDiskLBA + fs.fatOffset.setWidth 64 +
    cluster.setWidth 64 * 4 / bytesPerSector fs).setWidth 32) with
  | none => exact ⟨_, rfl⟩
  | some sector => exact ⟨_, rfl⟩

theorem scanCluster_spec (whole : 0 ∉ component) (page : Buffer) (reads : List (BitVec 64)) (heap : List HeapCall) :
    ∃ scan heap', scanCluster fs component page ⟨reads, heap⟩ = (scan, ⟨reads, heap'⟩) ∧
      match (fileSets fs page (positions fs)).find? (Named component ·) with
      | some entry => ∃ held, scan = .directoryDone (some held) ∧ held.entry = entry
      | none => if ∀ i ∈ positions fs, Used page i then scan = .exhausted else scan = .directoryDone none := by
  unfold positions
  rw [List.range_eq_range']
  exact scanEntries_spec whole _ 0 ⟨reads, heap⟩

/-- What a turn of the walk does with a cluster that can be read: it ends with what the cluster shows,
or it goes on to the cluster that the table names, if it names one. -/
theorem walkBody_shown (whole : 0 ∉ component) (block : Nat) {w : Walk} {page : Buffer} {seen : List (BitVec 64)}
    (differ : ∀ p, w.buffer p ≠ stale p → Overwritten fs 0 (sectorsPerCluster fs).toNat p)
    (shown : showCluster machine fs stale w.trace.reads w.cluster = (some page, seen)) :
    (∃ held heap, (fileSets fs page (positions fs)).find? (Named component ·) = some held.entry ∧
        walkBody machine fs component block w = .leave (.directoryDone (some held) ⟨seen, heap⟩)) ∨
      ((fileSets fs page (positions fs)).find? (Named component ·) = none ∧
        ((¬ (∀ i ∈ positions fs, Used page i) ∧ ∃ heap,
            walkBody machine fs component block w = .leave (.directoryDone none ⟨seen, heap⟩)) ∨
          ((∀ i ∈ positions fs, Used page i) ∧ ∃ behind known heap,
            chain machine fs seen w.cluster = (behind, known) ∧
            walkBody machine fs component block w =
              if END_OF_CHAIN ≤ behind then .leave (.directoryDone none ⟨known, heap⟩)
              else .again ⟨behind, page, ⟨known, heap⟩⟩))) := by
  have read := readCluster_shows w.trace.heap differ shown
  obtain ⟨scan, heap, result, spec⟩ := @scanCluster_spec fs _ whole page seen w.trace.heap
  unfold walkBody
  simp only [read, result]
  cases first : (fileSets fs page (positions fs)).find? (Named component ·) with
  | some entry =>
    rw [first] at spec
    obtain ⟨held, rfl, rfl⟩ := spec
    exact Or.inl ⟨held, heap, rfl, rfl⟩
  | none =>
    rw [first] at spec
    refine Or.inr ⟨rfl, ?_⟩
    by_cases full : ∀ i ∈ positions fs, Used page i
    · obtain rfl := (if_pos full).mp spec
      cases follows : chain machine fs seen w.cluster with
      | mk behind known =>
        obtain ⟨heap', fat⟩ := getFatEntry_chain heap follows
        simp only [fat]
        exact Or.inr ⟨full, behind, known, heap', rfl, rfl⟩
    · obtain rfl := (if_neg full).mp spec
      exact Or.inl ⟨full, heap, rfl⟩

theorem walkBody_full (whole : 0 ∉ component) (block : Nat) {reads seen known : List (BitVec 64)}
    {cluster behind : BitVec 32} {buffer page : Buffer} (heap : List HeapCall)
    (differ : ∀ p, buffer p ≠ stale p → Overwritten fs 0 (sectorsPerCluster fs).toNat p)
    (shown : showCluster machine fs stale reads cluster = (some page, seen))
    (missing : (fileSets fs page (positions fs)).find? (Named component ·) = none)
    (full : ∀ i ∈ positions fs, Used page i) (follows : chain machine fs seen cluster = (behind, known)) :
    ∃ heap', walkBody machine fs component block ⟨cluster, buffer, ⟨reads, heap⟩⟩ =
      if END_OF_CHAIN ≤ behind then .leave (.directoryDone none ⟨known, heap'⟩)
      else .again ⟨behind, page, ⟨known, heap'⟩⟩ := by
  rcases @walkBody_shown machine fs component stale whole block ⟨cluster, buffer, ⟨reads, heap⟩⟩ page seen differ shown
    with ⟨held, _, first, _⟩ | ⟨_, ⟨unused, _⟩ | ⟨_, behind', known', heap', follows', turn⟩⟩
  · cases missing.symm.trans first
  · exact absurd full unused
  · obtain ⟨rfl, rfl⟩ := Prod.mk.inj (follows.symm.trans follows')
    exact ⟨heap', turn⟩

theorem walkBody_unreadable (block : Nat) {w : Walk} {seen : List (BitVec 64)}
    (differ : ∀ p, w.buffer p ≠ stale p → Overwritten fs 0 (sectorsPerCluster fs).toNat p)
    (shown : showCluster machine fs stale w.trace.reads w.cluster = (none, seen)) : ∃ heap,
      walkBody machine fs component block w = .leave (.unreadable ⟨seen, heap⟩) := by
  have read := readCluster_shows w.trace.heap differ shown
  unfold walkBody
  rw [read]
  exact ⟨_, rfl⟩

/-- Everything one turn of the walk does. -/
theorem walkBody_cases (whole : 0 ∉ component) (block : Nat) (w : Walk)
    (differ : ∀ p, w.buffer p ≠ stale p → Overwritten fs 0 (sectorsPerCluster fs).toNat p) :
    (∃ seen heap, showCluster machine fs stale w.trace.reads w.cluster = (none, seen) ∧
      walkBody machine fs component block w = .leave (.unreadable ⟨seen, heap⟩)) ∨
    ∃ page seen, showCluster machine fs stale w.trace.reads w.cluster = (some page, seen) ∧
      ((∃ held heap, (fileSets fs page (positions fs)).find? (Named component ·) = some held.entry ∧
          walkBody machine fs component block w = .leave (.directoryDone (some held) ⟨seen, heap⟩)) ∨
        ((fileSets fs page (positions fs)).find? (Named component ·) = none ∧
          ((¬ (∀ i ∈ positions fs, Used page i) ∧ ∃ heap,
              walkBody machine fs component block w = .leave (.directoryDone none ⟨seen, heap⟩)) ∨
            ((∀ i ∈ positions fs, Used page i) ∧ ∃ behind known heap,
              chain machine fs seen w.cluster = (behind, known) ∧
              walkBody machine fs component block w =
                if END_OF_CHAIN ≤ behind then .leave (.directoryDone none ⟨known, heap⟩)
                else .again ⟨behind, page, ⟨known, heap⟩⟩)))) := by
  cases shown : showCluster machine fs stale w.trace.reads w.cluster with
  | mk page seen =>
    cases page with
    | none =>
      obtain ⟨heap, leaves⟩ := @walkBody_unreadable machine fs component stale block w seen differ shown
      exact Or.inl ⟨seen, heap, rfl, leaves⟩
    | some page => exact Or.inr ⟨page, seen, rfl, walkBody_shown whole block differ shown⟩

/-- The walk of the code ends with what the lookup finds. -/
theorem walk_finds (whole : 0 ∉ component) (block : Nat) {reads left : List (BitVec 64)} {cluster : BitVec 32}
    {entry : Option FileEntry} (finds : Finds machine fs component stale reads cluster entry left)
    {buffer : Buffer} (heap : List HeapCall)
    (differ : ∀ p, buffer p ≠ stale p → Overwritten fs 0 (sectorsPerCluster fs).toNat p) :
    ∃ walked, Returns (walkBody machine fs component block) ⟨cluster, buffer, ⟨reads, heap⟩⟩ walked ∧
      Walks left entry walked := by
  induction finds generalizing buffer heap with
  | @unreadable reads cluster seen shown =>
    obtain ⟨heap', leaves⟩ :=
      @walkBody_unreadable machine fs component stale block ⟨cluster, buffer, ⟨reads, heap⟩⟩ seen differ shown
    exact ⟨_, ⟨1, run_leave 0 leaves⟩, .unreadable heap'⟩
  | @found reads cluster page seen entry shown first =>
    rcases @walkBody_shown machine fs component stale whole block ⟨cluster, buffer, ⟨reads, heap⟩⟩ page seen differ shown
      with ⟨held, heap', first', leaves⟩ | ⟨missing, _⟩
    · obtain rfl := Option.some.inj (first.symm.trans first')
      exact ⟨_, ⟨1, run_leave 0 leaves⟩, .found held heap'⟩
    · cases first.symm.trans missing
  | @ended reads cluster page seen shown missing unused =>
    rcases @walkBody_shown machine fs component stale whole block ⟨cluster, buffer, ⟨reads, heap⟩⟩ page seen differ shown
      with ⟨held, heap', first, _⟩ | ⟨_, ⟨_, heap', leaves⟩ | ⟨full, _⟩⟩
    · cases missing.symm.trans first
    · exact ⟨_, ⟨1, run_leave 0 leaves⟩, .missing heap'⟩
    · exact absurd full unused
  | @last reads cluster page seen behind known shown missing full follows stop =>
    obtain ⟨heap', turn⟩ := walkBody_full whole block heap differ shown missing full follows
    rw [if_pos stop] at turn
    exact ⟨_, ⟨1, run_leave 0 turn⟩, .missing heap'⟩
  | @onward reads cluster page seen behind known entry left shown missing full follows proper _ ih =>
    obtain ⟨heap', turn⟩ := walkBody_full whole block heap differ shown missing full follows
    rw [if_neg proper] at turn
    obtain ⟨walked, ⟨bound, ended⟩, walks⟩ := ih heap' (showCluster_frame shown)
    exact ⟨walked, ⟨bound + 1, (run_again bound turn).trans ended⟩, walks⟩

/-- A walk that ends has found what the lookup finds. -/
theorem finds_of_run (whole : 0 ∉ component) {block bound : Nat} {w : Walk} {walked : Walked}
    (differ : ∀ p, w.buffer p ≠ stale p → Overwritten fs 0 (sectorsPerCluster fs).toNat p)
    (ended : run (walkBody machine fs component block) bound w = some walked) :
    ∃ entry left, Finds machine fs component stale w.trace.reads w.cluster entry left ∧ Walks left entry walked := by
  induction bound generalizing w with
  | zero => simp [run] at ended
  | succ bound ih =>
    rcases walkBody_cases whole block w differ with ⟨seen, heap, shown, leaves⟩ | ⟨page, seen, shown, cases⟩
    · rw [run_leave _ leaves] at ended
      obtain rfl := Option.some.inj ended
      exact ⟨none, seen, .unreadable shown, .unreadable heap⟩
    rcases cases with ⟨held, heap, first, leaves⟩ | ⟨missing, ⟨unused, heap, leaves⟩ |
      ⟨full, behind, known, heap, follows, turn⟩⟩
    · rw [run_leave _ leaves] at ended
      obtain rfl := Option.some.inj ended
      exact ⟨some held.entry, seen, .found shown first, .found held heap⟩
    · rw [run_leave _ leaves] at ended
      obtain rfl := Option.some.inj ended
      exact ⟨none, seen, .ended shown missing unused, .missing heap⟩
    · by_cases stop : END_OF_CHAIN ≤ behind
      · rw [if_pos stop] at turn
        rw [run_leave _ turn] at ended
        obtain rfl := Option.some.inj ended
        exact ⟨none, known, .last shown missing full follows stop, .missing heap⟩
      · rw [if_neg stop] at turn
        rw [run_again _ turn] at ended
        obtain ⟨entry, left, rest, walks⟩ := ih (showCluster_frame shown) ended
        exact ⟨entry, left, .onward shown missing full follows stop rest, walks⟩

end

end Ketone.Exfat.Lookup
