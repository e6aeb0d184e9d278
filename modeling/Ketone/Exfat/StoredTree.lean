import Ketone.Exfat.EntrySets
import Ketone.Exfat.NoLeaks
import Ketone.Library.NameTree

/-! A tree of files as it stands on a volume, and that the calls of the file system give back the tree. -/

namespace Ketone.Exfat.StoredTree
open Library Library.Loop Library.Components Library.NameTree Volume OpenFile ReadFile Lookup PathResolution WholeFile
open TwoReaders FileClusters EntrySets NoLeaks MemManager.BlockRuns

abbrev Bytes := List (BitVec 8)

section
variable (disk : Disk) (fs : ExfatInstance)

def ShortCluster (cluster : BitVec 32) : Prop :=
  clusterStart fs cluster + 2 ^ fs.sectorsPerClusterShift.toNat ≤ 2 ^ 32

def ShortEntry (cluster : BitVec 32) : Prop := fatStart fs + 4 * cluster.toNat / SECTOR_SIZE < 2 ^ 32

/-- The items of the directory that starts at a cluster. No set goes over the end of a cluster; the directory ends with
an entry of zeros, or with the last cluster. -/
inductive Listing : BitVec 32 → List Item → Prop where
  | ended {cluster items} (short : ShortCluster fs cluster)
      (room : 32 * (slotsOf items).length < sizeOfCluster fs)
      (shown : Shows (clusterByte disk fs cluster) 0 (slotsOf items))
      (stop : clusterByte disk fs cluster ((slotsOf items).length * 32) = 0x00) : Listing cluster items
  | last {cluster items} (short : ShortCluster fs cluster)
      (full : 32 * (slotsOf items).length = sizeOfCluster fs)
      (shown : Shows (clusterByte disk fs cluster) 0 (slotsOf items)) (entry : ShortEntry fs cluster)
      (stop : END_OF_CHAIN ≤ fatEntry disk fs cluster) : Listing cluster items
  | onward {cluster items rest} (short : ShortCluster fs cluster)
      (full : 32 * (slotsOf items).length = sizeOfCluster fs)
      (shown : Shows (clusterByte disk fs cluster) 0 (slotsOf items)) (entry : ShortEntry fs cluster)
      (proper : fatEntry disk fs cluster < END_OF_CHAIN) (behind : Listing (fatEntry disk fs cluster) rest) :
      Listing cluster (items ++ rest)

structure Contents (file : FileEntry) (data : Bytes) : Prop where
  length : file.dataLength.toNat = data.length
  short : ShortAddresses disk file
  reached : Reached disk file (clusterTotal file)
  bytes : ∀ p < data.length, fileByte disk file p = data.getD p 0

mutual

/-- The directory at a cluster has sets for the children, in their order. -/
inductive HoldsChildren : BitVec 32 → List (Str × Tree Str Bytes) → Prop where
  | listed {cluster items children} (listing : Listing disk fs cluster items)
      (names : (setsOf items).map FileSet.name = children.map Prod.fst)
      (nodes : ∀ (k : Nat) (set : FileSet) (child : Str × Tree Str Bytes), (setsOf items)[k]? = some set →
        children[k]? = some child → HoldsNode set child.2) :
      HoldsChildren cluster children

/-- A set stands for a file with its data, or for a directory. -/
inductive HoldsNode : FileSet → Tree Str Bytes → Prop where
  | file {set data} (plain : ¬ IsDirectory (set.entry fs)) (contents : Contents disk (set.entry fs) data) :
      HoldsNode set (.leaf data)
  | directory {set children} (directory : IsDirectory (set.entry fs))
      (holds : HoldsChildren set.firstCluster children) : HoldsNode set (.branch children)

end

end

section
variable {disk : Disk} {memory : List (BitVec 64) → Buffer} {fs : ExfatInstance} {items : List Item}
  {cluster : BitVec 32} {component : Str}

theorem count_positions (sectors : fs.bytesPerSectorShift = 9) (clusters : fs.sectorsPerClusterShift ≤ 16) :
    positions fs = List.range' 0 (sizeOfCluster fs / 32) := by
  unfold positions
  rw [List.range_eq_range', BitVec.toNat_udiv, toNat_clusterSize sectors clusters]
  rfl

theorem shows_page {page : Buffer} (room : 32 * (slotsOf items).length ≤ sizeOfCluster fs)
    (shown : Shows (clusterByte disk fs cluster) 0 (slotsOf items))
    (bytes : ∀ q < sizeOfCluster fs, page q = clusterByte disk fs cluster q) : Shows page 0 (slotsOf items) := by
  intro k slot here q below
  have inside := (List.getElem?_eq_some_iff.mp here).1
  rw [bytes _ (by omega)]
  exact shown k slot here q below

theorem find_entries (sets : List FileSet) :
    (sets.map (FileSet.entry · fs)).find? (Named component ·) =
      (sets.find? (·.name = component)).map (FileSet.entry · fs) := by
  rw [List.find?_map]
  rfl

theorem find_page {page : Buffer} (sectors : fs.bytesPerSectorShift = 9) (clusters : fs.sectorsPerClusterShift ≤ 16)
    (room : 32 * (slotsOf items).length ≤ sizeOfCluster fs) (here : Shows page 0 (slotsOf items))
    (rest : fileSets fs page
      (List.range' (slotsOf items).length (sizeOfCluster fs / 32 - (slotsOf items).length)) = []) :
    (fileSets fs page (positions fs)).find? (Named component ·) =
      ((setsOf items).find? (·.name = component)).map (FileSet.entry · fs) := by
  have enough : (slotsOf items).length ≤ sizeOfCluster fs / 32 := by omega
  have found := fileSets_items fs items 0 here enough
  rw [Nat.zero_add, rest, List.append_nil, ← count_positions sectors clusters] at found
  rw [found, find_entries]

theorem ended_cluster (sectors : fs.bytesPerSectorShift = 9) (clusters : fs.sectorsPerClusterShift ≤ 16)
    (short : ShortCluster fs cluster) (room : 32 * (slotsOf items).length < sizeOfCluster fs)
    (shown : Shows (clusterByte disk fs cluster) 0 (slotsOf items))
    (stop : clusterByte disk fs cluster ((slotsOf items).length * 32) = 0x00) (stale : Buffer)
    (reads : List (BitVec 64)) :
    ∃ page seen, showCluster (whole disk memory) fs stale reads cluster = (some page, seen) ∧
      (fileSets fs page (positions fs)).find? (Named component ·) =
        ((setsOf items).find? (·.name = component)).map (FileSet.entry · fs) ∧ ¬ ∀ i ∈ positions fs, Used page i := by
  obtain ⟨page, seen, shows_, bytes⟩ := @showCluster_whole disk memory fs sectors clusters cluster short stale reads
  have here := shows_page (Nat.le_of_lt room) shown bytes
  have whole : 32 ∣ sizeOfCluster fs := ⟨16 * 2 ^ fs.sectorsPerClusterShift.toNat, by
    unfold sizeOfCluster SECTOR_SIZE
    omega⟩
  have inside : (slotsOf items).length < sizeOfCluster fs / 32 := by omega
  have unused : ¬ Used page (slotsOf items).length := by
    unfold Used
    rw [bytes _ (by omega), stop]
    simp
  obtain ⟨more, left⟩ := Nat.exists_eq_add_of_lt inside
  refine ⟨page, seen, shows_, find_page sectors clusters (Nat.le_of_lt room) here ?_, ?_⟩
  · rw [show sizeOfCluster fs / 32 - (slotsOf items).length = more + 1 by omega, List.range'_succ,
      fileSets_unused unused]
  · intro all
    apply unused
    apply all
    rw [count_positions sectors clusters, List.mem_range'_1]
    omega

theorem full_cluster (sectors : fs.bytesPerSectorShift = 9) (clusters : fs.sectorsPerClusterShift ≤ 16)
    (short : ShortCluster fs cluster) (full : 32 * (slotsOf items).length = sizeOfCluster fs)
    (shown : Shows (clusterByte disk fs cluster) 0 (slotsOf items)) (stale : Buffer) (reads : List (BitVec 64)) :
    ∃ page seen, showCluster (whole disk memory) fs stale reads cluster = (some page, seen) ∧
      (fileSets fs page (positions fs)).find? (Named component ·) =
        ((setsOf items).find? (·.name = component)).map (FileSet.entry · fs) ∧ ∀ i ∈ positions fs, Used page i := by
  obtain ⟨page, seen, shows_, bytes⟩ := @showCluster_whole disk memory fs sectors clusters cluster short stale reads
  have here := shows_page (Nat.le_of_eq full) shown bytes
  have count : sizeOfCluster fs / 32 = (slotsOf items).length := by omega
  refine ⟨page, seen, shows_, find_page sectors clusters (Nat.le_of_eq full) here ?_, ?_⟩
  · rw [count, Nat.sub_self]
    rfl
  · intro i member
    rw [count_positions sectors clusters, List.mem_range'_1] at member
    have used := slots_used here i (by omega)
    rwa [Nat.zero_add] at used

/-- Looking up a name finds the first of the sets that has it. -/
theorem finds_listing (sectors : fs.bytesPerSectorShift = 9) (clusters : fs.sectorsPerClusterShift ≤ 16)
    (listing : Listing disk fs cluster items) (stale : Buffer) (reads : List (BitVec 64)) :
    ∃ left, Finds (whole disk memory) fs component stale reads cluster
      (((setsOf items).find? (·.name = component)).map (FileSet.entry · fs)) left := by
  induction listing generalizing reads with
  | @ended cluster items short room shown stop =>
    obtain ⟨page, seen, shows_, search, unused⟩ :=
      @ended_cluster _ memory _ _ _ component sectors clusters short room shown stop stale reads
    cases first : (setsOf items).find? (·.name = component) with
    | some set =>
      rw [first] at search
      exact ⟨seen, .found shows_ search⟩
    | none =>
      rw [first] at search
      exact ⟨seen, .ended shows_ search unused⟩
  | @last cluster items short full shown entry stop =>
    obtain ⟨page, seen, shows_, search, used⟩ :=
      @full_cluster _ memory _ _ _ component sectors clusters short full shown stale reads
    have behind := @chain_whole disk memory fs sectors cluster entry seen
    cases first : (setsOf items).find? (·.name = component) with
    | some set =>
      rw [first] at search
      exact ⟨seen, .found shows_ search⟩
    | none =>
      rw [first] at search
      exact ⟨_, .last shows_ search used rfl (behind ▸ stop)⟩
  | @onward cluster items rest short full shown entry proper _ ih =>
    obtain ⟨page, seen, shows_, search, used⟩ :=
      @full_cluster _ memory _ _ _ component sectors clusters short full shown stale reads
    have behind := @chain_whole disk memory fs sectors cluster entry seen
    have sets : setsOf (items ++ rest) = setsOf items ++ setsOf rest := List.filterMap_append
    rw [sets, List.find?_append]
    cases first : (setsOf items).find? (·.name = component) with
    | some set =>
      rw [first] at search
      exact ⟨seen, .found shows_ search⟩
    | none =>
      rw [first] at search
      obtain ⟨left, rests⟩ := ih (chain (whole disk memory) fs seen cluster).2
      exact ⟨left, .onward shows_ search used rfl (behind ▸ BitVec.not_le.mpr proper) (behind ▸ rests)⟩

end

/-- What a call returns for a path to a node, or to nothing. -/
def Opened (disk : Disk) (fs : ExfatInstance) (last : Option Str) (node : Option (Tree Str Bytes))
    (found : Option Held) : Prop :=
  match node with
  | none => found = none
  | some node => ∃ held set, found = some held ∧ held.entry = set.entry fs ∧ last = some set.name ∧
      HoldsNode disk fs set node

section
variable {disk : Disk} (memory : List (BitVec 64) → Buffer) {fs : ExfatInstance}

theorem walk_children (sectors : fs.bytesPerSectorShift = 9) (clusters : fs.sectorsPerClusterShift ≤ 16)
    {cluster : BitVec 32} {children : List (Str × Tree Str Bytes)} (holds : HoldsChildren disk fs cluster children)
    {current : Str} (cursor : Cursor current) (more : current ≠ []) (short : (piece SLASH current).length ≤ 255)
    (reads : List (BitVec 64)) (heap : List HeapCall) :
    ∃ walked least seen, (∀ bound, least ≤ bound → openBody (whole disk memory) fs bound ⟨current, cluster, ⟨reads, heap⟩⟩ =
        some (afterWalk (next SLASH current) heap.length walked)) ∧
      (((Tree.branch children).child (piece SLASH current) = none ∧ Walks seen none walked) ∨
        ∃ set node, (Tree.branch children).child (piece SLASH current) = some node ∧ set.name = piece SLASH current ∧
          HoldsNode disk fs set node ∧ Walks seen (some (set.entry fs)) walked) := by
  cases holds with
  | @listed cluster items children listing names nodes =>
    obtain ⟨seen, finds⟩ := finds_listing sectors clusters listing (memory reads) reads
    obtain ⟨walked, ⟨least, ended⟩, walks⟩ := walk_finds cursor.piece_whole heap.length finds
      (heap ++ [.kalloc (clusterSize fs)]) fun p differs => absurd rfl differs
    refine ⟨walked, least, seen, ?_, ?_⟩
    · intro bound enough
      rw [openBody_component bound cursor more short]
      exact congrArg (Option.map _) (run_mono enough ended)
    · rcases find_record names (piece SLASH current) with ⟨none, missing⟩ | ⟨k, set, child, here, there, first, found⟩
      · rw [none] at walks
        exact Or.inl ⟨missing, walks⟩
      · rw [first] at walks
        have named : set.name = piece SLASH current := by simpa using List.find?_some first
        exact Or.inr ⟨set, child.2, found, named, nodes k set child here there, walks⟩

/-- From a directory on, the call ends with what the path leads to in the tree. -/
theorem open_children (sectors : fs.bytesPerSectorShift = 9) (clusters : fs.sectorsPerClusterShift ≤ 16)
    {todo : List Str} (nonempty : todo ≠ []) (short : ∀ c ∈ todo, c.length ≤ 255) {cluster : BitVec 32}
    {children : List (Str × Tree Str Bytes)} (holds : HoldsChildren disk fs cluster children) {current : Str}
    (cursor : Cursor current) (same : components SLASH current = todo) (reads : List (BitVec 64)) (heap : List HeapCall) :
    ∃ bound found trace', runPartial (openBody (whole disk memory) fs bound) bound ⟨current, cluster, ⟨reads, heap⟩⟩ =
        some (.returned found, trace') ∧
      Opened disk fs todo.getLast? ((Tree.branch children).lookup todo) found := by
  induction todo generalizing cluster children current reads heap with
  | nil => exact absurd rfl nonempty
  | cons component rest ih =>
    have more := not_end_of_components same
    have behind : components SLASH (next SLASH current) = rest := (cursor.rest_eq same).symm
    have front : piece SLASH current = component := by
      rw [cursor.split more, List.cons.injEq] at same
      exact same.1
    obtain ⟨walked, least, seen, turn, found⟩ := walk_children memory sectors clusters holds cursor more
      (front ▸ short component (List.mem_cons_self ..)) reads heap
    have leaves := fun result (left : afterWalk (next SLASH current) heap.length walked = .leave result) =>
      runPartial_leave least (left ▸ turn (least + 1) (Nat.le_succ least))
    rw [front] at found
    change ∃ bound found trace', _ ∧ Opened disk fs _ (((Tree.branch children).child component).bind (·.lookup rest)) found
    rcases found with ⟨missing, walks⟩ | ⟨set, node, child, named, stands, walks⟩
    · rw [missing]
      cases walks with
      | unreadable heap' => exact ⟨_, none, _, leaves _ rfl, rfl⟩
      | missing heap' => exact ⟨_, none, _, leaves _ rfl, rfl⟩
    rw [child, Option.bind_some]
    generalize entry : set.entry fs = e at walks
    cases walks with
    | found held heap' =>
      cases rest with
      | nil =>
        have last : next SLASH current = [] := cursor.next.end_iff_components.mpr behind
        exact ⟨_, some held, _, leaves _ (if_pos last), held, set, rfl, entry.symm, congrArg some named.symm, stands⟩
      | cons other rest =>
        have further : next SLASH current ≠ [] := by
          rw [ne_eq, cursor.next.end_iff_components, behind]
          apply List.cons_ne_nil
        have onward : afterWalk (next SLASH current) heap.length (.directoryDone (some held) ⟨seen, heap'⟩) = _ :=
          if_neg further
        cases stands with
        | file plain contents =>
          rw [entry] at plain
          rw [if_neg plain] at onward
          exact ⟨_, none, _, leaves _ onward, rfl⟩
        | @directory _ inner directory holds' =>
          rw [entry] at directory
          rw [if_pos directory] at onward
          have cluster' : set.firstCluster = held.entry.firstCluster := congrArg FileEntry.firstCluster entry
          rw [cluster'] at holds'
          have short' : ∀ c ∈ other :: rest, c.length ≤ 255 := fun c member => short c (List.mem_cons_of_mem _ member)
          obtain ⟨bound, found, trace', ended, opened⟩ := ih (List.cons_ne_nil _ _) short' holds' cursor.next behind
            seen (held.kfree ((⟨seen, heap'⟩ : Trace).kfree heap.length)).heap
          refine ⟨max least bound + 1, found, trace', ?_, opened⟩
          rw [runPartial_again _ (onward ▸ turn (max least bound + 1) (by omega))]
          exact runPartial_mono (openBody_mono (by omega)) (by omega) ended

/-- An answer with the size and the data of a file; the pointer is null if there is no data. -/
structure Delivers (data : Bytes) (answer : Answer) : Prop where
  size : answer.size = some (BitVec.ofNat 64 data.length)
  empty : data = [] → answer.data = none
  bytes : data ≠ [] → ∃ block, answer.data = some block ∧ ∀ p < data.length, block.bytes p = data.getD p 0

/-- The reader that checks returns the data of a file. -/
theorem read_contents {file : FileEntry} {data : Bytes} (sectors : file.fs.bytesPerSectorShift = 9)
    (clusters : file.fs.sectorsPerClusterShift ≤ 16) (contents : Contents disk file data) (trace : Trace) :
    ∃ bound answer, readFileAll (whole disk memory) file bound trace = some answer ∧ Delivers data answer := by
  have length := contents.length
  have number : file.dataLength = BitVec.ofNat 64 data.length := by
    rw [← length, BitVec.ofNat_toNat, BitVec.setWidth_eq]
  have size := toNat_clusterSize sectors clusters
  have positive := @sizeOfCluster_pos file
  obtain ⟨_, bound, answer, returns, _⟩ := @readsAll_ends (whole disk memory) file trace (by omega)
  refine ⟨bound, answer, returns, ?_⟩
  by_cases empty : file.dataLength = 0
  · have none : data = [] := List.eq_nil_of_length_eq_zero (by rw [← length, empty]; rfl)
    rw [readFileAll_eq] at returns
    have body : readAllBody (whole disk memory) file (dataBlock trace) (bufferBlock file trace)
        (readStart (whole disk memory) file trace) = .leave ⟨pointer file.dataLength (dataBlock trace)
          (readStart (whole disk memory) file trace).data, some 0, _⟩ := if_pos (by rw [empty]; exact BitVec.not_lt_zero)
    cases bound with
    | zero => simp [run] at returns
    | succ bound =>
      rw [run_leave _ body] at returns
      obtain rfl := Option.some.inj returns
      exact ⟨by rw [← number, empty], fun _ => by simp [pointer, empty], fun some => absurd none some⟩
  · have complete : ReturnsFile disk file answer := by
      rw [readFileAll_eq] at returns
      have initial : Copied disk memory file trace 0 (readStart (whole disk memory) file trace) := by
        refine ⟨at_readStart (whole disk memory) file trace, rfl, ?_, ?_⟩
        · intro _ i below
          omega
        · intro p below
          rw [Nat.zero_mul] at below
          omega
      have some_cluster : 0 < clusterTotal file := by
        rw [lt_clusterTotal_iff, Nat.zero_mul]
        exact BitVec.toNat_pos_of_ne_zero empty
      apply run_turns (fun r => ∃ j, Copied disk memory file trace j r ∧ j < clusterTotal file) (ReturnsFile disk file)
        _ ⟨0, initial, some_cluster⟩ returns
      intro r inv
      obtain ⟨j, copied, below⟩ := inv
      rcases readAllBody_whole sectors clusters empty contents.short copied below (dataBlock trace)
        (bufferBlock file trace) with ⟨answer, leaves, right⟩ | ⟨next, again, kept, more⟩
      · exact Or.inr ⟨answer, leaves, right⟩
      · exact Or.inl ⟨next, again, j + 1, kept, more⟩
    obtain ⟨size', block, given, bytes⟩ := complete.1 contents.reached
    have some : data ≠ [] := by
      rintro rfl
      exact empty (BitVec.eq_of_toNat_eq length)
    refine ⟨size'.trans (congrArg Option.some number), fun none => absurd none some, fun _ => ⟨block, given, ?_⟩⟩
    intro p below
    rw [bytes p (by omega), contents.bytes p below]

/-- The call that reads a file ends, and where the heap serves it, it returns this data. -/
def ReadsBack (disk : Disk) (memory : List (BitVec 64) → Buffer) (file : FileEntry) (data : Bytes) : Prop :=
  ∀ (later : Trace) (start : Played) (live : List Live), Ready start live later.heap →
    ∃ bound answer, readFileAll (whole disk memory) file bound later = some answer ∧
      Leaves start later.heap answer.trace.heap fun p =>
        Delivers data answer ∧ ReadLeaves start.heap live file.dataLength answer.data p

/-- For every volume with sectors of 512 bytes and clusters of at most 32 MiB that holds a tree of files, every path with
components of at most 255 bytes, every well-formed heap that serves what is asked of it, and whatever has gone before:
the call that opens a file ends, with one outcome. It returns the set of what the path leads to in the tree, and the
null pointer if it leads to nothing, to the root or through a file; and if it leads to a file, the call that reads all
of it returns, on every well-formed heap that serves it, the size of the file and its data. What is returned stands in
live allocations of its own, and nothing else is left. -/
theorem tree_read_back (disk : Disk) (memory : List (BitVec 64) → Buffer) (fs : ExfatInstance)
    (children : List (Str × Tree Str Bytes)) (path : CString) (trace : Trace) (start : Played) (live : List Live)
    (ready : Ready start live trace.heap) (sectors : fs.bytesPerSectorShift = 9)
    (clusters : fs.sectorsPerClusterShift ≤ 16) (holds : HoldsChildren disk fs fs.rootCluster children)
    (short : ∀ c ∈ path.components, c.length ≤ 255) :
    ∃ found trace',
      (∀ outcome, Opens (whole disk memory) fs path.bytes trace outcome ↔ outcome = (.returned found, trace')) ∧
      Leaves start trace.heap trace'.heap fun p => OpenLeaves start.heap live found p ∧
      if path.components = [] then found = none
      else match (Tree.branch children).lookup path.components with
        | none => found = none
        | some node => ∃ held set, found = some held ∧ held.entry = set.entry fs ∧
            path.components.getLast? = some set.name ∧ HoldsNode disk fs set node ∧
            ∀ data, node = .leaf data → ReadsBack disk memory held.entry data := by
  have cursor := cursor_skip path.whole
  have same : components SLASH (path.bytes.dropWhile (· = SLASH)) = path.components := components_skip path.bytes
  have unique : ∀ found trace', Opens (whole disk memory) fs path.bytes trace (.returned found, trace') →
      ∀ outcome, Opens (whole disk memory) fs path.bytes trace outcome ↔ outcome = (.returned found, trace') := by
    intro found trace' opens outcome
    constructor
    · intro other
      exact opens_unique other opens
    · rintro rfl
      exact opens
  by_cases empty : path.components = []
  · have last := cursor.end_iff_components.mpr (same.trans empty)
    have opens : Opens (whole disk memory) fs path.bytes trace (.returned none, trace) :=
      ⟨1, runPartial_leave 0 (openBody_end 1 last)⟩
    refine ⟨none, trace, unique _ _ opens, (leaves_open ready opens).imp fun p left => ⟨left, ?_⟩⟩
    rw [if_pos empty]
  · obtain ⟨bound, found, trace', ended, opened⟩ := open_children memory sectors clusters empty short holds
      cursor same trace.reads trace.heap
    have opens : Opens (whole disk memory) fs path.bytes trace (.returned found, trace') := ⟨bound, ended⟩
    refine ⟨found, trace', unique _ _ opens, (leaves_open ready opens).imp fun p left => ⟨left, ?_⟩⟩
    rw [if_neg empty]
    unfold Opened at opened
    cases node : (Tree.branch children).lookup path.components with
    | none =>
      rw [node] at opened
      exact opened
    | some node' =>
      rw [node] at opened
      obtain ⟨held, set, rfl, entry, last, stands⟩ := opened
      refine ⟨held, set, rfl, entry, last, stands, ?_⟩
      rintro data rfl later start' live' ready'
      cases stands with
      | file plain contents =>
        rw [← entry] at contents
        have fs' : held.entry.fs = fs := congrArg FileEntry.fs entry
        obtain ⟨bound, answer, returns, delivers⟩ := read_contents memory (by rw [fs']; exact sectors)
          (by rw [fs']; exact clusters) contents later
        exact ⟨bound, answer, returns, (leaves_read ready' returns).imp fun p left => ⟨delivers, left⟩⟩

end

def packed (items : List Item) : Buffer := fun p => ((slotsOf items).flatMap Slot.bytes).getD p 0

theorem shows_packed (items : List Item) : Shows (packed items) 0 (slotsOf items) := by
  intro k slot here q below
  obtain ⟨inside, rfl⟩ := List.getElem?_eq_some_iff.mp here
  have place : (0 + k) * 32 + q = 32 * k + q := by omega
  unfold packed
  rw [place, Packed.getD_records Slot.whole _ below inside]

/-- A set without anything that is not needed; the clusters of its data are consecutive. -/
def plainSet (units : List (BitVec 16)) (attributes : BitVec 16) (cluster : BitVec 32) (length : BitVec 64)
    (named : units ≠ []) (short : units.length ≤ 15) : FileSet where
  checksum := 0
  attributes := attributes
  stamps := 0
  flags := 0x03
  nameHash := 0
  validDataLength := length
  firstCluster := cluster
  dataLength := length
  reserved := (0, 0, 0)
  units := units
  extensions := []
  named := named
  short := Nat.le_trans short (by decide)
  room := by
    rw [List.length_nil]
    omega
  passed := by simp

/-- A directory of one cluster of a sector. -/
theorem listing_packed {disk : Disk} {fs : ExfatInstance} {cluster : BitVec 32} {items : List Item}
    (single : fs.sectorsPerClusterShift = 0) (start : clusterStart fs cluster < 2 ^ 32)
    (here : ∀ q < SECTOR_SIZE, disk (clusterStart fs cluster) q = packed items q) (few : (slotsOf items).length < 16) :
    Listing disk fs cluster items := by
  have count : 2 ^ fs.sectorsPerClusterShift.toNat = 1 := by rw [single]; rfl
  have size : sizeOfCluster fs = 512 := by
    unfold sizeOfCluster SECTOR_SIZE
    rw [count]
  have byte : ∀ q < 512, clusterByte disk fs cluster q = packed items q := by
    intro q below
    unfold clusterByte SECTOR_SIZE
    rw [Nat.div_eq_of_lt below, Nat.mod_eq_of_lt below, Nat.add_zero, here q below]
  refine .ended ?_ (by omega) ?_ ?_
  · unfold ShortCluster
    omega
  · intro k slot found q below
    have inside := (List.getElem?_eq_some_iff.mp found).1
    rw [byte _ (by omega)]
    exact shows_packed _ k slot found q below
  · have whole := Packed.length_records Slot.whole (slotsOf items)
    rw [byte _ (by omega), packed, List.getD_eq_getElem?_getD, List.getElem?_eq_none (by omega)]
    rfl

theorem holds_single {disk : Disk} {fs : ExfatInstance} {cluster : BitVec 32} {set : FileSet} {name : Str}
    {node : Tree Str Bytes} (listing : Listing disk fs cluster [.fileSet set]) (named : set.name = name)
    (holds : HoldsNode disk fs set node) : HoldsChildren disk fs cluster [(name, node)] := by
  refine .listed listing (congrArg (fun name => [name]) named) ?_
  intro k set' child here there
  cases k with
  | zero =>
    obtain rfl := Option.some.inj here
    obtain rfl := Option.some.inj there
    exact holds
  | succ k => simp at there

def directorySet : FileSet := plainSet [0x61] 0x10 3 0 (by simp) (by simp)

def fileSet : FileSet := plainSet [0x62] 0x20 4 3 (by simp) (by simp)

/-- Three clusters of a sector: the root, the directory `a` in it, and the data of the file `b` in that. -/
def treeDisk : Disk := fun sector =>
  if sector = 2 then packed [.fileSet directorySet] else if sector = 3 then packed [.fileSet fileSet]
  else if sector = 4 then fun p => [0x68, 0x69, 0x21].getD p 0 else fun _ => 0

def treeChildren : List (Str × Tree Str Bytes) := [([0x61], .branch [([0x62], .leaf [0x68, 0x69, 0x21])])]

theorem treeDisk_holds : HoldsChildren treeDisk smallVolume smallVolume.rootCluster treeChildren := by
  have root : clusterStart smallVolume smallVolume.rootCluster = 2 := by decide
  have inner : clusterStart smallVolume 3 = 3 := by decide
  have outside : Listing treeDisk smallVolume smallVolume.rootCluster [.fileSet directorySet] :=
    listing_packed rfl (by rw [root]; decide) (fun q _ => by rw [root]; rfl) (by decide +kernel)
  have inside : Listing treeDisk smallVolume 3 [.fileSet fileSet] :=
    listing_packed rfl (by rw [inner]; decide) (fun q _ => by rw [inner]; rfl) (by decide +kernel)
  have data : Contents treeDisk (fileSet.entry smallVolume) [0x68, 0x69, 0x21] := by
    have total : clusterTotal (fileSet.entry smallVolume) = 1 := by decide +kernel
    refine ⟨rfl, ?_, ?_, by decide +kernel⟩
    · intro j below _
      rw [total] at below ⊢
      obtain rfl : j = 0 := by omega
      exact ⟨by decide +kernel, fun more => absurd more (by decide)⟩
    · intro _ j below
      rw [total] at below
      omega
  refine holds_single outside (by decide +kernel) (.directory (by decide +kernel) ?_)
  exact holds_single inside (by decide +kernel) (.file (by decide +kernel) data)

def innerPath : CString := ⟨[0x2F, 0x61, 0x2F, 0x62], by decide⟩

theorem inner_file_asks : ∃ held trace answer,
    openFile (whole treeDisk fun _ _ => 0) smallVolume innerPath.bytes 4 ⟨[], []⟩ =
        some (.returned (some held), trace) ∧
      readFileAll (whole treeDisk fun _ _ => 0) held.entry 4 trace = some answer ∧
      trace.heap = [.kalloc 512, .kalloc 48, .kalloc 256, .kfree 0, .kfree 2, .kfree 1, .kalloc 512, .kalloc 48,
        .kalloc 256, .kfree 6] ∧
      answer.trace.heap = trace.heap ++ [.kalloc 3, .kalloc 512, .kfree 11] := by
  have asks : ((openFile (whole treeDisk fun _ _ => 0) smallVolume innerPath.bytes 4 ⟨[], []⟩).bind fun
    | (.returned (some held), trace) => (readFileAll (whole treeDisk fun _ _ => 0) held.entry 4 trace).map fun answer =>
        (trace.heap, answer.trace.heap)
    | _ => none) = some ([.kalloc 512, .kalloc 48, .kalloc 256, .kfree 0, .kfree 2, .kfree 1, .kalloc 512, .kalloc 48,
        .kalloc 256, .kfree 6], [.kalloc 512, .kalloc 48, .kalloc 256, .kfree 0, .kfree 2, .kfree 1, .kalloc 512,
        .kalloc 48, .kalloc 256, .kfree 6, .kalloc 3, .kalloc 512, .kfree 11]) := by decide +kernel
  obtain ⟨⟨outcome, trace⟩, opened, rest⟩ := Option.bind_eq_some_iff.mp asks
  cases outcome with
  | smashed => cases rest
  | returned found =>
    cases found with
    | none => cases rest
    | some held =>
      obtain ⟨answer, returns, logs⟩ := Option.map_eq_some_iff.mp rest
      obtain ⟨opens, reads⟩ := Prod.mk.inj logs
      exact ⟨held, trace, answer, opened, returns, opens, by rw [reads, opens]; rfl⟩

/-- On a heap of four free blocks the file is found and read; its data, its name and its entry are left there. -/
theorem inner_file_read : ∃ held trace' answer p, Opens (whole treeDisk fun _ _ => 0) smallVolume innerPath.bytes ⟨[], []⟩
      (.returned (some held), trace') ∧ readFileAll (whole treeDisk fun _ _ => 0) held.entry 4 trace' = some answer ∧
    Delivers [0x68, 0x69, 0x21] answer ∧ replay ⟨fourBlocks, []⟩ answer.trace.heap = some p ∧
    ∃ data filename entry, Pictured p.heap [data, filename, entry] := by
  have components : innerPath.components = [[0x61], [0x62]] := by decide +kernel
  have node : (Tree.branch treeChildren).lookup innerPath.components = some (.leaf [0x68, 0x69, 0x21]) := by
    rw [components]
    rfl
  obtain ⟨held, trace, answer, opened, returns, asked, asked'⟩ := inner_file_asks
  have served : AllServed ⟨fourBlocks, []⟩ (trace.heap ++ [.kalloc 3, .kalloc 512, .kfree 11]) := by
    rw [asked]
    decide +kernel
  obtain ⟨early, late⟩ := allServed_append _ _ served
  obtain ⟨found, trace', opens, _, whole, answers⟩ := tree_read_back treeDisk (fun _ _ => 0) smallVolume treeChildren
    innerPath ⟨[], []⟩ ⟨fourBlocks, []⟩ [] ⟨pictured_cleared fun _ _ => rfl, by decide, rfl⟩ rfl (by decide)
    treeDisk_holds (by rw [components]; decide)
  obtain ⟨same, rfl⟩ := Prod.mk.inj ((opens _).mp ⟨4, opened⟩)
  obtain rfl := Outcome.returned.inj same
  obtain rfl : trace.heap = _ := whole
  obtain ⟨middle, played, left, answers⟩ := answers early
  rw [node, if_neg (by rw [components]; decide)] at answers
  obtain ⟨_, set, found, _, _, _, reads⟩ := answers
  obtain rfl := Option.some.inj found
  obtain ⟨record, filename, entry, _, _, pictured⟩ := left
  have ready : Ready middle [filename, entry] trace.heap :=
    ⟨pictured, by rw [record.total]; decide, (length_replay played).trans (Nat.zero_add _)⟩
  obtain ⟨bound, answer', returns', calls, split, delivered⟩ := reads _ rfl trace middle [filename, entry] ready
  rw [readFileAll_eq] at returns returns'
  obtain rfl := returns_unique ⟨4, returns⟩ ⟨bound, returns'⟩
  have same : calls = [.kalloc 3, .kalloc 512, .kfree 11] := List.append_cancel_left (split.symm.trans asked')
  rw [same] at delivered
  obtain ⟨last, finished, delivers, left⟩ := delivered (late middle played)
  have all : replay ⟨fourBlocks, []⟩ answer.trace.heap = some last := by
    rw [asked']
    unfold replay at played finished ⊢
    rw [List.foldlM_append, played]
    exact finished
  obtain ⟨block, given, _⟩ := delivers.bytes (by decide)
  rw [given] at left
  obtain ⟨_, data, _, pictured'⟩ := left
  exact ⟨held, trace, answer, last, ⟨4, opened⟩, returns, delivers, all, data, filename, entry, pictured'⟩

end Ketone.Exfat.StoredTree
