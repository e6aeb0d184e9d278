import Ketone.Exfat.Lookup

/-! A path is resolved by looking its components up one after the other, each in the
directory that the one before it has opened. -/

namespace Ketone.Exfat.PathResolution
open Library Library.Loop Library.Components Volume OpenFile Lookup

/-- A string in memory, without the NUL that ends it. -/
structure CString where
  bytes : Str
  whole : 0 ∉ bytes

theorem letter_whole : (0 : BitVec 8) ∉ [0x66] := by decide

def shortPath : CString := ⟨[0x66], letter_whole⟩

def CString.components (path : CString) : List Str := Components.components SLASH path.bytes

def IsDirectory (entry : FileEntry) : Prop := entry.attributes &&& 0x0010 ≠ 0

instance (entry : FileEntry) : Decidable (IsDirectory entry) := by
  unfold IsDirectory; infer_instance

inductive Stage where
  | directory (cluster : BitVec 32)
  | opened (entry : FileEntry)
  | missing

def Stage.inside : Stage → Option (BitVec 32)
  | .directory cluster => some cluster
  | .opened entry => if IsDirectory entry then some entry.firstCluster else none
  | .missing => none

def Stage.entry : Stage → Option FileEntry
  | .opened entry => some entry
  | _ => none

structure Progress where
  reads : List (BitVec 64)
  stage : Stage

/-- A lookup of a single directory: what it finds, and the reads after it. -/
abbrev LookupIn := List (BitVec 64) → BitVec 32 → Str → Option FileEntry × List (BitVec 64)

def resolveStep (lookup : LookupIn) (p : Progress) (component : Str) : Progress :=
  match p.stage.inside with
  | none => ⟨p.reads, .missing⟩
  | some cluster =>
      match lookup p.reads cluster component with
      | (some entry, reads) => ⟨reads, .opened entry⟩
      | (none, reads) => ⟨reads, .missing⟩

def resolve (lookup : LookupIn) (start : Progress) (todo : List Str) : Progress :=
  todo.foldl (resolveStep lookup) start

/-- Each lookup that the resolution makes ends, and gives what `lookup` says. -/
def WalksEnd (machine : Machine) (fs : ExfatInstance) (lookup : LookupIn) (start : Progress) (todo : List Str) : Prop :=
  ∀ before component after, todo = before ++ component :: after →
    ∀ cluster, (resolve lookup start before).stage.inside = some cluster →
      let reads := (resolve lookup start before).reads
      Finds machine fs component (machine.stale reads) reads cluster (lookup reads cluster component).1
        (lookup reads cluster component).2

section
variable {machine : Machine} {fs : ExfatInstance} {lookup : LookupIn}

theorem WalksEnd.tail {start : Progress} {component : Str} {rest : List Str}
    (ends : WalksEnd machine fs lookup start (component :: rest)) :
    WalksEnd machine fs lookup (resolveStep lookup start component) rest := by
  intro before other after split cluster inside
  exact ends (component :: before) other after (by rw [split]; rfl) cluster inside

theorem resolve_stuck {p : Progress} (stuck : p.stage.inside = none) (component : Str) (rest : List Str) :
    resolve lookup p (component :: rest) = ⟨p.reads, .missing⟩ := by
  have step : resolveStep lookup p component = ⟨p.reads, .missing⟩ := by
    unfold resolveStep
    rw [stuck]
  unfold resolve
  rw [List.foldl_cons, step]
  induction rest with
  | nil => rfl
  | cons _ _ ih => exact ih

/-- A place in a string where a component starts, or its end. -/
structure Cursor (current : Str) : Prop where
  whole : 0 ∉ current
  front : ∀ c rest, current = c :: rest → c ≠ SLASH

theorem cursor_skip {path : Str} (whole : 0 ∉ path) : Cursor (path.dropWhile (· = SLASH)) := by
  refine ⟨?_, ?_⟩
  · intro member
    exact whole (List.dropWhile_sublist _ |>.mem member)
  · intro c rest skipped
    exact skip_head skipped

theorem component_eq {current : Str} (whole : 0 ∉ current) :
    (current.takeWhile fun c => c ≠ SLASH ∧ c ≠ 0) = piece SLASH current := by
  unfold piece
  induction current with
  | nil => rfl
  | cons c rest ih =>
    rw [List.mem_cons, not_or] at whole
    have nonzero : c ≠ 0 := Ne.symm whole.1
    rw [List.takeWhile_cons, List.takeWhile_cons, ih whole.2]
    by_cases slash : c = SLASH
    · rw [if_neg (by simp [slash]), if_neg (by simp [slash])]
    · rw [if_pos (by simpa using ⟨slash, nonzero⟩), if_pos (by simpa using slash)]

theorem Cursor.end_iff {current : Str} (cursor : Cursor current) : current.headD 0 = 0 ↔ current = [] := by
  cases current with
  | nil => exact iff_of_true rfl rfl
  | cons c rest =>
    refine iff_of_false ?_ (List.cons_ne_nil c rest)
    intro zero
    exact cursor.whole (zero ▸ List.mem_cons_self ..)

theorem Cursor.next {current : Str} (cursor : Cursor current) : Cursor (next SLASH current) :=
  cursor_skip fun member => cursor.whole (List.mem_of_mem_drop member)

theorem Cursor.split {current : Str} (cursor : Cursor current) (more : current ≠ []) :
    components SLASH current = piece SLASH current :: components SLASH (Components.next SLASH current) := by
  cases front : current with
  | nil => exact absurd front more
  | cons c rest => exact components_piece rfl (cursor.front c rest front)

theorem Cursor.piece_whole {current : Str} (cursor : Cursor current) : 0 ∉ piece SLASH current :=
  fun member => cursor.whole ((List.takeWhile_sublist _).mem member)

theorem not_end_of_components {current component : Str} {rest : List Str}
    (same : components SLASH current = component :: rest) : current ≠ [] := by
  rintro rfl
  exact List.cons_ne_nil _ _ same.symm

theorem Cursor.rest_eq {current component : Str} {rest : List Str} (cursor : Cursor current)
    (same : components SLASH current = component :: rest) : rest = components SLASH (Components.next SLASH current) := by
  have more := not_end_of_components same
  rw [cursor.split more] at same
  exact (List.cons.inj same).2.symm

theorem Cursor.end_iff_components {current : Str} (cursor : Cursor current) :
    current = [] ↔ components SLASH current = [] := by
  constructor
  · rintro rfl
    rfl
  · intro none
    by_contra more
    rw [cursor.split more] at none
    exact List.cons_ne_nil _ _ none

def afterWalk (next : Str) (block : Nat) : Walked → Turn Opening (Outcome × Trace)
  | .unreadable trace => .leave (.returned none, trace)
  | .directoryDone none trace => .leave (.returned none, trace.kfree block)
  | .directoryDone (some held) trace =>
      if next = [] then .leave (.returned (some held), trace.kfree block)
      else if IsDirectory held.entry then
        .again ⟨next, held.entry.firstCluster, held.kfree (trace.kfree block)⟩
      else .leave (.returned none, held.kfree (trace.kfree block))

theorem openBody_end (bound : Nat) {o : Opening} (done : o.current = []) :
    openBody machine fs bound o = some (.leave (.returned none, o.trace)) := by
  unfold openBody
  rw [done]
  rfl

theorem openBody_smashed (bound : Nat) {o : Opening} (cursor : Cursor o.current) (more : o.current ≠ [])
    (long : 256 ≤ (piece SLASH o.current).length) :
    openBody machine fs bound o = some (.leave (.smashed, o.trace)) := by
  unfold openBody
  rw [if_neg (fun zero => more (cursor.end_iff.mp zero))]
  dsimp only
  rw [component_eq cursor.whole, if_pos long]

theorem openBody_component (bound : Nat) {o : Opening} (cursor : Cursor o.current) (more : o.current ≠ [])
    (short : (piece SLASH o.current).length ≤ 255) :
    openBody machine fs bound o =
      (run (walkBody machine fs (piece SLASH o.current) o.trace.heap.length) bound
        ⟨o.directoryCluster, machine.stale o.trace.reads, (o.trace.kalloc (clusterSize fs)).2⟩).map
        (afterWalk (Components.next SLASH o.current) o.trace.heap.length) := by
  have behind := cursor.next
  unfold openBody
  rw [if_neg (fun zero => more (cursor.end_iff.mp zero))]
  dsimp only
  rw [component_eq cursor.whole, if_neg (by omega)]
  dsimp only [Trace.kalloc]
  generalize run (walkBody machine fs (piece SLASH o.current) o.trace.heap.length) bound _ = ended
  cases ended with
  | none => rfl
  | some walked =>
    cases walked with
    | unreadable trace => rfl
    | directoryDone found trace =>
      cases found with
      | none => rfl
      | some held =>
        change (if (Components.next SLASH o.current).headD 0 = 0 then _ else _) = _
        simp only [Option.map_some, afterWalk, behind.end_iff]
        by_cases last : Components.next SLASH o.current = []
        · rw [if_pos last, if_pos last]
        · rw [if_neg last, if_neg last]
          by_cases directory : IsDirectory held.entry
          · rw [if_neg directory, if_pos directory]
            rfl
          · rw [if_pos (not_not.mp directory), if_neg directory]

end

section
variable {machine : Machine} {fs : ExfatInstance} {lookup : LookupIn}

/-- Two calls at the same point that have the same components before them. -/
structure Alike (first second : Opening) : Prop where
  left : Cursor first.current
  right : Cursor second.current
  components : components SLASH first.current = components SLASH second.current
  cluster : first.directoryCluster = second.directoryCluster
  trace : first.trace = second.trace

theorem openBody_alike (bound : Nat) {first second : Opening} (alike : Alike first second) :
    (openBody machine fs bound first = none ∧ openBody machine fs bound second = none) ∨
    (∃ result, openBody machine fs bound first = some (.leave result) ∧
      openBody machine fs bound second = some (.leave result)) ∨
    ∃ onward onward', openBody machine fs bound first = some (.again onward) ∧
      openBody machine fs bound second = some (.again onward') ∧ Alike onward onward' := by
  obtain ⟨left, right, same, cluster, trace⟩ := alike
  by_cases done : first.current = []
  · have done' : second.current = [] := right.end_iff_components.mpr (same ▸ left.end_iff_components.mp done)
    rw [openBody_end bound done, openBody_end bound done', trace]
    exact Or.inr (Or.inl ⟨_, rfl, rfl⟩)
  have done' : second.current ≠ [] := fun none =>
    done (left.end_iff_components.mpr (same.trans (right.end_iff_components.mp none)))
  rw [left.split done, right.split done', List.cons.injEq] at same
  obtain ⟨piece, rest⟩ := same
  by_cases short : (Components.piece SLASH second.current).length ≤ 255
  · rw [openBody_component bound left done (piece ▸ short), openBody_component bound right done' short, piece,
      cluster, trace]
    cases run (walkBody machine fs (Components.piece SLASH second.current) second.trace.heap.length) bound
        ⟨second.directoryCluster, machine.stale second.trace.reads, (second.trace.kalloc (clusterSize fs)).2⟩ with
    | none => exact Or.inl ⟨rfl, rfl⟩
    | some walked =>
      have ends : next SLASH first.current = [] ↔ next SLASH second.current = [] := by
        rw [left.next.end_iff_components, right.next.end_iff_components, rest]
      refine Or.inr ?_
      rw [Option.map_some, Option.map_some]
      cases walked with
      | unreadable trace => exact Or.inl ⟨_, rfl, rfl⟩
      | directoryDone found trace =>
        cases found with
        | none => exact Or.inl ⟨_, rfl, rfl⟩
        | some held =>
          unfold afterWalk
          simp only [ends]
          by_cases last : next SLASH second.current = []
          · rw [if_pos last, if_pos last]
            exact Or.inl ⟨_, rfl, rfl⟩
          · rw [if_neg last, if_neg last]
            by_cases directory : IsDirectory held.entry
            · rw [if_pos directory, if_pos directory]
              exact Or.inr ⟨_, _, rfl, rfl, left.next, right.next, rest, rfl, rfl⟩
            · rw [if_neg directory, if_neg directory]
              exact Or.inl ⟨_, rfl, rfl⟩
  · rw [openBody_smashed bound left done (by rw [piece]; omega), openBody_smashed bound right done' (by omega), trace]
    exact Or.inr (Or.inl ⟨_, rfl, rfl⟩)

theorem openFile_alike {first second : CString} (same : first.components = second.components) (bound : Nat)
    (trace : Trace) :
    openFile machine fs first.bytes bound trace = openFile machine fs second.bytes bound trace := by
  apply runPartial_related Alike fun state state' => openBody_alike bound
  refine ⟨cursor_skip first.whole, cursor_skip second.whole, ?_, rfl, rfl⟩
  exact (components_skip first.bytes).trans (same.trans (components_skip second.bytes).symm)

/-- A turn taken within a bound is taken within any larger one. -/
theorem openBody_mono {small large : Nat} (le : small ≤ large) (o : Opening) (turn : Turn Opening (Outcome × Trace))
    (taken : openBody machine fs small o = some turn) : openBody machine fs large o = some turn := by
  unfold openBody at taken ⊢
  by_cases done : o.current.headD 0 = 0
  · rw [if_pos done] at taken ⊢
    exact taken
  rw [if_neg done] at taken ⊢
  dsimp only at taken ⊢
  generalize (o.current.takeWhile fun c => c ≠ SLASH ∧ c ≠ 0) = component at taken ⊢
  by_cases long : component.length ≥ 256
  · rw [if_pos long] at taken ⊢
    exact taken
  rw [if_neg long] at taken ⊢
  dsimp only [Trace.kalloc] at taken ⊢
  generalize (⟨o.directoryCluster, machine.stale o.trace.reads, _⟩ : Walk) = start at taken ⊢
  cases ended : run (walkBody machine fs component o.trace.heap.length) small start with
  | none =>
    rw [ended] at taken
    exact absurd taken (by simp)
  | some walked =>
    rw [ended] at taken
    rw [run_mono le ended]
    exact taken

theorem opens_unique {path : Str} {trace : Trace} {first second : Outcome × Trace}
    (left : Opens machine fs path trace first) (right : Opens machine fs path trace second) : first = second := by
  obtain ⟨m, left⟩ := left
  obtain ⟨n, right⟩ := right
  have left' := runPartial_mono (openBody_mono (Nat.le_max_left m n)) (Nat.le_max_left m n) left
  have right' := runPartial_mono (openBody_mono (Nat.le_max_right m n)) (Nat.le_max_right m n) right
  exact Option.some.inj (left'.symm.trans right')

theorem resolve_missing (reads : List (BitVec 64)) (todo : List Str) :
    resolve lookup ⟨reads, .missing⟩ todo = ⟨reads, .missing⟩ := by
  cases todo with
  | nil => rfl
  | cons component rest => exact resolve_stuck rfl component rest

theorem openBody_finds {start : Progress} {component : Str} {rest : List Str} (short : component.length ≤ 255)
    (ends : WalksEnd machine fs lookup start (component :: rest)) {cluster : BitVec 32}
    (inside : start.stage.inside = some cluster) {current : Str} (cursor : Cursor current)
    (same : components SLASH current = component :: rest) (heap : List HeapCall) :
    ∃ walked least, Walks (lookup start.reads cluster component).2 (lookup start.reads cluster component).1 walked ∧
      ∀ bound, least ≤ bound → openBody machine fs bound ⟨current, cluster, ⟨start.reads, heap⟩⟩ =
        some (afterWalk (next SLASH current) heap.length walked) := by
  have more : current ≠ [] := by
    rintro rfl
    exact List.cons_ne_nil _ _ same.symm
  rw [cursor.split more, List.cons.injEq] at same
  obtain ⟨rfl, _⟩ := same
  have whole : 0 ∉ piece SLASH current := fun member => cursor.whole ((List.takeWhile_sublist _).mem member)
  have finds := ends [] (piece SLASH current) rest rfl cluster inside
  obtain ⟨walked, ⟨least, ended⟩, walks⟩ := walk_finds whole heap.length finds
    (heap ++ [.kalloc (clusterSize fs)]) fun p differs => absurd rfl differs
  refine ⟨walked, least, walks, ?_⟩
  intro bound enough
  rw [openBody_component bound cursor more short]
  exact congrArg (Option.map _) (run_mono enough ended)

theorem resolveStep_inside {start : Progress} {cluster : BitVec 32} (inside : start.stage.inside = some cluster)
    (component : Str) :
    resolveStep lookup start component =
      match lookup start.reads cluster component with
      | (some entry, reads) => ⟨reads, .opened entry⟩
      | (none, reads) => ⟨reads, .missing⟩ := by
  unfold resolveStep
  rw [inside]

theorem resolve_cons {start : Progress} {cluster : BitVec 32} (inside : start.stage.inside = some cluster)
    (component : Str) (rest : List Str) :
    resolve lookup start (component :: rest) =
      match lookup start.reads cluster component with
      | (some entry, reads) => resolve lookup ⟨reads, .opened entry⟩ rest
      | (none, reads) => ⟨reads, .missing⟩ := by
  change resolve lookup (resolveStep lookup start component) rest = _
  rw [resolveStep_inside inside]
  cases lookup start.reads cluster component with
  | mk found reads =>
    cases found with
    | none => exact resolve_missing reads rest
    | some entry => rfl

/-- From a directory on, the call ends with what the resolution of the components left finds. -/
theorem open_resolves {start : Progress} {todo : List Str} (nonempty : todo ≠ [])
    (short : ∀ c ∈ todo, c.length ≤ 255) (ends : WalksEnd machine fs lookup start todo) {cluster : BitVec 32}
    (inside : start.stage.inside = some cluster) {current : Str} (cursor : Cursor current)
    (same : components SLASH current = todo) (heap : List HeapCall) :
    ∃ bound found heap', runPartial (openBody machine fs bound) bound ⟨current, cluster, ⟨start.reads, heap⟩⟩ =
        some (.returned found, ⟨(resolve lookup start todo).reads, heap'⟩) ∧
      found.map Held.entry = (resolve lookup start todo).stage.entry := by
  induction todo generalizing start cluster current heap with
  | nil => exact absurd rfl nonempty
  | cons component rest ih =>
    obtain ⟨walked, least, walks, turn⟩ :=
      openBody_finds (short component (List.mem_cons_self ..)) ends inside cursor same heap
    have behind : components SLASH (next SLASH current) = rest := (cursor.rest_eq same).symm
    have leaves := fun result (left : afterWalk (next SLASH current) heap.length walked = .leave result) =>
      runPartial_leave least (left ▸ turn (least + 1) (Nat.le_succ least))
    have rests := ends.tail
    rw [resolveStep_inside inside] at rests
    rw [resolve_cons inside]
    generalize lookup start.reads cluster component = result at walks rests
    obtain ⟨entry, reads⟩ := result
    cases walks with
    | unreadable heap' => exact ⟨_, none, _, leaves _ rfl, rfl⟩
    | missing heap' => exact ⟨_, none, _, leaves _ rfl, rfl⟩
    | found held heap' =>
      cases rest with
      | nil =>
        have last : next SLASH current = [] := cursor.next.end_iff_components.mpr behind
        exact ⟨_, some held, _, leaves _ (if_pos last), rfl⟩
      | cons other rest =>
        have more : next SLASH current ≠ [] := by
          rw [ne_eq, cursor.next.end_iff_components, behind]
          apply List.cons_ne_nil
        have onward : afterWalk (next SLASH current) heap.length (.directoryDone (some held) ⟨reads, heap'⟩) = _ :=
          if_neg more
        by_cases directory : IsDirectory held.entry
        · rw [if_pos directory] at onward
          have inside' : (Progress.mk reads (.opened held.entry)).stage.inside = some held.entry.firstCluster :=
            if_pos directory
          have short' : ∀ c ∈ other :: rest, c.length ≤ 255 := fun c member => short c (List.mem_cons_of_mem _ member)
          obtain ⟨bound, found, heap'', ended, entry⟩ := ih (List.cons_ne_nil _ _) short' rests inside' cursor.next
            behind (held.kfree ((⟨reads, heap'⟩ : Trace).kfree heap.length)).heap
          refine ⟨max least bound + 1, found, heap'', ?_, entry⟩
          rw [runPartial_again _ (onward ▸ turn (max least bound + 1) (by omega))]
          exact runPartial_mono (openBody_mono (by omega)) (by omega) ended
        · rw [if_neg directory] at onward
          have stuck : (Stage.opened held.entry).inside = none := if_neg directory
          dsimp only
          rw [resolve_stuck (p := ⟨reads, .opened held.entry⟩) stuck]
          exact ⟨_, none, _, leaves _ onward, rfl⟩

/-- For every machine, volume and path whose components fit their array: if the walks of the
resolution end, the call returns what the left fold of the lookups over the components finds,
after the reads that these take; and paths of the same components give the same outcome. -/
theorem open_file_resolves (machine : Machine) (fs : ExfatInstance) (path : CString)
    (short : ∀ c ∈ path.components, c.length ≤ 255) (lookup : LookupIn) (trace : Trace)
    (ends : WalksEnd machine fs lookup ⟨trace.reads, .directory fs.rootCluster⟩ path.components) :
    (∃ found heap,
      (∀ outcome, Opens machine fs path.bytes trace outcome ↔ outcome = (.returned found,
        ⟨(resolve lookup ⟨trace.reads, .directory fs.rootCluster⟩ path.components).reads, heap⟩)) ∧
      found.map Held.entry =
        (resolve lookup ⟨trace.reads, .directory fs.rootCluster⟩ path.components).stage.entry) ∧
    ∀ other : CString, other.components = path.components → ∀ outcome,
      Opens machine fs other.bytes trace outcome ↔ Opens machine fs path.bytes trace outcome := by
  refine ⟨?_, ?_⟩
  · have exists_one : ∃ found heap, Opens machine fs path.bytes trace (.returned found,
          ⟨(resolve lookup ⟨trace.reads, .directory fs.rootCluster⟩ path.components).reads, heap⟩) ∧
        found.map Held.entry =
          (resolve lookup ⟨trace.reads, .directory fs.rootCluster⟩ path.components).stage.entry := by
      have cursor := cursor_skip path.whole
      have same : components SLASH (path.bytes.dropWhile (· = SLASH)) = path.components := components_skip path.bytes
      by_cases empty : path.components = []
      · have last := cursor.end_iff_components.mpr (same.trans empty)
        rw [empty]
        exact ⟨none, trace.heap, ⟨1, runPartial_leave 0 (openBody_end 1 last)⟩, rfl⟩
      · obtain ⟨bound, found, heap, ended, entry⟩ := open_resolves empty short ends rfl cursor same trace.heap
        exact ⟨found, heap, ⟨bound, ended⟩, entry⟩
    obtain ⟨found, heap, opens, entry⟩ := exists_one
    refine ⟨found, heap, ?_, entry⟩
    intro outcome
    constructor
    · intro other
      exact opens_unique other opens
    · rintro rfl
      exact opens
  · intro other same outcome
    unfold Opens
    simp only [openFile_alike same]

end

/-! A volume of two clusters of one sector: the directory `a` in the root, and the file `b` in it. -/

/-- A sector with one file set: a name of one character, attributes and first cluster. -/
def oneSet (name attributes cluster : BitVec 8) : Buffer := fun p =>
  if p = 0 then 0x85 else if p = 1 then 2 else if p = 4 then attributes
  else if p = 32 then 0xC0 else if p = 35 then 1 else if p = 52 then cluster
  else if p = 64 then 0xC1 else if p = 66 then name else 0

def twoLevels : Machine where
  drive _ lba := if lba = 0 then some (oneSet 0x61 0x10 3) else if lba = 1 then some (oneSet 0x62 0x20 0) else none
  stale _ _ := 0

def twoClusters : ExfatInstance := ⟨0, 0, 2, 0, 0, 0, 2, 2, 9, 0, 1⟩

def doubledPath : CString := ⟨[0x2F, 0x61, 0x2F, 0x2F, 0x62], by decide⟩

def oneSetEntry (name attributes cluster : BitVec 8) : FileEntry :=
  ⟨[name], twoClusters, attributes.setWidth 16, cluster.setWidth 32, some 0, 0, 1, some 0, some 0⟩

def twoLevelsLookup : LookupIn := fun reads cluster component =>
  if cluster = 2 ∧ component = [0x61] then (some (oneSetEntry 0x61 0x10 3), reads ++ [0])
  else (some (oneSetEntry 0x62 0x20 0), reads ++ [1])

theorem doubled_path_resolves : ∃ found heap,
    Opens twoLevels twoClusters doubledPath.bytes ⟨[], []⟩ (.returned found, ⟨[0, 1], heap⟩) ∧
      found.map Held.entry = some (oneSetEntry 0x62 0x20 0) := by
  have ends : WalksEnd twoLevels twoClusters twoLevelsLookup ⟨[], .directory 2⟩ doubledPath.components := by
    have components : doubledPath.components = [[0x61], [0x62]] := by decide +kernel
    rw [components]
    intro before component after split cluster inside
    match before, split with
    | [], split =>
      obtain ⟨rfl, _⟩ := List.cons.inj split
      obtain rfl := Option.some.inj inside
      exact .found rfl (by decide +kernel)
    | [first], split =>
      obtain ⟨same, tail⟩ := List.cons.inj split
      obtain ⟨rfl, _⟩ := List.cons.inj tail
      subst same
      have stage : (resolve twoLevelsLookup ⟨[], .directory 2⟩ [[0x61]]).stage.inside = some 3 := by decide +kernel
      obtain rfl := Option.some.inj (inside.symm.trans stage)
      exact .found rfl (by decide +kernel)
    | _ :: _ :: _, split => simp at split
  obtain ⟨⟨found, heap, returns, entry⟩, _⟩ := open_file_resolves twoLevels twoClusters doubledPath (by decide +kernel)
    twoLevelsLookup ⟨[], []⟩ ends
  have reads : (resolve twoLevelsLookup ⟨[], .directory twoClusters.rootCluster⟩ doubledPath.components).reads =
      [0, 1] := by decide +kernel
  refine ⟨found, heap, (returns _).mpr ?_, entry.trans (by decide +kernel)⟩
  rw [reads]

end Ketone.Exfat.PathResolution
