import Ketone.Exfat.SetDecoding

/-! Where the characters of a component are stored: each to the place in the array that it has in the component, and
the NUL behind them. -/

namespace Ketone.Exfat.PathStores
open Library Library.Loop Library.Components Volume OpenFile Lookup PathResolution Descent StoredName SetDecoding

structure Copying where
  componentLength : Nat
  component : Buffer
  stored : List Nat

def Copying.store (s : Copying) (c : BitVec 8) : Copying :=
  { s with
    component := fun p => if p = s.componentLength then c else s.component p
    stored := s.stored ++ [s.componentLength] }

/-- A turn of the copying loop; after the last one the NUL is stored. -/
def copyBody (current : Str) (s : Copying) : Turn Copying Copying :=
  let c := current.getD s.componentLength 0
  if c ≠ SLASH ∧ c ≠ 0 then .again { s.store c with componentLength := s.componentLength + 1 }
  else .leave (s.store 0)

/-- The stores for the component in front end, and stay in its array of 256. -/
def CopyInside (current : Str) : Prop :=
  ∀ stale, ∃ last, Returns (copyBody current) ⟨0, stale, []⟩ last ∧ ∀ k ∈ last.stored, k < 256

/-- Every component that the call comes to is copied inside the array. -/
def StoresInside (machine : Machine) (fs : ExfatInstance) (path : CString) (trace : Trace) : Prop :=
  ∀ o, Reaches machine fs path trace o → o.current.headD 0 ≠ 0 → CopyInside o.current

section
variable {current : Str}

theorem piece_cons {c : BitVec 8} {rest : Str} (other : c ≠ SLASH) : piece SLASH (c :: rest) = c :: piece SLASH rest :=
  List.takeWhile_cons_of_pos (by simpa using other)

theorem piece_more (whole : 0 ∉ current) {k : Nat} (more : k < (piece SLASH current).length) :
    current.getD k 0 = (piece SLASH current).getD k 0 ∧ current.getD k 0 ≠ SLASH ∧ current.getD k 0 ≠ 0 := by
  have here : current.getD k 0 = (piece SLASH current).getD k 0 := by
    have within : k < current.length := Nat.lt_of_lt_of_le more (List.takeWhile_sublist _).length_le
    rw [List.getD_eq_getElem _ _ within, List.getD_eq_getElem _ _ more]
    exact ((List.takeWhile_prefix _).getElem more).symm
  have member : current.getD k 0 ∈ piece SLASH current := by
    rw [here, List.getD_eq_getElem _ _ more]
    exact List.getElem_mem more
  refine ⟨here, ?_, ?_⟩
  · have other := List.all_eq_true.mp List.all_takeWhile _ member
    simpa using other
  · intro zero
    rw [zero] at member
    exact whole ((List.takeWhile_sublist _).mem member)

theorem piece_stop (current : Str) :
    ¬ (current.getD (piece SLASH current).length 0 ≠ SLASH ∧ current.getD (piece SLASH current).length 0 ≠ 0) := by
  induction current with
  | nil => simp
  | cons c rest ih =>
    by_cases slash : c = SLASH
    · have empty : piece SLASH (c :: rest) = [] := List.takeWhile_cons_of_neg (by simpa using slash)
      rw [empty, List.length_nil, List.getD_cons_zero]
      exact fun proper => proper.1 slash
    · rw [piece_cons slash, List.length_cons, List.getD_cons_succ]
      exact ih

/-- The first characters are in the array, each stored once, in order. -/
structure Copied (current : Str) (s : Copying) : Prop where
  inside : s.componentLength ≤ (piece SLASH current).length
  bytes : ∀ p < s.componentLength, s.component p = (piece SLASH current).getD p 0
  stored : s.stored = List.range s.componentLength

structure Closed (current : Str) (s : Copying) : Prop where
  length : s.componentLength = (piece SLASH current).length
  bytes : ∀ p < (piece SLASH current).length, s.component p = (piece SLASH current).getD p 0
  closed : s.component (piece SLASH current).length = 0
  stored : s.stored = List.range ((piece SLASH current).length + 1)

theorem copyBody_spec (whole : 0 ∉ current) {s : Copying} (copied : Copied current s) :
    (∃ next, copyBody current s = .again next ∧ Copied current next ∧
      next.componentLength = s.componentLength + 1) ∨
    ∃ last, copyBody current s = .leave last ∧ Closed current last := by
  unfold copyBody
  dsimp only
  by_cases more : s.componentLength < (piece SLASH current).length
  · obtain ⟨same, proper⟩ := piece_more whole more
    rw [if_pos proper]
    refine Or.inl ⟨_, rfl, ⟨more, ?_, ?_⟩, rfl⟩
    · intro p below
      change (if p = s.componentLength then _ else s.component p) = _
      by_cases last : p = s.componentLength
      · rw [if_pos last, last, same]
      · rw [if_neg last]
        apply copied.bytes
        exact Nat.lt_of_le_of_ne (Nat.le_of_lt_succ below) last
    · change s.stored ++ [s.componentLength] = List.range (s.componentLength + 1)
      rw [copied.stored, List.range_succ]
  · have length : s.componentLength = (piece SLASH current).length := Nat.le_antisymm copied.inside (Nat.le_of_not_lt more)
    have stop : ¬ (current.getD s.componentLength 0 ≠ SLASH ∧ current.getD s.componentLength 0 ≠ 0) := by
      rw [length]
      exact piece_stop current
    rw [if_neg stop]
    refine Or.inr ⟨_, rfl, ⟨length, ?_, ?_, ?_⟩⟩
    · intro p below
      change (if p = s.componentLength then _ else s.component p) = _
      rw [← length] at below
      rw [if_neg (Nat.ne_of_lt below), copied.bytes p below]
    · exact if_pos length.symm
    · change s.stored ++ [s.componentLength] = List.range _
      rw [copied.stored, length, List.range_succ]

theorem copy_spec (whole : 0 ∉ current) (stale : Buffer) :
    ∃ last, Returns (copyBody current) ⟨0, stale, []⟩ last ∧ Closed current last := by
  have start : Copied current ⟨0, stale, []⟩ := by
    apply Copied.mk
    · exact Nat.zero_le _
    · intro p below
      cases below
    · rfl
  have ends : ∃ last, run (copyBody current) ((piece SLASH current).length + 1) ⟨0, stale, []⟩ = some last := by
    apply run_ends (Copied current) (fun s => (piece SLASH current).length - s.componentLength) ?_ start
    · exact Nat.lt_succ_self _
    · intro s next copied again
      obtain ⟨kept, longer⟩ := kept_of_turn (copyBody_spec whole copied) again
      have inside := kept.inside
      exact ⟨kept, by omega⟩
  obtain ⟨last, ended⟩ := ends
  refine ⟨last, ⟨_, ended⟩, ?_⟩
  apply run_turns (Copied current) (Closed current) ?_ start ended
  intro s copied
  rcases copyBody_spec whole copied with ⟨next, turn, kept, _⟩ | done
  · exact Or.inl ⟨next, turn, kept⟩
  · exact Or.inr done

theorem copyInside_iff (whole : 0 ∉ current) : CopyInside current ↔ (piece SLASH current).length ≤ 255 := by
  constructor
  · intro inside
    obtain ⟨last, returns, below⟩ := inside fun _ => 0
    obtain ⟨other, returns', closed⟩ := copy_spec whole fun _ => 0
    obtain rfl := returns_unique returns returns'
    have nul : (piece SLASH current).length ∈ last.stored := by
      rw [closed.stored]
      exact List.mem_range.mpr (Nat.lt_succ_self _)
    exact Nat.le_of_lt_succ (below _ nul)
  · intro short stale
    obtain ⟨last, returns, closed⟩ := copy_spec whole stale
    refine ⟨last, returns, ?_⟩
    intro k member
    rw [closed.stored] at member
    have below := List.mem_range.mp member
    omega

/-- What the array holds in the end is the component in front, as a string. -/
theorem copied_component (whole : 0 ∉ current) (short : (piece SLASH current).length ≤ 255) (stale : Buffer) :
    ∃ last, Returns (copyBody current) ⟨0, stale, []⟩ last ∧
      cstr ((List.range 256).map last.component) = current.takeWhile fun c => c ≠ SLASH ∧ c ≠ 0 := by
  obtain ⟨last, returns, closed⟩ := copy_spec whole stale
  have none : 0 ∉ piece SLASH current := fun member => whole ((List.takeWhile_sublist _).mem member)
  refine ⟨last, returns, ?_⟩
  rw [cstr_closed closed.bytes closed.closed (by omega), cstr_of_mem none, component_eq whole]

theorem inside_iff_short {o : Opening} (cursor : Cursor o.current) :
    (o.current.headD 0 ≠ 0 → CopyInside o.current) ↔ (o.current ≠ [] → (piece SLASH o.current).length ≤ 255) := by
  rw [ne_eq, cursor.end_iff, copyInside_iff cursor.whole]

end

section
variable {machine : Machine} {fs : ExfatInstance} {path : CString} {trace : Trace}

theorem stores_inside_iff_pieces : StoresInside machine fs path trace ↔ ∀ o, Reaches machine fs path trace o →
    o.current ≠ [] → (piece SLASH o.current).length ≤ 255 :=
  forall_congr' fun _ => forall_congr' fun reaches => inside_iff_short reaches.looksUp.1

theorem stores_inside_iff : StoresInside machine fs path trace ↔ ∀ reads cluster component rest,
    LooksUp machine fs path trace.reads reads cluster (component :: rest) → component.length ≤ 255 := by
  rw [stores_inside_iff_pieces]
  constructor
  · intro short reads cluster component rest looks
    obtain ⟨o, reaches, rfl, rfl, same⟩ := reaches_of_looksUp short looks
    have more := not_end_of_components same
    rw [reaches.looksUp.1.split more, List.cons.injEq] at same
    rw [← same.1]
    exact short o reaches more
  · intro fits o reaches more
    obtain ⟨cursor, looks⟩ := reaches.looksUp
    rw [cursor.split more] at looks
    exact fits _ _ _ _ looks

theorem looksUp_suffix {before reads : List (BitVec 64)} {cluster : BitVec 32} {todo : List Str}
    (looks : LooksUp machine fs path before reads cluster todo) : todo <:+ path.components := by
  induction looks with
  | root => exact List.suffix_refl _
  | down _ _ _ ih => exact (List.suffix_cons _ _).trans ih

end

/-! A volume on which every directory of a path is found. Each directory is a cluster of two sectors
with one file set, whose name entries have room for 255 characters. -/

def directorySet (name : Str) : Buffer := fun p =>
  if p < 64 then
    if p = 0 then 0x85 else if p = 1 then 18 else if p = 4 then 0x10 else if p = 32 then 0xC0
    else if p = 35 then BitVec.ofNat 8 name.length else 0
  else if p < 608 then
    if p % 32 = 0 then 0xC1 else if p % 32 % 2 = 0 then name.getD ((p / 32 - 2) * 15 + (p % 32 / 2 - 1)) 0 else 0
  else 0

def nested (names : List Str) : Machine :=
  ⟨fun reads _ => some fun p => directorySet (names.getD (reads.length / 2) []) (p + 512 * (reads.length % 2)),
    fun _ _ => 0⟩

def pairedSectors : ExfatInstance := ⟨0, 0, 2, 0, 0, 0, 2, 2, 9, 1, 1⟩

theorem directorySet_unit (name : Str) {f k : Nat} (entry : f < 17) (unit : k < 15) :
    readU16Le (directorySet name) ((0 + 1 + (f + 1)) * 32 + 0x02 + k * 2) = (name.getD (f * 15 + k) 0).setWidth 16 := by
  have low : directorySet name ((0 + 1 + (f + 1)) * 32 + 0x02 + k * 2) = name.getD (f * 15 + k) 0 := by
    have place : ((0 + 1 + (f + 1)) * 32 + 0x02 + k * 2) / 32 - 2 = f := by omega
    have rest : ((0 + 1 + (f + 1)) * 32 + 0x02 + k * 2) % 32 = 2 + 2 * k := by omega
    have even : (2 + 2 * k) / 2 - 1 = k := by omega
    unfold directorySet
    rw [if_neg (by omega), if_pos (by omega), rest, if_neg (by omega), if_pos (by omega), place, even]
  have high : directorySet name ((0 + 1 + (f + 1)) * 32 + 0x02 + k * 2 + 1) = 0 := by
    unfold directorySet
    rw [if_neg (by omega), if_pos (by omega), if_neg (by omega), if_neg (by omega)]
  unfold readU16Le
  rw [low, high]
  simp

theorem nameUnits_directorySet (name : Str) {f : Nat} (entry : f < 17) :
    nameUnits (directorySet name) ((0 + 1 + (f + 1)) * 32) =
      (List.range 15).map fun k => (name.getD (f * 15 + k) 0).setWidth 16 := by
  apply List.map_congr_left
  intro k member
  exact directorySet_unit name entry (List.mem_range.mp member)

theorem flatMap_pieces {α : Type} (value : Nat → α) (size count : Nat) :
    ((List.range count).flatMap fun f => (List.range size).map fun k => value (f * size + k)) =
      (List.range (count * size)).map value := by
  induction count with
  | zero => simp
  | succ count ih =>
    rw [List.range_succ, List.flatMap_append, ih, List.flatMap_singleton, Nat.succ_mul, List.range_add,
      List.map_append, List.map_map]
    rfl

theorem take_getD {α : Type} (items : List α) (default : α) {count : Nat} (enough : items.length ≤ count) :
    ((List.range count).map fun p => items.getD p default).take items.length = items := by
  apply List.ext_getElem
  · simp [enough]
  · intro p below below'
    simp [below']

theorem directorySet_entry (name : Str) {f : Nat} (entry : f < 18) :
    directorySet name ((0 + 1 + f) * 32) = if f = 0 then 0xC0 else 0xC1 := by
  cases f with
  | zero => rfl
  | succ f =>
    unfold directorySet
    rw [if_neg (by omega), if_pos (by omega), if_pos (by omega)]
    rfl

theorem nameLength_directorySet {name : Str} (short : name.length ≤ 255) :
    (directorySet name ((0 + 1) * 32 + 0x03)).toNat = name.length := by
  change (BitVec.ofNat 8 name.length).toNat = _
  rw [BitVec.toNat_ofNat]
  exact Nat.mod_eq_of_lt (by omega)

theorem path_directorySet (fs : ExfatInstance) {name : Str} (short : name.length ≤ 255) :
    (entrySet fs (directorySet name) 0).path = name := by
  have count : (directorySet name (0 * 32 + 0x01)).toNat = 18 := rfl
  have some : directorySet name (0 * 32 + 0x01) ≠ 0 := fun zero => absurd (count.symm.trans (congrArg BitVec.toNat zero)) (by decide)
  have fragments : ((List.range 18).filter fun f => directorySet name ((0 + 1 + f) * 32) = 0xC1) =
      (List.range 17).map Nat.succ := by
    have stream : directorySet name ((0 + 1 + 0) * 32) ≠ 0xC1 := by
      rw [directorySet_entry name (by decide)]
      decide
    rw [List.range_succ_eq_map, List.filter_cons_of_neg (by simpa using stream), List.filter_eq_self]
    intro f member
    obtain ⟨k, inside, rfl⟩ := List.mem_map.mp member
    rw [directorySet_entry name (Nat.succ_lt_succ (List.mem_range.mp inside)), if_neg (Nat.succ_ne_zero k)]
    rfl
  have pieces : ((List.range 17).flatMap fun f => nameUnits (directorySet name) ((0 + 1 + (f + 1)) * 32)) =
      (List.range 17).flatMap fun f => (List.range 15).map fun k => (name.getD (f * 15 + k) 0).setWidth 16 := by
    rw [List.flatMap_def, List.flatMap_def]
    apply congrArg List.flatten
    apply List.map_congr_left
    intro f member
    exact nameUnits_directorySet name (List.mem_range.mp member)
  have units : (storedName (directorySet name) 0).units = name.map (·.setWidth 16) := by
    rw [storedName_of_stream_first 0 some rfl, count, fragments, List.flatMap_map, nameLength_directorySet short]
    · refine (congrArg (List.take name.length) (pieces.trans (flatMap_pieces (fun p => (name.getD p 0).setWidth 16) 15 17))).trans ?_
      have front := congrArg (List.map (·.setWidth 16)) (take_getD name 0 short)
      rw [List.map_take, List.map_map] at front
      exact front
    · intro f after below
      rw [directorySet_entry name (by omega), if_neg (by omega)]
      decide
  rw [(entrySet_cut 0).2, units, List.map_map]
  calc name.map ((·.setWidth 8) ∘ (·.setWidth 16)) = name.map id := by
        apply List.map_congr_left
        intro c _
        apply BitVec.eq_of_toNat_eq
        simp
    _ = name := List.map_id _

theorem attributes_foldl (buffer : Buffer) (i : Nat) (fs' : List Nat) (d : Decoding) :
    (fs'.foldl (decodeSecondary buffer i) d).file.attributes = d.file.attributes := by
  induction fs' generalizing d with
  | nil => rfl
  | cons f fs' ih =>
    rw [List.foldl_cons, ih]
    by_cases stream : buffer ((i + 1 + f) * 32) = 0xC0
    · rw [decodeSecondary_stream i f d stream]
      rfl
    · rw [(decodeSecondary_other i f d stream).1]

theorem attributes_entrySet (fs : ExfatInstance) (buffer : Buffer) (i : Nat) :
    (entrySet fs buffer i).attributes = readU16Le buffer (i * 32 + 0x04) :=
  attributes_foldl _ _ _ _

theorem isDirectory_directorySet (fs : ExfatInstance) (name : Str) : IsDirectory (entrySet fs (directorySet name) 0) := by
  have low : directorySet name (0 * 32 + 0x04) = 0x10 := rfl
  have high : directorySet name (0 * 32 + 0x04 + 1) = 0 := rfl
  unfold IsDirectory
  rw [attributes_entrySet]
  unfold readU16Le
  rw [low, high]
  decide

theorem fill_directorySet (name : Str) :
    fill (fill (fun _ => 0) 0 fun p => directorySet name p) 512 (fun p => directorySet name (p + 512)) =
      directorySet name := by
  funext p
  unfold fill SECTOR_SIZE
  by_cases second : 512 ≤ p ∧ p < 512 + 512
  · rw [if_pos second]
    dsimp only
    rw [Nat.sub_add_cancel second.1]
  · rw [if_neg second]
    by_cases first : 0 ≤ p ∧ p < 0 + 512
    · rw [if_pos first, Nat.sub_zero]
    · rw [if_neg first]
      unfold directorySet
      rw [if_neg (by omega), if_neg (by omega)]

theorem showCluster_nested (names : List Str) {reads : List (BitVec 64)} {j : Nat} (pairs : reads.length = 2 * j)
    (cluster : BitVec 32) : ∃ seen, seen.length = 2 * (j + 1) ∧
      showCluster (nested names) pairedSectors (fun _ => 0) reads cluster =
        (some (directorySet (names.getD j [])), seen) := by
  have sectors : (sectorsPerCluster pairedSectors).toNat = 2 := by decide
  have places : (BitVec.ofNat 64 0 * bytesPerSector pairedSectors).toNat = 0 ∧
      (BitVec.ofNat 64 1 * bytesPerSector pairedSectors).toNat = 512 := by decide
  have first : (nested names).drive reads = fun _ => some fun p => directorySet (names.getD j []) p := by
    funext _
    unfold nested
    dsimp only
    rw [pairs, Nat.mul_div_cancel_left j (by decide), Nat.mul_mod_right]
    rfl
  have second : ∀ lba, (nested names).drive (reads ++ [lba]) =
      fun _ => some fun p => directorySet (names.getD j []) (p + 512) := by
    intro lba
    funext _
    have half : (2 * j + 1) / 2 = j := by omega
    have odd : (2 * j + 1) % 2 = 1 := by omega
    unfold nested
    dsimp only
    rw [List.length_append, List.length_singleton, pairs, half, odd]
  refine ⟨reads ++ [clusterToLba pairedSectors cluster + BitVec.ofNat 64 0] ++
    [clusterToLba pairedSectors cluster + BitVec.ofNat 64 1], ?_, ?_⟩
  · rw [List.length_append, List.length_append, List.length_singleton, List.length_singleton, pairs]
    omega
  · unfold showCluster readCluster
    rw [sectors]
    simp only [readSectors, readDisk, first, second, Option.map_some, places.1, places.2, Nat.zero_add, fill_directorySet]

theorem finds_nested {names : List Str} {reads : List (BitVec 64)} {j : Nat} (pairs : reads.length = 2 * j)
    (whole : 0 ∉ names.getD j []) (short : (names.getD j []).length ≤ 255) (cluster : BitVec 32) :
    ∃ seen, seen.length = 2 * (j + 1) ∧ Finds (nested names) pairedSectors (names.getD j [])
      ((nested names).stale reads) reads cluster (some (entrySet pairedSectors (directorySet (names.getD j [])) 0)) seen := by
  obtain ⟨seen, length, shown⟩ := showCluster_nested names pairs cluster
  refine ⟨seen, length, .found shown ?_⟩
  have positions : positions pairedSectors = 0 :: (List.range 31).map Nat.succ := by
    have count : (clusterSize pairedSectors / 32).toNat = 31 + 1 := by decide
    unfold Lookup.positions
    rw [count, List.range_succ_eq_map]
  have file : directorySet (names.getD j []) (0 * 32) = 0x85 := rfl
  have used : Used (directorySet (names.getD j [])) 0 := by
    unfold Used
    rw [file]
    decide
  have named : Named (names.getD j []) (entrySet pairedSectors (directorySet (names.getD j [])) 0) := by
    unfold Named
    rw [path_directorySet pairedSectors short, cstr_of_mem whole]
  rw [positions, fileSets_file used file, List.find?_cons_of_pos (by simpa using named)]

theorem looksUp_nested {path : CString} (inside : StoresInside (nested path.components) pairedSectors path ⟨[], []⟩)
    {j : Nat} (below : j < path.components.length) : ∃ reads cluster, reads.length = 2 * j ∧
      LooksUp (nested path.components) pairedSectors path [] reads cluster (path.components.drop j) := by
  induction j with
  | zero => exact ⟨[], _, rfl, .root⟩
  | succ j ih =>
    obtain ⟨reads, cluster, length, looks⟩ := ih (Nat.lt_of_succ_lt below)
    have here : path.components.getD j [] = path.components[j] := List.getD_eq_getElem _ _ (Nat.lt_of_succ_lt below)
    rw [List.drop_eq_getElem_cons (Nat.lt_of_succ_lt below), ← here, List.drop_eq_getElem_cons below] at looks
    have short := stores_inside_iff.mp inside _ _ _ _ looks
    obtain ⟨o, reaches, _, _, same⟩ := reaches_of_looksUp (stores_inside_iff_pieces.mp inside) looks
    have whole : 0 ∉ path.components.getD j [] := by
      have cursor := reaches.looksUp.1
      rw [cursor.split (not_end_of_components same), List.cons.injEq] at same
      rw [← same.1]
      exact cursor.piece_whole
    obtain ⟨seen, length', finds⟩ := finds_nested length whole short cluster
    refine ⟨seen, (entrySet pairedSectors (directorySet (path.components.getD j [])) 0).firstCluster, length', ?_⟩
    rw [List.drop_eq_getElem_cons below]
    exact .down looks finds (isDirectory_directorySet _ _)

/-- For every path: on every volume all stores to the array stay in its 256 places exactly when no component of the
path has more than 255 bytes; and on a given volume exactly when none has that the directories lead to. -/
theorem path_stores_iff (path : CString) :
    ((∀ machine fs trace, StoresInside machine fs path trace) ↔ ∀ c ∈ path.components, c.length ≤ 255) ∧
    ∀ machine fs trace, StoresInside machine fs path trace ↔ ∀ reads cluster component rest,
      LooksUp machine fs path trace.reads reads cluster (component :: rest) → component.length ≤ 255 := by
  refine ⟨⟨?_, ?_⟩, fun machine fs trace => stores_inside_iff⟩
  · intro inside c member
    obtain ⟨j, below, rfl⟩ := List.mem_iff_getElem.mp member
    have here := inside (nested path.components) pairedSectors ⟨[], []⟩
    obtain ⟨reads, cluster, _, looks⟩ := looksUp_nested here below
    rw [List.drop_eq_getElem_cons below] at looks
    exact stores_inside_iff.mp here _ _ _ _ looks
  · intro fits machine fs trace
    rw [stores_inside_iff]
    intro reads cluster component rest looks
    exact fits component ((looksUp_suffix looks).subset (List.mem_cons_self ..))

theorem letters_whole : (0 : BitVec 8) ∉ List.replicate 256 0x61 := by
  rw [List.mem_replicate]
  decide

def longPath : CString := ⟨List.replicate 256 0x61, letters_whole⟩

/-- The NUL behind its component goes past the end of the array. -/
theorem long_component_stores : ¬ StoresInside twoLevels twoClusters longPath ⟨[], []⟩ := by
  intro inside
  have short := stores_inside_iff_pieces.mp inside _ .refl (by decide +kernel)
  exact absurd short (by decide +kernel)

end Ketone.Exfat.PathStores
