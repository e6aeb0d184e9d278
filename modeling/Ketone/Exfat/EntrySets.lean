import Ketone.Exfat.PathStores
import Ketone.Exfat.WholeFile
import Ketone.Library.Packed

/-! Directories as they stand on the disk: file sets of entries of 32 bytes, one behind the other, and what the code
decodes of them. -/

namespace Ketone.Exfat.EntrySets
open Library Library.Bytes Library.Ram Library.Packed Volume OpenFile Lookup PathResolution StoredName SetDecoding PathStores

structure Slot where
  bytes : List (BitVec 8)
  whole : bytes.length = 32

def Slot.type (slot : Slot) : BitVec 8 := slot.bytes.getD 0 0

def slotOf {counts : List Nat} (words : Words counts) (whole : counts.sum = 32) : Slot :=
  ⟨words.bytes, words.length_bytes.trans whole⟩

theorem length_unit (unit : BitVec 16) : (wordBytes unit).length = 2 := length_wordBytes unit

/-- A file or a directory, with everything that its set says of it. -/
structure FileSet where
  checksum : BitVec 16
  attributes : BitVec 16
  stamps : BitVec 208
  flags : BitVec 8
  nameHash : BitVec 16
  validDataLength : BitVec 64
  firstCluster : BitVec 32
  dataLength : BitVec 64
  reserved : BitVec 8 × BitVec 16 × BitVec 32
  units : List (BitVec 16)
  extensions : List Slot
  named : units ≠ []
  short : units.length ≤ 255
  room : 1 + (units.length + 14) / 15 + extensions.length ≤ 255
  passed : ∀ slot ∈ extensions, slot.type ≠ 0x00 ∧ slot.type ≠ 0x85 ∧ slot.type ≠ 0xC0 ∧ slot.type ≠ 0xC1

namespace FileSet
variable (set : FileSet)

def nameEntries : Nat := (set.units.length + 14) / 15

def secondaries : Nat := 1 + set.nameEntries + set.extensions.length

abbrev fileSizes : List Nat := [1, 1, 2, 2, 26]

def fileWords : Words fileSizes :=
  .cons (0x85 : BitVec 8) (.cons (BitVec.ofNat 8 set.secondaries) (.cons set.checksum (.cons set.attributes
    (.cons set.stamps .nil))))

abbrev streamSizes : List Nat := [1, 1, 1, 1, 2, 2, 8, 4, 4, 8]

def streamWords : Words streamSizes :=
  .cons (0xC0 : BitVec 8) (.cons set.flags (.cons set.reserved.1 (.cons (BitVec.ofNat 8 set.units.length)
    (.cons set.nameHash (.cons set.reserved.2.1 (.cons set.validDataLength (.cons set.reserved.2.2
      (.cons set.firstCluster (.cons set.dataLength .nil)))))))))

/-- The units of a name entry; behind the name there are zeros. -/
def fragment (f : Nat) : List (BitVec 16) := (List.range 15).map fun k => set.units.getD (f * 15 + k) 0

def nameSlot (f : Nat) : Slot where
  bytes := [0xC1, 0x00] ++ (set.fragment f).flatMap wordBytes
  whole := by
    rw [List.length_append, length_records length_unit]
    simp [fragment]

def slots : List Slot :=
  slotOf set.fileWords rfl :: slotOf set.streamWords rfl ::
    ((List.range set.nameEntries).map set.nameSlot ++ set.extensions)

def entry (fs : ExfatInstance) : FileEntry where
  path := set.units.map (·.setWidth 8)
  fs := fs
  attributes := set.attributes
  firstCluster := set.firstCluster
  validDataLength := some set.validDataLength
  dataLength := set.dataLength
  nameLength := BitVec.ofNat 8 set.units.length
  nameHash := some set.nameHash
  flags := some set.flags

def name : Str := cstr (set.units.map (·.setWidth 8))

end FileSet

/-- From the `i`-th entry on the buffer has these. -/
def Shows (page : Buffer) (i : Nat) (slots : List Slot) : Prop :=
  ∀ k slot, slots[k]? = some slot → ∀ q < 32, page ((i + k) * 32 + q) = slot.bytes.getD q 0

section
variable {page : Buffer} {i : Nat}

theorem Shows.head {slot : Slot} {rest : List Slot} (shows_ : Shows page i (slot :: rest)) :
    ∀ q < 32, page (i * 32 + q) = slot.bytes.getD q 0 := shows_ 0 slot rfl

theorem Shows.tail {slot : Slot} {rest : List Slot} (shows_ : Shows page i (slot :: rest)) :
    Shows page (i + 1) rest := by
  intro k other here q below
  rw [show i + 1 + k = i + (k + 1) by omega]
  exact shows_ (k + 1) other here q below

theorem shows_append {front behind : List Slot} : Shows page i (front ++ behind) ↔
    Shows page i front ∧ Shows page (i + front.length) behind := by
  constructor
  · intro both
    constructor
    · intro k slot here
      exact both k slot (List.getElem?_append_left (List.getElem?_eq_some_iff.mp here).1 ▸ here)
    · intro k slot here
      have place : (front ++ behind)[front.length + k]? = some slot := by
        rw [List.getElem?_append_right (Nat.le_add_right _ _), Nat.add_sub_cancel_left, here]
      have bytes := both (front.length + k) slot place
      rwa [← Nat.add_assoc] at bytes
  · intro ⟨first, second⟩ k slot here
    by_cases below : k < front.length
    · rw [List.getElem?_append_left below] at here
      exact first k slot here
    · rw [List.getElem?_append_right (Nat.le_of_not_lt below)] at here
      have bytes := second _ slot here
      rwa [show i + front.length + (k - front.length) = i + k by omega] at bytes

theorem Shows.type {slots : List Slot} (shows_ : Shows page i slots) {k : Nat} {slot : Slot}
    (here : slots[k]? = some slot) : page ((i + k) * 32) = slot.type := shows_ k slot here 0 (by decide)

theorem readWords_slot {counts : List Nat} {words : Words counts} {whole : counts.sum = 32}
    (here : ∀ q < 32, page (i * 32 + q) = (slotOf words whole).bytes.getD q 0) : readWords counts page (i * 32) = words :=
  readWords_bytes words (by rw [whole]; exact here)

theorem readU16Le_field (buffer : Buffer) (offset : Nat) : readU16Le buffer offset = field 16 buffer offset := by
  have low := (buffer offset).isLt
  have first : ((buffer offset).setWidth 16).toNat = (buffer offset).toNat :=
    BitVec.toNat_setWidth_of_le (by decide)
  have two := toNat_or_byte ((buffer offset).setWidth 16) (buffer (offset + 1)) 8 (by rw [first]; exact low) (by decide)
  apply BitVec.eq_of_toNat_eq
  rw [toNat_field buffer 16 offset rfl]
  unfold readU16Le
  rw [two, first]
  simp only [littleEndian, show (16 : Nat) / 8 = 2 from rfl]
  omega

theorem readU64Le_field (buffer : Buffer) (offset : Nat) : readU64Le buffer offset = field 64 buffer offset := by
  have bound := fun k => (buffer (offset + k)).isLt
  have first : ((buffer offset).setWidth 64).toNat = (buffer offset).toNat :=
    BitVec.toNat_setWidth_of_le (by decide)
  have start := (buffer offset).isLt
  have two := toNat_or_byte ((buffer offset).setWidth 64) (buffer (offset + 1)) 8 (by rw [first]; exact start) (by decide)
  have b1 := bound 1
  have three := toNat_or_byte _ (buffer (offset + 2)) 16 (by rw [two, first]; omega) (by decide)
  have b2 := bound 2
  have four := toNat_or_byte _ (buffer (offset + 3)) 24 (by rw [three, two, first]; omega) (by decide)
  have b3 := bound 3
  have five := toNat_or_byte _ (buffer (offset + 4)) 32 (by rw [four, three, two, first]; omega) (by decide)
  have b4 := bound 4
  have six := toNat_or_byte _ (buffer (offset + 5)) 40 (by rw [five, four, three, two, first]; omega) (by decide)
  have b5 := bound 5
  have seven := toNat_or_byte _ (buffer (offset + 6)) 48 (by rw [six, five, four, three, two, first]; omega) (by decide)
  have b6 := bound 6
  have eight := toNat_or_byte _ (buffer (offset + 7)) 56
    (by rw [seven, six, five, four, three, two, first]; omega) (by decide)
  apply BitVec.eq_of_toNat_eq
  rw [toNat_field buffer 64 offset rfl]
  unfold readU64Le
  rw [eight, seven, six, five, four, three, two, first]
  simp only [littleEndian, Nat.add_assoc, Nat.reduceAdd, show (64 : Nat) / 8 = 8 from rfl]
  omega

end

section
variable {page : Buffer} {i : Nat} {set : FileSet}

theorem FileSet.length_slots (set : FileSet) : set.slots.length = 1 + set.secondaries := by
  simp [slots, secondaries]
  omega

theorem toNat_secondaries (set : FileSet) : (BitVec.ofNat 8 set.secondaries).toNat = set.secondaries := by
  have room := set.room
  rw [BitVec.toNat_ofNat]
  apply Nat.mod_eq_of_lt
  unfold FileSet.secondaries FileSet.nameEntries
  omega

theorem slot_name {f : Nat} (below : f < set.nameEntries) : set.slots[f + 2]? = some (set.nameSlot f) := by
  change ((List.range set.nameEntries).map set.nameSlot ++ set.extensions)[f]? = _
  rw [List.getElem?_append_left (by simpa using below), List.getElem?_map, List.getElem?_range below]
  rfl

theorem slot_extension (set : FileSet) (e : Nat) : set.slots[set.nameEntries + e + 2]? = set.extensions[e]? := by
  change ((List.range set.nameEntries).map set.nameSlot ++ set.extensions)[set.nameEntries + e]? = _
  rw [List.getElem?_append_right (by simp)]
  simp

theorem file_fields (shows_ : Shows page i set.slots) : page (i * 32) = 0x85 ∧
    page (i * 32 + 0x01) = BitVec.ofNat 8 set.secondaries ∧ readU16Le page (i * 32 + 0x04) = set.attributes := by
  have words : readWords FileSet.fileSizes page (i * 32) = set.fileWords := readWords_slot shows_.head
  simp only [FileSet.fileWords, readWords, Words.cons.injEq] at words
  obtain ⟨type, count, _, attributes, _⟩ := words
  refine ⟨?_, ?_, ?_⟩
  · rw [← field_byte page]
    exact type
  · rw [← field_byte page]
    exact count
  · rw [readU16Le_field]
    exact attributes

theorem stream_fields (fs : ExfatInstance) (shows_ : Shows page i set.slots) : page ((i + 1) * 32) = 0xC0 ∧
    FromStream page ((i + 1) * 32) (set.entry fs) := by
  have words : readWords FileSet.streamSizes page ((i + 1) * 32) = set.streamWords := readWords_slot shows_.tail.head
  simp only [FileSet.streamWords, readWords, Words.cons.injEq] at words
  obtain ⟨type, flags, _, length, hash, _, valid, _, first, data, _⟩ := words
  refine ⟨?_, ?_, ?_, ?_, ?_, ?_, ?_⟩
  · rw [← field_byte page]
    exact type
  · rw [← field_byte page]
    exact length.symm
  · rw [readU16Le_field]
    exact congrArg some hash.symm
  · rw [← field_byte page]
    exact congrArg some flags.symm
  · rw [readU64Le_field]
    exact congrArg some valid.symm
  · rw [Exfat.WholeFile.readU32Le_field]
    exact first.symm
  · rw [readU64Le_field]
    exact data.symm

theorem secondary_types (shows_ : Shows page i set.slots) :
    (∀ f < set.nameEntries, page ((i + 1 + (f + 1)) * 32) = 0xC1) ∧
    ∀ e < set.extensions.length, page ((i + 1 + (set.nameEntries + e + 1)) * 32) ≠ 0x00 ∧
      page ((i + 1 + (set.nameEntries + e + 1)) * 32) ≠ 0x85 ∧
      page ((i + 1 + (set.nameEntries + e + 1)) * 32) ≠ 0xC0 ∧
      page ((i + 1 + (set.nameEntries + e + 1)) * 32) ≠ 0xC1 := by
  constructor
  · intro f below
    have type := shows_.type (slot_name below)
    rwa [show i + (f + 2) = i + 1 + (f + 1) by omega] at type
  · intro e below
    have here := slot_extension set e
    rw [List.getElem?_eq_getElem below] at here
    have type := shows_.type here
    rw [show i + (set.nameEntries + e + 2) = i + 1 + (set.nameEntries + e + 1) by omega] at type
    rw [type]
    exact set.passed _ (List.getElem_mem below)

theorem nameUnits_set (shows_ : Shows page i set.slots) {f : Nat} (below : f < set.nameEntries) :
    nameUnits page ((i + 1 + (f + 1)) * 32) = set.fragment f := by
  have bytes := shows_ (f + 2) _ (slot_name below)
  rw [show i + (f + 2) = i + 1 + (f + 1) by omega] at bytes
  unfold nameUnits FileSet.fragment
  apply List.map_congr_left
  intro k member
  have small := List.mem_range.mp member
  have inside : k < (set.fragment f).length := by simpa [FileSet.fragment] using small
  have unit : (set.fragment f)[k] = set.units.getD (f * 15 + k) 0 := by simp [FileSet.fragment]
  rw [readU16Le_field, ← unit]
  apply @field_wordBytes page _ 2
  intro p low
  have place : (i + 1 + (f + 1)) * 32 + 0x02 + k * 2 + p = (i + 1 + (f + 1)) * 32 + (2 * k + p + 2) := by omega
  rw [place, bytes _ (by omega)]
  change ((set.fragment f).flatMap wordBytes).getD (2 * k + p) 0 = _
  exact getD_records length_unit _ low inside

/-- The name that the set stores. -/
theorem storedName_set (fs : ExfatInstance) (shows_ : Shows page i set.slots) : (storedName page i).units = set.units := by
  obtain ⟨_, count, _⟩ := file_fields shows_
  obtain ⟨stream, fields⟩ := stream_fields fs shows_
  obtain ⟨names, extensions⟩ := secondary_types shows_
  have number : (page (i * 32 + 0x01)).toNat = set.nameEntries + set.extensions.length + 1 := by
    rw [count, toNat_secondaries]
    unfold FileSet.secondaries
    omega
  have some : page (i * 32 + 0x01) ≠ 0 := by
    intro zero
    rw [zero] at number
    simp at number
  have range : List.range (set.nameEntries + set.extensions.length + 1) =
      0 :: ((List.range set.nameEntries).map (· + 1) ++
        (List.range set.extensions.length).map (set.nameEntries + · + 1)) := by
    rw [List.range_succ_eq_map, List.range_add, List.map_append, List.map_map]
    rfl
  have fragments : (List.range (set.nameEntries + set.extensions.length + 1)).filter
      (fun f => page ((i + 1 + f) * 32) = 0xC1) = (List.range set.nameEntries).map (· + 1) := by
    have first : page ((i + 1 + 0) * 32) ≠ 0xC1 := by
      rw [Nat.add_zero, stream]
      decide
    have all : ((List.range set.nameEntries).map (· + 1)).filter (fun f => page ((i + 1 + f) * 32) = 0xC1) =
        (List.range set.nameEntries).map (· + 1) := by
      rw [List.filter_eq_self]
      intro f member
      obtain ⟨k, inside, rfl⟩ := List.mem_map.mp member
      exact decide_eq_true (names k (List.mem_range.mp inside))
    have none : ((List.range set.extensions.length).map (set.nameEntries + · + 1)).filter
        (fun f => page ((i + 1 + f) * 32) = 0xC1) = [] := by
      rw [List.filter_eq_nil_iff]
      intro f member
      obtain ⟨e, inside, rfl⟩ := List.mem_map.mp member
      simpa using (extensions e (List.mem_range.mp inside)).2.2.2
    rw [range, List.filter_cons_of_neg (by simpa using first), List.filter_append, all, none, List.append_nil]
  have length : (page ((i + 1) * 32 + 0x03)).toNat = set.units.length := by
    have short := set.short
    rw [← fields.nameLength]
    change (BitVec.ofNat 8 set.units.length).toNat = _
    rw [BitVec.toNat_ofNat]
    exact Nat.mod_eq_of_lt (by omega)
  have pieces : (List.range set.nameEntries).flatMap (fun f => nameUnits page ((i + 1 + (f + 1)) * 32)) =
      (List.range (set.nameEntries * 15)).map (set.units.getD · 0) := by
    rw [← flatMap_pieces, List.flatMap_def, List.flatMap_def]
    apply congrArg List.flatten
    apply List.map_congr_left
    intro f member
    exact nameUnits_set shows_ (List.mem_range.mp member)
  rw [storedName_of_stream_first i some stream, number, fragments, List.flatMap_map, length, pieces]
  · apply take_getD
    unfold FileSet.nameEntries
    omega
  · intro f after below
    rw [number] at below
    obtain ⟨k, rfl⟩ : ∃ k, f = k + 1 := ⟨f - 1, by omega⟩
    by_cases name : k < set.nameEntries
    · rw [names k name]
      decide
    · obtain ⟨e, rfl⟩ : ∃ e, k = set.nameEntries + e := ⟨k - set.nameEntries, by omega⟩
      exact (extensions e (by omega)).2.2.1

theorem fs_foldl (buffer : Buffer) (i : Nat) (fs' : List Nat) (d : Decoding) :
    (fs'.foldl (decodeSecondary buffer i) d).file.fs = d.file.fs := by
  induction fs' generalizing d with
  | nil => rfl
  | cons f fs' ih =>
    rw [List.foldl_cons, ih]
    by_cases stream : buffer ((i + 1 + f) * 32) = 0xC0
    · rw [decodeSecondary_stream i f d stream]
      rfl
    · rw [(decodeSecondary_other i f d stream).1]

theorem entrySet_set (fs : ExfatInstance) (shows_ : Shows page i set.slots) : entrySet fs page i = set.entry fs := by
  obtain ⟨_, count, attributes⟩ := file_fields shows_
  obtain ⟨stream, fields⟩ := stream_fields fs shows_
  obtain ⟨names, extensions⟩ := secondary_types shows_
  have path : (entrySet fs page i).path = set.units.map (·.setWidth 8) := by
    rw [(entrySet_cut i).2, storedName_set fs shows_]
  have some : (decodeSet fs page i).filename ≠ [] := by
    intro none
    exact set.named (List.map_eq_nil_iff.mp (path.symm.trans none))
  obtain ⟨f, last, decoded⟩ := last_stream_of_name some
  have first : f = 0 := by
    by_contra later
    have inside := last.inside
    rw [count, toNat_secondaries] at inside
    obtain ⟨k, rfl⟩ : ∃ k, f = k + 1 := ⟨f - 1, by omega⟩
    by_cases name : k < set.nameEntries
    · have type := names k name
      rw [last.stream] at type
      exact absurd type (by decide)
    · obtain ⟨e, rfl⟩ : ∃ e, k = set.nameEntries + e := ⟨k - set.nameEntries, by omega⟩
      unfold FileSet.secondaries at inside
      exact (extensions e (by omega)).2.2.1 last.stream
  subst first
  rw [Nat.add_zero] at decoded
  have same : ∀ first second : FileEntry, first.path = second.path → first.fs = second.fs →
      first.attributes = second.attributes → FromStream page ((i + 1) * 32) first →
      FromStream page ((i + 1) * 32) second → first = second := by
    intro first second path fs attributes left right
    cases first
    cases second
    obtain ⟨l1, l2, l3, l4, l5, l6⟩ := left
    obtain ⟨r1, r2, r3, r4, r5, r6⟩ := right
    simp_all
  exact same _ _ path (fs_foldl page i _ _) ((attributes_entrySet fs page i).trans attributes) decoded fields

end

inductive Item where
  | fileSet (set : FileSet)
  | other (slot : Slot) (passed : slot.type ≠ 0x00 ∧ slot.type ≠ 0x85)

def Item.slots : Item → List Slot
  | .fileSet set => set.slots
  | .other slot _ => [slot]

def Item.set? : Item → Option FileSet
  | .fileSet set => some set
  | .other .. => none

def slotsOf (items : List Item) : List Slot := items.flatMap Item.slots

def setsOf (items : List Item) : List FileSet := items.filterMap Item.set?

section
variable {page : Buffer} {i : Nat} (fs : ExfatInstance)

theorem fileSets_passed {count todo : Nat} (room : count ≤ todo)
    (passed : ∀ k < count, page ((i + k) * 32) ≠ 0x00 ∧ page ((i + k) * 32) ≠ 0x85) :
    fileSets fs page (List.range' i todo) = fileSets fs page (List.range' (i + count) (todo - count)) := by
  induction count generalizing i todo with
  | zero => rfl
  | succ count ih =>
    obtain ⟨more, rfl⟩ : ∃ more, todo = more + 1 := ⟨todo - 1, by omega⟩
    have here : page (i * 32) ≠ 0x00 ∧ page (i * 32) ≠ 0x85 := passed 0 (Nat.succ_pos count)
    rw [List.range'_succ, fileSets_other here.1 here.2, ih (Nat.le_of_succ_le_succ room)]
    · congr 2
      · omega
      · omega
    · intro k below
      rw [show i + 1 + k = i + (k + 1) by omega]
      exact passed (k + 1) (by omega)

theorem secondaries_passed {set : FileSet} (shows_ : Shows page i set.slots) :
    ∀ k < set.secondaries, page ((i + 1 + k) * 32) ≠ 0x00 ∧ page ((i + 1 + k) * 32) ≠ 0x85 := by
  have stream : page ((i + 1) * 32) = 0xC0 := shows_.type (k := 1) rfl
  obtain ⟨names, extensions⟩ := secondary_types shows_
  intro k below
  cases k with
  | zero =>
    rw [Nat.add_zero, stream]
    decide
  | succ f =>
    by_cases name : f < set.nameEntries
    · rw [names f name]
      decide
    · unfold FileSet.secondaries at below
      obtain ⟨e, rfl⟩ : ∃ e, f = set.nameEntries + e := ⟨f - set.nameEntries, by omega⟩
      obtain ⟨used, file, _⟩ := extensions e (by omega)
      exact ⟨used, file⟩

/-- The sets that are found are those that stand there, in their order. -/
theorem fileSets_items (items : List Item) (i : Nat) {todo : Nat} (shows_ : Shows page i (slotsOf items))
    (room : (slotsOf items).length ≤ todo) : fileSets fs page (List.range' i todo) =
      (setsOf items).map (FileSet.entry · fs) ++
        fileSets fs page (List.range' (i + (slotsOf items).length) (todo - (slotsOf items).length)) := by
  induction items generalizing i todo with
  | nil => rfl
  | cons item rest ih =>
    have split : slotsOf (item :: rest) = item.slots ++ slotsOf rest := rfl
    rw [split, shows_append] at shows_
    rw [split, List.length_append] at room ⊢
    obtain ⟨here, behind⟩ := shows_
    have onward : fileSets fs page (List.range' (i + item.slots.length) (todo - item.slots.length)) = _ :=
      ih _ behind (by omega)
    rw [Nat.sub_sub, Nat.add_assoc] at onward
    cases item with
    | fileSet set =>
      have length : (Item.fileSet set).slots.length = 1 + set.secondaries := set.length_slots
      obtain ⟨file, _⟩ := file_fields here
      have used : Used page i := by
        unfold Used
        rw [file]
        decide
      obtain ⟨more, rfl⟩ : ∃ more, todo = more + 1 := ⟨todo - 1, by omega⟩
      have enough : set.secondaries ≤ more := by omega
      have rests := fileSets_passed fs enough (secondaries_passed here)
      rw [List.range'_succ, fileSets_file used file, entrySet_set fs here, rests]
      refine Eq.trans ?_ (congrArg (set.entry fs :: ·) onward)
      have place : i + 1 + set.secondaries = i + (Item.fileSet set).slots.length := by omega
      have left : more - set.secondaries = more + 1 - (Item.fileSet set).slots.length := by omega
      rw [place, left]
    | other slot passed =>
      have type : page (i * 32) = slot.type := here.type (k := 0) rfl
      have some : 1 ≤ todo := Nat.le_trans (Nat.le_add_right 1 _) room
      have single : ∀ k < 1, page ((i + k) * 32) ≠ 0x00 ∧ page ((i + k) * 32) ≠ 0x85 := by
        intro k below
        obtain rfl : k = 0 := by omega
        rw [Nat.add_zero, type]
        exact passed
      rw [fileSets_passed fs some single]
      exact onward

theorem slots_used {items : List Item} (shows_ : Shows page i (slotsOf items)) :
    ∀ k < (slotsOf items).length, page ((i + k) * 32) ≠ 0x00 := by
  induction items generalizing i with
  | nil => exact fun k below => absurd below (Nat.not_lt_zero k)
  | cons item rest ih =>
    have split : slotsOf (item :: rest) = item.slots ++ slotsOf rest := rfl
    rw [split, shows_append] at shows_
    obtain ⟨here, behind⟩ := shows_
    intro k below
    rw [split, List.length_append] at below
    by_cases inside : k < item.slots.length
    · cases item with
      | fileSet set =>
        cases k with
        | zero =>
          rw [Nat.add_zero, (file_fields here).1]
          decide
        | succ k =>
          have length : (Item.fileSet set).slots.length = 1 + set.secondaries := set.length_slots
          rw [show i + (k + 1) = i + 1 + k by omega]
          exact (secondaries_passed here k (by omega)).1
      | other slot passed =>
        have first : k < 1 := inside
        obtain rfl : k = 0 := by omega
        have type : page ((i + 0) * 32) = slot.type := here.type rfl
        rw [type]
        exact passed.1
    · rw [show i + k = i + item.slots.length + (k - item.slots.length) by omega]
      exact ih behind _ (by omega)

end

end Ketone.Exfat.EntrySets
