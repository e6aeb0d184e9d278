import Ketone.Exfat.StoredName
import Mathlib.Data.List.GetD

/-! What the decoding of a file set stores: the bytes of the name in their block, and the fields of the entry, which
are those of the set's last stream extension. -/

namespace Ketone.Exfat.SetDecoding
open Library Library.Loop Library.Components Volume OpenFile Lookup PathResolution Descent StoredName

/-- The entry and the block of the name in the making, with the indices in the block that have been stored to. -/
structure Writing where
  file : FileEntry
  nameIndex : BitVec 64
  filename : Buffer
  stored : List Nat

def Writing.store (w : Writing) (c : BitVec 8) : Writing :=
  { w with
    filename := fun p => if p = w.nameIndex.toNat then c else w.filename p
    stored := w.stored ++ [w.nameIndex.toNat] }

section
variable (buffer : Buffer)

def writeUnit (offset : Nat) (w : Writing) (k : Nat) : Writing :=
  if w.nameIndex ≥ w.file.nameLength.setWidth 64 then w
  else { w.store ((readU16Le buffer (offset + 0x02 + k * 2)).setWidth 8) with nameIndex := w.nameIndex + 1 }

def extend (offset : Nat) (file : FileEntry) : FileEntry :=
  { file with
    nameLength := buffer (offset + 0x03)
    nameHash := some (readU16Le buffer (offset + 0x04))
    flags := some (buffer (offset + 0x01))
    validDataLength := some (readU64Le buffer (offset + 0x08))
    firstCluster := readU32Le buffer (offset + 0x14)
    dataLength := readU64Le buffer (offset + 0x18) }

def writeSecondary (i : Nat) (w : Writing) (f : Nat) : Writing :=
  let offset := (i + 1 + f) * 32
  let w := if buffer offset = 0xC0 then { w with file := extend buffer offset w.file } else w
  if buffer offset = 0xC1 then (List.range 15).foldl (writeUnit buffer offset) w else w

def startWriting (fs : ExfatInstance) (i : Nat) (stale : Buffer) : Writing :=
  ⟨⟨[], fs, readU16Le buffer (i * 32 + 0x04), 0, none, 0, 0, none, none⟩, 0, stale, []⟩

/-- The set whose file entry is the `i`-th of the cluster, with the NUL behind its name. -/
def writeSet (fs : ExfatInstance) (i : Nat) (stale : Buffer) : Writing :=
  let secondaryCount := buffer (i * 32 + 0x01)
  ((List.range secondaryCount.toNat).foldl (writeSecondary buffer i) (startWriting buffer fs i stale)).store 0

structure LastOf (i count f : Nat) : Prop where
  inside : f < count
  stream : buffer ((i + 1 + f) * 32) = 0xC0
  last : ∀ g, f < g → g < count → buffer ((i + 1 + g) * 32) ≠ 0xC0

def LastStream (i f : Nat) : Prop := LastOf buffer i (buffer (i * 32 + 0x01)).toNat f

/-- Every field that a stream extension has for the entry has been taken from it. -/
structure FromStream (offset : Nat) (file : FileEntry) : Prop where
  nameLength : file.nameLength = buffer (offset + 0x03)
  nameHash : file.nameHash = some (readU16Le buffer (offset + 0x04))
  flags : file.flags = some (buffer (offset + 0x01))
  validDataLength : file.validDataLength = some (readU64Le buffer (offset + 0x08))
  firstCluster : file.firstCluster = readU32Le buffer (offset + 0x14)
  dataLength : file.dataLength = readU64Le buffer (offset + 0x18)

end

/-- The block holds the name in the making, and has been stored to in order. -/
structure Written (w : Writing) (d : Decoding) : Prop where
  file : w.file = d.file
  index : w.nameIndex.toNat = d.filename.length
  bytes : ∀ p < d.filename.length, w.filename p = d.filename.getD p 0
  stored : w.stored = List.range d.filename.length
  short : d.filename.length ≤ 255

section
variable {buffer : Buffer} {w : Writing} {d : Decoding}

theorem written_unit (offset k : Nat) (written : Written w d) : Written (writeUnit buffer offset w k)
    (if d.filename.length ≥ d.file.nameLength.toNat then d
      else { d with filename := d.filename ++ [(readU16Le buffer (offset + 0x02 + k * 2)).setWidth 8] }) := by
  have length := d.file.nameLength.isLt
  have full : w.nameIndex ≥ w.file.nameLength.setWidth 64 ↔ d.filename.length ≥ d.file.nameLength.toNat := by
    rw [written.file, ge_iff_le, BitVec.le_def, BitVec.toNat_setWidth_of_le (by decide), written.index]
  unfold writeUnit
  by_cases stop : d.filename.length ≥ d.file.nameLength.toNat
  · rw [if_pos (full.mpr stop), if_pos stop]
    exact written
  · have next : (w.nameIndex + 1).toNat = d.filename.length + 1 := by
      rw [BitVec.toNat_add, written.index]
      change (_ + 1) % 2 ^ 64 = _
      omega
    rw [if_neg (fun now => stop (full.mp now)), if_neg stop]
    apply Written.mk
    · exact written.file
    · rw [List.length_append, List.length_singleton]
      exact next
    · intro p below
      rw [List.length_append, List.length_singleton] at below
      unfold Writing.store
      dsimp only
      rw [written.index]
      by_cases last : p = d.filename.length
      · rw [if_pos last, last, List.getD_append_right _ _ _ _ (Nat.le_refl _), Nat.sub_self]
        rfl
      · rw [if_neg last, List.getD_append _ _ _ _ (by omega)]
        exact written.bytes p (by omega)
    · unfold Writing.store
      dsimp only
      rw [written.stored, written.index, List.length_append, List.length_singleton, List.range_succ]
    · rw [List.length_append, List.length_singleton]
      omega

theorem written_secondary (i f : Nat) (written : Written w d) :
    Written (writeSecondary buffer i w f) (decodeSecondary buffer i d f) := by
  unfold writeSecondary decodeSecondary
  dsimp only
  by_cases stream : buffer ((i + 1 + f) * 32) = 0xC0
  · have other : buffer ((i + 1 + f) * 32) ≠ 0xC1 := by
      rw [stream]
      decide
    rw [if_pos stream, if_pos stream, if_neg other, if_neg other]
    have file : extend buffer ((i + 1 + f) * 32) w.file = extend buffer ((i + 1 + f) * 32) d.file := by
      rw [written.file]
    exact ⟨file, written.index, written.bytes, written.stored, written.short⟩
  · rw [if_neg stream, if_neg stream]
    by_cases name : buffer ((i + 1 + f) * 32) = 0xC1
    · rw [if_pos name, if_pos name]
      exact List.foldl_rel written fun k _ w d written => written_unit _ k written
    · rw [if_neg name, if_neg name]
      exact written

theorem written_set (buffer : Buffer) (fs : ExfatInstance) (i : Nat) (stale : Buffer) :
    Written ((List.range (buffer (i * 32 + 0x01)).toNat).foldl (writeSecondary buffer i)
      (startWriting buffer fs i stale)) (decodeSet fs buffer i) := by
  have start : Written (startWriting buffer fs i stale)
      ⟨⟨[], fs, readU16Le buffer (i * 32 + 0x04), 0, none, 0, 0, none, none⟩, []⟩ := by
    apply Written.mk
    · rfl
    · rfl
    · intro p below
      cases below
    · rfl
    · exact Nat.zero_le _
  exact List.foldl_rel start fun f _ w d written => written_secondary i f written

theorem cstr_append_nul (name rest : Str) : cstr (name ++ 0 :: rest) = cstr name := by
  induction name with
  | nil => exact cstr_of_zero rfl
  | cons c name ih =>
    rw [List.cons_append]
    by_cases zero : c = 0
    · subst zero
      rw [cstr_of_zero rfl, cstr_of_zero rfl]
    · rw [cstr_cons zero, cstr_cons zero, ih]

/-- Behind the bytes of the name comes the NUL. -/
theorem cstr_closed {name : Str} {block : Buffer} {count : Nat} (bytes : ∀ p < name.length, block p = name.getD p 0)
    (closed : block name.length = 0) (room : name.length < count) : cstr ((List.range count).map block) = cstr name := by
  have split : (List.range count).map block =
      name ++ 0 :: (List.range' (name.length + 1) (count - name.length - 1)).map block := by
    apply List.ext_getElem
    · simp
      omega
    · intro p below below'
      rw [List.getElem_map, List.getElem_range]
      by_cases inside : p < name.length
      · rw [List.getElem_append_left inside, bytes p inside, List.getD_eq_getElem _ _ inside]
      · rw [List.getElem_append_right (by omega)]
        by_cases here : p = name.length
        · subst here
          simp [closed]
        · obtain ⟨more, rfl⟩ : ∃ more, p = name.length + 1 + more := ⟨p - name.length - 1, by omega⟩
          have behind : name.length + 1 + more - name.length = more + 1 := by omega
          simp [behind]
  rw [split, cstr_append_nul]

/-- Every store is to the block of 256 bytes, and the string in it is the name that the lookup compares. -/
theorem writeSet_spec (buffer : Buffer) (fs : ExfatInstance) (i : Nat) (stale : Buffer) :
    (writeSet buffer fs i stale).file = (decodeSet fs buffer i).file ∧
    cstr ((List.range 256).map (writeSet buffer fs i stale).filename) = cstr (decodeSet fs buffer i).filename ∧
    ∀ k ∈ (writeSet buffer fs i stale).stored, k ≤ 255 := by
  have written := written_set buffer fs i stale
  have short := written.short
  unfold writeSet
  refine ⟨written.file, cstr_closed ?_ ?_ (by omega), ?_⟩
  · intro p below
    unfold Writing.store
    dsimp only
    rw [if_neg (by rw [written.index]; omega), written.bytes p below]
  · unfold Writing.store
    dsimp only
    rw [if_pos written.index.symm]
  · intro k member
    unfold Writing.store at member
    dsimp only at member
    rw [written.stored, written.index] at member
    rcases List.mem_append.mp member with before | last
    · have below := List.mem_range.mp before
      omega
    · rw [List.mem_singleton.mp last]
      exact short

theorem decodeSecondary_stream (i f : Nat) (d : Decoding) (stream : buffer ((i + 1 + f) * 32) = 0xC0) :
    decodeSecondary buffer i d f = { d with file := extend buffer ((i + 1 + f) * 32) d.file } := by
  have other : buffer ((i + 1 + f) * 32) ≠ 0xC1 := by
    rw [stream]
    decide
  unfold decodeSecondary
  dsimp only
  rw [if_pos stream, if_neg other]
  rfl

theorem decodeSecondary_other (i f : Nat) (d : Decoding) (other : buffer ((i + 1 + f) * 32) ≠ 0xC0) :
    (decodeSecondary buffer i d f).file = d.file ∧
      (d.file.nameLength = 0 → (decodeSecondary buffer i d f).filename = d.filename) := by
  unfold decodeSecondary
  dsimp only
  rw [if_neg other]
  by_cases name : buffer ((i + 1 + f) * 32) = 0xC1
  · rw [if_pos name, decodeName_eq]
    refine ⟨rfl, ?_⟩
    intro none
    dsimp only
    rw [none]
    simp
  · rw [if_neg name]
    exact ⟨rfl, fun _ => rfl⟩

theorem fromStream_extend (offset : Nat) (file : FileEntry) : FromStream buffer offset (extend buffer offset file) :=
  ⟨rfl, rfl, rfl, rfl, rfl, rfl⟩

theorem decoded_streams (buffer : Buffer) (i : Nat) {d : Decoding} (count : Nat) (length : d.file.nameLength = 0) (name : d.filename = []) :
    (((List.range count).foldl (decodeSecondary buffer i) d).file.nameLength = 0 ∧
      ((List.range count).foldl (decodeSecondary buffer i) d).filename = []) ∨
    ∃ f, LastOf buffer i count f ∧
      FromStream buffer ((i + 1 + f) * 32) ((List.range count).foldl (decodeSecondary buffer i) d).file := by
  induction count with
  | zero => exact Or.inl ⟨length, name⟩
  | succ count ih =>
    rw [List.range_succ, List.foldl_append, List.foldl_cons, List.foldl_nil]
    generalize (List.range count).foldl (decodeSecondary buffer i) d = before at ih ⊢
    by_cases stream : buffer ((i + 1 + count) * 32) = 0xC0
    · rw [decodeSecondary_stream i count before stream]
      exact Or.inr ⟨count, ⟨Nat.lt_succ_self count, stream, fun g above below => by omega⟩, fromStream_extend _ _⟩
    · obtain ⟨file, empty⟩ := decodeSecondary_other i count before stream
      rw [file]
      rcases ih with ⟨none, clear⟩ | ⟨f, last, fields⟩
      · exact Or.inl ⟨none, (empty none).trans clear⟩
      · refine Or.inr ⟨f, ⟨Nat.lt_succ_of_lt last.inside, last.stream, ?_⟩, fields⟩
        intro g above below
        by_cases here : g = count
        · rw [here]
          exact stream
        · exact last.last g above (by omega)

theorem last_stream_of_name {fs : ExfatInstance} {i : Nat} (named : (decodeSet fs buffer i).filename ≠ []) :
    ∃ f, LastStream buffer i f ∧ FromStream buffer ((i + 1 + f) * 32) (entrySet fs buffer i) := by
  have start : (⟨⟨[], fs, readU16Le buffer (i * 32 + 0x04), 0, none, 0, 0, none, none⟩, []⟩ : Decoding).filename = [] := rfl
  rcases decoded_streams buffer i (buffer (i * 32 + 0x01)).toNat rfl start with ⟨_, none⟩ | ⟨f, last, fields⟩
  · exact (named none).elim
  · exact ⟨f, last, ⟨fields.nameLength, fields.nameHash, fields.flags, fields.validDataLength, fields.firstCluster,
      fields.dataLength⟩⟩

theorem last_stream_of_match {fs : ExfatInstance} {i : Nat} {component : CString} (some : component.bytes ≠ [])
    (same : strcmp (decodeSet fs buffer i).filename component.bytes = 0) :
    ∃ f, LastStream buffer i f ∧ FromStream buffer ((i + 1 + f) * 32) (entrySet fs buffer i) := by
  rw [strcmp_eq_zero_iff, cstr_of_mem component.whole] at same
  apply last_stream_of_name
  intro empty
  rw [empty] at same
  exact some same.symm

end

theorem piece_ne_nil {current : Str} (cursor : Cursor current) (more : current ≠ []) : piece SLASH current ≠ [] := by
  cases current with
  | nil => exact (more rfl).elim
  | cons c rest =>
    have front := cursor.front c rest rfl
    unfold piece
    rw [List.takeWhile_cons_of_pos (by simpa using front)]
    exact List.cons_ne_nil _ _

/-- For every cluster buffer and every position of a set in it: the stores to the name's block stay in its 256 bytes;
a set that matches a component has a stream extension, and every field of its entry is that of the last one; and what
the call returns for any path on any volume is such an entry. -/
theorem entry_sets_decode (machine : Machine) (fs : ExfatInstance) (path : CString) (trace : Trace) :
    (∀ page i stale, (writeSet page fs i stale).file = (decodeSet fs page i).file ∧
      cstr ((List.range 256).map (writeSet page fs i stale).filename) = cstr (decodeSet fs page i).filename ∧
      ∀ k ∈ (writeSet page fs i stale).stored, k ≤ 255) ∧
    (∀ page i, ∀ component : CString, component.bytes ≠ [] →
      strcmp (decodeSet fs page i).filename component.bytes = 0 →
      ∃ f, LastStream page i f ∧ FromStream page ((i + 1 + f) * 32) (entrySet fs page i)) ∧
    ∀ held trace', Opens machine fs path.bytes trace (.returned (some held), trace') →
      ∃ component page i f, Taken machine fs path trace component page i held ∧ LastStream page i f ∧
        FromStream page ((i + 1 + f) * 32) held.entry := by
  refine ⟨fun page => writeSet_spec page fs, fun page i component => last_stream_of_match, ?_⟩
  intro held trace' opens
  obtain ⟨component, page, i, taken⟩ := taken_of_returned opens
  obtain ⟨o, w, _, walking, piece, _⟩ := taken.walk
  have some : component ≠ [] := by
    rw [← piece]
    exact piece_ne_nil walking.reaches.looksUp.1 walking.more
  have named : (decodeSet fs page i).filename ≠ [] := by
    intro empty
    have same : cstr (decodeSet fs page i).filename = component := taken.first.named
    rw [empty] at same
    exact some same.symm
  obtain ⟨f, last, fields⟩ := last_stream_of_name named
  refine ⟨component, page, i, f, taken, last, ?_⟩
  rw [taken.entry]
  exact fields

/-- The set of the directory `a`. -/
theorem entry_sets_decode_letter : ∃ f, LastStream (oneSet 0x61 0x10 3) 0 f ∧
    FromStream (oneSet 0x61 0x10 3) ((0 + 1 + f) * 32) (entrySet twoClusters (oneSet 0x61 0x10 3) 0) :=
  (entry_sets_decode twoLevels twoClusters doubledPath ⟨[], []⟩).2.1 (oneSet 0x61 0x10 3) 0 plainPath (by decide)
    (by decide +kernel)

end Ketone.Exfat.SetDecoding
