import Ketone.Exfat.Descent

/-! Which names a component matches: a file set stores its name as units of 16 bits, of which the
lookup compares the low bytes. -/

namespace Ketone.Exfat.StoredName
open Library Library.Loop Library.Components Volume OpenFile Lookup PathResolution Descent

def nameUnits (buffer : Buffer) (offset : Nat) : List (BitVec 16) :=
  (List.range 15).map fun k => readU16Le buffer (offset + 0x02 + k * 2)

structure Stored where
  nameLength : BitVec 8
  units : List (BitVec 16)
deriving DecidableEq

/-- A stream extension gives the length of the name; the name entries give units until there are that many. -/
def storeSecondary (buffer : Buffer) (i : Nat) (stored : Stored) (f : Nat) : Stored :=
  let offset := (i + 1 + f) * 32
  if buffer offset = 0xC0 then { stored with nameLength := buffer (offset + 0x03) }
  else if buffer offset = 0xC1 then
    { stored with units := stored.units ++
        (nameUnits buffer offset).take (stored.nameLength.toNat - stored.units.length) }
  else stored

/-- The name of the set at a position, with its units as they are stored. -/
def storedName (buffer : Buffer) (i : Nat) : Stored :=
  (List.range (buffer (i * 32 + 0x01)).toNat).foldl (storeSecondary buffer i) ⟨0, []⟩

/-- The stored name is the component, byte for unit. -/
structure Stored.Exact (stored : Stored) (component : Str) (entry : FileEntry) : Prop where
  units : stored.units = component.map (·.setWidth 16)
  length : component.length = entry.nameLength.toNat

structure First (fs : ExfatInstance) (component : Str) (page : Buffer) (i : Nat) : Prop where
  used : ∀ h, h ≤ i → Used page h
  file : page (i * 32) = 0x85
  named : Named component (entrySet fs page i)
  others : ∀ h, h < i → page (h * 32) = 0x85 → ¬ Named component (entrySet fs page h)

/-- In the call the search for a component takes the set at a position of a cluster. -/
structure Taken (machine : Machine) (fs : ExfatInstance) (path : CString) (trace : Trace) (component : Str)
    (page : Buffer) (i : Nat) (held : Held) : Prop where
  walk : ∃ o w trace', Walking machine fs path trace o w ∧ piece SLASH o.current = component ∧
    (readCluster fs machine w.cluster w.buffer w.trace).1 = some page ∧
    walkOf machine fs o w = .leave (.directoryDone (some held) trace')
  position : i ∈ positions fs
  first : First fs component page i
  entry : held.entry = entrySet fs page i

section
variable {fs : ExfatInstance} {buffer : Buffer} {component : Str}

theorem decodeUnits_eq (unit : Nat → BitVec 16) (ks : List Nat) (d : Decoding) :
    ks.foldl (fun d k => if d.filename.length ≥ d.file.nameLength.toNat then d
      else { d with filename := d.filename ++ [(unit k).setWidth 8] }) d =
    { d with filename := d.filename ++
        ((ks.map unit).take (d.file.nameLength.toNat - d.filename.length)).map (·.setWidth 8) } := by
  induction ks generalizing d with
  | nil => simp
  | cons k ks ih =>
    rw [List.foldl_cons, ih, List.map_cons]
    by_cases full : d.filename.length ≥ d.file.nameLength.toNat
    · rw [if_pos full, Nat.sub_eq_zero_of_le full, List.take_zero, List.take_zero]
    · rw [if_neg full]
      have room : d.file.nameLength.toNat - d.filename.length =
          d.file.nameLength.toNat - (d.filename.length + 1) + 1 := by omega
      rw [room, List.take_succ_cons, List.map_cons, List.length_append, List.append_assoc]
      rfl

theorem decodeName_eq (offset : Nat) (d : Decoding) :
    decodeName buffer offset d = { d with filename := d.filename ++
      ((nameUnits buffer offset).take (d.file.nameLength.toNat - d.filename.length)).map (·.setWidth 8) } :=
  decodeUnits_eq (fun k => readU16Le buffer (offset + 0x02 + k * 2)) (List.range 15) d

/-- The name in the making is the stored name in the making, cut to low bytes. -/
def Cut (d : Decoding) (stored : Stored) : Prop :=
  d.file.nameLength = stored.nameLength ∧ d.filename = stored.units.map (·.setWidth 8)

theorem cut_secondary {d : Decoding} {stored : Stored} (i f : Nat) (cut : Cut d stored) :
    Cut (decodeSecondary buffer i d f) (storeSecondary buffer i stored f) := by
  obtain ⟨length, name⟩ := cut
  unfold decodeSecondary storeSecondary
  dsimp only
  by_cases stream : buffer ((i + 1 + f) * 32) = 0xC0
  · rw [if_pos stream, if_pos stream, if_neg (by rw [stream]; decide)]
    exact ⟨rfl, name⟩
  rw [if_neg stream, if_neg stream]
  by_cases fragment : buffer ((i + 1 + f) * 32) = 0xC1
  · rw [if_pos fragment, if_pos fragment, decodeName_eq]
    refine ⟨length, ?_⟩
    dsimp only
    rw [name, length, List.map_append, List.length_map]
  · rw [if_neg fragment, if_neg fragment]
    exact ⟨length, name⟩

theorem cut_secondaries (i : Nat) (fs' : List Nat) {d : Decoding} {stored : Stored} (cut : Cut d stored) :
    Cut (fs'.foldl (decodeSecondary buffer i) d) (fs'.foldl (storeSecondary buffer i) stored) := by
  induction fs' generalizing d stored with
  | nil => exact cut
  | cons f fs' ih => exact ih (cut_secondary i f cut)

theorem entrySet_cut (i : Nat) : (entrySet fs buffer i).nameLength = (storedName buffer i).nameLength ∧
    (entrySet fs buffer i).path = (storedName buffer i).units.map (·.setWidth 8) :=
  cut_secondaries i _ ⟨rfl, rfl⟩

theorem units_of_stream_first (i : Nat) (length : BitVec 8) (behind : List Nat)
    (single : ∀ f ∈ behind, buffer ((i + 1 + f) * 32) ≠ 0xC0) (front : List (BitVec 16)) :
    (behind.foldl (storeSecondary buffer i) ⟨length, front.take length.toNat⟩).units =
      (front ++ (behind.filter fun f => buffer ((i + 1 + f) * 32) = 0xC1).flatMap
        fun f => nameUnits buffer ((i + 1 + f) * 32)).take length.toNat := by
  induction behind generalizing front with
  | nil => simp
  | cons f behind ih =>
    obtain ⟨other, single⟩ := List.forall_mem_cons.mp single
    rw [List.foldl_cons]
    by_cases fragment : buffer ((i + 1 + f) * 32) = 0xC1
    · have step : storeSecondary buffer i ⟨length, front.take length.toNat⟩ f =
          ⟨length, (front ++ nameUnits buffer ((i + 1 + f) * 32)).take length.toNat⟩ := by
        unfold storeSecondary
        dsimp only
        rw [if_neg other, if_pos fragment, List.take_append, List.length_take]
        have room : length.toNat - min length.toNat front.length = length.toNat - front.length := by omega
        rw [room]
      rw [step, ih single, List.filter_cons_of_pos (by simpa using fragment), List.flatMap_cons, List.append_assoc]
    · have step : storeSecondary buffer i ⟨length, front.take length.toNat⟩ f = ⟨length, front.take length.toNat⟩ := by
        unfold storeSecondary
        dsimp only
        rw [if_neg other, if_neg fragment]
      rw [step, ih single, List.filter_cons_of_neg (by simpa using fragment)]

theorem storedName_of_stream_first (i : Nat) (some : buffer (i * 32 + 0x01) ≠ 0)
    (stream : buffer ((i + 1) * 32) = 0xC0)
    (single : ∀ f, 0 < f → f < (buffer (i * 32 + 0x01)).toNat → buffer ((i + 1 + f) * 32) ≠ 0xC0) :
    (storedName buffer i).units =
      (((List.range (buffer (i * 32 + 0x01)).toNat).filter fun f => buffer ((i + 1 + f) * 32) = 0xC1).flatMap
        fun f => nameUnits buffer ((i + 1 + f) * 32)).take (buffer ((i + 1) * 32 + 0x03)).toNat := by
  have more : 0 < (buffer (i * 32 + 0x01)).toNat := BitVec.toNat_pos_of_ne_zero some
  obtain ⟨rest, count⟩ : ∃ rest, (buffer (i * 32 + 0x01)).toNat = rest + 1 := ⟨_, (Nat.sub_add_cancel more).symm⟩
  have first : storeSecondary buffer i ⟨0, []⟩ 0 = ⟨buffer ((i + 1) * 32 + 0x03), []⟩ := if_pos stream
  have fragment : buffer ((i + 1 + 0) * 32) ≠ 0xC1 := by
    rw [Nat.add_zero, stream]
    decide
  unfold storedName
  rw [count] at single ⊢
  rw [List.range_succ_eq_map, List.foldl_cons, first, List.filter_cons_of_neg (by simpa using fragment)]
  have none : ∀ f ∈ (List.range rest).map Nat.succ, buffer ((i + 1 + f) * 32) ≠ 0xC0 := by
    intro f member
    obtain ⟨k, inside, rfl⟩ := List.mem_map.mp member
    exact single _ (Nat.succ_pos k) (Nat.succ_lt_succ (List.mem_range.mp inside))
  have behind := units_of_stream_first i (buffer ((i + 1) * 32 + 0x03)) _ none []
  rw [List.take_nil, List.nil_append] at behind
  exact behind

theorem first_of_find {todo i : Nat} {entry : FileEntry}
    (found : (fileSets fs buffer (List.range' i todo)).find? (Named component ·) = some entry)
    (before : ∀ h, h < i → Used buffer h ∧ (buffer (h * 32) = 0x85 → ¬ Named component (entrySet fs buffer h))) :
    ∃ k, k < i + todo ∧ First fs component buffer k ∧ entry = entrySet fs buffer k := by
  induction todo generalizing i with
  | zero => simp [fileSets] at found
  | succ todo ih =>
    rw [List.range'_succ] at found
    by_cases used : Used buffer i
    case neg =>
      rw [fileSets_unused used] at found
      simp at found
    have onward : (buffer (i * 32) = 0x85 → ¬ Named component (entrySet fs buffer i)) → ∀ h, h < i + 1 →
        Used buffer h ∧ (buffer (h * 32) = 0x85 → ¬ Named component (entrySet fs buffer h)) := by
      intro other h below
      rcases Nat.lt_succ_iff_lt_or_eq.mp below with earlier | rfl
      · exact before h earlier
      · exact ⟨used, other⟩
    by_cases file : buffer (i * 32) = 0x85
    · rw [fileSets_file used file] at found
      by_cases named : Named component (entrySet fs buffer i)
      · rw [List.find?_cons_of_pos (by simpa using named)] at found
        refine ⟨i, by omega, ⟨?_, file, named, fun h below => (before h below).2⟩, (Option.some.inj found).symm⟩
        intro h le
        rcases Nat.lt_or_eq_of_le le with earlier | rfl
        · exact (before h earlier).1
        · exact used
      · rw [List.find?_cons_of_neg (by simpa using named)] at found
        obtain ⟨k, below, first, same⟩ := ih found (onward fun _ => named)
        exact ⟨k, by omega, first, same⟩
    · rw [fileSets_other used file] at found
      obtain ⟨k, below, first, same⟩ := ih found (onward fun is => absurd is file)
      exact ⟨k, by omega, first, same⟩

end

section
variable {machine : Machine} {fs : ExfatInstance} {path : CString} {trace : Trace}

theorem taken_of_found {o : Opening} {w : Walk} {held : Held} {trace' : Trace}
    (walking : Walking machine fs path trace o w)
    (found : walkOf machine fs o w = .leave (.directoryDone (some held) trace')) :
    ∃ page i, Taken machine fs path trace (piece SLASH o.current) page i held := by
  have whole := walking.reaches.looksUp.1.piece_whole
  have here := found
  unfold walkOf walkBody at found
  cases shown : readCluster fs machine w.cluster w.buffer w.trace with
  | mk page seen =>
    rw [shown] at found
    cases page with
    | none => simp at found
    | some page =>
      obtain ⟨scan, heap, result, spec⟩ := @scanCluster_spec fs _ whole page seen.reads seen.heap
      dsimp only at found
      rw [result] at found
      cases scan with
      | exhausted =>
        dsimp only at found
        split at found <;> simp at found
      | directoryDone last =>
        obtain ⟨rfl, rfl⟩ := Walked.directoryDone.inj (Turn.leave.inj found)
        have found' : (fileSets fs page (positions fs)).find? (Named (piece SLASH o.current) ·) = some held.entry := by
          cases found' : (fileSets fs page (positions fs)).find? (Named (piece SLASH o.current) ·) with
          | some entry =>
            rw [found'] at spec
            obtain ⟨_, same, rfl⟩ := spec
            rw [Option.some.inj (Scan.directoryDone.inj same)]
          | none =>
            rw [found'] at spec
            dsimp only at spec
            split at spec <;> simp at spec
        unfold positions at found'
        rw [List.range_eq_range'] at found'
        obtain ⟨i, below, first, entry⟩ := first_of_find found' fun h below => absurd below (Nat.not_lt_zero h)
        refine ⟨page, i, ⟨o, w, _, walking, rfl, by rw [shown], here⟩, ?_, first, entry⟩
        exact List.mem_range.mpr (by omega)

/-- An entry that the call returns it has taken from a set. -/
theorem taken_of_returned {held : Held} {trace' : Trace}
    (opens : Opens machine fs path.bytes trace (.returned (some held), trace')) :
    ∃ component page i, Taken machine fs path trace component page i held := by
  obtain ⟨o, bound, reaches, left⟩ := leaves_of_opens opens
  have cursor := reaches.looksUp.1
  by_cases more : o.current = []
  · rw [openBody_end bound more] at left
    simp at left
  by_cases long : 256 ≤ (piece SLASH o.current).length
  · rw [openBody_smashed bound cursor more long] at left
    simp at left
  have short : (piece SLASH o.current).length ≤ 255 := by omega
  rw [openBody_component bound cursor more short] at left
  obtain ⟨walked, ended, after⟩ := Option.map_eq_some_iff.mp left
  obtain ⟨k, w, passed, gives⟩ := leaves_of_run ended
  have walking : Walking machine fs path trace o w := ⟨reaches, more, short, k, passed⟩
  obtain ⟨trace'', rfl, _⟩ := afterWalk_returned after
  obtain ⟨page, i, taken⟩ := taken_of_found walking gives
  exact ⟨_, page, i, taken⟩

end

/-! A root directory of one sector with the file of the name U+0161, whose low byte is that of `a`. -/

def plainPath : CString := ⟨[0x61], by decide⟩

end Ketone.Exfat.StoredName
