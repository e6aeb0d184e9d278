import Mathlib.Data.List.Basic
import Ketone.Exfat.LookupEnds
import Ketone.Exfat.StoredName

/-! A directory as the stream of its clusters, and where a file set may stand in it: the lookup
decodes each set from the cluster that its first entry is in. -/

namespace Ketone.Exfat.DirectoryStream
open Library Library.Loop Library.Components Volume OpenFile Lookup PathResolution Descent LookupEnds StoredName

def secondaryCount (buffer : Buffer) (i : Nat) : Nat := (buffer (i * 32 + 0x01)).toNat

/-- The slots of 32 bytes that the loop over the entries of a cluster reads, in order. -/
def slotsRead (fs : ExfatInstance) (component : Str) (buffer : Buffer) : Nat → Nat → List Nat
  | 0, _ => []
  | todo + 1, i =>
      if buffer (i * 32) = 0x00 then [i]
      else if buffer (i * 32) ≠ 0x85 then i :: slotsRead fs component buffer todo (i + 1)
      else
        let set := i :: (List.range (secondaryCount buffer i)).map (i + 1 + ·)
        if strcmp (decodeSet fs buffer i).filename component = 0 then set
        else set ++ slotsRead fs component buffer todo (i + 1)

/-- The positions of the sets before the end of the directory, up to the first of the name. -/
def examined (fs : ExfatInstance) (component : Str) (buffer : Buffer) : List Nat → List Nat
  | [] => []
  | i :: rest =>
      if ¬ Used buffer i then []
      else if buffer (i * 32) ≠ 0x85 then examined fs component buffer rest
      else if Named component (entrySet fs buffer i) then [i]
      else i :: examined fs component buffer rest

section
variable {first second : Buffer} {a b : Nat}

theorem readU16Le_congr (same : ∀ q, q < 2 → first (a + q) = second (b + q)) :
    readU16Le first a = readU16Le second b := by
  have front : first a = second b := same 0 (by decide)
  unfold readU16Le
  rw [front, same 1 (by decide)]

theorem readU32Le_congr (same : ∀ q, q < 4 → first (a + q) = second (b + q)) :
    readU32Le first a = readU32Le second b := by
  have front : first a = second b := same 0 (by decide)
  unfold readU32Le
  rw [front, same 1 (by decide), same 2 (by decide), same 3 (by decide)]

theorem readU64Le_congr (same : ∀ q, q < 8 → first (a + q) = second (b + q)) :
    readU64Le first a = readU64Le second b := by
  have front : first a = second b := same 0 (by decide)
  unfold readU64Le
  rw [front, same 1 (by decide), same 2 (by decide), same 3 (by decide), same 4 (by decide), same 5 (by decide),
    same 6 (by decide), same 7 (by decide)]

theorem nameUnits_congr (same : ∀ q, q < 32 → first (a + q) = second (b + q)) :
    nameUnits first a = nameUnits second b := by
  apply List.map_congr_left
  intro k member
  have below : k < 15 := List.mem_range.mp member
  apply readU16Le_congr
  intro q small
  rw [Nat.add_assoc, Nat.add_assoc, Nat.add_assoc, Nat.add_assoc]
  exact same (0x02 + (k * 2 + q)) (by omega)

theorem decodeSecondary_congr {i j f : Nat} (d : Decoding)
    (same : ∀ q, q < 32 → first ((i + 1 + f) * 32 + q) = second ((j + 1 + f) * 32 + q)) :
    decodeSecondary first i d f = decodeSecondary second j d f := by
  have type : first ((i + 1 + f) * 32) = second ((j + 1 + f) * 32) := same 0 (by decide)
  have part : ∀ start length, start + length ≤ 32 → ∀ q, q < length →
      first ((i + 1 + f) * 32 + start + q) = second ((j + 1 + f) * 32 + start + q) := by
    intro start length le q below
    rw [Nat.add_assoc _ start, Nat.add_assoc _ start]
    exact same (start + q) (by omega)
  unfold decodeSecondary
  simp only [decodeName_eq]
  rw [type, same 1 (by decide), same 3 (by decide), readU16Le_congr (part 0x04 2 (by decide)),
    readU64Le_congr (part 0x08 8 (by decide)), readU32Le_congr (part 0x14 4 (by decide)),
    readU64Le_congr (part 0x18 8 (by decide)), nameUnits_congr same]

theorem decodeSet_congr {fs : ExfatInstance} {i j : Nat} (same : ∀ p, p < (1 + secondaryCount first i) * 32 →
    first (i * 32 + p) = second (j * 32 + p)) : decodeSet fs first i = decodeSet fs second j := by
  have count : first (i * 32 + 0x01) = second (j * 32 + 0x01) := same 1 (by omega)
  have attributes : readU16Le first (i * 32 + 0x04) = readU16Le second (j * 32 + 0x04) := by
    apply readU16Le_congr
    intro q below
    rw [Nat.add_assoc, Nat.add_assoc]
    exact same (0x04 + q) (by omega)
  unfold secondaryCount at same
  unfold decodeSet
  dsimp only
  rw [attributes, ← count]
  apply List.foldl_ext
  intro d f member
  have inside : f < (first (i * 32 + 0x01)).toNat := List.mem_range.mp member
  apply decodeSecondary_congr
  intro q below
  have here := same ((1 + f) * 32 + q) (by omega)
  have left : i * 32 + ((1 + f) * 32 + q) = (i + 1 + f) * 32 + q := by omega
  have right : j * 32 + ((1 + f) * 32 + q) = (j + 1 + f) * 32 + q := by omega
  rw [left, right] at here
  exact here

end

section
variable {fs : ExfatInstance} {component : Str} {buffer first second : Buffer}

theorem set_congr {i : Nat} (same : ∀ s ∈ i :: (List.range (secondaryCount first i)).map (i + 1 + ·), ∀ q, q < 32 →
    first (s * 32 + q) = second (s * 32 + q)) : decodeSet fs first i = decodeSet fs second i := by
  apply decodeSet_congr
  intro p below
  have slot : i + p / 32 ∈ i :: (List.range (secondaryCount first i)).map (i + 1 + ·) := by
    rw [List.mem_cons, List.mem_map]
    by_cases front : p / 32 = 0
    · exact Or.inl (by omega)
    · exact Or.inr ⟨p / 32 - 1, List.mem_range.mpr (by omega), by omega⟩
  have here := same _ slot (p % 32) (Nat.mod_lt _ (by decide))
  have place : (i + p / 32) * 32 + p % 32 = i * 32 + p := by omega
  rw [place] at here
  exact here

/-- The search of a cluster is decided by the slots that it reads. -/
theorem scanEntries_congr {todo i : Nat} (same : ∀ s ∈ slotsRead fs component first todo i, ∀ q, q < 32 →
    first (s * 32 + q) = second (s * 32 + q)) (trace : Trace) :
    scanEntries fs component first todo i trace = scanEntries fs component second todo i trace := by
  induction todo generalizing i trace with
  | zero => rfl
  | succ todo ih =>
    unfold slotsRead at same
    unfold scanEntries
    by_cases unused : first (i * 32) = 0x00
    · rw [if_pos unused] at same
      have type : first (i * 32) = second (i * 32) := same i (List.mem_singleton.mpr rfl) 0 (by decide)
      rw [← type, if_pos unused, if_pos unused]
    rw [if_neg unused] at same
    by_cases other : first (i * 32) ≠ 0x85
    · rw [if_pos other] at same
      have type : first (i * 32) = second (i * 32) := same i (List.mem_cons_self ..) 0 (by decide)
      rw [← type, if_neg unused, if_neg unused, if_pos other, if_pos other]
      exact ih (fun s member => same s (List.mem_cons_of_mem _ member)) trace
    rw [if_neg other] at same
    dsimp only at same
    by_cases named : strcmp (decodeSet fs first i).filename component = 0
    · rw [if_pos named] at same
      have type : first (i * 32) = second (i * 32) := same i (List.mem_cons_self ..) 0 (by decide)
      have set : decodeSet fs first i = decodeSet fs second i := set_congr same
      rw [← type, ← set, if_neg unused, if_neg unused, if_neg other, if_neg other]
      dsimp only
      rw [if_pos named, if_pos named]
    · rw [if_neg named] at same
      have front := fun s member => same s (List.mem_append_left _ member)
      have type : first (i * 32) = second (i * 32) := front i (List.mem_cons_self ..) 0 (by decide)
      have set : decodeSet fs first i = decodeSet fs second i := set_congr front
      rw [← type, ← set, if_neg unused, if_neg unused, if_neg other, if_neg other]
      dsimp only
      rw [if_neg named, if_neg named]
      exact ih (fun s member => same s (List.mem_append_right _ member)) _

theorem set_inside_iff {n i : Nat} (below : i < n) :
    (∀ s ∈ i :: (List.range (secondaryCount buffer i)).map (i + 1 + ·), s < n) ↔
      i + 1 + secondaryCount buffer i ≤ n := by
  rw [List.forall_mem_cons, List.forall_mem_map]
  constructor
  · intro inside
    by_contra beyond
    have last := inside.2 (n - i - 1) (List.mem_range.mpr (by omega))
    omega
  · intro le
    refine ⟨below, ?_⟩
    intro f member
    have := List.mem_range.mp member
    omega

theorem examined_unused {i : Nat} (unused : ¬ Used buffer i) (rest : List Nat) :
    examined fs component buffer (i :: rest) = [] := if_pos unused

theorem examined_other {i : Nat} (used : Used buffer i) (other : buffer (i * 32) ≠ 0x85) (rest : List Nat) :
    examined fs component buffer (i :: rest) = examined fs component buffer rest :=
  (if_neg (not_not.mpr used)).trans (if_pos other)

theorem examined_named {i : Nat} (used : Used buffer i) (file : buffer (i * 32) = 0x85)
    (named : Named component (entrySet fs buffer i)) (rest : List Nat) :
    examined fs component buffer (i :: rest) = [i] :=
  (if_neg (not_not.mpr used)).trans ((if_neg (not_not.mpr file)).trans (if_pos named))

theorem examined_file {i : Nat} (used : Used buffer i) (file : buffer (i * 32) = 0x85)
    (unlike : ¬ Named component (entrySet fs buffer i)) (rest : List Nat) :
    examined fs component buffer (i :: rest) = i :: examined fs component buffer rest :=
  (if_neg (not_not.mpr used)).trans ((if_neg (not_not.mpr file)).trans (if_neg unlike))

/-- A search stays in the first `n` slots exactly when every set that it decodes does. -/
theorem slotsRead_inside_iff (whole : 0 ∉ component) {n todo i : Nat} (le : i + todo ≤ n) :
    (∀ s ∈ slotsRead fs component buffer todo i, s < n) ↔
      ∀ g ∈ examined fs component buffer (List.range' i todo), g + 1 + secondaryCount buffer g ≤ n := by
  induction todo generalizing i with
  | zero => simp [slotsRead, examined]
  | succ todo ih =>
    have rest := @ih (i + 1) (by omega)
    have below : i < n := by omega
    rw [List.range'_succ]
    unfold slotsRead
    by_cases unused : buffer (i * 32) = 0x00
    · rw [if_pos unused, examined_unused (not_not.mpr unused)]
      simpa using below
    rw [if_neg unused]
    by_cases other : buffer (i * 32) ≠ 0x85
    · rw [if_pos other, examined_other unused other, List.forall_mem_cons, rest]
      exact and_iff_right below
    rw [if_neg other]
    dsimp only
    have file : buffer (i * 32) = 0x85 := not_not.mp other
    have same : strcmp (decodeSet fs buffer i).filename component = 0 ↔ Named component (entrySet fs buffer i) := by
      rw [strcmp_eq_zero_iff, cstr_of_mem whole]
      rfl
    by_cases named : Named component (entrySet fs buffer i)
    · rw [if_pos (same.mpr named), examined_named unused file named, set_inside_iff below, List.forall_mem_singleton]
    · rw [if_neg (fun equal => named (same.mp equal)), examined_file unused file named, List.forall_mem_append,
        set_inside_iff below, rest, List.forall_mem_cons]

theorem examined_congr (place : Nat → Nat) {positions : List Nat}
    (types : ∀ i ∈ positions, first (i * 32) = second (place i * 32))
    (sets : ∀ i ∈ examined fs component first positions, entrySet fs first i = entrySet fs second (place i)) :
    examined fs component second (positions.map place) = (examined fs component first positions).map place ∧
      (fileSets fs second (positions.map place)).find? (Named component ·) =
        (fileSets fs first positions).find? (Named component ·) := by
  induction positions with
  | nil => exact ⟨rfl, rfl⟩
  | cons i rest ih =>
    obtain ⟨type, types⟩ := List.forall_mem_cons.mp types
    have alike : Used first i ↔ Used second (place i) := by
      unfold Used
      rw [type]
    rw [List.map_cons]
    by_cases used : Used first i
    case neg =>
      have unused := mt alike.mpr used
      rw [examined_unused used, examined_unused unused, fileSets_unused used, fileSets_unused unused]
      exact ⟨rfl, rfl⟩
    have used' := alike.mp used
    by_cases other : first (i * 32) ≠ 0x85
    · have other' : second (place i * 32) ≠ 0x85 := type ▸ other
      rw [examined_other used other] at sets ⊢
      rw [examined_other used' other', fileSets_other used other, fileSets_other used' other']
      exact ih types sets
    have file : first (i * 32) = 0x85 := not_not.mp other
    have file' : second (place i * 32) = 0x85 := type ▸ file
    rw [fileSets_file used file, fileSets_file used' file']
    by_cases named : Named component (entrySet fs first i)
    · rw [examined_named used file named] at sets ⊢
      have set := sets i (List.mem_singleton.mpr rfl)
      rw [examined_named used' file' (set ▸ named), ← set, List.find?_cons_of_pos (by simpa using named),
        List.find?_cons_of_pos (by simpa using named)]
      exact ⟨rfl, rfl⟩
    · rw [examined_file used file named] at sets ⊢
      have set := sets i (List.mem_cons_self ..)
      obtain ⟨same, found⟩ := ih types fun k member => sets k (List.mem_cons_of_mem _ member)
      rw [examined_file used' file' (set ▸ named), ← set, List.find?_cons_of_neg (by simpa using named),
        List.find?_cons_of_neg (by simpa using named), same]
      exact ⟨rfl, found⟩

/-- What one position does to a search: it ends it with nothing, it ends it with a set, or it is passed. -/
theorem position_cases (fs : ExfatInstance) (component : Str) (buffer : Buffer) (i : Nat) :
    (¬ Used buffer i ∧ ∀ rest, examined fs component buffer (i :: rest) = [] ∧
      (fileSets fs buffer (i :: rest)).find? (Named component ·) = none) ∨
    (∃ entry, ∀ rest, examined fs component buffer (i :: rest) = [i] ∧
      (fileSets fs buffer (i :: rest)).find? (Named component ·) = some entry) ∨
    Used buffer i ∧ ∃ part, ∀ rest,
      examined fs component buffer (i :: rest) = part ++ examined fs component buffer rest ∧
      (fileSets fs buffer (i :: rest)).find? (Named component ·) =
        (fileSets fs buffer rest).find? (Named component ·) := by
  by_cases used : Used buffer i
  case neg =>
    refine Or.inl ⟨used, ?_⟩
    intro rest
    rw [examined_unused used, fileSets_unused used]
    exact ⟨rfl, rfl⟩
  by_cases file : buffer (i * 32) = 0x85
  case neg =>
    refine Or.inr (Or.inr ⟨used, [], ?_⟩)
    intro rest
    rw [examined_other used file, fileSets_other used file]
    exact ⟨rfl, rfl⟩
  by_cases named : Named component (entrySet fs buffer i)
  · refine Or.inr (Or.inl ⟨entrySet fs buffer i, ?_⟩)
    intro rest
    rw [examined_named used file named, fileSets_file used file]
    exact ⟨rfl, List.find?_cons_of_pos (by simpa using named)⟩
  · refine Or.inr (Or.inr ⟨used, [i], ?_⟩)
    intro rest
    rw [examined_file used file named, fileSets_file used file]
    exact ⟨rfl, List.find?_cons_of_neg (by simpa using named)⟩

theorem examined_append {front : List Nat} (full : ∀ i ∈ front, Used buffer i)
    (missing : (fileSets fs buffer front).find? (Named component ·) = none) (behind : List Nat) :
    examined fs component buffer (front ++ behind) =
        examined fs component buffer front ++ examined fs component buffer behind ∧
      (fileSets fs buffer (front ++ behind)).find? (Named component ·) =
        (fileSets fs buffer behind).find? (Named component ·) := by
  induction front with
  | nil => exact ⟨rfl, rfl⟩
  | cons i rest ih =>
    obtain ⟨used, full⟩ := List.forall_mem_cons.mp full
    rcases position_cases fs component buffer i with ⟨unused, _⟩ | ⟨entry, ends⟩ | ⟨_, part, passed⟩
    · exact absurd used unused
    · rw [(ends rest).2] at missing
      simp at missing
    · rw [(passed rest).2] at missing
      obtain ⟨same, found⟩ := ih full missing
      rw [List.cons_append, (passed _).1, (passed _).2, (passed rest).1, same, List.append_assoc]
      exact ⟨rfl, found⟩

theorem examined_stop {front : List Nat}
    (stop : ¬ (∀ i ∈ front, Used buffer i) ∨ (fileSets fs buffer front).find? (Named component ·) ≠ none)
    (behind : List Nat) :
    examined fs component buffer (front ++ behind) = examined fs component buffer front ∧
      (fileSets fs buffer (front ++ behind)).find? (Named component ·) =
        (fileSets fs buffer front).find? (Named component ·) := by
  induction front with
  | nil => simp [fileSets] at stop
  | cons i rest ih =>
    rw [List.cons_append]
    rcases position_cases fs component buffer i with ⟨_, ends⟩ | ⟨entry, ends⟩ | ⟨used, part, passed⟩
    · rw [(ends _).1, (ends _).2, (ends rest).1, (ends rest).2]
      exact ⟨rfl, rfl⟩
    · rw [(ends _).1, (ends _).2, (ends rest).1, (ends rest).2]
      exact ⟨rfl, rfl⟩
    · rw [List.forall_mem_cons, (passed rest).2] at stop
      obtain ⟨same, found⟩ := ih (stop.imp_left fun open' full => open' ⟨used, full⟩)
      rw [(passed _).1, (passed _).2, (passed rest).1, (passed rest).2, same]
      exact ⟨rfl, found⟩

theorem examined_prefix {front behind : List Nat} {g : Nat} (member : g ∈ examined fs component buffer front) :
    g ∈ examined fs component buffer (front ++ behind) := by
  induction front with
  | nil => simp [examined] at member
  | cons i rest ih =>
    rw [List.cons_append]
    rcases position_cases fs component buffer i with ⟨_, ends⟩ | ⟨entry, ends⟩ | ⟨used, part, passed⟩
    · rw [(ends rest).1] at member
      simp at member
    · rw [(ends rest).1] at member
      rw [(ends _).1]
      exact member
    · rw [(passed rest).1, List.mem_append] at member
      rw [(passed _).1, List.mem_append]
      exact member.imp_right ih

end

def slots (fs : ExfatInstance) : Nat := (clusterSize fs / 32).toNat

/-- Clusters of `n` slots, one behind the other. -/
def stream (n : Nat) : List Buffer → Buffer
  | [], _ => 0
  | page :: rest, p => if p < n * 32 then page p else stream n rest (p - n * 32)

section
variable (machine : Machine) (fs : ExfatInstance)

/-- The clusters that are read of a directory, up to one with an unused entry or the last of the chain. -/
inductive Directory (stale : Buffer) : List (BitVec 64) → BitVec 32 → List Buffer → Prop where
  | last {reads cluster page seen} (shown : showCluster machine fs stale reads cluster = (some page, seen))
      (ends : ¬ (∀ i ∈ positions fs, Used page i) ∨ END_OF_CHAIN ≤ (chain machine fs seen cluster).1) :
      Directory stale reads cluster [page]
  | more {reads cluster page seen behind known pages}
      (shown : showCluster machine fs stale reads cluster = (some page, seen))
      (full : ∀ i ∈ positions fs, Used page i) (follows : chain machine fs seen cluster = (behind, known))
      (proper : ¬ END_OF_CHAIN ≤ behind) (rest : Directory stale known behind pages) :
      Directory stale reads cluster (page :: pages)

def directoryBytes (pages : List Buffer) : Buffer := stream (slots fs) pages

def directoryPositions (pages : List Buffer) : List Nat := List.range (pages.length * slots fs)

/-- Every set up to the first of the name ends in the cluster that it begins in. -/
def SetsWhole (component : Str) (pages : List Buffer) : Prop :=
  ∀ g ∈ examined fs component (directoryBytes fs pages) (directoryPositions fs pages),
    g % slots fs + 1 + secondaryCount (directoryBytes fs pages) g ≤ slots fs

def ReadsInside (component : Str) (block : Nat) (w : Walk) : Prop :=
  ∀ k w' page, nth (onward (walkBody machine fs component block)) k w = some w' →
    (readCluster fs machine w'.cluster w'.buffer w'.trace).1 = some page →
    ∀ s ∈ slotsRead fs component page (slots fs) 0, s < slots fs

/-- The walk finds the first set of the name that the bytes of the directory hold. -/
def DecodesStream (component : Str) (block : Nat) (w : Walk) (pages : List Buffer) : Prop :=
  ∃ walked left, Returns (walkBody machine fs component block) w walked ∧
    Walks left ((fileSets fs (directoryBytes fs pages) (directoryPositions fs pages)).find? (Named component ·)) walked

def FindsStored (component : Str) (block : Nat) (w : Walk) (pages : List Buffer) : Prop :=
  ∀ g ∈ directoryPositions fs pages, (∀ h, h ≤ g → Used (directoryBytes fs pages) h) →
    directoryBytes fs pages (g * 32) = 0x85 →
    (storedName (directoryBytes fs pages) g).units = component.map (·.setWidth 16) →
    ∃ held left, Returns (walkBody machine fs component block) w (.directoryDone (some held) left)

structure AssembledFromStream (component : Str) (block : Nat) (w : Walk) (pages : List Buffer) : Prop where
  inside : ReadsInside machine fs component block w
  decoded : DecodesStream machine fs component block w pages
  found : FindsStored machine fs component block w pages

end

section
variable {n : Nat} {page : Buffer} {pages : List Buffer}

theorem stream_front {p : Nat} (below : p < n * 32) : stream n (page :: pages) p = page p := if_pos below

theorem stream_behind (p : Nat) : stream n (page :: pages) (n * 32 + p) = stream n pages p := by
  have beyond : ¬ n * 32 + p < n * 32 := by omega
  have place : n * 32 + p - n * 32 = p := Nat.add_sub_cancel_left ..
  exact (if_neg beyond).trans (congrArg (stream n pages) place)

end

section
variable {machine : Machine} {fs : ExfatInstance} {component : Str} {stale page : Buffer} {pages : List Buffer}

theorem entrySet_front {g : Nat} {first second : Buffer} (same : ∀ p, p < slots fs * 32 → first p = second p)
    (inside : g + 1 + secondaryCount first g ≤ slots fs) : entrySet fs first g = entrySet fs second g := by
  have set : decodeSet fs first g = decodeSet fs second g := by
    apply decodeSet_congr
    intro p below
    exact same (g * 32 + p) (by omega)
  unfold entrySet
  rw [set]

theorem examined_front {first second : Buffer} (same : ∀ p, p < slots fs * 32 → first p = second p)
    (inside : ∀ g ∈ examined fs component first (positions fs), g + 1 + secondaryCount first g ≤ slots fs) :
    examined fs component second (positions fs) = examined fs component first (positions fs) ∧
      (fileSets fs second (positions fs)).find? (Named component ·) =
        (fileSets fs first (positions fs)).find? (Named component ·) := by
  have types : ∀ i ∈ positions fs, first (i * 32) = second (i * 32) := by
    intro i member
    have below : i < slots fs := List.mem_range.mp member
    exact same (i * 32) (by omega)
  have alike := examined_congr id types fun g member => entrySet_front same (inside g member)
  rw [List.map_id, List.map_id] at alike
  exact alike

theorem examined_subset {buffer : Buffer} {positions : List Nat} {g : Nat}
    (member : g ∈ examined fs component buffer positions) : g ∈ positions := by
  induction positions with
  | nil => exact member
  | cons i rest ih =>
    unfold examined at member
    split at member
    · simp at member
    · split at member
      · exact List.mem_cons_of_mem _ (ih member)
      · split at member
        · rw [List.mem_singleton.mp member]
          exact List.mem_cons_self ..
        · rcases List.mem_cons.mp member with rfl | later
          · exact List.mem_cons_self ..
          · exact List.mem_cons_of_mem _ (ih later)

def PageWhole (fs : ExfatInstance) (component : Str) (page : Buffer) : Prop :=
  ∀ g ∈ examined fs component page (positions fs), g + 1 + secondaryCount page g ≤ slots fs

theorem PageWhole.same {first second : Buffer} (same : ∀ p, p < slots fs * 32 → first p = second p)
    (inside : PageWhole fs component first) : PageWhole fs component second := by
  intro g member
  rw [(examined_front same inside).1] at member
  have below : g < slots fs := List.mem_range.mp (examined_subset member)
  have count : secondaryCount first g = secondaryCount second g := congrArg BitVec.toNat (same _ (by omega))
  rw [← count]
  exact inside g member

theorem directoryBytes_front (p : Nat) (below : p < slots fs * 32) : directoryBytes fs (page :: pages) p = page p :=
  stream_front below

theorem directoryPositions_cons : directoryPositions fs (page :: pages) =
    positions fs ++ (directoryPositions fs pages).map (slots fs + ·) := by
  unfold directoryPositions
  rw [List.length_cons, Nat.succ_mul, Nat.add_comm, List.range_add]
  rfl

theorem examined_behind : examined fs component (directoryBytes fs (page :: pages))
        ((directoryPositions fs pages).map (slots fs + ·)) =
      (examined fs component (directoryBytes fs pages) (directoryPositions fs pages)).map (slots fs + ·) ∧
    (fileSets fs (directoryBytes fs (page :: pages)) ((directoryPositions fs pages).map (slots fs + ·))).find?
        (Named component ·) =
      (fileSets fs (directoryBytes fs pages) (directoryPositions fs pages)).find? (Named component ·) := by
  have place : ∀ i p, directoryBytes fs pages (i * 32 + p) =
      directoryBytes fs (page :: pages) ((slots fs + i) * 32 + p) := by
    intro i p
    rw [Nat.add_mul, Nat.add_assoc]
    exact (stream_behind (i * 32 + p)).symm
  apply examined_congr
  · intro i _
    exact place i 0
  · intro i _
    have set : decodeSet fs (directoryBytes fs pages) i = decodeSet fs (directoryBytes fs (page :: pages)) (slots fs + i) :=
      decodeSet_congr fun p _ => place i p
    unfold entrySet
    rw [set]

theorem secondaryCount_behind (g : Nat) :
    secondaryCount (directoryBytes fs (page :: pages)) (slots fs + g) = secondaryCount (directoryBytes fs pages) g := by
  unfold secondaryCount
  rw [Nat.add_mul, Nat.add_assoc]
  exact congrArg BitVec.toNat (stream_behind _)

theorem pageWhole_iff : PageWhole fs component page ↔
    ∀ g ∈ examined fs component (directoryBytes fs (page :: pages)) (positions fs),
      g % slots fs + 1 + secondaryCount (directoryBytes fs (page :: pages)) g ≤ slots fs := by
  have front : (∀ g ∈ examined fs component (directoryBytes fs (page :: pages)) (positions fs),
      g % slots fs + 1 + secondaryCount (directoryBytes fs (page :: pages)) g ≤ slots fs) ↔
      PageWhole fs component (directoryBytes fs (page :: pages)) := by
    apply forall₂_congr
    intro g member
    have below : g < slots fs := List.mem_range.mp (examined_subset member)
    rw [Nat.mod_eq_of_lt below]
  rw [front]
  constructor
  · exact PageWhole.same fun p below => (directoryBytes_front p below).symm
  · exact PageWhole.same directoryBytes_front

theorem used_front : (∀ i ∈ positions fs, Used (directoryBytes fs (page :: pages)) i) ↔
    ∀ i ∈ positions fs, Used page i := by
  apply forall₂_congr
  intro i member
  have below : i < slots fs := List.mem_range.mp member
  unfold Used
  rw [directoryBytes_front (i * 32) (by omega)]

theorem examined_onward (whole : PageWhole fs component page) (full : ∀ i ∈ positions fs, Used page i)
    (missing : (fileSets fs page (positions fs)).find? (Named component ·) = none) :
    examined fs component (directoryBytes fs (page :: pages)) (directoryPositions fs (page :: pages)) =
        examined fs component (directoryBytes fs (page :: pages)) (positions fs) ++
          (examined fs component (directoryBytes fs pages) (directoryPositions fs pages)).map (slots fs + ·) ∧
      (fileSets fs (directoryBytes fs (page :: pages)) (directoryPositions fs (page :: pages))).find?
          (Named component ·) =
        (fileSets fs (directoryBytes fs pages) (directoryPositions fs pages)).find? (Named component ·) := by
  have front := examined_front (fun p below => (@directoryBytes_front fs page pages p below).symm) whole
  rw [← front.2] at missing
  have goes := examined_append (used_front.mpr full) missing ((directoryPositions fs pages).map (slots fs + ·))
  rw [directoryPositions_cons, goes.1, goes.2, examined_behind.1, examined_behind.2]
  exact ⟨rfl, rfl⟩

theorem examined_here (whole : PageWhole fs component page)
    (stop : ¬ (∀ i ∈ positions fs, Used page i) ∨
      (fileSets fs page (positions fs)).find? (Named component ·) ≠ none) :
    examined fs component (directoryBytes fs (page :: pages)) (directoryPositions fs (page :: pages)) =
        examined fs component (directoryBytes fs (page :: pages)) (positions fs) ∧
      (fileSets fs (directoryBytes fs (page :: pages)) (directoryPositions fs (page :: pages))).find?
          (Named component ·) =
        (fileSets fs page (positions fs)).find? (Named component ·) := by
  have front := examined_front (fun p below => (@directoryBytes_front fs page pages p below).symm) whole
  rw [← front.2, ← used_front] at stop
  have ends := examined_stop stop ((directoryPositions fs pages).map (slots fs + ·))
  rw [directoryPositions_cons, ends.1, ends.2, front.2]
  exact ⟨rfl, rfl⟩

theorem setsWhole_cons : SetsWhole fs component (page :: pages) ↔ PageWhole fs component page ∧
    ((∀ i ∈ positions fs, Used page i) → (fileSets fs page (positions fs)).find? (Named component ·) = none →
      SetsWhole fs component pages) := by
  by_cases whole : PageWhole fs component page
  case neg =>
    refine iff_of_false ?_ (fun both => whole both.1)
    intro all
    apply whole
    rw [pageWhole_iff]
    intro g member
    apply all g
    rw [directoryPositions_cons]
    exact examined_prefix member
  by_cases goes : (∀ i ∈ positions fs, Used page i) ∧
      (fileSets fs page (positions fs)).find? (Named component ·) = none
  · unfold SetsWhole
    rw [(examined_onward whole goes.1 goes.2).1, List.forall_mem_append, ← pageWhole_iff, List.forall_mem_map]
    simp only [secondaryCount_behind, Nat.add_mod_left]
    exact and_congr_right' ⟨fun behind _ _ => behind, fun behind => behind goes.1 goes.2⟩
  · have stop := not_and_or.mp goes
    unfold SetsWhole
    rw [(examined_here whole stop).1, ← pageWhole_iff]
    exact ⟨fun _ => ⟨whole, fun full missing => absurd ⟨full, missing⟩ goes⟩, fun _ => whole⟩

theorem readsInside_leave {block : Nat} {w : Walk} {walked : Walked}
    (shown : (readCluster fs machine w.cluster w.buffer w.trace).1 = some page)
    (left : walkBody machine fs component block w = .leave walked) :
    ReadsInside machine fs component block w ↔ ∀ s ∈ slotsRead fs component page (slots fs) 0, s < slots fs := by
  constructor
  · intro inside
    exact inside 0 w page rfl shown
  · intro inside k w' page' passed shown'
    cases k with
    | zero =>
      obtain rfl := Option.some.inj passed
      obtain rfl := Option.some.inj (shown.symm.trans shown')
      exact inside
    | succ k =>
      rw [nth, onward_leave left] at passed
      simp at passed

theorem readsInside_again {block : Nat} {w next : Walk}
    (shown : (readCluster fs machine w.cluster w.buffer w.trace).1 = some page)
    (again : walkBody machine fs component block w = .again next) :
    ReadsInside machine fs component block w ↔
      (∀ s ∈ slotsRead fs component page (slots fs) 0, s < slots fs) ∧ ReadsInside machine fs component block next := by
  constructor
  · intro inside
    refine ⟨inside 0 w page rfl shown, ?_⟩
    intro k w' page' passed
    apply inside (k + 1) w' page'
    rw [nth, onward_again again]
    exact passed
  · intro inside k w' page' passed shown'
    cases k with
    | zero =>
      obtain rfl := Option.some.inj passed
      obtain rfl := Option.some.inj (shown.symm.trans shown')
      exact inside.1
    | succ k =>
      rw [nth, onward_again again] at passed
      exact inside.2 k w' page' passed shown'

theorem slotsRead_page_iff (whole : 0 ∉ component) :
    (∀ s ∈ slotsRead fs component page (slots fs) 0, s < slots fs) ↔ PageWhole fs component page := by
  rw [slotsRead_inside_iff whole (Nat.le_of_eq (Nat.zero_add _)), ← List.range_eq_range']
  rfl

theorem setsWhole_nil : SetsWhole fs component [] := by
  intro g member
  have none := examined_subset member
  simp [directoryPositions] at none

theorem find_here (whole : PageWhole fs component page)
    (stop : pages = [] ∨ ¬ (∀ i ∈ positions fs, Used page i) ∨
      (fileSets fs page (positions fs)).find? (Named component ·) ≠ none) :
    (fileSets fs (directoryBytes fs (page :: pages)) (directoryPositions fs (page :: pages))).find? (Named component ·) =
      (fileSets fs page (positions fs)).find? (Named component ·) := by
  by_cases goes : (∀ i ∈ positions fs, Used page i) ∧
      (fileSets fs page (positions fs)).find? (Named component ·) = none
  · rcases stop with rfl | unused | found
    · rw [(examined_onward whole goes.1 goes.2).2, goes.2]
      simp [directoryPositions, fileSets]
    · exact absurd goes.1 unused
    · exact absurd goes.2 found
  · exact (examined_here whole (not_and_or.mp goes)).2

theorem walk_leaves (whole : 0 ∉ component) {block : Nat} {w : Walk} {walked : Walked} {left : List (BitVec 64)}
    {entry : Option FileEntry} (shown : (readCluster fs machine w.cluster w.buffer w.trace).1 = some page)
    (leaves : walkBody machine fs component block w = .leave walked) (walks : Walks left entry walked)
    (first : (fileSets fs page (positions fs)).find? (Named component ·) = entry)
    (stop : pages = [] ∨ ¬ (∀ i ∈ positions fs, Used page i) ∨
      (fileSets fs page (positions fs)).find? (Named component ·) ≠ none) :
    (ReadsInside machine fs component block w ↔ SetsWhole fs component (page :: pages)) ∧
      (SetsWhole fs component (page :: pages) → DecodesStream machine fs component block w (page :: pages)) := by
  refine ⟨?_, ?_⟩
  · rw [readsInside_leave shown leaves, slotsRead_page_iff whole, setsWhole_cons]
    refine (and_iff_left_of_imp fun _ => ?_).symm
    intro full missing
    rcases stop with rfl | unused | found
    · exact setsWhole_nil
    · exact absurd full unused
    · exact absurd missing found
  · intro sets
    refine ⟨walked, left, ⟨1, run_leave 0 leaves⟩, ?_⟩
    rw [find_here (setsWhole_cons.mp sets).1 stop, first]
    exact walks

/-- The walk over a directory stays inside its buffer exactly when the sets stand whole, and finds in
it then what the bytes of the directory hold. -/
theorem walk_directory (whole : 0 ∉ component) (block : Nat) {reads : List (BitVec 64)} {cluster : BitVec 32}
    {pages : List Buffer} (directory : Directory machine fs stale reads cluster pages) {w : Walk}
    (here : w.trace.reads = reads ∧ w.cluster = cluster)
    (differ : ∀ p, w.buffer p ≠ stale p → Overwritten fs 0 (sectorsPerCluster fs).toNat p) :
    (ReadsInside machine fs component block w ↔ SetsWhole fs component pages) ∧
      (SetsWhole fs component pages → DecodesStream machine fs component block w pages) := by
  induction directory generalizing w with
  | @last reads cluster page seen shown ends =>
    obtain ⟨rfl, rfl⟩ := here
    have read := congrArg Prod.fst (readCluster_shows w.trace.heap differ shown)
    rcases walkBody_shown whole block differ shown with ⟨held, heap, first, leaves⟩ |
      ⟨missing, ⟨unused, heap, leaves⟩ | ⟨full, behind, known, heap, follows, turn⟩⟩
    · exact walk_leaves whole read leaves (.found held heap) first (Or.inl rfl)
    · exact walk_leaves whole read leaves (.missing heap) missing (Or.inl rfl)
    · rw [follows] at ends
      rw [if_pos (ends.resolve_left (not_not.mpr full))] at turn
      exact walk_leaves whole read turn (.missing heap) missing (Or.inl rfl)
  | @more reads cluster page seen behind known pages shown full follows proper rest ih =>
    obtain ⟨rfl, rfl⟩ := here
    have read := congrArg Prod.fst (readCluster_shows w.trace.heap differ shown)
    rcases walkBody_shown whole block differ shown with ⟨held, heap, first, leaves⟩ |
      ⟨missing, ⟨unused, heap, leaves⟩ | ⟨_, behind', known', heap, follows', turn⟩⟩
    · refine walk_leaves whole read leaves (.found held heap) first (Or.inr (Or.inr ?_))
      rw [first]
      apply Option.some_ne_none
    · exact absurd full unused
    · obtain ⟨rfl, rfl⟩ := Prod.mk.inj (follows.symm.trans follows')
      rw [if_neg proper] at turn
      obtain ⟨inside, decodes⟩ := ih (w := ⟨behind, page, ⟨known, heap⟩⟩) ⟨rfl, rfl⟩ (showCluster_frame shown)
      refine ⟨?_, ?_⟩
      · rw [readsInside_again read turn, slotsRead_page_iff whole, inside, setsWhole_cons]
        exact and_congr_right' ⟨fun behind _ _ => behind, fun behind => behind full missing⟩
      · intro sets
        obtain ⟨page_whole, later⟩ := setsWhole_cons.mp sets
        obtain ⟨walked, left, ⟨bound, ended⟩, walks⟩ := decodes (later full missing)
        refine ⟨walked, left, ⟨bound + 1, (run_again bound turn).trans ended⟩, ?_⟩
        rw [(examined_onward page_whole full missing).2]
        exact walks

theorem entrySet_mem {buffer : Buffer} {total g : Nat} (below : g < total) (used : ∀ h, h ≤ g → Used buffer h)
    (file : buffer (g * 32) = 0x85) : entrySet fs buffer g ∈ fileSets fs buffer (List.range total) := by
  obtain ⟨more, rfl⟩ : ∃ more, total = g + 1 + more := ⟨total - (g + 1), by omega⟩
  have front : ∀ h ∈ List.range (g + 1), decide (Used buffer h) = true := by
    intro h member
    exact decide_eq_true (used h (Nat.le_of_lt_succ (List.mem_range.mp member)))
  apply List.mem_map_of_mem
  rw [List.mem_filter, List.range_add, List.takeWhile_append_of_pos front, List.mem_append]
  exact ⟨Or.inl (List.mem_range.mpr (Nat.lt_succ_self g)), decide_eq_true file⟩

theorem DecodesStream.findsStored (whole : 0 ∉ component) {block : Nat} {w : Walk}
    (decodes : DecodesStream machine fs component block w pages) : FindsStored machine fs component block w pages := by
  intro g member used file stored
  have below := List.mem_range.mp member
  have named : Named component (entrySet fs (directoryBytes fs pages) g) := by
    unfold Named
    rw [(entrySet_cut g).2, stored, List.map_map]
    have low : component.map ((·.setWidth 8) ∘ (·.setWidth 16)) = component :=
      calc component.map ((·.setWidth 8) ∘ (·.setWidth 16)) = component.map id :=
            List.map_congr_left fun c _ => (BitVec.setWidth_setWidth_of_le c (by decide)).trans (BitVec.setWidth_eq c)
        _ = component := List.map_id _
    rw [low]
    exact cstr_of_mem whole
  obtain ⟨walked, left, returns, walks⟩ := decodes
  have some : ((fileSets fs (directoryBytes fs pages) (directoryPositions fs pages)).find?
      (Named component ·)).isSome = true :=
    List.find?_isSome.mpr ⟨_, entrySet_mem below used file, decide_eq_true named⟩
  obtain ⟨entry, found⟩ := Option.isSome_iff_exists.mp some
  rw [found] at walks
  cases walks with
  | found held heap => exact ⟨held, _, returns⟩

/-- For every volume, path and directory that the path leads to, of any number of clusters: the
lookup reads its buffer only, and finds what the stream of the clusters holds, exactly when each set
that it examines ends in the cluster that it begins in. -/
theorem assembled_iff {path : CString} {trace : Trace} {o : Opening} (reaches : Reaches machine fs path trace o)
    {pages : List Buffer}
    (directory : Directory machine fs (machine.stale o.trace.reads) o.trace.reads o.directoryCluster pages) :
    AssembledFromStream machine fs (piece SLASH o.current) o.trace.heap.length (walkStart machine fs o) pages ↔
      SetsWhole fs (piece SLASH o.current) pages := by
  have walk := walk_directory reaches.looksUp.1.piece_whole o.trace.heap.length directory
    (show (walkStart machine fs o).trace.reads = _ ∧ (walkStart machine fs o).cluster = _ from ⟨rfl, rfl⟩)
    fun p changed => absurd rfl changed
  constructor
  · intro assembled
    exact walk.1.mp assembled.inside
  · intro sets
    have decoded := walk.2 sets
    exact ⟨walk.1.mpr sets, decoded, decoded.findsStored reaches.looksUp.1.piece_whole⟩

end

/-- The directory of the name `a` stands whole in its cluster. -/
theorem front_set_assembled : AssembledFromStream twoLevels twoClusters [0x61] 0
    (walkStart twoLevels twoClusters (start twoClusters doubledPath ⟨[], []⟩))
    [fill (fun _ => 0) 0 (oneSet 0x61 0x10 3)] := by
  have unused : ¬ ∀ i ∈ positions twoClusters, Used (fill (fun _ => 0) 0 (oneSet 0x61 0x10 3)) i := by decide +kernel
  have sets : SetsWhole twoClusters [0x61] [fill (fun _ => 0) 0 (oneSet 0x61 0x10 3)] := by
    unfold SetsWhole
    decide +kernel
  exact (assembled_iff (.refl : Reaches twoLevels twoClusters doubledPath ⟨[], []⟩ _)
    (.last rfl (Or.inl unused))).mpr sets

/-! A root directory of two clusters of one sector: the set of the file `f` begins in the last slot of
the first and goes on in the second. -/

def firstHalf : Buffer := fun p => if p = 480 then 0x85 else if p = 481 then 2 else if p % 32 = 0 then 0x05 else 0

def secondHalf : Buffer := fun p =>
  if p = 0 then 0xC0 else if p = 3 then 1 else if p = 32 then 0xC1 else if p = 34 then 0x66 else 0

def splitSet : Machine :=
  ⟨fun _ lba => some (if lba = 1 then fun p => if p = 8 then 3 else 0 else if lba = 2 then firstHalf else secondHalf),
    fun _ _ => 0⟩

def splitPages : List Buffer := [fill (fun _ => 0) 0 firstHalf, fill (fun _ => 0) 0 secondHalf]

theorem splitSet_directory : Directory splitSet smallVolume (fun _ => 0) [] 2 splitPages := by
  have behind : chain splitSet smallVolume [2] 2 = (3, [2, 1]) := by decide +kernel
  have full : ∀ i ∈ positions smallVolume, Used (fill (fun _ => 0) 0 firstHalf) i := by decide +kernel
  have unused : ¬ ∀ i ∈ positions smallVolume, Used (fill (fun _ => 0) 0 secondHalf) i := by decide +kernel
  exact .more rfl full behind (by decide) (.last rfl (Or.inl unused))

/-- The file is in the directory, but the code looks for its name behind the buffer. -/
theorem split_set_missed :
    Directory splitSet smallVolume (fun _ => 0) [] smallVolume.rootCluster splitPages ∧
    (storedName (directoryBytes smallVolume splitPages) 15).units = [0x66] ∧
    Opens splitSet smallVolume shortPath.bytes ⟨[], []⟩ (.returned none, ⟨[2, 1, 3],
      [.kalloc 512, .kalloc 48, .kalloc 256, .kfree 2, .kfree 1, .kalloc 512, .kfree 5, .kfree 0]⟩) ∧
    ¬ AssembledFromStream splitSet smallVolume [0x66] 0
      (walkStart splitSet smallVolume (start smallVolume shortPath ⟨[], []⟩)) splitPages := by
  refine ⟨splitSet_directory, by decide +kernel, ⟨3, by decide +kernel⟩, ?_⟩
  intro assembled
  have read : 16 ∈ slotsRead smallVolume [0x66] (fill (fun _ => 0) 0 firstHalf) (slots smallVolume) 0 := by
    decide +kernel
  have inside := assembled.inside 0 _ _ rfl rfl 16 read
  exact absurd inside (by decide)

end Ketone.Exfat.DirectoryStream
