import Mathlib.Data.List.Perm.Basic
import Ketone.Exfat.Asked
import Ketone.Exfat.FileClusters

/-! The blocks that a call has taken from the heap and not given back, after each of its steps. -/

namespace Ketone.Exfat.OwedBlocks
open Library Library.Loop Library.Components Volume OpenFile ReadFile FileClusters PathResolution Descent Asked

/-- A block by the place of its `kalloc` in the log, with the size that was asked for. -/
structure Block where
  place : Nat
  size : BitVec 64
deriving DecidableEq

/-- The blocks owed after a log whose first part is older, in any order. Only a block that is owed
is given back. -/
inductive Owes (before : List HeapCall) : List HeapCall → List Block → Prop where
  | start : Owes before before []
  | kalloc {log blocks} (size : BitVec 64) (owes : Owes before log blocks) :
      Owes before (log ++ [.kalloc size]) (⟨log.length, size⟩ :: blocks)
  | kfree {log block blocks} (owes : Owes before log (block :: blocks)) :
      Owes before (log ++ [.kfree block.place]) blocks
  | perm {log blocks blocks'} (owes : Owes before log blocks) (same : blocks.Perm blocks') : Owes before log blocks'

section
variable {machine : Machine} {fs : ExfatInstance} {before : List HeapCall} {blocks : List Block}

/-- The log has the request for every block that is owed. -/
theorem Owes.requested {log : List HeapCall} (owes : Owes before log blocks) :
    ∀ block ∈ blocks, log[block.place]? = some (.kalloc block.size) := by
  have kept : ∀ {log : List HeapCall} {block : Block} (call : HeapCall), log[block.place]? = some (.kalloc block.size) →
      (log ++ [call])[block.place]? = some (.kalloc block.size) := by
    intro log block call here
    rw [List.getElem?_append_left (List.getElem?_eq_some_iff.mp here).1, here]
  induction owes with
  | start =>
    intro block member
    cases member
  | @kalloc log blocks size _ ih =>
    intro block member
    rcases List.mem_cons.mp member with rfl | older
    · rw [List.getElem?_append_right (Nat.le_refl _), Nat.sub_self]
      rfl
    · exact kept _ (ih block older)
  | @kfree log freed blocks _ ih =>
    intro block member
    exact kept _ (ih block (List.mem_cons_of_mem _ member))
  | perm _ same ih =>
    intro block member
    exact ih block (same.mem_iff.mpr member)

theorem Owes.trans {middle log : List HeapCall} {more : List Block} (owes : Owes before middle blocks)
    (further : Owes middle log more) : Owes before log (more ++ blocks) := by
  induction further with
  | start => exact owes
  | kalloc size _ ih => exact .kalloc size ih
  | kfree _ ih => exact .kfree ih
  | perm _ same ih => exact ih.perm (same.append_right blocks)

theorem owes_getFatEntry {trace : Trace} (cluster : BitVec 32) (owes : Owes before trace.heap blocks) :
    Owes before (getFatEntry fs machine trace cluster).2.heap blocks := by
  rw [getFatEntry_eq]
  exact .kfree (.kalloc _ owes)

theorem readCluster_heap (cluster : BitVec 32) (buffer : Buffer) (trace : Trace) :
    (readCluster fs machine cluster buffer trace).2.heap = trace.heap := by
  obtain ⟨count, _, asked⟩ := @readSectors_asks machine fs (clusterToLba fs cluster) (sectorsPerCluster fs).toNat 0
    buffer trace
  unfold readCluster
  rw [asked]

/-- An entry that has been found is owed with its name. -/
def foundBlocks : Option Held → List Block
  | none => []
  | some held => [⟨held.filename, 256⟩, ⟨held.file, sizeofFileEntry⟩]

def scanBlocks : Scan → List Block
  | .directoryDone found => foundBlocks found
  | .exhausted => []

def walkedBlocks (buffer : Block) : Walked → List Block
  | .unreadable _ => []
  | .directoryDone found _ => buffer :: foundBlocks found

def outcomeBlocks : Outcome → List Block
  | .returned found => foundBlocks found
  | .smashed => []

theorem owes_kfree_held {held : Held} {trace : Trace}
    (owes : Owes before trace.heap (foundBlocks (some held) ++ blocks)) : Owes before (held.kfree trace).heap blocks := by
  have filename : Owes before (trace.kfree held.filename).heap (⟨held.file, sizeofFileEntry⟩ :: blocks) := .kfree owes
  exact .kfree filename

theorem owes_scanEntries {component : Str} (buffer : Buffer) (todo i : Nat) {trace : Trace}
    (owes : Owes before trace.heap blocks) :
    Owes before (scanEntries fs component buffer todo i trace).2.heap
      (scanBlocks (scanEntries fs component buffer todo i trace).1 ++ blocks) := by
  induction todo generalizing i trace with
  | zero => exact owes
  | succ todo ih =>
    unfold scanEntries
    split
    · exact owes
    split
    · exact ih (i + 1) owes
    have file : Owes before (trace.kalloc sizeofFileEntry).2.heap (⟨trace.heap.length, sizeofFileEntry⟩ :: blocks) :=
      .kalloc _ owes
    have filename := Owes.kalloc 256 file
    dsimp only
    split
    · exact filename
    · apply ih
      apply owes_kfree_held
      exact filename

/-- What a turn of the walk leaves owed. -/
theorem owes_walkBody {component : Str} {block : Nat} {size : BitVec 64} {w : Walk}
    (owes : Owes before w.trace.heap (⟨block, size⟩ :: blocks)) :
    (∃ next, walkBody machine fs component block w = .again next ∧
      Owes before next.trace.heap (⟨block, size⟩ :: blocks)) ∨
    ∃ walked, walkBody machine fs component block w = .leave walked ∧
      Owes before (Walked.trace walked).heap (walkedBlocks ⟨block, size⟩ walked ++ blocks) := by
  rw [← readCluster_heap w.cluster w.buffer] at owes
  unfold walkBody
  generalize readCluster fs machine w.cluster w.buffer w.trace = read at owes ⊢
  obtain ⟨shown, seen⟩ := read
  cases shown with
  | none => exact Or.inr ⟨_, rfl, .kfree owes⟩
  | some page =>
    have scanned : Owes before (scanCluster fs component page seen).2.heap
        (scanBlocks (scanCluster fs component page seen).1 ++ ⟨block, size⟩ :: blocks) := owes_scanEntries page _ 0 owes
    dsimp only
    generalize scanCluster fs component page seen = scan at scanned ⊢
    obtain ⟨scan, trace⟩ := scan
    cases scan with
    | directoryDone found =>
      exact Or.inr ⟨_, rfl, .perm scanned List.perm_middle⟩
    | exhausted =>
      have entry := @owes_getFatEntry machine fs before _ trace w.cluster scanned
      dsimp only
      split
      · exact Or.inr ⟨_, rfl, entry⟩
      · exact Or.inl ⟨_, rfl, entry⟩

theorem owes_walk {component : Str} {block bound : Nat} {size : BitVec 64} {w : Walk} {walked : Walked}
    (owes : Owes before w.trace.heap (⟨block, size⟩ :: blocks))
    (ended : run (walkBody machine fs component block) bound w = some walked) :
    Owes before (Walked.trace walked).heap (walkedBlocks ⟨block, size⟩ walked ++ blocks) := by
  exact run_turns (fun w => Owes before w.trace.heap (⟨block, size⟩ :: blocks))
    (fun walked => Owes before (Walked.trace walked).heap (walkedBlocks ⟨block, size⟩ walked ++ blocks))
    (fun _ => owes_walkBody) owes ended

/-- What a turn of the loop over the path leaves owed. -/
theorem owes_openBody {bound : Nat} {o : Opening} {turn : Turn Opening (Outcome × Trace)}
    (owes : Owes before o.trace.heap []) (body : openBody machine fs bound o = some turn) :
    match turn with
    | .again next => Owes before next.trace.heap []
    | .leave (outcome, trace) => Owes before trace.heap (outcomeBlocks outcome) := by
  unfold openBody at body
  split at body
  · obtain rfl := Option.some.inj body
    exact owes
  dsimp only at body
  split at body
  · obtain rfl := Option.some.inj body
    exact owes
  have buffer : Owes before (o.trace.kalloc (clusterSize fs)).2.heap [⟨o.trace.heap.length, clusterSize fs⟩] :=
    .kalloc _ owes
  split at body
  · simp at body
  next trace ended =>
    obtain rfl := Option.some.inj body
    exact owes_walk buffer ended
  next found trace ended =>
    have done : Owes before (trace.kfree o.trace.heap.length).heap (foundBlocks found ++ []) :=
      .kfree (owes_walk buffer ended)
    cases found with
    | none =>
      obtain rfl := Option.some.inj body
      exact done
    | some held =>
      dsimp only at body
      split at body
      · obtain rfl := Option.some.inj body
        exact done
      split at body
      · obtain rfl := Option.some.inj body
        exact owes_kfree_held done
      · obtain rfl := Option.some.inj body
        exact owes_kfree_held done

theorem owes_reached {path : CString} {trace : Trace} {o : Opening} (reaches : Reaches machine fs path trace o) :
    Owes trace.heap o.trace.heap [] := by
  induction reaches with
  | refl => exact .start
  | tail _ descends ih =>
    obtain ⟨bound, again⟩ := descends
    exact owes_openBody ih again

theorem owes_openFile {path : CString} {trace trace' : Trace} {outcome : Outcome}
    (opens : Opens machine fs path.bytes trace (outcome, trace')) :
    Owes trace.heap trace'.heap (outcomeBlocks outcome) := by
  obtain ⟨o, bound, reaches, left⟩ := leaves_of_opens opens
  exact owes_openBody (owes_reached reaches) left

end

/-- The data is owed when it is returned; a request for no byte has got nothing to give back. -/
def answerBlocks (file : FileEntry) (data : Nat) (answer : Answer) : List Block :=
  if file.dataLength = 0 then [⟨data, 0⟩]
  else match answer.data with
    | some given => [⟨given.block, file.dataLength⟩]
    | none => []

section
variable {machine : Machine} {file : FileEntry} {before : List HeapCall}

theorem answerBlocks_pointer (data : Nat) (bytes : Buffer) (size : Option (BitVec 64)) (trace : Trace) :
    answerBlocks file data ⟨pointer file.dataLength data bytes, size, trace⟩ = [⟨data, file.dataLength⟩] := by
  unfold answerBlocks pointer
  by_cases empty : file.dataLength = 0
  · rw [if_pos empty, empty]
  · rw [if_neg empty, if_neg empty]

theorem answerBlocks_none {data : Nat} (some : file.dataLength ≠ 0) (trace : Trace) :
    answerBlocks file data ⟨none, none, trace⟩ = [] := if_neg some

/-- What a turn of the reader leaves owed. -/
theorem owes_readAllBody {data clusterBuffer : Nat} {size : BitVec 64} {r : Reading}
    (owes : Owes before r.trace.heap [⟨clusterBuffer, size⟩, ⟨data, file.dataLength⟩]) :
    (∃ next, readAllBody machine file data clusterBuffer r = .again next ∧
      Owes before next.trace.heap [⟨clusterBuffer, size⟩, ⟨data, file.dataLength⟩]) ∨
    ∃ answer, readAllBody machine file data clusterBuffer r = .leave answer ∧
      Owes before answer.trace.heap (answerBlocks file data answer) := by
  by_cases more : r.bytesRead < file.dataLength
  case neg =>
    refine Or.inr ⟨_, if_pos more, ?_⟩
    rw [answerBlocks_pointer]
    exact .kfree owes
  have some : file.dataLength ≠ 0 := by
    intro empty
    rw [empty] at more
    exact BitVec.not_lt_zero more
  rw [← readCluster_heap r.cluster r.clusterBuffer] at owes
  cases read : readCluster file.fs machine r.cluster r.clusterBuffer r.trace with
  | mk shown seen =>
    rw [read] at owes
    cases shown with
    | none =>
      refine Or.inr ⟨⟨none, none, (seen.kfree clusterBuffer).kfree data⟩, ?_, ?_⟩
      · unfold readAllBody
        rw [if_neg (not_not.mpr more), read]
      · rw [answerBlocks_none some]
        have buffer : Owes before (seen.kfree clusterBuffer).heap [⟨data, file.dataLength⟩] := .kfree owes
        exact .kfree buffer
    | some page =>
      have entry := @owes_getFatEntry machine file.fs before _ seen r.cluster owes
      rw [readAllBody_read data clusterBuffer more read]
      split
      · refine Or.inr ⟨_, rfl, ?_⟩
        rw [answerBlocks_pointer]
        exact .kfree owes
      split
      · exact Or.inl ⟨_, rfl, owes⟩
      split
      · refine Or.inr ⟨_, rfl, ?_⟩
        rw [answerBlocks_none some]
        have buffer : Owes before ((getFatEntry file.fs machine seen r.cluster).2.kfree clusterBuffer).heap
            [⟨data, file.dataLength⟩] := .kfree entry
        exact .kfree buffer
      · exact Or.inl ⟨_, rfl, entry⟩

theorem owes_readFileAll {bound : Nat} {trace : Trace} {answer : Answer}
    (returns : readFileAll machine file bound trace = some answer) :
    Owes trace.heap answer.trace.heap (answerBlocks file trace.heap.length answer) := by
  have data : Owes trace.heap (trace.kalloc file.dataLength).2.heap [⟨trace.heap.length, file.dataLength⟩] :=
    .kalloc _ .start
  have clusterBuffer := Owes.kalloc (clusterSize file.fs) data
  exact run_turns (fun r => Owes trace.heap r.trace.heap
      [⟨(trace.kalloc file.dataLength).2.heap.length, clusterSize file.fs⟩, ⟨trace.heap.length, file.dataLength⟩])
    (fun answer => Owes trace.heap answer.trace.heap (answerBlocks file trace.heap.length answer))
    (fun _ => owes_readAllBody) clusterBuffer returns

end

end Ketone.Exfat.OwedBlocks
