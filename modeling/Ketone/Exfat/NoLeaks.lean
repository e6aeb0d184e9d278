import Mathlib.Data.List.Forall2
import Mathlib.Data.List.ReduceOption
import Ketone.Exfat.OwedBlocks
import Ketone.Exfat.ReadErrors
import Ketone.MemManager.BlockRuns

/-! What the calls leave of the root heap: its block table after their `kalloc`s and `kfree`s. -/

namespace Ketone.Exfat.NoLeaks
open Library Library.Loop Volume OpenFile ReadFile FileClusters PathResolution OwedBlocks ReadErrors
open MemManager.Allocator MemManager.BlockRuns

/-- The root heap, and what each call of a log has returned. -/
structure Played where
  heap : Heap
  pointers : List (BitVec 64)

def play (p : Played) : HeapCall → Option Played
  | .kalloc size => (alloc p.heap size).map fun call => ⟨call.heap, p.pointers ++ [call.ptr]⟩
  | .kfree place => some ⟨free p.heap (p.pointers.getD place 0), p.pointers ++ [0]⟩

def replay (p : Played) (calls : List HeapCall) : Option Played := calls.foldlM play p

/-- A request neither fails nor overruns: it gets blocks of the table that hold as many bytes. -/
def Served (p : Played) : HeapCall → Prop
  | .kalloc size => size = 0 ∨ ∃ call run, alloc p.heap size = some call ∧ call.run = some run ∧ call.ptr ≠ 0 ∧
      run.stop ≤ p.heap.total ∧ size.toNat ≤ (run.stop - run.start) * p.heap.blockBytes.toNat
  | .kfree _ => True

def AllServed : Played → List HeapCall → Prop
  | _, [] => True
  | p, call :: calls => Served p call ∧ ∀ p', play p call = some p' → AllServed p' calls

instance (p : Played) : DecidablePred (Served p)
  | .kfree _ => .isTrue trivial
  | .kalloc size => decidable_of_iff (size = 0 ∨ (alloc p.heap size).any fun call => call.run.any fun run =>
      call.ptr ≠ 0 ∧ run.stop ≤ p.heap.total ∧ size.toNat ≤ (run.stop - run.start) * p.heap.blockBytes.toNat) (by
        simp only [Served, Option.any_eq_true, decide_eq_true_eq]
        refine or_congr_right ⟨?_, ?_⟩
        · rintro ⟨call, done, run, given, facts⟩
          exact ⟨call, run, done, given, facts⟩
        · rintro ⟨call, run, done, given, facts⟩
          exact ⟨call, done, run, given, facts⟩)

instance decidableAllServed : ∀ (p : Played) (calls : List HeapCall), Decidable (AllServed p calls)
  | _, [] => .isTrue trivial
  | p, call :: calls =>
    match step : play p call with
    | none => decidable_of_iff (Served p call) (by simp [AllServed, step])
    | some p' =>
      let _ := decidableAllServed p' calls
      decidable_of_iff (Served p call ∧ AllServed p' calls) (by simp [AllServed, step])

def SameTable (first last : Heap) : Prop :=
  SameRecord first last ∧ ∀ k, k < first.total → last.blocks k = first.blocks k

/-- A block of some bytes is a live allocation of its size. -/
def Lives (first : Heap) (pointers : List (BitVec 64)) (block : Block) (entry : Live) : Prop :=
  entry.size = block.size ∧ pointers[block.place]? = some (first.blockAddr entry.start) ∧
    first.blockAddr entry.start ≠ 0

/-- A block of no bytes is the null pointer. -/
def Backs (first : Heap) (pointers : List (BitVec 64)) (block : Block) : Option Live → Prop
  | none => block.size = 0 ∧ pointers[block.place]? = some 0
  | some entry => block.size ≠ 0 ∧ Lives first pointers block entry

/-- The table pictures the allocations that were live before and those of the blocks owed. -/
structure Accounts (first : Heap) (live : List Live) (log : List HeapCall) (blocks : List Block) (p : Played) :
    Prop where
  record : SameRecord first p.heap
  length : p.pointers.length = log.length
  owed : ∃ own, List.Forall₂ (Backs first p.pointers) blocks own ∧ Pictured p.heap (own.reduceOption ++ live)

section
variable {heap first : Heap} {live : List Live} {log : List HeapCall} {blocks : List Block} {p : Played}

theorem replay_append (p : Played) (calls : List HeapCall) (call : HeapCall) :
    replay p (calls ++ [call]) = (replay p calls).bind (play · call) := by
  unfold replay
  rw [List.foldlM_append]
  refine congrArg _ (funext fun last => ?_)
  rw [List.foldlM_cons]
  exact bind_pure _

theorem play_kalloc {size : BitVec 64} {call : Call} (done : alloc p.heap size = some call) :
    play p (.kalloc size) = some ⟨call.heap, p.pointers ++ [call.ptr]⟩ := congrArg (Option.map _) done

theorem play_kfree {place : Nat} {pointer : BitVec 64} (known : p.pointers[place]? = some pointer) :
    play p (.kfree place) = some ⟨free p.heap pointer, p.pointers ++ [0]⟩ := by
  unfold play
  dsimp only
  rw [List.getD_eq_getElem?_getD, known, Option.getD_some]

theorem allServed_append (calls more : List HeapCall) (served : AllServed p (calls ++ more)) :
    AllServed p calls ∧ ∀ p', replay p calls = some p' → AllServed p' more := by
  induction calls generalizing p with
  | nil =>
    refine ⟨trivial, ?_⟩
    intro p' same
    obtain rfl := Option.some.inj same
    exact served
  | cons front calls ih =>
    obtain ⟨here, later⟩ := served
    refine ⟨⟨here, fun p' played => (ih (later p' played)).1⟩, ?_⟩
    intro p' played
    obtain ⟨next, step, rest⟩ := Option.bind_eq_some_iff.mp played
    exact (ih (later next step)).2 p' rest

theorem length_play {p' : Played} {call : HeapCall} (step : play p call = some p') :
    p'.pointers.length = p.pointers.length + 1 := by
  cases call with
  | kalloc size =>
    obtain ⟨_, _, rfl⟩ := Option.map_eq_some_iff.mp step
    simp
  | kfree place =>
    obtain rfl := Option.some.inj step
    simp

theorem length_replay {calls : List HeapCall} {p' : Played} (played : replay p calls = some p') :
    p'.pointers.length = p.pointers.length + calls.length := by
  induction calls generalizing p with
  | nil =>
    obtain rfl := Option.some.inj played
    rfl
  | cons call calls ih =>
    obtain ⟨next, step, rest⟩ := Option.bind_eq_some_iff.mp played
    rw [ih rest, length_play step, List.length_cons]
    omega

theorem pictured_perm {other : List Live} (pictured : Pictured heap live) (same : live.Perm other) :
    Pictured heap other := by
  refine ⟨(same.pairwise_iff Live.Apart.symm).mp pictured.apart, ?_, ?_, ?_⟩
  · intro entry member
    exact pictured.inside entry (same.mem_iff.mpr member)
  · intro entry member
    exact pictured.enough entry (same.mem_iff.mpr member)
  · intro k below
    rw [pictured.table k below, picture_perm pictured.apart same]

theorem sameTable_of_pictured {last : Heap} (pictured : Pictured first live) (left : Pictured last live)
    (record : SameRecord first last) : SameTable first last := by
  refine ⟨record, ?_⟩
  intro k below
  rw [pictured.table k below, left.table k (by rw [record.total]; exact below)]

theorem pointer_append {pointers : List (BitVec 64)} {place : Nat} {pointer : BitVec 64} (more : BitVec 64)
    (known : pointers[place]? = some pointer) : (pointers ++ [more])[place]? = some pointer := by
  rw [List.getElem?_append_left (List.getElem?_eq_some_iff.mp known).1]
  exact known

theorem backs_append {pointers : List (BitVec 64)} (more : BitVec 64) {block : Block} {entry : Option Live}
    (backs : Backs first pointers block entry) : Backs first (pointers ++ [more]) block entry := by
  cases entry with
  | none => exact ⟨backs.1, pointer_append more backs.2⟩
  | some entry =>
    obtain ⟨some, size, known, nonnull⟩ := backs
    exact ⟨some, size, pointer_append more known, nonnull⟩

theorem pointer_last {pointers : List (BitVec 64)} {place : Nat} (length : pointers.length = place)
    (pointer : BitVec 64) : (pointers ++ [pointer])[place]? = some pointer := by
  rw [← length, List.getElem?_append_right (Nat.le_refl _), Nat.sub_self]
  rfl

/-- A request that is served adds a live allocation, one for no bytes adds nothing. -/
theorem Accounts.kalloc {size : BitVec 64} (accounts : Accounts first live log blocks p)
    (served : Served p (.kalloc size)) : ∃ p', play p (.kalloc size) = some p' ∧
      Accounts first live (log ++ [.kalloc size]) (⟨log.length, size⟩ :: blocks) p' := by
  obtain ⟨own, backs, pictured⟩ := accounts.owed
  have kept := fun pointer => backs.imp fun _ _ => @backs_append first p.pointers pointer _ _
  by_cases empty : size = 0
  · have done : alloc p.heap size = some (refuse p.heap []) := if_pos empty
    refine ⟨_, play_kalloc done, accounts.record, ?_, none :: own, ?_, pictured⟩
    · simp [accounts.length]
    · exact .cons ⟨empty, pointer_last accounts.length 0⟩ (kept 0)
  · obtain ⟨call, run, done, given, nonnull, inside, enough⟩ := served.resolve_left empty
    have positive : 0 < size.toNat := Nat.pos_of_ne_zero fun zero => empty (BitVec.eq_of_toNat_eq zero)
    rcases alloc_settled done with ⟨touched, rfl⟩ | ⟨start, touched, _, unused, rfl⟩
    · simp [refuse] at given
    obtain rfl := Option.some.inj given
    have address : p.heap.blockAddr start = first.blockAddr start := accounts.record.blockAddr start
    have some' : start < start + p.heap.needed size := by
      by_contra none
      rw [Nat.sub_eq_zero_of_le (Nat.not_lt.mp none), Nat.zero_mul] at enough
      omega
    refine ⟨_, play_kalloc done, accounts.record.trans (settled_record (alloc_settled done)), ?_,
      some ⟨start, start + p.heap.needed size, size⟩ :: own, ?_, ?_⟩
    · simp [accounts.length]
    · refine .cons ⟨empty, rfl, ?_, ?_⟩ (kept _)
      · rw [← address]
        exact pointer_last accounts.length _
      · rw [← address]
        exact nonnull
    · exact pictured_mark pictured ⟨start, start + p.heap.needed size, size⟩ unused some' inside enough

/-- Giving back a block takes its allocation out of the picture. -/
theorem Accounts.kfree {block : Block} (small : first.total < 2 ^ 32)
    (accounts : Accounts first live log (block :: blocks) p) : ∃ p', play p (.kfree block.place) = some p' ∧
      Accounts first live (log ++ [.kfree block.place]) blocks p' := by
  obtain ⟨all, backs, pictured⟩ := accounts.owed
  cases backs with
  | @cons _ entry _ own here backs =>
    have kept := backs.imp fun _ _ => @backs_append first p.pointers 0 _ _
    have length : (p.pointers ++ [0]).length = (log ++ [HeapCall.kfree block.place]).length := by
      simp [accounts.length]
    cases entry with
    | none =>
      have same : free p.heap 0 = p.heap := if_pos rfl
      refine ⟨_, play_kfree here.2, ?_⟩
      rw [same]
      exact ⟨accounts.record, length, own, kept, pictured⟩
    | some entry =>
      obtain ⟨_, _, known, nonnull⟩ := here
      rw [← accounts.record.blockAddr entry.start] at known nonnull
      have member : entry ∈ entry :: (own.reduceOption ++ live) := List.mem_cons_self ..
      have whole : Pictured p.heap (entry :: (own.reduceOption ++ live)) := pictured
      have freed := free_live whole (by rw [accounts.record.total]; exact small) member nonnull
      have left := pictured_clear whole member
      rw [List.erase_cons_head] at left
      refine ⟨_, play_kfree known, ?_⟩
      rw [freed]
      exact ⟨accounts.record, length, own, kept, left⟩

/-- What a log leaves owed is what its calls have left of the heap. -/
theorem accounts_of_owes {before : List HeapCall} {start : Played} (pictured : Pictured start.heap live)
    (small : start.heap.total < 2 ^ 32) (length : start.pointers.length = before.length)
    (owes : Owes before log blocks) : ∃ calls, log = before ++ calls ∧
      (AllServed start calls → ∃ p, replay start calls = some p ∧ Accounts start.heap live log blocks p) := by
  induction owes with
  | start =>
    refine ⟨[], (List.append_nil before).symm, fun _ => ⟨start, rfl, ⟨rfl, rfl, rfl⟩, length, [], .nil, pictured⟩⟩
  | kalloc size _ ih =>
    obtain ⟨calls, rfl, played⟩ := ih
    refine ⟨calls ++ [.kalloc size], List.append_assoc .., ?_⟩
    intro served
    obtain ⟨earlier, last⟩ := allServed_append calls _ served
    obtain ⟨p, done, accounts⟩ := played earlier
    obtain ⟨p', step, accounts'⟩ := accounts.kalloc (last p done).1
    refine ⟨p', ?_, accounts'⟩
    rw [replay_append, done]
    exact step
  | @kfree _ block _ _ ih =>
    obtain ⟨calls, rfl, played⟩ := ih
    refine ⟨calls ++ [.kfree block.place], List.append_assoc .., ?_⟩
    intro served
    obtain ⟨earlier, _⟩ := allServed_append calls _ served
    obtain ⟨p, done, accounts⟩ := played earlier
    obtain ⟨p', step, accounts'⟩ := accounts.kfree small
    refine ⟨p', ?_, accounts'⟩
    rw [replay_append, done]
    exact step
  | perm _ same ih =>
    obtain ⟨calls, split, played⟩ := ih
    refine ⟨calls, split, ?_⟩
    intro served
    obtain ⟨p, done, accounts⟩ := played served
    obtain ⟨own, backs, pictured'⟩ := accounts.owed
    obtain ⟨own', backs', order⟩ := List.perm_comp_forall₂ same.symm backs
    refine ⟨p, done, accounts.record, accounts.length, own', backs', ?_⟩
    exact pictured_perm pictured' ((order.symm.filterMap id).append_right live)

end

/-- A call has extended the log so that `post` holds of the heap, if all its requests are served. -/
def Leaves (start : Played) (before log : List HeapCall) (post : Played → Prop) : Prop :=
  ∃ calls, log = before ++ calls ∧ (AllServed start calls → ∃ p, replay start calls = some p ∧ post p)

section
variable {start : Played} {live : List Live} {before log : List HeapCall} {blocks : List Block}

theorem no_allocation {pointers : List (BitVec 64)} {own : List (Option Live)} {first : Heap}
    (backs : List.Forall₂ (Backs first pointers) blocks own) (nothing : ∀ block ∈ blocks, block.size = 0) :
    own.reduceOption = [] := by
  induction backs with
  | nil => rfl
  | @cons block entry blocks own here _ ih =>
    obtain ⟨empty, nothing⟩ := List.forall_mem_cons.mp nothing
    cases entry with
    | none => exact ih nothing
    | some entry => exact absurd empty here.1

theorem all_allocations {pointers : List (BitVec 64)} {own : List (Option Live)} {first : Heap}
    (backs : List.Forall₂ (Backs first pointers) blocks own) (some : ∀ block ∈ blocks, block.size ≠ 0) :
    List.Forall₂ (Lives first pointers) blocks own.reduceOption := by
  induction backs with
  | nil => exact .nil
  | @cons block entry blocks own here _ ih =>
    obtain ⟨nonempty, some⟩ := List.forall_mem_cons.mp some
    cases entry with
    | none => exact absurd here.1 nonempty
    | some entry => exact .cons here.2 (ih some)

theorem leaves_nothing (pictured : Pictured start.heap live) (small : start.heap.total < 2 ^ 32)
    (length : start.pointers.length = before.length) (owes : Owes before log blocks)
    (nothing : ∀ block ∈ blocks, block.size = 0) :
    Leaves start before log fun p => SameTable start.heap p.heap := by
  obtain ⟨calls, split, played⟩ := accounts_of_owes pictured small length owes
  refine ⟨calls, split, ?_⟩
  intro served
  obtain ⟨p, done, accounts⟩ := played served
  obtain ⟨own, backs, pictured'⟩ := accounts.owed
  rw [no_allocation backs nothing, List.nil_append] at pictured'
  exact ⟨p, done, sameTable_of_pictured pictured pictured' accounts.record⟩

theorem leaves_blocks (pictured : Pictured start.heap live) (small : start.heap.total < 2 ^ 32)
    (length : start.pointers.length = before.length) (owes : Owes before log blocks)
    (some : ∀ block ∈ blocks, block.size ≠ 0) :
    Leaves start before log fun p => SameRecord start.heap p.heap ∧
      ∃ new, List.Forall₂ (Lives start.heap p.pointers) blocks new ∧ Pictured p.heap (new ++ live) := by
  obtain ⟨calls, split, played⟩ := accounts_of_owes pictured small length owes
  refine ⟨calls, split, ?_⟩
  intro served
  obtain ⟨p, done, accounts⟩ := played served
  obtain ⟨own, backs, pictured'⟩ := accounts.owed
  exact ⟨p, done, accounts.record, own.reduceOption, all_allocations backs some, pictured'⟩

theorem Leaves.imp {post post' : Played → Prop} (leaves : Leaves start before log post)
    (weaker : ∀ p, post p → post' p) : Leaves start before log post' := by
  obtain ⟨calls, split, played⟩ := leaves
  refine ⟨calls, split, ?_⟩
  intro served
  obtain ⟨p, done, holds⟩ := played served
  exact ⟨p, done, weaker p holds⟩

/-- A heap in front of a call: its table pictures the live allocations, and there is a pointer for each call so far. -/
structure Ready (start : Played) (live : List Live) (before : List HeapCall) : Prop where
  pictured : Pictured start.heap live
  small : start.heap.total < 2 ^ 32
  length : start.pointers.length = before.length

theorem leaves_pictured (ready : Ready start live before) (owes : Owes before log blocks) :
    Leaves start before log fun p => SameRecord start.heap p.heap ∧ ∃ new, Pictured p.heap (new ++ live) := by
  obtain ⟨calls, split, played⟩ := accounts_of_owes ready.pictured ready.small ready.length owes
  refine ⟨calls, split, ?_⟩
  intro served
  obtain ⟨p, done, accounts⟩ := played served
  obtain ⟨own, _, pictured'⟩ := accounts.owed
  exact ⟨p, done, accounts.record, own.reduceOption, pictured'⟩

/-- What a call that opens a file leaves: nothing, or the entry and its name. -/
def OpenLeaves (first : Heap) (live : List Live) (found : Option Held) (p : Played) : Prop :=
  match found with
  | none => SameTable first p.heap
  | some held => SameRecord first p.heap ∧ ∃ filename entry, Lives first p.pointers ⟨held.filename, 256⟩ filename ∧
      Lives first p.pointers ⟨held.file, sizeofFileEntry⟩ entry ∧ Pictured p.heap (filename :: entry :: live)

/-- What a call that reads a file leaves: nothing, or the data. -/
def ReadLeaves (first : Heap) (live : List Live) (size : BitVec 64) (data : Option Data) (p : Played) : Prop :=
  match data with
  | none => SameTable first p.heap
  | some data => SameRecord first p.heap ∧ ∃ entry, Lives first p.pointers ⟨data.block, size⟩ entry ∧
      Pictured p.heap (entry :: live)

theorem leaves_open {machine : Machine} {fs : ExfatInstance} {path : CString} {trace trace' : Trace}
    {found : Option Held} (ready : Ready start live trace.heap)
    (opens : Opens machine fs path.bytes trace (.returned found, trace')) :
    Leaves start trace.heap trace'.heap (OpenLeaves start.heap live found) := by
  have owes : Owes trace.heap trace'.heap (foundBlocks found) := owes_openFile opens
  cases found with
  | none => exact leaves_nothing ready.pictured ready.small ready.length owes (by simp [foundBlocks])
  | some held =>
    apply (leaves_blocks ready.pictured ready.small ready.length owes (by simp [foundBlocks, sizeofFileEntry])).imp
    intro p left
    obtain ⟨record, new, lives, pictured'⟩ := left
    cases lives with
    | cons name lives =>
      cases lives with
      | cons entry lives =>
        cases lives with
        | nil => exact ⟨record, _, _, name, entry, pictured'⟩

theorem leaves_read {machine : Machine} {file : FileEntry} {bound : Nat} {trace : Trace} {answer : Answer}
    (ready : Ready start live trace.heap) (returns : readFileAll machine file bound trace = some answer) :
    Leaves start trace.heap answer.trace.heap (ReadLeaves start.heap live file.dataLength answer.data) := by
  have owes := owes_readFileAll returns
  by_cases empty : file.dataLength = 0
  · rw [readFileAll_empty empty returns]
    apply leaves_nothing ready.pictured ready.small ready.length owes
    unfold answerBlocks
    rw [if_pos empty]
    simp
  · unfold answerBlocks at owes
    rw [if_neg empty] at owes
    cases given : answer.data with
    | none =>
      rw [given] at owes
      exact leaves_nothing ready.pictured ready.small ready.length owes (by simp)
    | some data =>
      rw [given] at owes
      apply (leaves_blocks ready.pictured ready.small ready.length owes (by simpa using empty)).imp
      intro p left
      obtain ⟨record, new, lives, pictured'⟩ := left
      cases lives with
      | cons entry lives =>
        cases lives with
        | nil => exact ⟨record, _, entry, pictured'⟩

end

/-- For every well-formed heap, volume, path, file entry and answers of the drive, in every call that
returns and whose requests are all served: a call that returns the null pointer leaves the block
table as it was, one that returns an entry adds the live allocations of the entry and of its path,
and one that returns data adds that of the data. -/
theorem calls_leak_nothing (machine : Machine) (fs : ExfatInstance) (path : CString) (file : FileEntry)
    (trace : Trace) (start : Played) (live : List Live) (pictured : Pictured start.heap live)
    (small : start.heap.total < 2 ^ 32) (length : start.pointers.length = trace.heap.length) :
    (∀ trace', Opens machine fs path.bytes trace (.returned none, trace') →
      Leaves start trace.heap trace'.heap fun p => SameTable start.heap p.heap) ∧
    (∀ held trace', Opens machine fs path.bytes trace (.returned (some held), trace') →
      Leaves start trace.heap trace'.heap fun p => SameRecord start.heap p.heap ∧ ∃ filename entry,
        Lives start.heap p.pointers ⟨held.filename, 256⟩ filename ∧
        Lives start.heap p.pointers ⟨held.file, sizeofFileEntry⟩ entry ∧
        Pictured p.heap (filename :: entry :: live)) ∧
    ∀ bound answer, readFileAll machine file bound trace = some answer →
      match answer.data with
      | none => Leaves start trace.heap answer.trace.heap fun p => SameTable start.heap p.heap
      | some data => Leaves start trace.heap answer.trace.heap fun p => SameRecord start.heap p.heap ∧ ∃ entry,
          Lives start.heap p.pointers ⟨data.block, file.dataLength⟩ entry ∧ Pictured p.heap (entry :: live) := by
  have ready : Ready start live trace.heap := ⟨pictured, small, length⟩
  refine ⟨fun _ => leaves_open ready, fun _ _ => leaves_open ready, ?_⟩
  intro bound answer returns
  have leaves := leaves_read ready returns
  cases given : answer.data with
  | none =>
    rw [given] at leaves
    exact leaves
  | some data =>
    rw [given] at leaves
    exact leaves

theorem two_requests_served : AllServed ⟨fourBlocks, []⟩ [.kalloc 512, .kalloc 512, .kfree 1] := by
  have first : alloc fourBlocks 512 = some (grant fourBlocks 0 1 [0, 0]) := rfl
  have second : alloc (fourBlocks.mark 0 1) 512 = some (grant (fourBlocks.mark 0 1) 1 1 [0, 1, 1]) := rfl
  refine ⟨Or.inr ⟨_, ⟨0, 1⟩, first, rfl, by decide, by decide, by decide⟩, ?_⟩
  intro p step
  obtain rfl := Option.some.inj ((play_kalloc first).symm.trans step)
  refine ⟨Or.inr ⟨_, ⟨1, 2⟩, second, rfl, by decide, by decide, by decide⟩, ?_⟩
  intro p step
  exact ⟨trivial, fun _ _ => trivial⟩

/-- A file of one cluster is read on that heap: the block of its data is left. -/
theorem short_file_leaves_data : ∃ p, replay ⟨fourBlocks, []⟩ [.kalloc 512, .kalloc 512, .kfree 1] = some p ∧
    ∃ entry, entry.size = 512 ∧ Pictured p.heap [entry] := by
  have pictured : Pictured fourBlocks [] := pictured_cleared fun _ _ => rfl
  have given : (readFileAll withoutTable shortFile 1 ⟨[], []⟩).map (fun answer => (answer.data.isSome, answer.trace.heap)) =
      some (true, [.kalloc 512, .kalloc 512, .kfree 1]) := by decide +kernel
  obtain ⟨answer, returns, facts⟩ := Option.map_eq_some_iff.mp given
  obtain ⟨some, log⟩ := Prod.mk.inj facts
  have leaves := (calls_leak_nothing withoutTable shortFile.fs ⟨[], by decide⟩ shortFile ⟨[], []⟩ ⟨fourBlocks, []⟩ []
    pictured (by decide) rfl).2.2 1 answer returns
  cases data : answer.data with
  | none => simp [data] at some
  | some data' =>
    rw [data, log] at leaves
    obtain ⟨calls, rfl, played⟩ := leaves
    obtain ⟨p, done, _, entry, lives, pictured'⟩ := played two_requests_served
    exact ⟨p, done, entry, lives.1, pictured'⟩

end Ketone.Exfat.NoLeaks
