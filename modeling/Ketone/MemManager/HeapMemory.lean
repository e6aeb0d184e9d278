import Ketone.Library.Cells
import Ketone.MemManager.LiveAreas
import Ketone.MemManager.Manager
import Mathlib.Algebra.BigOperators.Group.List.Basic
import Mathlib.Order.Interval.Finset.Nat

/-! A block heap as memory holds it: the record, the table behind it, and the three calls that read and
write them. -/

namespace Ketone.MemManager.HeapMemory
open Library.Align Library.Gap Library.Ram Library.Cells Allocator BlockRuns AllocBounds FirstFit LiveAreas E820 Manager

abbrev u16 : Cell (BitVec 16) := Cell.word 16 rfl (by decide)
abbrev u32 : Cell (BitVec 32) := Cell.word 32 rfl (by decide)
abbrev u64 : Cell (BitVec 64) := Cell.word 64 rfl (by decide)

/-- `allocation_t`: a flag, three bytes of padding and two words. -/
def allocation : Cell Allocation :=
  (Cell.flag.beside 4 (u32.beside 4 u32 (by decide) (by decide)) (by decide) (by decide)).as
    { toFun := fun fields => ⟨fields.1, fields.2.1, fields.2.2⟩
      invFun := fun entry => (entry.isAllocated, entry.startBlock, entry.endBlock)
      left_inv := fun _ => rfl
      right_inv := fun _ => rfl }

structure HeapRecord where
  blockSize : BitVec 16
  startAddr : BitVec 64
  maxSize : BitVec 64
  blocks : BitVec 64

def threeWords : Cell (BitVec 64 × BitVec 64 × BitVec 64) :=
  u64.beside 8 (u64.beside 8 u64 (by decide) (by decide)) (by decide) (by decide)

/-- `heap_t`, whose first field is followed by six bytes of padding. -/
def heapRecord : Cell HeapRecord :=
  (u16.beside 8 threeWords (by decide) (by decide)).as
    { toFun := fun fields => ⟨fields.1, fields.2.1, fields.2.2.1, fields.2.2.2⟩
      invFun := fun record => (record.blockSize, record.startAddr, record.maxSize, record.blocks)
      left_inv := fun _ => rfl
      right_inv := fun _ => rfl }

def tableAt (memory : Memory) (header : BitVec 64) : BitVec 64 := (heapRecord.load memory header).blocks

/-- The heap behind a pointer. A block size of zero leaves none, and the first division faults. -/
def heapAt (memory : Memory) (header : BitVec 64) : Option Heap :=
  let record := heapRecord.load memory header
  if positive : 0 < record.blockSize.toNat then
    some
      { blockSize := record.blockSize
        startAddr := record.startAddr
        maxSize := record.maxSize
        blocks := fun k => allocation.load memory (allocation.entryAddr record.blocks k)
        blockSize_pos := positive }
  else none

structure Answer where
  ptr : BitVec 64
  memory : Memory

def markRun (memory : Memory) (table : BitVec 64) : Option Run → Memory
  | none => memory
  | some run => allocation.storeRun memory table run.start (run.stop - run.start)
      ⟨true, BitVec.ofNat 32 run.start, BitVec.ofNat 32 run.stop⟩

/-- The searches only read; what they find is marked behind them. -/
def searchAt (search : Heap → Option Call) (memory : Memory) (header : BitVec 64) : Option Answer := do
  let heap ← heapAt memory header
  let call ← search heap
  some ⟨call.ptr, markRun memory (tableAt memory header) call.run⟩

def allocAt (memory : Memory) (header size : BitVec 64) : Option Answer :=
  if size = 0 then some ⟨0, memory⟩
  else searchAt (alloc · size) memory header

/-- Both tests come before the first access to the heap. -/
def allocAlignedAt (memory : Memory) (header size alignment : BitVec 64) : Option Answer :=
  if size = 0 then some ⟨0, memory⟩
  else if orOne alignment &&& (orOne alignment - 1) ≠ 0 then some ⟨0, memory⟩
  else searchAt (allocAligned · size alignment) memory header

def freeAt (memory : Memory) (header ptr : BitVec 64) : Option Memory :=
  if ptr = 0 then some memory
  else do
    let heap ← heapAt memory header
    let block := ((ptr - heap.startAddr) / heap.blockBytes).toNat
    some (allocation.storeRun memory (tableAt memory header) block ((heap.blocks block).endBlock.toNat - block) .cleared)

/-- The stores that set a heap up: its record, and an unused entry for each block. -/
def placeAt (memory : Memory) (placed : PlacedHeap) (count : BitVec 64) : Memory :=
  let table := placed.header + sizeofHeap
  allocation.storeRun (heapRecord.store memory placed.header
    ⟨placed.heap.blockSize, placed.heap.startAddr, placed.heap.maxSize, table⟩) table 0 count.toNat .cleared

/-- Record and table of a placed heap, which nobody else may write to. -/
def own (placed : PlacedHeap) : Area := ⟨placed.header, 32 + 12 * placed.heap.total⟩

def areaOf (heap : Heap) (entry : Live) : Area := ⟨heap.blockAddr entry.start, entry.size.toNat⟩

/-- A heap of 512-byte blocks whose record, table and data follow each other below 4 GiB. -/
structure Formed (placed : PlacedHeap) : Prop where
  blocks : placed.heap.blockSize = 512
  table : placed.header.toNat + 32 + 12 * placed.heap.total ≤ placed.heap.startAddr.toNat
  area : placed.heap.startAddr.toNat + placed.heap.maxSize.toNat ≤ 2 ^ 32

def Tight (entry : Live) : Prop := (entry.stop - entry.start - 1) * 512 < entry.size.toNat

/-- Memory holds the heap in its place, and its table is the picture of what is held. -/
structure Keeps (placed : PlacedHeap) (memory : Memory) (heap : Heap) (live : List Live) : Prop where
  found : heapAt memory placed.header = some heap
  table : tableAt memory placed.header = placed.header + sizeofHeap
  same : SameRecord placed.heap heap
  pictured : Pictured heap live
  tight : ∀ entry ∈ live, Tight entry

section
variable {memory after : Memory} {header : BitVec 64} {heap : Heap}

theorem heapAt_blocks (found : heapAt memory header = some heap) (k : Nat) :
    heap.blocks k = allocation.load memory (allocation.entryAddr (tableAt memory header) k) := by
  unfold heapAt at found
  dsimp only at found
  split at found
  · obtain rfl := Option.some.inj found
    rfl
  · cases found

theorem heapAt_changed (found : heapAt memory header = some heap)
    (record : heapRecord.load after header = heapRecord.load memory header) :
    heapAt after header = some { heap with
      blocks := fun k => allocation.load after (allocation.entryAddr (tableAt memory header) k) } := by
  unfold heapAt at *
  rw [record]
  dsimp only at found ⊢
  split at found
  next positive =>
    obtain rfl := Option.some.inj found
    exact dif_pos positive
  · cases found

end

section
variable {placed : PlacedHeap} {memory after : Memory} {heap : Heap} {live : List Live}

theorem Formed.total_le (formed : Formed placed) : placed.heap.total ≤ 2 ^ 32 := by
  have table := formed.table
  have area := formed.area
  omega

theorem Formed.blockBytes (formed : Formed placed) : placed.heap.blockBytes.toNat = 512 := by
  rw [toNat_blockBytes, formed.blocks]
  rfl

theorem own_record (placed : PlacedHeap) : Area.Within (heapRecord.area placed.header) (own placed) :=
  fun _ has => lt_of_lt_of_le has (show 32 ≤ _ from Nat.le_add_right ..)

theorem own_table (formed : Formed placed) :
    Area.Within ⟨placed.header + sizeofHeap, 12 * placed.heap.total⟩ (own placed) := by
  have few := formed.total_le
  apply @Area.part_within (own placed) 32 (12 * placed.heap.total) le_rfl
  change 32 + 12 * placed.heap.total ≤ _
  omega

theorem record_apart (formed : Formed placed) :
    Area.Apart (heapRecord.area placed.header) ⟨placed.header + sizeofHeap, 12 * placed.heap.total⟩ := by
  have few := formed.total_le
  have apart := @Area.parts_apart placed.header 0 32 32 (12 * placed.heap.total) le_rfl (by omega)
  rw [BitVec.add_zero] at apart
  exact apart

theorem Keeps.total (keeps : Keeps placed memory heap live) : heap.total = placed.heap.total := keeps.same.total

theorem Keeps.blockBytes (keeps : Keeps placed memory heap live) (formed : Formed placed) :
    heap.blockBytes.toNat = 512 := by
  unfold Heap.blockBytes
  rw [keeps.same.1]
  exact formed.blockBytes

theorem Keeps.area (keeps : Keeps placed memory heap live) (formed : Formed placed) :
    heap.startAddr.toNat + heap.maxSize.toNat ≤ 2 ^ 32 := by
  rw [keeps.same.2.1, keeps.same.2.2]
  exact formed.area

theorem Keeps.nonnull (keeps : Keeps placed memory heap live) (formed : Formed placed) {block : Nat}
    (inside : block < heap.total) : heap.blockAddr block ≠ 0 := by
  have area := keeps.area formed
  apply blockAddr_ne_zero _ (by omega) inside
  intro null
  have table := formed.table
  rw [← keeps.same.2.1, null] at table
  change _ ≤ 0 at table
  omega

theorem pictured_record {other : Heap} (pictured : Pictured heap live) (same : SameRecord heap other)
    (table : ∀ k < heap.total, other.blocks k = heap.blocks k) : Pictured other live := by
  have bytes : other.blockBytes = heap.blockBytes := by
    unfold Heap.blockBytes
    rw [same.1]
  refine ⟨pictured.apart, ?_, ?_, ?_⟩
  · rw [same.total]
    exact pictured.inside
  · rw [bytes]
    exact pictured.enough
  · intro k below
    rw [same.total] at below
    rw [table k below]
    exact pictured.table k below

/-- What memory holds after the record was left alone and the entries of the table became those of `next`. -/
theorem Keeps.becomes (keeps : Keeps placed memory heap live) {next : Heap} {live' : List Live}
    (record : heapRecord.load after placed.header = heapRecord.load memory placed.header)
    (same : SameRecord heap next) (pictured : Pictured next live') (tight : ∀ entry ∈ live', Tight entry)
    (entries : ∀ k < heap.total,
      allocation.load after (allocation.entryAddr (placed.header + sizeofHeap) k) = next.blocks k) :
    ∃ heap', Keeps placed after heap' live' := by
  rw [← keeps.table] at entries
  have found := heapAt_changed keeps.found record
  have table : tableAt after placed.header = placed.header + sizeofHeap := by
    unfold tableAt
    rw [record]
    exact keeps.table
  have total := same.total
  refine ⟨_, found, table, ⟨keeps.same.1, keeps.same.2.1, keeps.same.2.2⟩, ?_, tight⟩
  refine pictured_record pictured ⟨same.1.symm, same.2.1.symm, same.2.2.symm⟩ fun k below => ?_
  exact entries k (by omega)

theorem Keeps.others (keeps : Keeps placed memory heap live) (formed : Formed placed)
    (same : (own placed).Same memory after) : ∃ heap', Keeps placed after heap' live := by
  have few := formed.total_le
  have total := keeps.total
  refine keeps.becomes (heapRecord.load_same _ _ _ (same.mono (own_record placed))) ⟨rfl, rfl, rfl⟩ keeps.pictured
    keeps.tight ?_
  intro k below
  rw [heapAt_blocks keeps.found, keeps.table]
  apply allocation.load_same
  refine same.mono fun addr has => own_table formed addr (Cell.entry_within (show k < placed.heap.total by omega) ?_ addr has)
  change 12 * placed.heap.total ≤ _
  omega

/-- One value stored to a run of the table: the record stays, and so does everything outside of the heap. -/
theorem Keeps.run (keeps : Keeps placed memory heap live) (formed : Formed placed) {start count : Nat}
    {entry : Allocation} {live' : List Live} (inside : start + count ≤ heap.total)
    (pictured : Pictured (heap.fill start (start + count) entry) live') (tight : ∀ entry ∈ live', Tight entry) :
    let after := allocation.storeRun memory (tableAt memory placed.header) start count entry
    (∃ heap', Keeps placed after heap' live') ∧ ∀ area, Area.Apart area (own placed) → area.Same memory after := by
  have few := formed.total_le
  have total := keeps.total
  have small : allocation.width * placed.heap.total ≤ 2 ^ 64 := by
    change 12 * placed.heap.total ≤ _
    omega
  have inside' : start + count ≤ placed.heap.total := by omega
  rw [keeps.table]
  refine ⟨@Keeps.becomes _ _ _ _ _ keeps (heap.fill start (start + count) entry) _ ?_ ⟨rfl, rfl, rfl⟩ pictured tight ?_, ?_⟩
  · exact heapRecord.load_same _ _ _ (Cell.storeRun_same inside' small (record_apart formed))
  · intro k below
    have reach : ∀ n ≤ placed.heap.total, allocation.width * n ≤ 2 ^ 64 :=
      fun n le => le_trans (Nat.mul_le_mul_left _ le) small
    have entry := heapAt_blocks keeps.found k
    rw [keeps.table] at entry
    rw [Cell.load_storeRun (reach _ inside') (reach _ (by omega)), ← entry]
    rfl
  · intro area apart
    exact Cell.storeRun_same inside' small (apart.mono (Area.Within.refl area) (own_table formed))

/-- What is held after a request, of which the null pointer stands for a refusal. -/
def take (ptr size : BitVec 64) (held : List Area) : List Area :=
  if ptr = 0 then held else ⟨ptr, size.toNat⟩ :: held

def giveBack (ptr : BitVec 64) (held : List Area) : List Area :=
  if ptr = 0 then held else held.eraseP fun area => area.base = ptr

def Held (ptr : BitVec 64) (held : List Area) : Prop := ptr = 0 ∨ ∃ area ∈ held, area.base = ptr

theorem take_append (ptr size : BitVec 64) (held kept : List Area) :
    take ptr size (held ++ kept) = take ptr size held ++ kept := by
  unfold take
  split <;> rfl

theorem giveBack_append {ptr : BitVec 64} {held : List Area} (may : Held ptr held) (kept : List Area) :
    giveBack ptr (held ++ kept) = giveBack ptr held ++ kept := by
  unfold giveBack
  split
  · rfl
  next nonnull =>
    obtain ⟨area, member, based⟩ := may.resolve_left nonnull
    exact List.eraseP_append_left (p := fun area : Area => decide (area.base = ptr)) (decide_eq_true based) kept member

/-- Memory holds the heap in its place, with `held` for what its callers hold. -/
def Stands (placed : PlacedHeap) (memory : Memory) (held : List Area) : Prop :=
  ∃ heap live, Keeps placed memory heap live ∧ live.map (areaOf placed.heap) = held

/-- A call has left the heap in its place, and the rest of memory as it was. -/
def Serves (placed : PlacedHeap) (memory after : Memory) (held : List Area) : Prop :=
  Stands placed after held ∧ ∀ area, Area.Apart area (own placed) → area.Same memory after

theorem Keeps.serves (keeps : Keeps placed memory heap live) :
    Serves placed memory memory (live.map (areaOf placed.heap)) :=
  ⟨⟨heap, live, keeps, rfl⟩, fun area _ => Area.Same.refl area memory⟩

/-- A search that settles inside the table. -/
theorem Keeps.searched (keeps : Keeps placed memory heap live) (formed : Formed placed) {size : BitVec 64}
    (some : size ≠ 0) (small : size.toNat + 512 ≤ 2 ^ 64) {search : Heap → Option Call} {call : Call}
    {inside : Nat → Prop} (done : search heap = Option.some call)
    (settled : Settled heap (heap.needed size) inside call) (ends : EndsInside heap call) :
    ∃ answer, searchAt search memory placed.header = Option.some answer ∧
      Serves placed memory answer.memory (take answer.ptr size (live.map (areaOf placed.heap))) := by
  have noWrap : heap.NoWrap size := by
    unfold Heap.NoWrap
    rw [keeps.blockBytes formed]
    exact small
  have needs := needed_pos noWrap some
  have next := pictured_settled keeps.pictured settled ends (size_le_granted noWrap)
  refine ⟨⟨call.ptr, markRun memory (tableAt memory placed.header) call.run⟩, ?_, ?_⟩
  · simp only [searchAt, keeps.found, done, Option.bind_eq_bind, Option.bind_some]
  rcases settled with ⟨touched, rfl⟩ | ⟨start, touched, _, _, rfl⟩
  · exact keeps.serves
  · have stop : start + heap.needed size ≤ heap.total := ends ⟨start, start + heap.needed size⟩ rfl
    have grown : grow size (grant heap start (heap.needed size) touched) live =
        ⟨start, start + heap.needed size, size⟩ :: live := if_pos (show start < start + heap.needed size by omega)
    rw [grown] at next
    have tight : ∀ entry ∈ ⟨start, start + heap.needed size, size⟩ :: live, Tight entry := by
      intro entry member
      rcases List.mem_cons.mp member with rfl | old
      · have positive := BitVec.toNat_pos_of_ne_zero some
        have blocks := needed_eq noWrap some
        rw [keeps.blockBytes formed] at blocks
        unfold Tight
        dsimp only
        omega
      · exact keeps.tight entry old
    obtain ⟨⟨heap', keeps'⟩, frame⟩ := keeps.run formed stop next tight
    have count : start + heap.needed size - start = heap.needed size := Nat.add_sub_cancel_left ..
    change Serves placed memory (allocation.storeRun memory _ start (start + heap.needed size - start) _)
      (take (heap.blockAddr start) size _)
    rw [count, take, if_neg (keeps.nonnull formed (show start < heap.total by omega)), keeps.same.blockAddr]
    exact ⟨⟨heap', _, keeps', rfl⟩, frame⟩

/-- A request that `alloc` serves from inside of the table: some run fits, or the last block is taken. -/
def Fitting (memory : Memory) (header size : BitVec 64) : Prop :=
  ∃ heap, heapAt memory header = some heap ∧ Guarded heap (heap.needed size)

theorem Keeps.alloc (keeps : Keeps placed memory heap live) (formed : Formed placed) {size : BitVec 64}
    (small : size.toNat + 512 ≤ 2 ^ 64) (fits : Fitting memory placed.header size) :
    ∃ answer, allocAt memory placed.header size = some answer ∧
      Serves placed memory answer.memory (take answer.ptr size (live.map (areaOf placed.heap))) := by
  by_cases some : size = 0
  · exact ⟨⟨0, memory⟩, if_pos some, keeps.serves⟩
  obtain ⟨same, found, guarded⟩ := fits
  obtain rfl := Option.some.inj (keeps.found.symm.trans found)
  have area := keeps.area formed
  have area' : heap.startAddr.toNat + heap.maxSize.toNat ≤ 2 ^ 64 := by omega
  have noWrap : heap.NoWrap size := by
    unfold Heap.NoWrap
    rw [keeps.blockBytes formed]
    exact small
  obtain ⟨call, done⟩ := alloc_returns heap size
  have stays : StaysInside heap size call := by
    rcases guarded with fit | last
    · exact alloc_inside_of_fit (pictured_jump keeps.pictured) noWrap some area' fit done
    · exact alloc_inside_of_last last noWrap some area' done
  have ends : EndsInside heap call := by
    have needs := needed_pos noWrap some
    rcases alloc_settled done with ⟨_, rfl⟩ | ⟨start, touched, _, _, rfl⟩
    · exact fun run given => by cases given
    · intro run given
      obtain rfl := Option.some.inj given
      have last := stays.entries (start + heap.needed size - 1)
        (List.mem_append_right _ (mem_entriesFrom.mpr ⟨by omega, by omega⟩))
      dsimp only
      omega
  rw [allocAt, if_neg some]
  exact keeps.searched formed some small done (alloc_settled done) ends

theorem Keeps.alloc_fits (keeps : Keeps placed memory heap live) (formed : Formed placed) {size : BitVec 64}
    (some : size ≠ 0) (small : size.toNat + 512 ≤ 2 ^ 64) (fits : ∃ start, Fits heap (heap.needed size) start) :
    ∃ answer, allocAt memory placed.header size = Option.some answer ∧
      Serves placed memory answer.memory (⟨answer.ptr, size.toNat⟩ :: live.map (areaOf placed.heap)) := by
  have noWrap : heap.NoWrap size := by
    unfold Heap.NoWrap
    rw [keeps.blockBytes formed]
    exact small
  have needs := needed_pos noWrap some
  obtain ⟨answer, done, serves⟩ := keeps.alloc formed small ⟨heap, keeps.found, Or.inl fits⟩
  have nonnull : answer.ptr ≠ 0 := by
    obtain ⟨start, stop, unused⟩ := fits
    have loose : LooseFit heap (heap.needed size) start := ⟨by omega, unused start le_rfl (by omega), unused⟩
    obtain ⟨call, called⟩ := alloc_returns heap size
    rw [allocAt, if_neg some] at done
    simp only [searchAt, keeps.found, called, Option.bind_eq_bind, Option.bind_some] at done
    rcases alloc_lowest (pictured_jump keeps.pictured) some called with ⟨first, touched, lowest, rfl⟩ | ⟨none, _⟩
    · rw [← Option.some.inj done]
      exact keeps.nonnull formed lowest.holds.starts
    · exact (none ⟨start, loose⟩).elim
  rw [take, if_neg nonnull] at serves
  exact ⟨answer, done, serves⟩

theorem Keeps.allocAligned (keeps : Keeps placed memory heap live) (formed : Formed placed) {size : BitVec 64}
    (small : size.toNat + 512 ≤ 2 ^ 64) (alignment : BitVec 64) :
    ∃ answer, allocAlignedAt memory placed.header size alignment = some answer ∧
      Serves placed memory answer.memory (take answer.ptr size (live.map (areaOf placed.heap))) := by
  by_cases some : size = 0
  · exact ⟨⟨0, memory⟩, if_pos some, keeps.serves⟩
  rw [allocAlignedAt, if_neg some]
  by_cases odd : orOne alignment &&& (orOne alignment - 1) ≠ 0
  · rw [if_pos odd]
    exact ⟨⟨0, memory⟩, rfl, keeps.serves⟩
  rw [if_neg odd]
  have few := formed.total_le
  have total := keeps.total
  obtain ⟨call, done⟩ := allocAligned_returns (show heap.total ≤ 2 ^ 32 by omega) size alignment
  exact keeps.searched formed some small done (allocAligned_settled (by omega) done) (allocAligned_ends (by omega) done)

/-- A pointer that is held frees its own blocks. -/
theorem Keeps.free (keeps : Keeps placed memory heap live) (formed : Formed placed) {ptr : BitVec 64}
    (may : Held ptr (live.map (areaOf placed.heap))) :
    ∃ after, freeAt memory placed.header ptr = some after ∧
      Serves placed memory after (giveBack ptr (live.map (areaOf placed.heap))) := by
  unfold freeAt giveBack
  split
  · exact ⟨memory, rfl, keeps.serves⟩
  next null =>
  have held := may.resolve_left null
  have address : ∀ entry, (areaOf placed.heap entry).base = heap.blockAddr entry.start :=
    fun entry => (keeps.same.blockAddr entry.start).symm
  obtain ⟨_, member, based⟩ := held
  obtain ⟨holder, listed, rfl⟩ := List.mem_map.mp member
  obtain ⟨entry, front, back, before, own, rfl, erased⟩ := List.exists_of_eraseP
    (p := fun entry => decide ((areaOf placed.heap entry).base = ptr)) listed (decide_eq_true based)
  have based := of_decide_eq_true own
  rw [address] at based
  obtain ⟨some, inside⟩ := keeps.pictured.inside entry (by simp)
  have few := formed.total_le
  have total := keeps.total
  have stored : heap.blocks entry.start = entry.entry := by
    rw [keeps.pictured.table _ (by omega), picture_of_holds keeps.pictured.apart (by simp) ⟨le_rfl, some⟩]
  have stop : (heap.blocks entry.start).endBlock.toNat = entry.stop := by
    rw [stored]
    exact Nat.mod_eq_of_lt (by have := formed.area; have := formed.table; omega)
  have new : entry ∉ front := fun old => before entry old own
  have next := @pictured_clear _ _ keeps.pictured entry (by simp)
  rw [List.erase_append_right _ new, List.erase_cons_head] at next
  have length : entry.start + (entry.stop - entry.start) = entry.stop := by omega
  rw [← length] at next
  have tight : ∀ other ∈ front ++ back, Tight other := by
    intro other member
    apply keeps.tight
    rcases List.mem_append.mp member with left | right
    · exact List.mem_append_left _ left
    · exact List.mem_append_right _ (List.mem_cons_of_mem _ right)
  obtain ⟨⟨heap', keeps'⟩, frame⟩ := keeps.run formed (by omega) next tight
  refine ⟨_, ?_, ⟨heap', front ++ back, keeps', ?_⟩, frame⟩
  · rw [← based]
    simp only [keeps.found, Option.bind_eq_bind, Option.bind_some, block_of_addr (show entry.start < heap.total by omega),
      stop]
  · rw [List.eraseP_map]
    exact congrArg _ erased.symm

/-- Clearing the table behind a record leaves a heap of which nothing is held. -/
theorem cleared_serves (formed : Formed placed) {memory : Memory} {count : BitVec 64} (entries : count.toNat = placed.heap.total)
    (held : heapRecord.load memory placed.header = ⟨placed.heap.blockSize, placed.heap.startAddr, placed.heap.maxSize,
      placed.header + sizeofHeap⟩) :
    Serves placed memory (allocation.storeRun memory (placed.header + sizeofHeap) 0 count.toNat .cleared) [] := by
  have few := formed.total_le
  have small : allocation.width * placed.heap.total ≤ 2 ^ 64 := by
    change 12 * placed.heap.total ≤ _
    omega
  have positive : 0 < placed.heap.blockSize.toNat := by
    rw [formed.blocks]
    decide
  have record := heapRecord.load_same _ _ _ (@Cell.storeRun_same _ allocation memory _ 0 count.toNat Allocation.cleared _ _
    (show 0 + count.toNat ≤ placed.heap.total by omega) small (record_apart formed))
  rw [held] at record
  have found : ∀ final, heapRecord.load final placed.header = ⟨placed.heap.blockSize, placed.heap.startAddr,
      placed.heap.maxSize, placed.header + sizeofHeap⟩ → heapAt final placed.header = some { placed.heap with
        blocks := fun k => allocation.load final (allocation.entryAddr (placed.header + sizeofHeap) k) } := by
    intro final loads
    unfold heapAt
    rw [loads]
    exact dif_pos positive
  refine ⟨⟨_, [], ⟨found _ record, congrArg HeapRecord.blocks record, ⟨rfl, rfl, rfl⟩, pictured_cleared ?_,
    nofun⟩, rfl⟩, ?_⟩
  · intro k below
    change k < placed.heap.total at below
    have reach : ∀ n ≤ placed.heap.total, allocation.width * n ≤ 2 ^ 64 :=
      fun n le => le_trans (Nat.mul_le_mul_left _ le) small
    dsimp only
    rw [Cell.load_storeRun (reach _ (by omega)) (reach _ (by omega)), if_pos (by omega)]
  · intro area apart
    exact Cell.storeRun_same (show 0 + count.toNat ≤ placed.heap.total by omega) small
      (apart.mono (Area.Within.refl area) (own_table formed))

theorem placed_serves (formed : Formed placed) (memory : Memory) {count : BitVec 64}
    (entries : count.toNat = placed.heap.total) : Serves placed memory (placeAt memory placed count) [] := by
  have record := heapRecord.load_store memory placed.header
    ⟨placed.heap.blockSize, placed.heap.startAddr, placed.heap.maxSize, placed.header + sizeofHeap⟩
  obtain ⟨stands, frame⟩ := cleared_serves formed entries record
  refine ⟨stands, fun area apart => ?_⟩
  exact (heapRecord.store_same (apart.mono (Area.Within.refl area) (own_record placed))).trans (frame area apart)

end

section
variable {placed : PlacedHeap} {memory : Memory} {held : List Area}

def Inside (area : Area) (span : Span) : Prop := span.lo ≤ area.base.toNat ∧ area.base.toNat + area.size ≤ span.hi

theorem apart_of_inside {first second : Area} {left right : Span} (low : Inside first left) (high : Inside second right)
    (apart : Span.Apart left right) (bound : left.hi ≤ 2 ^ 64) (bound' : right.hi ≤ 2 ^ 64) :
    Area.Apart first second := by
  intro addr has has'
  unfold Inside at low high
  rw [Area.has_iff (by omega)] at has has'
  rw [Span.apart_iff] at apart
  omega

def data (placed : PlacedHeap) : Span :=
  ⟨placed.heap.startAddr.toNat, placed.heap.startAddr.toNat + placed.heap.maxSize.toNat⟩

/-- What is held lies in the data of its heap. -/
theorem Stands.inside (stands : Stands placed memory held) (formed : Formed placed) {area : Area} (member : area ∈ held) :
    Inside area (data placed) := by
  obtain ⟨heap, live, keeps, rfl⟩ := stands
  obtain ⟨entry, listed, rfl⟩ := List.mem_map.mp member
  obtain ⟨some, ends⟩ := keeps.pictured.inside entry listed
  have enough := keeps.pictured.enough entry listed
  have whole := keeps.area formed
  obtain ⟨base, stop, _⟩ := @blocksOf_straight heap (by omega) entry some ends
  have blocks := total_mul_le heap
  have order : entry.stop * heap.blockBytes.toNat ≤ heap.total * heap.blockBytes.toNat := Nat.mul_le_mul_right _ ends
  have address : (areaOf placed.heap entry).base = (blocksOf heap entry).base := (keeps.same.blockAddr entry.start).symm
  have size : (areaOf placed.heap entry).size = entry.size.toNat := rfl
  have room : (blocksOf heap entry).size = (entry.stop - entry.start) * heap.blockBytes.toNat := rfl
  unfold Inside data
  rw [← keeps.same.2.1, ← keeps.same.2.2, address, size]
  dsimp only
  omega

theorem Stands.nonnull (stands : Stands placed memory held) (formed : Formed placed) {area : Area} (member : area ∈ held) :
    area.base ≠ 0 := by
  intro null
  have table := formed.table
  have low : placed.heap.startAddr.toNat ≤ area.base.toNat := (stands.inside formed member).1
  have zero : area.base.toNat = 0 := congrArg BitVec.toNat null
  omega

theorem Stands.apart (stands : Stands placed memory held) (formed : Formed placed) : held.Pairwise Area.Apart := by
  obtain ⟨heap, live, keeps, rfl⟩ := stands
  have whole := keeps.area formed
  have within : ∀ entry ∈ live, Area.Within (areaOf placed.heap entry) (blocksOf heap entry) := by
    intro entry listed addr has
    have backs : Backs heap entry (areaOf placed.heap entry) :=
      ⟨(keeps.same.blockAddr entry.start).symm, keeps.pictured.enough entry listed⟩
    exact backs.has has
  rw [List.pairwise_map]
  apply List.Pairwise.imp_of_mem _ (blocksOf_apart keeps.pictured (by omega))
  intro first second left right apart
  exact apart.mono (within first left) (within second right)

/-- An entry that memory holds for a block of a placed heap. -/
def entryAt (placed : PlacedHeap) (memory : Memory) (k : Nat) : Allocation :=
  allocation.load memory (allocation.entryAddr (tableAt memory placed.header) k)

def blockArea (placed : PlacedHeap) (k : Nat) : Area := ⟨placed.heap.blockAddr k, 512⟩

/-- A block reads as taken exactly if a byte of it is held. -/
theorem Stands.taken_iff (stands : Stands placed memory held) (formed : Formed placed) {k : Nat}
    (below : k < placed.heap.total) : (entryAt placed memory k).isAllocated = true ↔
      ∃ area ∈ held, ∃ addr, area.Has addr ∧ (blockArea placed k).Has addr := by
  obtain ⟨heap, live, keeps, rfl⟩ := stands
  have total := keeps.total
  have whole := formed.area
  have bytes := formed.blockBytes
  have stored : entryAt placed memory k = picture live k := by
    rw [entryAt, ← heapAt_blocks keeps.found]
    exact keeps.pictured.table k (by omega)
  have block := @blockAddr_straight placed.heap (by omega) _ below
  have behind := @blockAddr_le placed.heap (by omega) _ (show k + 1 ≤ placed.heap.total from below)
  have bounds : ∀ entry ∈ live, entry.start < entry.stop ∧
      (placed.heap.blockAddr entry.start).toNat = placed.heap.startAddr.toNat + entry.start * 512 ∧
      entry.size.toNat ≤ (entry.stop - entry.start) * 512 ∧ placed.heap.startAddr.toNat + entry.stop * 512 ≤ 2 ^ 64 := by
    intro entry listed
    obtain ⟨some, ends⟩ := keeps.pictured.inside entry listed
    have enough := keeps.pictured.enough entry listed
    have start := @blockAddr_straight placed.heap (by omega) _ (show entry.start < placed.heap.total by omega)
    have stop := @blockAddr_le placed.heap (by omega) _ (show entry.stop ≤ placed.heap.total by omega)
    rw [keeps.blockBytes formed] at enough
    rw [bytes] at start stop
    exact ⟨some, start, enough, stop⟩
  rw [bytes] at block behind
  rw [stored]
  constructor
  · intro taken
    by_cases held : ∃ entry ∈ live, entry.Holds k
    · obtain ⟨entry, listed, low, high⟩ := held
      obtain ⟨some, start, enough, stop⟩ := bounds entry listed
      have tight := keeps.tight entry listed
      unfold Tight at tight
      refine ⟨_, List.mem_map.mpr ⟨entry, listed, rfl⟩, placed.heap.blockAddr k, ?_, ?_⟩
      · rw [Area.has_iff]
        · unfold areaOf
          dsimp only
          omega
        · unfold areaOf
          dsimp only
          omega
      · change (_ - placed.heap.blockAddr k).toNat < 512
        rw [BitVec.sub_self]
        decide
    · rw [picture_of_free fun entry listed holds => held ⟨entry, listed, holds⟩] at taken
      cases taken
  · rintro ⟨area, member, addr, has, here⟩
    obtain ⟨entry, listed, rfl⟩ := List.mem_map.mp member
    obtain ⟨some, start, enough, stop⟩ := bounds entry listed
    rw [Area.has_iff (by unfold areaOf; dsimp only; omega)] at has
    rw [Area.has_iff (by unfold blockArea; dsimp only; omega)] at here
    unfold areaOf at has
    unfold blockArea at here
    dsimp only at has here
    have holds : entry.Holds k := ⟨by omega, by omega⟩
    rw [picture_of_holds keeps.pictured.apart listed holds]
    rfl

theorem own_inside (placed : PlacedHeap) :
    Inside (own placed) ⟨placed.header.toNat, placed.header.toNat + 32 + 12 * placed.heap.total⟩ := by
  unfold Inside own
  dsimp only
  omega

theorem own_listed (placed : PlacedHeap) :
    ⟨placed.header.toNat, placed.header.toNat + 32 + 12 * placed.heap.total⟩ ∈ placed.areas := List.mem_cons_self ..

theorem data_listed (placed : PlacedHeap) : data placed ∈ placed.areas :=
  List.mem_cons_of_mem _ (List.mem_cons_self ..)

theorem Formed.areas_le {placed : PlacedHeap} (formed : Formed placed) {area : Span} (member : area ∈ placed.areas) :
    area.hi ≤ 2 ^ 32 := by
  have table := formed.table
  have stop := formed.area
  simp only [PlacedHeap.areas, List.mem_cons, List.not_mem_nil, or_false] at member
  rcases member with rfl | rfl
  · dsimp only
    omega
  · exact stop

theorem own_apart_data {placed : PlacedHeap} (formed : Formed placed) {area : Area} (inside : Inside area (data placed)) :
    Area.Apart (own placed) area := by
  have table := formed.table
  have stop := formed.area
  refine apart_of_inside (own_inside placed) inside ?_ ?_ ?_
  · rw [Span.apart_iff]
    unfold data
    dsimp only
    omega
  · dsimp only
    omega
  · unfold data
    dsimp only
    omega

theorem Stands.others {placed : PlacedHeap} {memory after : Memory} {held : List Area} (stands : Stands placed memory held)
    (formed : Formed placed) (same : (own placed).Same memory after) : Stands placed after held := by
  obtain ⟨heap, live, keeps, rfl⟩ := stands
  obtain ⟨heap', keeps'⟩ := keeps.others formed same
  exact ⟨heap', live, keeps', rfl⟩

theorem serves_first {placed : PlacedHeap} {memory : Memory} (stands : Stands placed memory []) (formed : Formed placed)
    {size : BitVec 64} (some : size ≠ 0) (small : size.toNat + 512 ≤ 2 ^ 64)
    (room : (size.toNat + 511) / 512 ≤ placed.heap.total) : ∃ answer, allocAt memory placed.header size = Option.some answer ∧
      Serves placed memory answer.memory [⟨answer.ptr, size.toNat⟩] := by
  obtain ⟨heap, live, keeps, held⟩ := stands
  obtain rfl := List.map_eq_nil_iff.mp held
  have total := keeps.total
  have bytes := keeps.blockBytes formed
  have blocks := @needed_eq heap size (show _ + _ ≤ _ by omega) some
  rw [bytes] at blocks
  apply keeps.alloc_fits formed some small
  refine ⟨0, by omega, fun k _ below => ?_⟩
  rw [keeps.pictured.table k (by omega)]
  rfl

theorem card_le_held {live : List Live} (blocks : Finset Nat) (held : ∀ k ∈ blocks, ∃ entry ∈ live, entry.Holds k) :
    blocks.card ≤ (live.map fun entry => entry.stop - entry.start).sum := by
  induction live generalizing blocks with
  | nil =>
    have none : blocks = ∅ := Finset.eq_empty_of_forall_notMem fun k member => by simpa using held k member
    rw [none]
    exact Nat.zero_le _
  | cons entry rest ih =>
    have own : (blocks.filter fun k => entry.Holds k).card ≤ entry.stop - entry.start := by
      rw [← Nat.card_Ico]
      apply Finset.card_le_card
      intro k member
      rw [Finset.mem_Ico]
      exact (Finset.mem_filter.mp member).2
    have others := ih (blocks.filter fun k => ¬ entry.Holds k) fun k member => by
      obtain ⟨listed, free⟩ := Finset.mem_filter.mp member
      obtain ⟨other, among, holds⟩ := held k listed
      rcases List.mem_cons.mp among with rfl | later
      · exact (free holds).elim
      · exact ⟨other, later, holds⟩
    have split := @Finset.card_filter_add_card_filter_not _ blocks (fun k => entry.Holds k) _ _
    rw [List.map_cons, List.sum_cons]
    omega

/-- A request for a block finds one where the allocations take less than the table. -/
theorem Stands.fits_block (stands : Stands placed memory held) (formed : Formed placed) {size : BitVec 64} (some : size ≠ 0)
    (small : size.toNat ≤ 512) (room : (held.map fun area => (area.size + 511) / 512).sum < placed.heap.total) :
    ∃ heap live, Keeps placed memory heap live ∧ live.map (areaOf placed.heap) = held ∧
      ∃ start, Fits heap (heap.needed size) start := by
  obtain ⟨heap, live, keeps, rfl⟩ := stands
  have total := keeps.total
  have positive := BitVec.toNat_pos_of_ne_zero some
  have one := @needed_eq heap size (show _ + _ ≤ _ by rw [keeps.blockBytes formed]; omega) some
  rw [keeps.blockBytes formed] at one
  have blocks : ∀ entry ∈ live, ((fun area : Area => (area.size + 511) / 512) ∘ areaOf placed.heap) entry =
      entry.stop - entry.start := by
    intro entry listed
    have tight := keeps.tight entry listed
    have enough := keeps.pictured.enough entry listed
    have length : (areaOf placed.heap entry).size = entry.size.toNat := rfl
    unfold Tight at tight
    rw [keeps.blockBytes formed] at enough
    rw [Function.comp_apply]
    omega
  rw [List.map_map, List.map_congr_left blocks] at room
  refine ⟨heap, live, keeps, rfl, ?_⟩
  by_contra none
  have taken : ∀ k ∈ Finset.range heap.total, ∃ entry ∈ live, entry.Holds k := by
    intro k member
    have below := Finset.mem_range.mp member
    by_contra free
    refine none ⟨k, by omega, fun j low high => ?_⟩
    obtain rfl : j = k := by omega
    rw [keeps.pictured.table j below, picture_of_free fun entry listed holds => free ⟨entry, listed, holds⟩]
    rfl
  have count := card_le_held _ taken
  rw [Finset.card_range] at count
  omega

theorem Stands.serves_block (stands : Stands placed memory held) (formed : Formed placed) {size : BitVec 64} (some : size ≠ 0)
    (small : size.toNat ≤ 512) (room : (held.map fun area => (area.size + 511) / 512).sum < placed.heap.total) :
    ∃ answer, allocAt memory placed.header size = Option.some answer ∧
      Serves placed memory answer.memory (⟨answer.ptr, size.toNat⟩ :: held) := by
  obtain ⟨heap, live, keeps, rfl, fits⟩ := stands.fits_block formed some small room
  exact keeps.alloc_fits formed some (by omega) fits

end

end Ketone.MemManager.HeapMemory
