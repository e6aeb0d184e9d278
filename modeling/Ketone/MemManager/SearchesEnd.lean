import Ketone.MemManager.Allocator

/-! The loops of the allocator on a block table that may hold anything: each of the two searches moves on at every
turn, and the loop that clears a run comes to the end that it has read from the table. -/

namespace Ketone.MemManager.SearchesEnd
open Library.Align Library.Loop Allocator

structure Clearing where
  i : BitVec 64
  heap : Heap

def clearTurn (stop : BitVec 64) (s : Clearing) : Turn Clearing Heap :=
  if s.i < stop then .again ⟨s.i + 1, s.heap.fill s.i.toNat (s.i.toNat + 1) .cleared⟩ else .leave s.heap

/-- `free` with its loop. No result stands for a loop that never ends. -/
def freeLoop (heap : Heap) (ptr : BitVec 64) : Option Heap :=
  if ptr = 0 then some heap
  else
    let block := (ptr - heap.startAddr) / heap.blockBytes
    let stop := (heap.blocks block.toNat).endBlock.setWidth 64
    run (clearTurn stop) (stop.toNat + 1) ⟨block, heap⟩

section
variable (heap : Heap) (size alignment : BitVec 64)

/-- The states in which the search of a call of `alloc` starts a turn. -/
def AllocPasses (s : Search) : Prop :=
  size ≠ 0 ∧ ∃ k, nth (onward (allocTurn heap (heap.needed size))) k ⟨0, []⟩ = some s

/-- The states in which the search of a call of `alloc_aligned` starts a turn. -/
def AlignedPasses (s : Search) : Prop :=
  size ≠ 0 ∧ orOne alignment &&& (orOne alignment - 1) = 0 ∧ heap.needed size ≤ heap.total ∧
    ∃ k, nth (onward (alignedTurn heap (heap.needed size) (orOne alignment))) k ⟨0, []⟩ = some s

end

section
variable {heap : Heap}

theorem fill_fill {start middle stop : Nat} (low : start ≤ middle) (high : middle ≤ stop) (entry : Allocation) :
    (heap.fill start middle entry).fill middle stop entry = heap.fill start stop entry := by
  have blocks : (fun f => if middle ≤ f ∧ f < stop then entry else
      if start ≤ f ∧ f < middle then entry else heap.blocks f) =
        fun f => if start ≤ f ∧ f < stop then entry else heap.blocks f := by
    funext f
    by_cases above : middle ≤ f ∧ f < stop
    · rw [if_pos above, if_pos (by omega)]
    · rw [if_neg above]
      by_cases below : start ≤ f ∧ f < middle
      · rw [if_pos below, if_pos (by omega)]
      · rw [if_neg below, if_neg (by omega)]
  unfold Heap.fill
  dsimp only
  rw [blocks]

/-- From any turn on, the entries up to the end are still to be cleared. -/
theorem clear_run (stop : BitVec 64) {bound : Nat} {i : BitVec 64} (enough : stop.toNat - i.toNat < bound) :
    run (clearTurn stop) bound ⟨i, heap⟩ = some (heap.fill i.toNat stop.toNat .cleared) := by
  have word := stop.isLt
  induction bound generalizing heap i with
  | zero => cases enough
  | succ bound ih =>
    by_cases below : i < stop
    · have inside : i.toNat < stop.toNat := below
      have next : (i + 1).toNat = i.toNat + 1 := by
        rw [BitVec.toNat_add]
        change (_ + 1) % 2 ^ 64 = _
        omega
      have again : clearTurn stop ⟨i, heap⟩ = .again ⟨i + 1, heap.fill i.toNat (i.toNat + 1) .cleared⟩ := if_pos below
      calc
        _ = run (clearTurn stop) bound ⟨i + 1, heap.fill i.toNat (i.toNat + 1) .cleared⟩ := run_again bound again
        _ = some ((heap.fill i.toNat (i.toNat + 1) .cleared).fill (i.toNat + 1) stop.toNat .cleared) := by
          rw [ih (by omega), next]
        _ = _ := by rw [fill_fill (Nat.le_succ _) inside]
    · have past : stop.toNat ≤ i.toNat := Nat.not_lt.mp below
      have left : clearTurn stop ⟨i, heap⟩ = .leave heap := if_neg below
      rw [run_leave bound left, fill_empty heap past]

theorem freeLoop_eq (heap : Heap) (ptr : BitVec 64) : freeLoop heap ptr = some (free heap ptr) := by
  unfold freeLoop free
  by_cases null : ptr = 0
  · rw [if_pos null, if_pos null]
  · rw [if_neg null, if_neg null]
    dsimp only
    rw [clear_run _ (Nat.lt_succ_of_le (Nat.sub_le _ _)), BitVec.toNat_setWidth_of_le (by decide)]

variable {size alignment : BitVec 64} {s next : Search}

theorem aligned_moves (small : heap.total ≤ 2 ^ 32) (passes : AlignedPasses heap size alignment s)
    (turn : alignedTurn heap (heap.needed size) (orOne alignment) s = .again next) : s.i < next.i := by
  obtain ⟨_, test, fits, k, passed⟩ := passes
  obtain ⟨power, exact⟩ := power_of_orOne (by decide) test
  have low : s.i < 2 ^ 63 + 2 ^ 62 := by
    refine nth_keeps (fun s : Search => s.i < 2 ^ 63 + 2 ^ 62) ?_ (show (0 : Nat) < 2 ^ 63 + 2 ^ 62 by decide) passed
    intro state next bound step
    exact alignedTurn_bounded exact (by omega) fits bound (onward_eq_some.mp step)
  exact (alignedTurn_grows exact small fits low turn).1

end

/-- On every block table of a heap below 4 GiB, and for every size and alignment, the index of either search grows at
every turn, so that both calls return; and the loop of `free` ends for every pointer. -/
theorem allocator_loops_end (heap : Heap) (below : heap.startAddr.toNat + heap.maxSize.toNat ≤ 2 ^ 32)
    (size alignment ptr : BitVec 64) :
    (∀ s next, AllocPasses heap size s → allocTurn heap (heap.needed size) s = .again next → s.i < next.i) ∧
    (∃ call, alloc heap size = some call) ∧
    (∀ s next, AlignedPasses heap size alignment s →
      alignedTurn heap (heap.needed size) (orOne alignment) s = .again next → s.i < next.i) ∧
    (∃ call, allocAligned heap size alignment = some call) ∧
    freeLoop heap ptr = some (free heap ptr) := by
  have small : heap.total ≤ 2 ^ 32 := by
    calc
      _ = heap.maxSize.toNat / heap.blockBytes.toNat := total_eq heap
      _ ≤ heap.maxSize.toNat := Nat.div_le_self _ _
      _ ≤ _ := by omega
  refine ⟨?_, alloc_returns heap size, ?_, allocAligned_returns small size alignment, freeLoop_eq heap ptr⟩
  · intro s next _ turn
    exact (allocTurn_grows turn).1
  · intro s next passes turn
    exact aligned_moves small passes turn

/-- A heap of four blocks whose entries all claim to be taken up to the last block that can be named. -/
def damaged : Heap := ⟨512, 0x200000, 2048, fun _ => ⟨true, 0, 0xFFFFFFFF⟩, sector_pos⟩

theorem allocator_loops_end_damaged : (∃ call, allocAligned damaged 512 4096 = some call) ∧
    freeLoop damaged 0x200200 = some (free damaged 0x200200) := by
  obtain ⟨_, _, _, returns, clears⟩ := allocator_loops_end damaged (by decide) 512 4096 0x200200
  exact ⟨returns, clears⟩

end Ketone.MemManager.SearchesEnd
