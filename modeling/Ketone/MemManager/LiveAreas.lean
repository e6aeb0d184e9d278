import Ketone.Library.Ram
import Ketone.MemManager.FirstFit

/-! The bytes behind the pointers of a live set. -/

namespace Ketone.MemManager.LiveAreas
open Library.Ram Allocator BlockRuns AllocBounds FirstFit

def blocksOf (heap : Heap) (entry : Live) : Area :=
  ⟨heap.blockAddr entry.start, (entry.stop - entry.start) * heap.blockBytes.toNat⟩

/-- The bytes of a request lie in the blocks of an allocation. -/
structure Backs (heap : Heap) (entry : Live) (request : Area) : Prop where
  ptr : request.base = heap.blockAddr entry.start
  room : request.size ≤ (entry.stop - entry.start) * heap.blockBytes.toNat

section
variable {heap other : Heap} {live : List Live}

theorem Backs.same {entry : Live} {request : Area} (backs : Backs heap entry request) (same : SameRecord heap other) :
    Backs other entry request := by
  constructor
  · rw [same.blockAddr]
    exact backs.ptr
  · have bytes : other.blockBytes = heap.blockBytes := by
      unfold Heap.blockBytes
      rw [same.1]
    rw [bytes]
    exact backs.room

theorem Backs.has {entry : Live} {request : Area} (backs : Backs heap entry request) {addr : BitVec 64}
    (has : request.Has addr) : (blocksOf heap entry).Has addr := by
  unfold blocksOf Area.Has at *
  rw [backs.ptr] at has
  exact lt_of_lt_of_le has backs.room

theorem blocksOf_straight (area : heap.startAddr.toNat + heap.maxSize.toNat ≤ 2 ^ 64) {entry : Live}
    (some : entry.start < entry.stop) (inside : entry.stop ≤ heap.total) :
    (blocksOf heap entry).base.toNat = heap.startAddr.toNat + entry.start * heap.blockBytes.toNat ∧
      (blocksOf heap entry).base.toNat + (blocksOf heap entry).size =
        heap.startAddr.toNat + entry.stop * heap.blockBytes.toNat ∧
      heap.startAddr.toNat + entry.stop * heap.blockBytes.toNat ≤ 2 ^ 64 := by
  have addr := blockAddr_straight area (lt_of_lt_of_le some inside)
  have split : entry.stop * heap.blockBytes.toNat =
      entry.start * heap.blockBytes.toNat + (entry.stop - entry.start) * heap.blockBytes.toNat := by
    rw [← Nat.add_mul, Nat.add_sub_cancel' some.le]
  have whole := blockAddr_le area inside
  unfold blocksOf
  dsimp only
  omega

/-- Runs of the table that lie apart have their blocks apart. -/
theorem blocksOf_apart (pictured : Pictured heap live) (area : heap.startAddr.toNat + heap.maxSize.toNat ≤ 2 ^ 64) :
    live.Pairwise fun first second => Area.Apart (blocksOf heap first) (blocksOf heap second) := by
  apply List.Pairwise.imp_of_mem _ pictured.apart
  intro first second left right apart
  obtain ⟨some, inside⟩ := pictured.inside first left
  obtain ⟨some', inside'⟩ := pictured.inside second right
  have bounds := blocksOf_straight area some inside
  have bounds' := blocksOf_straight area some' inside'
  rcases apart with before | behind
  · have order : first.stop * heap.blockBytes.toNat ≤ second.start * heap.blockBytes.toNat :=
      Nat.mul_le_mul_right _ before
    exact Area.apart_of_le (by omega) (by omega)
  · have order : second.stop * heap.blockBytes.toNat ≤ first.start * heap.blockBytes.toNat :=
      Nat.mul_le_mul_right _ behind
    exact (Area.apart_of_le (by omega) (by omega)).symm

/-- A pointer that is handed out from inside the table is a new allocation. -/
theorem granted_live (pictured : Pictured heap live) {size : BitVec 64} (noWrap : heap.NoWrap size) (some : size ≠ 0)
    {call : Call} {inside : Nat → Prop} (settled : Settled heap (heap.needed size) inside call)
    (ends : EndsInside heap call) (nonnull : call.ptr ≠ 0) :
    ∃ entry, Backs heap entry ⟨call.ptr, size.toNat⟩ ∧ Pictured call.heap (entry :: live) ∧
      SameRecord heap call.heap := by
  have next := pictured_settled pictured settled ends (size_le_granted noWrap)
  have record := settled_record settled
  have needs := needed_pos noWrap some
  rcases settled with ⟨_, rfl⟩ | ⟨start, touched, _, _, rfl⟩
  · exact (nonnull rfl).elim
  · have grown : grow size (grant heap start (heap.needed size) touched) live =
        ⟨start, start + heap.needed size, size⟩ :: live := if_pos (show start < start + heap.needed size by omega)
    rw [grown] at next
    refine ⟨⟨start, start + heap.needed size, size⟩, ⟨rfl, ?_⟩, next, record⟩
    dsimp only
    rw [Nat.add_sub_cancel_left]
    exact size_le_granted noWrap

theorem allocAligned_ends (roomy : heap.total ≤ 2 ^ 61) {size alignment : BitVec 64} {call : Call}
    (done : allocAligned heap size alignment = some call) : EndsInside heap call := by
  rcases allocAligned_settled roomy done with ⟨_, rfl⟩ | ⟨start, touched, inside, _, rfl⟩
  · intro run given
    cases given
  · intro run given
    obtain rfl := Option.some.inj given
    exact inside

theorem alloc_ends {size : BitVec 64} (one : heap.needed size ≤ 1) {call : Call}
    (done : alloc heap size = some call) : EndsInside heap call := by
  rcases alloc_settled done with ⟨_, rfl⟩ | ⟨start, touched, inside, _, rfl⟩
  · intro run given
    cases given
  · intro run given
    obtain rfl := Option.some.inj given
    dsimp only
    omega

end

end Ketone.MemManager.LiveAreas
