import Ketone.MemManager.BumpRuns
import Ketone.MemManager.HeapMemory

/-! The bump heap as memory holds it. -/

namespace Ketone.MemManager.BumpMemory
open Library.Align Library.Ram Library.Cells BumpAllocator HeapMemory

/-- `bump_heap_t`. -/
def bumpRecord : Cell BumpHeap :=
  threeWords.as
    { toFun := fun fields => ⟨fields.1, fields.2.1, fields.2.2⟩
      invFun := fun heap => (heap.start, heap.next, heap.size)
      left_inv := fun _ => rfl
      right_inv := fun _ => rfl }

/-- Only the field `next` is stored to. -/
def bumpAllocAlignedAt (memory : Memory) (record size align : BitVec 64) : Answer :=
  if size = 0 then ⟨0, memory⟩
  else
    let align := orOne align
    if align &&& (align - 1) ≠ 0 then ⟨0, memory⟩
    else
      let heap := bumpRecord.load memory record
      let stop := heap.start + heap.size
      let addr := (heap.next + align - 1) &&& ~~~(align - 1)
      if addr > stop ∨ size > stop - addr then ⟨0, memory⟩
      else ⟨addr, u64.store memory (record + 8) (addr + size)⟩

section
variable {memory : Memory} {record : BitVec 64}

theorem load_next (next : BitVec 64) : bumpRecord.load (u64.store memory (record + 8) next) record =
    { bumpRecord.load memory record with next := next } := by
  have front := @Area.parts_apart record 0 8 8 8 le_rfl (by decide)
  have behind := @Area.parts_apart (record + 8) 0 8 8 8 le_rfl (by decide)
  rw [BitVec.add_zero] at front behind
  have start := @Cell.load_other _ _ u64 u64 memory record (record + 8) next front
  have size := @Cell.load_other _ _ u64 u64 memory (record + 8 + BitVec.ofNat 64 8) (record + 8) next behind.symm
  have same := u64.load_store memory (record + 8) next
  change (⟨u64.load _ record, u64.load _ (record + 8), u64.load _ (record + 8 + BitVec.ofNat 64 8)⟩ : BumpHeap) = _
  rw [start, size, same]
  rfl

/-- The call does to the record in memory what it does to the heap. -/
theorem bumpAllocAlignedAt_eq (size align : BitVec 64) :
    let call := bumpAllocAligned (bumpRecord.load memory record) size align
    let answer := bumpAllocAlignedAt memory record size align
    answer.ptr = call.ptr ∧ bumpRecord.load answer.memory record = call.heap ∧
      ∀ area, Area.Apart area (bumpRecord.area record) → area.Same memory answer.memory := by
  have kept : ∀ area : Area, Area.Apart area (bumpRecord.area record) → area.Same memory memory :=
    fun area _ => Area.Same.refl area memory
  unfold bumpAllocAligned bumpAllocAlignedAt
  dsimp only
  split
  · exact ⟨rfl, rfl, kept⟩
  split
  · exact ⟨rfl, rfl, kept⟩
  split
  · exact ⟨rfl, rfl, kept⟩
  · refine ⟨rfl, load_next _, fun area apart => u64.store_same (apart.mono (Area.Within.refl area) ?_)⟩
    exact @Area.part_within (bumpRecord.area record) 8 8 (show 16 ≤ 24 by decide) (show 24 ≤ _ by decide)

/-- What the callers of the bump heap hold lies between its start and `next`. -/
structure Handed (first : BumpHeap) (memory : Memory) (record : BitVec 64) (held : List Area) : Prop where
  later : BumpRuns.Later first (bumpRecord.load memory record)
  inside : ∀ area ∈ held, Inside area ⟨first.start.toNat, (bumpRecord.load memory record).next.toNat⟩
  apart : held.Pairwise Area.Apart

variable {first : BumpHeap} {held : List Area}

theorem Handed.others (handed : Handed first memory record held) {after : Memory}
    (same : (bumpRecord.area record).Same memory after) : Handed first after record held := by
  have load := bumpRecord.load_same _ _ _ same
  refine ⟨?_, ?_, handed.apart⟩
  · rw [load]
    exact handed.later
  · rw [load]
    exact handed.inside

/-- A call hands out a range behind all others, or nothing. Its caller may not receive the pointer. -/
theorem Handed.bumpAlloc (handed : Handed first memory record held) (size align : BitVec 64) :
    let answer := bumpAllocAlignedAt memory record size align
    Handed first answer.memory record held ∧ Handed first answer.memory record (take answer.ptr size held) := by
  intro answer
  obtain ⟨ptr, load, _⟩ := @bumpAllocAlignedAt_eq memory record size align
  have within := handed.later.within
  obtain ⟨within', start, width, forward⟩ := within_bump within size align
  rw [BitVec.le_def] at forward
  have later : BumpRuns.Later first (bumpRecord.load answer.memory record) := by
    rw [load]
    exact ⟨within', start.trans handed.later.start, width.trans handed.later.size⟩
  have low := within.low
  rw [BitVec.le_def, handed.later.start] at low
  have behind : ∀ area ∈ held,
      Inside area ⟨first.start.toNat, (bumpRecord.load answer.memory record).next.toNat⟩ := by
    intro area member
    obtain ⟨low, upTo⟩ := handed.inside area member
    rw [load]
    exact ⟨low, le_trans upTo forward⟩
  have kept : Handed first answer.memory record held := ⟨later, behind, handed.apart⟩
  refine ⟨kept, ?_⟩
  unfold take
  split
  · exact kept
  next nonnull =>
  rcases bumpAllocAligned_cases within size align with ⟨refused, _⟩ | ⟨k, addr, _, _, place, room, given⟩
  · rw [refused] at ptr
    exact (nonnull ptr).elim
  rw [given] at ptr load
  have up := le_roundUp (n := (bumpRecord.load memory record).next.toNat) (Nat.two_pow_pos k)
  have next := toNat_next within room
  have area := within.area
  unfold BumpHeap.stop at room
  have base : answer.ptr.toNat = addr.toNat := congrArg BitVec.toNat ptr
  refine ⟨later, ?_, ?_⟩
  · intro other member
    rcases List.mem_cons.mp member with rfl | old
    · rw [load]
      unfold Inside
      dsimp only
      omega
    · exact behind other old
  · refine List.pairwise_cons.mpr ⟨fun other old => ?_, handed.apart⟩
    obtain ⟨_, upTo⟩ := handed.inside other old
    dsimp only at upTo
    apply Area.Apart.symm
    apply Area.apart_of_le
    · dsimp only
      omega
    · dsimp only
      omega

end

end Ketone.MemManager.BumpMemory
