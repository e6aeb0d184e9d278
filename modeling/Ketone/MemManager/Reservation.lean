import Ketone.MemManager.FirstFit

/-! What a pointer that is handed out stands for. The number of blocks is a quotient of a
sum in 64 bits: where the sum wraps, the search is for no block at all. -/

namespace Ketone.MemManager.Reservation
open Library Library.Align Library.Loop Allocator BlockRuns AllocBounds FirstFit

/-- The bytes asked for lie in blocks of the table, from the pointer on, that the call has turned from free
to allocated. -/
structure Reserved (heap : Heap) (size : BitVec 64) (call : Call) (start stop : Nat) : Prop where
  inside : stop ≤ heap.total
  ptr : call.ptr = heap.blockAddr start
  enough : size.toNat ≤ (stop - start) * heap.blockBytes.toNat
  free : heap.Unused start stop
  taken : ∀ k, start ≤ k → k < stop → (call.heap.blocks k).isAllocated = true

/-- A pointer has its bytes behind it, and the null pointer has cost nothing. -/
structure Reserves (heap : Heap) (size : BitVec 64) (call : Call) : Prop where
  granted : call.ptr ≠ 0 → ∃ start stop, Reserved heap size call start stop
  refused : call.ptr = 0 → ∀ k, k < heap.total → call.heap.blocks k = heap.blocks k

section
variable {heap : Heap} {live : List Live} {size alignment : BitVec 64}

theorem needed_wrapped (wraps : ¬ heap.NoWrap size) : heap.needed size = 0 := by
  have positive := blockBytes_pos heap
  have width := heap.blockSize.isLt
  have bytes := toNat_blockBytes heap
  have word := size.isLt
  unfold Heap.NoWrap at wraps
  have sum : (size + heap.blockBytes - 1).toNat = size.toNat + heap.blockBytes.toNat - 1 - 2 ^ 64 := by
    rw [BitVec.toNat_sub, BitVec.toNat_add]
    change (2 ^ 64 - 1 + _) % 2 ^ 64 = _
    omega
  rw [Heap.needed, BitVec.toNat_udiv, sum, Nat.div_eq_of_lt (by omega)]

theorem needed_zero : heap.needed 0 = 0 := by
  have positive := blockBytes_pos heap
  have width := heap.blockSize.isLt
  have bytes := toNat_blockBytes heap
  have sum : (0 + heap.blockBytes - 1).toNat = heap.blockBytes.toNat - 1 := by
    rw [BitVec.toNat_sub, BitVec.toNat_add]
    change (2 ^ 64 - 1 + (0 + _) % 2 ^ 64) % 2 ^ 64 = _
    omega
  rw [Heap.needed, BitVec.toNat_udiv, sum, Nat.div_eq_of_lt (by omega)]

theorem needed_le (noWrap : heap.NoWrap size) (nonzero : size ≠ 0) {blocks : Nat}
    (enough : size.toNat ≤ blocks * heap.blockBytes.toNat) : heap.needed size ≤ blocks := by
  have positive := blockBytes_pos heap
  rw [needed_eq noWrap nonzero, ← Nat.lt_succ_iff, Nat.div_lt_iff_lt_mul positive, Nat.succ_mul]
  omega

theorem nonzero_of_wrap (wraps : ¬ heap.NoWrap size) : 0 < size.toNat := by
  have width := heap.blockSize.isLt
  have bytes := toNat_blockBytes heap
  unfold Heap.NoWrap at wraps
  omega

theorem refuse_reserves (touched : List Nat) : Reserves heap size (refuse heap touched) :=
  ⟨fun nonnull => (nonnull rfl).elim, fun _ _ _ => rfl⟩

theorem grant_reserves (noWrap : heap.NoWrap size) (nonzero : size ≠ 0) (placed : heap.startAddr ≠ 0)
    (area : heap.startAddr.toNat + heap.maxSize.toNat ≤ 2 ^ 64) {start : Nat}
    (fits : Fits heap (heap.needed size) start) (touched : List Nat) :
    Reserves heap size (grant heap start (heap.needed size) touched) := by
  have some := needed_pos noWrap nonzero
  have inside := fits.1
  constructor
  · intro _
    refine ⟨start, start + heap.needed size, inside, rfl, ?_, fits.2, ?_⟩
    · rw [Nat.add_sub_cancel_left]
      exact size_le_needed noWrap nonzero
    · intro k low high
      exact congrArg Allocation.isAllocated (if_pos ⟨low, high⟩)
  · exact fun null => (blockAddr_ne_zero placed area (show start < heap.total by omega) null).elim

theorem reserved_run (nonzero : 0 < size.toNat) {start : Nat} (starts : start < heap.total) {n : Nat}
    {touched : List Nat} {first stop : Nat} (reserved : Reserved heap size (grant heap start n touched) first stop) :
    first = start ∧ start < stop ∧ stop ≤ start + n := by
  have positive := blockBytes_pos heap
  have some : first < stop := by
    by_contra empty
    have enough := reserved.enough
    rw [Nat.sub_eq_zero_of_le (Nat.not_lt.mp empty), Nat.zero_mul] at enough
    omega
  have inside := reserved.inside
  have same : first = start := by
    have index := congrArg (fun addr => ((addr - heap.startAddr) / heap.blockBytes).toNat) reserved.ptr
    simp only [grant] at index
    rw [block_of_addr starts, block_of_addr (by omega)] at index
    exact index.symm
  subst same
  have last := reserved.taken (stop - 1) (by omega) (by omega)
  have free := reserved.free (stop - 1) (by omega) (by omega)
  have within : first ≤ stop - 1 ∧ stop - 1 < first + n := by
    by_contra outside
    have kept : (grant heap first n touched).heap.blocks (stop - 1) = heap.blocks (stop - 1) := if_neg outside
    rw [kept, free] at last
    simp at last
  exact ⟨rfl, some, by omega⟩

/-- `alloc`: nothing free is found, or the size does not wrap and some run of free blocks has room for it. -/
def AllocServes (heap : Heap) (size : BitVec 64) : Prop :=
  (¬ ∃ start, LooseFit heap (heap.needed size) start) ∨
    heap.NoWrap size ∧ ∃ start, Fits heap (heap.needed size) start

/-- `alloc_aligned`: the size does not wrap, or no address of the table or of its end has the alignment. -/
def AlignedServes (heap : Heap) (size alignment : BitVec 64) : Prop :=
  heap.NoWrap size ∨ (¬ ∃ k, (orOne alignment).toNat = 2 ^ k) ∨
    ∀ start, start ≤ heap.total → (orOne alignment).toNat ∣ (heap.blockAddr start).toNat → heap.blockAddr start = 0

theorem alloc_reserves_iff (formed : WellFormed heap live) {call : Call} (done : alloc heap size = some call) :
    Reserves heap size call ↔ AllocServes heap size := by
  by_cases zero : size = 0
  · subst zero
    unfold alloc at done
    rw [if_pos rfl] at done
    obtain rfl := Option.some.inj done
    have wide := heap.blockBytes.isLt
    apply iff_of_true (refuse_reserves [])
    refine Or.inr ⟨show 0 + heap.blockBytes.toNat ≤ 2 ^ 64 by omega, 0, ?_⟩
    rw [needed_zero]
    exact ⟨Nat.zero_le _, fun k _ high => absurd high (Nat.not_lt_zero k)⟩
  have positive : 0 < size.toNat := Nat.pos_of_ne_zero fun same => zero (BitVec.eq_of_toNat_eq (by simpa using same))
  rcases alloc_lowest (pictured_jump formed.pictured) zero done with ⟨start, touched, lowest, rfl⟩ | ⟨none, touched, rfl⟩
  · have starts := lowest.holds.starts
    have nonnull := blockAddr_ne_zero formed.placed formed.area starts
    constructor
    · intro reserves
      obtain ⟨first, stop, reserved⟩ := reserves.granted nonnull
      obtain ⟨rfl, some, ends⟩ := reserved_run positive starts reserved
      have noWrap : heap.NoWrap size := by
        by_contra wraps
        rw [needed_wrapped wraps] at ends
        omega
      have enough := needed_le noWrap zero reserved.enough
      have inside := reserved.inside
      exact Or.inr ⟨noWrap, first, by omega, lowest.holds.unused⟩
    · intro serves
      rcases serves with none | ⟨noWrap, fit, fits⟩
      · exact (none ⟨start, lowest.holds⟩).elim
      · have low := lowest.least fit (loose_of_fits (needed_pos noWrap zero) fits)
        have inside := fits.1
        exact grant_reserves noWrap zero formed.placed formed.area ⟨by omega, lowest.holds.unused⟩ touched
  · exact iff_of_true (refuse_reserves touched) (Or.inl none)

/-- A call for no block returns the lowest aligned address of the table or of its end. -/
theorem aligned_wrapped_iff (formed : WellFormed heap live) {k : Nat} (power : (orOne alignment).toNat = 2 ^ k)
    (wraps : ¬ heap.NoWrap size) {call : Call} (done : allocAligned heap size alignment = some call) :
    Reserves heap size call ↔ ∀ start, start ≤ heap.total →
      (orOne alignment).toNat ∣ (heap.blockAddr start).toNat → heap.blockAddr start = 0 := by
  have table := formed.table
  have area := formed.area
  have positive := nonzero_of_wrap wraps
  have bytes := blockBytes_pos heap
  have nonzero : size ≠ 0 := by
    intro zero
    rw [zero] at positive
    simp at positive
  have none := needed_wrapped wraps
  have every : ∀ start, AlignedFit heap (orOne alignment) (heap.needed size) start ↔
      start ≤ heap.total ∧ (orOne alignment).toNat ∣ (heap.blockAddr start).toNat := by
    intro start
    rw [none]
    constructor
    · exact fun fit => ⟨fit.fits.1, fit.aligned⟩
    · exact fun fit => ⟨⟨fit.1, fun k low high => by omega⟩, fit.2⟩
  rcases allocAligned_lowest (pictured_jump formed.pictured) (by omega) nonzero power
    (fun i fit aligned unaligned low => landing_le power area ((every fit).mp aligned).1
      (power ▸ aligned.aligned) unaligned low) done with ⟨start, touched, lowest, rfl⟩ | ⟨refused, touched, rfl⟩
  · obtain ⟨inside, aligned⟩ := (every start).mp lowest.holds
    rw [none]
    have same : (grant heap start 0 touched).heap = heap := fill_empty heap (by omega) _
    constructor
    · intro reserves other within divides
      by_cases null : heap.blockAddr start = 0
      · -- only the end of the address space has the number 0
        have low := lowest.least other ((every other).mpr ⟨within, divides⟩)
        have first : heap.startAddr.toNat ≠ 0 := fun same => formed.placed (BitVec.eq_of_toNat_eq (by simpa using same))
        have grows : start * heap.blockBytes.toNat ≤ other * heap.blockBytes.toNat := Nat.mul_le_mul_right _ low
        have end_ := blockAddr_le area within
        have zero : (heap.blockAddr start).toNat = 0 := congrArg BitVec.toNat null
        rw [toNat_blockAddr inside] at zero
        apply BitVec.eq_of_toNat_eq
        change _ = 0
        rw [toNat_blockAddr within]
        omega
      · obtain ⟨first, stop, reserved⟩ := reserves.granted null
        have some : first < stop := by
          by_contra empty
          have enough := reserved.enough
          rw [Nat.sub_eq_zero_of_le (Nat.not_lt.mp empty), Nat.zero_mul] at enough
          omega
        have free := reserved.free first le_rfl some
        have taken := reserved.taken first le_rfl some
        rw [same, free] at taken
        simp at taken
    · intro zero
      constructor
      · exact fun nonnull => (nonnull (zero start inside aligned)).elim
      · intro _ k _
        rw [same]
  · apply iff_of_true (refuse_reserves touched)
    intro start inside divides
    exact (refused ⟨start, (every start).mpr ⟨inside, divides⟩⟩).elim

theorem aligned_reserves_iff (formed : WellFormed heap live) {call : Call}
    (done : allocAligned heap size alignment = some call) :
    Reserves heap size call ↔ AlignedServes heap size alignment := by
  have table := formed.table
  by_cases power : ∃ k, (orOne alignment).toNat = 2 ^ k
  · by_cases noWrap : heap.NoWrap size
    · refine iff_of_true ?_ (Or.inl noWrap)
      by_cases zero : size = 0
      · unfold allocAligned at done
        rw [if_pos zero] at done
        obtain rfl := Option.some.inj done
        exact refuse_reserves []
      rcases allocAligned_settled (by omega) done with ⟨touched, rfl⟩ | ⟨start, touched, inside, unused, rfl⟩
      · exact refuse_reserves touched
      · exact grant_reserves noWrap zero formed.placed formed.area ⟨inside, unused⟩ touched
    · have powers := power
      obtain ⟨k, power⟩ := power
      rw [aligned_wrapped_iff formed power noWrap done]
      unfold AlignedServes
      tauto
  · have refused : call = refuse heap [] := by
      unfold allocAligned at done
      split at done
      · exact (Option.some.inj done).symm
      dsimp only at done
      by_cases test : orOne alignment &&& (orOne alignment - 1) ≠ 0
      · rw [if_pos test] at done
        exact (Option.some.inj done).symm
      · exact (power (power_of_orOne (by decide) (not_not.mp test))).elim
    rw [refused]
    exact iff_of_true (refuse_reserves []) (Or.inr (Or.inl power))

end

/-- For every size: a pointer that `alloc` or `alloc_aligned` returns has the bytes asked for reserved behind it,
and a null pointer leaves the table alone, exactly when the rounding sum does not wrap and the run lies in
the table, or nothing is found. -/
theorem grant_reserved_iff (heap : Heap) (live : List Live) (formed : WellFormed heap live) (size : BitVec 64) :
    (∀ call, alloc heap size = some call → (Reserves heap size call ↔ AllocServes heap size)) ∧
    ∀ alignment call, allocAligned heap size alignment = some call →
      (Reserves heap size call ↔ AlignedServes heap size alignment) :=
  ⟨fun _ done => alloc_reserves_iff formed done, fun _ _ done => aligned_reserves_iff formed done⟩

/-- A request for `2^64 - 1` bytes is granted by both allocators, and no block is marked. -/
theorem largest_request_granted :
    WellFormed fourBlocks [] ∧ alloc fourBlocks 0xFFFFFFFFFFFFFFFF = some (grant fourBlocks 0 0 [0]) ∧
      allocAligned fourBlocks 0xFFFFFFFFFFFFFFFF 1 = some (grant fourBlocks 0 0 []) ∧
      ¬ Reserves fourBlocks 0xFFFFFFFFFFFFFFFF (grant fourBlocks 0 0 [0]) ∧
      ¬ Reserves fourBlocks 0xFFFFFFFFFFFFFFFF (grant fourBlocks 0 0 []) := by
  have empty : ∀ touched, ¬ Reserves fourBlocks 0xFFFFFFFFFFFFFFFF (grant fourBlocks 0 0 touched) := by
    intro touched reserves
    obtain ⟨first, stop, reserved⟩ := reserves.granted (show fourBlocks.blockAddr 0 ≠ 0 by decide)
    have run := reserved_run (by decide) (by decide) reserved
    omega
  exact ⟨fourBlocks_formed, rfl, rfl, empty [0], empty []⟩

/-- A request for 600 bytes of the same heap is reserved. -/
theorem small_request_reserved : Reserves fourBlocks 600 firstCall := by
  have exact_ := (grant_reserved_iff fourBlocks [] fourBlocks_formed 600).1 firstCall rfl
  exact exact_.mpr (Or.inr ⟨show _ ≤ _ by decide, 0, by decide, fun _ _ _ => rfl⟩)

end Ketone.MemManager.Reservation
