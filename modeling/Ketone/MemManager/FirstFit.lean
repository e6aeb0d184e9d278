import Ketone.MemManager.AllocBounds

/-! Which run a search hands out. Every jump passes over allocated blocks or misaligned
addresses only, so both searches come to the lowest run that they accept. -/

namespace Ketone.MemManager.FirstFit
open Library Library.Align Library.Loop Allocator BlockRuns AllocBounds

/-- A heap in memory whose table is the picture of a live set. -/
structure WellFormed (heap : Heap) (live : List Live) : Prop where
  pictured : Pictured heap live
  placed : heap.startAddr ≠ 0
  table : 12 * heap.total ≤ 2 ^ 64
  area : heap.startAddr.toNat + heap.maxSize.toNat ≤ 2 ^ 64

theorem fourBlocks_formed : WellFormed fourBlocks [] := by
  constructor
  · exact pictured_cleared fun _ _ => rfl
  · decide
  · decide
  · decide

/-- A run of `n` free blocks inside the table whose address is a multiple of the alignment. -/
structure AlignedFit (heap : Heap) (alignment : BitVec 64) (n start : Nat) : Prop where
  fits : Fits heap n start
  aligned : alignment.toNat ∣ (heap.blockAddr start).toNat

/-- A run of free entries that starts inside the table, wherever it ends. -/
structure LooseFit (heap : Heap) (n start : Nat) : Prop where
  starts : start < heap.total
  free : (heap.blocks start).isAllocated = false
  unused : heap.Unused start (start + n)

structure Lowest (good : Nat → Prop) (start : Nat) : Prop where
  holds : good start
  least : ∀ other, good other → start ≤ other

theorem Lowest.unique {good : Nat → Prop} {first second : Nat} (left : Lowest good first)
    (right : Lowest good second) : first = second :=
  Nat.le_antisymm (left.least second right.holds) (right.least first left.holds)

section
variable {heap : Heap} {live : List Live}

/-- The end stored for an allocated block is at most the end of its run. -/
theorem pictured_jump (pictured : Pictured heap live) : JumpSound heap := by
  intro i j inside inside' taken le below
  have held : ∃ entry ∈ live, entry.Holds i := by
    by_contra none
    have free : ∀ entry ∈ live, ¬ entry.Holds i := fun entry member holds => none ⟨entry, member, holds⟩
    rw [pictured.table i inside, picture_of_free free] at taken
    simp [Allocation.cleared] at taken
  obtain ⟨entry, member, holds⟩ := held
  have stored : heap.blocks i = entry.entry := by
    rw [pictured.table i inside, picture_of_holds pictured.apart member holds]
  rw [stored] at below
  have cut : (BitVec.ofNat 32 entry.stop).toNat ≤ entry.stop := Nat.mod_le _ _
  have reaches : entry.Holds j := by
    constructor
    · exact le_trans holds.1 le
    · exact lt_of_lt_of_le below cut
  rw [pictured.table j inside', picture_of_holds pictured.apart member reaches]
  rfl

theorem loose_of_fits {n start : Nat} (some : 0 < n) (fits : Fits heap n start) : LooseFit heap n start := by
  have inside := fits.1
  exact ⟨by omega, fits.2 start le_rfl (by omega), fits.2⟩

theorem toNat_blockAddr {block : Nat} (inside : block ≤ heap.total) :
    (heap.blockAddr block).toNat = (heap.startAddr.toNat + block * heap.blockBytes.toNat) % 2 ^ 64 := by
  rw [Heap.blockAddr, BitVec.toNat_add, toNat_blockOffset inside]

theorem blockAddr_le (area : heap.startAddr.toNat + heap.maxSize.toNat ≤ 2 ^ 64) {block : Nat}
    (inside : block ≤ heap.total) : heap.startAddr.toNat + block * heap.blockBytes.toNat ≤ 2 ^ 64 := by
  have whole := total_mul_le heap
  have part : block * heap.blockBytes.toNat ≤ heap.total * heap.blockBytes.toNat := Nat.mul_le_mul_right _ inside
  omega

theorem blockAddr_lt (area : heap.startAddr.toNat + heap.maxSize.toNat ≤ 2 ^ 64) {block later : Nat}
    (below : block < later) (inside : later ≤ heap.total) :
    heap.startAddr.toNat + block * heap.blockBytes.toNat < 2 ^ 64 := by
  have positive := blockBytes_pos heap
  have whole := blockAddr_le area inside
  have grows : block * heap.blockBytes.toNat < later * heap.blockBytes.toNat :=
    Nat.mul_lt_mul_of_pos_right below positive
  omega

theorem blockAddr_straight (area : heap.startAddr.toNat + heap.maxSize.toNat ≤ 2 ^ 64) {block : Nat}
    (inside : block < heap.total) :
    (heap.blockAddr block).toNat = heap.startAddr.toNat + block * heap.blockBytes.toNat :=
  calc
    (heap.blockAddr block).toNat = (heap.startAddr.toNat + block * heap.blockBytes.toNat) % 2 ^ 64 :=
      toNat_blockAddr inside.le
    _ = heap.startAddr.toNat + block * heap.blockBytes.toNat :=
      Nat.mod_eq_of_lt (blockAddr_lt area inside le_rfl)

variable {alignment : BitVec 64} {k n : Nat} {s : Search}

/-- From a misaligned block the search jumps no further than to the next aligned one. -/
theorem landing_le (power : alignment.toNat = 2 ^ k) (area : heap.startAddr.toNat + heap.maxSize.toNat ≤ 2 ^ 64)
    {i fit : Nat} (inside : fit ≤ heap.total) (aligned : 2 ^ k ∣ (heap.blockAddr fit).toNat)
    (unaligned : ¬ 2 ^ k ∣ (heap.blockAddr i).toNat) (low : i ≤ fit) : landing heap alignment i ≤ fit := by
  have positive := blockBytes_pos heap
  have different : i ≠ fit := by
    intro same
    rw [same] at unaligned
    exact unaligned aligned
  have below : i < fit := by omega
  have addr := blockAddr_straight area (lt_of_lt_of_le below inside)
  have grows : i * heap.blockBytes.toNat ≤ fit * heap.blockBytes.toNat := Nat.mul_le_mul_right _ low
  -- the end of the table may be the end of the address space, a multiple of every power
  have multiple : 2 ^ k ∣ heap.startAddr.toNat + fit * heap.blockBytes.toNat := by
    have width : k ≤ 64 := by
      have bound := power_le power
      have exponent := (Nat.pow_le_pow_iff_right (by decide)).mp bound
      omega
    rw [toNat_blockAddr inside] at aligned
    exact (Nat.dvd_mod_iff (pow_dvd_pow 2 width)).mp aligned
  have up := roundUp_le multiple (show (heap.blockAddr i).toNat ≤ _ by omega)
  have reach : i * heap.blockBytes.toNat + slack heap alignment i ≤ fit * heap.blockBytes.toNat := by
    unfold slack
    rw [power]
    omega
  calc
    landing heap alignment i
      ≤ (i * heap.blockBytes.toNat + slack heap alignment i + (heap.blockBytes.toNat - 1)) /
          heap.blockBytes.toNat := Nat.div_le_div_right (Nat.mod_le _ _)
    _ ≤ (fit * heap.blockBytes.toNat + (heap.blockBytes.toNat - 1)) / heap.blockBytes.toNat :=
          Nat.div_le_div_right (by omega)
    _ = fit := by
          rw [Nat.add_comm, Nat.add_mul_div_right _ _ positive, Nat.div_eq_of_lt (by omega), Nat.zero_add]

theorem hit_below {i j fit : Nat} (hit : firstAllocated heap i n = some j) (low : i ≤ fit)
    (unused : heap.Unused fit (fit + n)) : i + j < fit := by
  obtain ⟨below, taken, _⟩ := firstAllocated_some hit
  by_contra far
  have free := unused (i + j) (by omega) (by omega)
  rw [taken] at free
  simp at free

theorem alignedTurn_below (jumps : JumpSound heap) (power : alignment.toNat = 2 ^ k)
    (leads : ∀ i fit, AlignedFit heap alignment n fit → ¬ 2 ^ k ∣ (heap.blockAddr i).toNat → i ≤ fit →
      landing heap alignment i ≤ fit)
    (roomy : heap.total ≤ 2 ^ 61) (fits : n ≤ heap.total) (bound : s.i < 2 ^ 63 + 2 ^ 62) {fit : Nat}
    (aligned : AlignedFit heap alignment n fit) (low : s.i ≤ fit) {next : Search}
    (turn : alignedTurn heap n alignment s = .again next) : next.i ≤ fit := by
  have inside := aligned.fits.1
  rcases alignedTurn_again power roomy fits bound turn with ⟨_, ⟨unaligned, rfl⟩ | ⟨j, i', _, hit, step, rfl⟩⟩
  · exact leads s.i fit aligned unaligned low
  · have short := hit_below hit low aligned.fits.2
    obtain ⟨below, taken, _⟩ := firstAllocated_some hit
    have free := aligned.fits.2 fit le_rfl (by omega)
    exact jump_le jumps (by omega) free short.le taken step

/-- What a call of `alloc_aligned` for some bytes does, whatever the table holds. -/
theorem allocAligned_lowest (jumps : JumpSound heap) (roomy : heap.total ≤ 2 ^ 61) {size : BitVec 64}
    (nonzero : size ≠ 0) (power : (orOne alignment).toNat = 2 ^ k)
    (leads : ∀ i fit, AlignedFit heap (orOne alignment) (heap.needed size) fit →
      ¬ 2 ^ k ∣ (heap.blockAddr i).toNat → i ≤ fit → landing heap (orOne alignment) i ≤ fit)
    {call : Call} (done : allocAligned heap size alignment = some call) :
    (∃ start touched, Lowest (AlignedFit heap (orOne alignment) (heap.needed size)) start ∧
      call = grant heap start (heap.needed size) touched) ∨
    (¬ ∃ start, AlignedFit heap (orOne alignment) (heap.needed size) start) ∧
      ∃ touched, call = refuse heap touched := by
  unfold allocAligned at done
  rw [if_neg nonzero] at done
  dsimp only at done
  have test : orOne alignment &&& (orOne alignment - 1) = 0 :=
    (and_pred_eq_zero _ (ne_zero_of_power power)).mpr ⟨k, power⟩
  rw [if_neg (not_not.mpr test)] at done
  by_cases many : heap.needed size > heap.total
  · rw [if_pos many] at done
    refine Or.inr ⟨?_, [], (Option.some.inj done).symm⟩
    intro fit
    obtain ⟨start, aligned⟩ := fit
    have inside := aligned.fits.1
    omega
  rw [if_neg many] at done
  have fits : heap.needed size ≤ heap.total := Nat.not_lt.mp many
  apply run_invariant (fun s : Search => s.i < 2 ^ 63 + 2 ^ 62 ∧
    ∀ fit, AlignedFit heap (orOne alignment) (heap.needed size) fit → s.i ≤ fit) _ ?_ ?_ ?_ done
  · intro s next bound turn
    constructor
    · exact alignedTurn_bounded power roomy fits bound.1 turn
    · intro fit aligned
      exact alignedTurn_below jumps power leads roomy fits bound.1 aligned (bound.2 fit aligned) turn
  · intro s result bound turn
    rcases alignedTurn_leave power roomy fits bound.1 turn with ⟨past, refused⟩ |
      ⟨inside, aligned, clear, touched, granted⟩
    · refine Or.inr ⟨?_, s.touched, refused⟩
      intro fit
      obtain ⟨start, aligned⟩ := fit
      have low := bound.2 start aligned
      have inside := aligned.fits.1
      omega
    · refine Or.inl ⟨s.i, touched, ⟨⟨⟨inside, firstAllocated_none clear⟩, ?_⟩, bound.2⟩, granted⟩
      rw [power]
      exact aligned
  · constructor
    · dsimp only
      omega
    · exact fun fit _ => Nat.zero_le fit

theorem allocTurn_below (jumps : JumpSound heap) {fit : Nat} (loose : LooseFit heap n fit) (low : s.i ≤ fit)
    {next : Search} (turn : allocTurn heap n s = .again next) : next.i ≤ fit := by
  rcases allocTurn_again turn with ⟨_, ⟨open_, j, hit, rfl⟩ | ⟨taken, i', step, rfl⟩⟩
  · have short := hit_below hit low loose.unused
    obtain ⟨_, taken, _⟩ := firstAllocated_some hit
    -- the first block of the check is free, so two steps do not pass the block that failed
    have moved : j ≠ 0 := by
      intro zero
      rw [zero, Nat.add_zero, open_] at taken
      simp at taken
    dsimp only
    omega
  · exact jump_le jumps loose.starts loose.free low taken step

/-- What a call of `alloc` for some bytes does, whatever the table holds. -/
theorem alloc_lowest (jumps : JumpSound heap) {size : BitVec 64} (nonzero : size ≠ 0) {call : Call}
    (done : alloc heap size = some call) :
    (∃ start touched, Lowest (LooseFit heap (heap.needed size)) start ∧
      call = grant heap start (heap.needed size) touched) ∨
    (¬ ∃ start, LooseFit heap (heap.needed size) start) ∧ ∃ touched, call = refuse heap touched := by
  apply run_invariant (fun s : Search => ∀ fit, LooseFit heap (heap.needed size) fit → s.i ≤ fit) _ ?_ ?_ ?_
    (alloc_run nonzero done)
  · intro s next bound turn fit loose
    exact allocTurn_below jumps loose (bound fit loose) turn
  · intro s result bound turn
    rcases allocTurn_leave turn with ⟨past, refused⟩ | ⟨below, open_, clear, granted⟩
    · refine Or.inr ⟨?_, s.touched, refused⟩
      intro fit
      obtain ⟨start, loose⟩ := fit
      have low := bound start loose
      have inside := loose.starts
      omega
    · exact Or.inl ⟨s.i, _, ⟨⟨below, open_, firstAllocated_none clear⟩, bound⟩, granted⟩
  · exact fun fit _ => Nat.zero_le fit

theorem blockAddr_ne_zero (placed : heap.startAddr ≠ 0)
    (area : heap.startAddr.toNat + heap.maxSize.toNat ≤ 2 ^ 64) {block : Nat} (inside : block < heap.total) :
    heap.blockAddr block ≠ 0 := by
  intro zero
  have start : 0 < heap.startAddr.toNat := BitVec.toNat_pos_of_ne_zero placed
  have addr := congrArg BitVec.toNat zero
  rw [blockAddr_straight area inside] at addr
  simp at addr
  omega

end

/-- On a heap below 4 GiB whose table is the picture of a live set, `alloc_aligned` hands out the lowest
aligned run of free blocks in the table, marks its blocks and no other, and returns the null pointer, with
the table as it was, exactly when there is none. -/
theorem aligned_first_fit (heap : Heap) (live : List Live) (pictured : Pictured heap live)
    (placed : heap.startAddr ≠ 0) (below : heap.startAddr.toNat + heap.maxSize.toNat ≤ 2 ^ 32) (size : BitVec 64)
    (some : size ≠ 0) (noWrap : heap.NoWrap size) (alignment : BitVec 64)
    (power : alignment = 0 ∨ ∃ k, alignment.toNat = 2 ^ k) :
    ∃ call, allocAligned heap size alignment = Option.some call ∧
      (∀ start, Lowest (AlignedFit heap (orOne alignment) (heap.needed size)) start →
        call.ptr = heap.blockAddr start ∧ SameRecord heap call.heap ∧
        ∀ f, call.heap.blocks f = if start ≤ f ∧ f < start + heap.needed size then
          ⟨true, BitVec.ofNat 32 start, BitVec.ofNat 32 (start + heap.needed size)⟩ else heap.blocks f) ∧
      (call.ptr = 0 ↔ ¬ ∃ start, AlignedFit heap (orOne alignment) (heap.needed size) start) ∧
      (call.ptr = 0 → call.heap = heap) := by
  have blocks := total_mul_le heap
  have positive := blockBytes_pos heap
  have count : heap.total ≤ heap.total * heap.blockBytes.toNat := Nat.le_mul_of_pos_right _ positive
  have area : heap.startAddr.toNat + heap.maxSize.toNat ≤ 2 ^ 64 := by omega
  have needs := needed_pos noWrap some
  have power' : ∃ k, (orOne alignment).toNat = 2 ^ k := by
    unfold orOne
    rcases power with rfl | ⟨k, power⟩
    · exact ⟨0, rfl⟩
    · rw [if_neg (ne_zero_of_power power)]
      exact ⟨k, power⟩
  obtain ⟨k, power'⟩ := power'
  obtain ⟨call, done⟩ := allocAligned_returns (show heap.total ≤ 2 ^ 32 by omega) size alignment
  refine ⟨call, done, ?_⟩
  have leads : ∀ i fit, AlignedFit heap (orOne alignment) (heap.needed size) fit →
      ¬ 2 ^ k ∣ (heap.blockAddr i).toNat → i ≤ fit → landing heap (orOne alignment) i ≤ fit := by
    intro i fit aligned unaligned low
    have inside := aligned.fits.1
    exact landing_le power' area (by omega) (power' ▸ aligned.aligned) unaligned low
  rcases allocAligned_lowest (pictured_jump pictured) (by omega) some power' leads done with
    ⟨start, touched, lowest, rfl⟩ | ⟨none, touched, rfl⟩
  · have inside := lowest.holds.fits.1
    have nonnull : heap.blockAddr start ≠ 0 := blockAddr_ne_zero placed area (by omega)
    refine ⟨?_, ?_, fun null => (nonnull null).elim⟩
    · intro other least
      obtain rfl := Lowest.unique lowest least
      exact ⟨rfl, ⟨rfl, rfl, rfl⟩, fun f => rfl⟩
    · constructor
      · exact fun null => (nonnull null).elim
      · exact fun none => (none ⟨start, lowest.holds⟩).elim
  · refine ⟨?_, ?_, fun _ => rfl⟩
    · exact fun start lowest => (none ⟨start, lowest.holds⟩).elim
    · exact ⟨fun _ => none, fun _ => rfl⟩

/-- Where two blocks are taken at 2 MiB, an aligned run of one block is the fourth block. -/
theorem aligned_first_fit_four_blocks :
    ∃ call, allocAligned secondCall.heap 512 512 = some call ∧ call.ptr = 0x200600 := by
  have pictured := (reach_pictured (by decide) (fun _ _ => rfl) reach_secondCall).2
  obtain ⟨call, done, given, _, _⟩ := aligned_first_fit secondCall.heap _ pictured (by decide) (by decide) 512
    (by decide) (show _ ≤ _ by decide) 512 (Or.inr ⟨9, rfl⟩)
  have lowest : Lowest (AlignedFit secondCall.heap (orOne 512) (secondCall.heap.needed 512)) 3 := by
    constructor
    · constructor
      · constructor
        · decide
        · intro k low high
          have last : k = 3 := by
            have bound : k < 4 := high
            omega
          rw [last]
          rfl
      · decide
    · intro other fit
      by_contra before
      have free := fit.fits.2 other le_rfl (show other < other + 1 by omega)
      have taken : ∀ k < 3, (secondCall.heap.blocks k).isAllocated = true := by decide
      rw [taken other (by omega)] at free
      simp at free
  exact ⟨call, done, (given 3 lowest).1⟩

/-- Whenever `alloc_aligned` finds a run at alignment 1, `alloc` returns the same pointer and leaves the same
table: it comes to the lowest free run in spite of its double step. -/
theorem alloc_agrees (heap : Heap) (live : List Live) (pictured : Pictured heap live)
    (table : 12 * heap.total ≤ 2 ^ 64) (size : BitVec 64) (some : size ≠ 0) (noWrap : heap.NoWrap size)
    (call : Call) (aligned : allocAligned heap size 1 = Option.some call) (nonnull : call.ptr ≠ 0) :
    ∃ other, alloc heap size = Option.some other ∧ other.ptr = call.ptr ∧ other.heap = call.heap ∧
      ∃ start, Lowest (Fits heap (heap.needed size)) start ∧ other.ptr = heap.blockAddr start := by
  have jumps := pictured_jump pictured
  have needs := needed_pos noWrap some
  have leads : ∀ i fit, AlignedFit heap (orOne 1) (heap.needed size) fit →
      ¬ 2 ^ 0 ∣ (heap.blockAddr i).toNat → i ≤ fit → landing heap (orOne 1) i ≤ fit :=
    fun i fit _ unaligned _ => (unaligned (one_dvd _)).elim
  rcases allocAligned_lowest jumps (by omega) some (show (orOne 1).toNat = 2 ^ 0 from rfl) leads aligned with
    ⟨start, touched, lowest, rfl⟩ | ⟨_, touched, rfl⟩
  · have lowestFit : Lowest (Fits heap (heap.needed size)) start := by
      constructor
      · exact lowest.holds.fits
      · exact fun other fits => lowest.least other ⟨fits, one_dvd _⟩
    obtain ⟨other, done⟩ := alloc_returns heap size
    rcases alloc_lowest jumps some done with ⟨first, touched', loose, rfl⟩ | ⟨none, _⟩
    · -- a free run below one that fits ends inside the table as well
      have low := loose.least start (loose_of_fits needs lowest.holds.fits)
      have inside := lowest.holds.fits.1
      have fits : Fits heap (heap.needed size) first := ⟨by omega, loose.holds.unused⟩
      obtain rfl : first = start := Nat.le_antisymm low (lowestFit.least first fits)
      exact ⟨_, done, rfl, rfl, first, lowestFit, rfl⟩
    · exact (none ⟨start, loose_of_fits needs lowest.holds.fits⟩).elim
  · exact (nonnull rfl).elim

/-- Both hand out the fourth of four blocks when the first three are taken. -/
theorem alloc_agrees_four_blocks :
    ∃ other, alloc secondCall.heap 512 = some other ∧ other.ptr = 0x200600 := by
  have pictured := (reach_pictured (by decide) (fun _ _ => rfl) reach_secondCall).2
  have aligned : allocAligned secondCall.heap 512 1 = some (grant secondCall.heap 3 1 [0, 2, 3]) := rfl
  obtain ⟨other, done, same, _⟩ := alloc_agrees secondCall.heap _ pictured (by decide) 512 (by decide)
    (show _ ≤ _ by decide) _ aligned (by decide)
  exact ⟨other, done, same⟩

end Ketone.MemManager.FirstFit
