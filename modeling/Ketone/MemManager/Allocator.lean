import Ketone.Library.Align
import Ketone.Library.Loop

/-! The block allocator of the root and the low heap. A heap is a table of
blocks; a run of blocks handed out carries its own bounds in every entry. -/

namespace Ketone.MemManager.Allocator
open Library Library.Align Library.Loop

structure Allocation where
  isAllocated : Bool
  startBlock : BitVec 32
  endBlock : BitVec 32
deriving DecidableEq

/-- The entry `free` and the heap's setup leave behind. -/
def Allocation.cleared : Allocation := ⟨false, 0, 0⟩

/-- `blocks` answers for every index the code can form: the table itself, and
the memory that happens to follow it. -/
structure Heap where
  blockSize : BitVec 16
  startAddr : BitVec 64
  maxSize : BitVec 64
  blocks : Nat → Allocation
  blockSize_pos : 0 < blockSize.toNat

theorem sector_pos : 0 < (512 : BitVec 16).toNat := by decide

structure Run where
  start : Nat
  stop : Nat
deriving DecidableEq

/-- What a call leaves: the pointer returned, the heap, the blocks handed out
and the table entries read or written on the way. -/
structure Call where
  ptr : BitVec 64
  heap : Heap
  run : Option Run
  touched : List Nat

namespace Heap

def blockBytes (heap : Heap) : BitVec 64 := heap.blockSize.setWidth 64

def total (heap : Heap) : Nat := (heap.maxSize / heap.blockBytes).toNat

def needed (heap : Heap) (size : BitVec 64) : Nat :=
  ((size + heap.blockBytes - 1) / heap.blockBytes).toNat

def blockAddr (heap : Heap) (block : Nat) : BitVec 64 :=
  heap.startAddr + BitVec.ofNat 64 block * heap.blockBytes

def fill (heap : Heap) (start stop : Nat) (entry : Allocation) : Heap :=
  { heap with blocks := fun f => if start ≤ f ∧ f < stop then entry else heap.blocks f }

/-- The marking loop; both bounds are stored in 32 bits. -/
def mark (heap : Heap) (start stop : Nat) : Heap :=
  heap.fill start stop ⟨true, BitVec.ofNat 32 start, BitVec.ofNat 32 stop⟩

end Heap

/-- The run check: the offset of the first allocated block among `needed` from `i`. -/
def firstAllocated (heap : Heap) (i needed : Nat) : Option Nat :=
  (List.range needed).find? fun j => (heap.blocks (i + j)).isAllocated

def entriesFrom (i count : Nat) : List Nat := (List.range count).map (i + ·)

structure Search where
  i : Nat
  touched : List Nat

def Heap.Unused (heap : Heap) (start stop : Nat) : Prop :=
  ∀ k, start ≤ k → k < stop → (heap.blocks k).isAllocated = false

def refuse (heap : Heap) (touched : List Nat) : Call := ⟨0, heap, none, touched⟩

def grant (heap : Heap) (start needed : Nat) (touched : List Nat) : Call :=
  ⟨heap.blockAddr start, heap.mark start (start + needed), some ⟨start, start + needed⟩,
    touched ++ entriesFrom start needed⟩

def allocTurn (heap : Heap) (needed : Nat) (s : Search) : Turn Search Call :=
  if heap.total > s.i then
    if (heap.blocks s.i).isAllocated = false then
      match firstAllocated heap s.i needed with
      | none => .leave (grant heap s.i needed (s.touched ++ s.i :: entriesFrom s.i needed))
      -- the failed check steps once, and the end of the loop body once more
      | some j => .again ⟨s.i + 1 + 1, s.touched ++ s.i :: entriesFrom s.i (j + 1)⟩
    else if (heap.blocks s.i).endBlock.toNat > s.i then
      .again ⟨(heap.blocks s.i).endBlock.toNat, s.touched ++ [s.i]⟩
    else
      .again ⟨s.i + 1, s.touched ++ [s.i]⟩
  else .leave (refuse heap s.touched)

/-- No result stands for a search that never ends. -/
def alloc (heap : Heap) (size : BitVec 64) : Option Call :=
  if size = 0 then some (refuse heap [])
  else Loop.run (allocTurn heap (heap.needed size)) (heap.total + 2) ⟨0, []⟩

def alignedTurn (heap : Heap) (needed : Nat) (alignment : BitVec 64) (s : Search) : Turn Search Call :=
  if (s.i + needed) % 2 ^ 64 ≤ heap.total then
    let addr := heap.blockAddr s.i
    if addr &&& (alignment - 1) ≠ 0 then
      let aligned := (addr + alignment - 1) &&& ~~~(alignment - 1)
      .again ⟨((aligned - heap.startAddr + heap.blockBytes - 1) / heap.blockBytes).toNat, s.touched⟩
    else
      match firstAllocated heap s.i needed with
      | some j =>
          let touched := s.touched ++ entriesFrom s.i (j + 1)
          if (heap.blocks (s.i + j)).endBlock.toNat > s.i + j then
            .again ⟨(heap.blocks (s.i + j)).endBlock.toNat, touched⟩
          else .again ⟨s.i + j + 1, touched⟩
      | none => .leave (grant heap s.i needed (s.touched ++ entriesFrom s.i needed))
  else .leave (refuse heap s.touched)

def allocAligned (heap : Heap) (size alignment : BitVec 64) : Option Call :=
  if size = 0 then some (refuse heap [])
  else
    let alignment := orOne alignment
    if alignment &&& (alignment - 1) ≠ 0 then some (refuse heap [])
    else if heap.needed size > heap.total then some (refuse heap [])
    else Loop.run (alignedTurn heap (heap.needed size) alignment) (heap.total + 2) ⟨0, []⟩

def free (heap : Heap) (ptr : BitVec 64) : Heap :=
  if ptr = 0 then heap
  else
    let block := ((ptr - heap.startAddr) / heap.blockBytes).toNat
    heap.fill block (heap.blocks block).endBlock.toNat .cleared

section
variable (heap : Heap)

theorem toNat_blockBytes : heap.blockBytes.toNat = heap.blockSize.toNat := by
  simp only [Heap.blockBytes, BitVec.toNat_setWidth]
  omega

theorem blockBytes_pos : 0 < heap.blockBytes.toNat := by
  rw [toNat_blockBytes]
  exact heap.blockSize_pos

theorem total_eq : heap.total = heap.maxSize.toNat / heap.blockBytes.toNat := BitVec.toNat_udiv

theorem fill_empty {start stop : Nat} (empty : stop ≤ start) (entry : Allocation) :
    heap.fill start stop entry = heap := by
  have same : (fun f => if start ≤ f ∧ f < stop then entry else heap.blocks f) = heap.blocks := by
    funext f
    exact if_neg (by omega)
  unfold Heap.fill
  rw [same]

theorem total_mul_le : heap.total * heap.blockBytes.toNat ≤ heap.maxSize.toNat := by
  rw [total_eq]
  exact Nat.div_mul_le_self _ _

theorem total_lt : heap.total < 2 ^ 64 := (heap.maxSize / heap.blockBytes).isLt

/-- `size + block_size - 1` stays below `2^64`. -/
def Heap.NoWrap (size : BitVec 64) : Prop := size.toNat + heap.blockBytes.toNat ≤ 2 ^ 64

variable {heap} {size : BitVec 64}

theorem needed_eq (noWrap : heap.NoWrap size) (nonzero : size ≠ 0) :
    heap.needed size = (size.toNat + (heap.blockBytes.toNat - 1)) / heap.blockBytes.toNat := by
  have positive := blockBytes_pos heap
  have some : 0 < size.toNat := BitVec.toNat_pos_of_ne_zero nonzero
  unfold Heap.NoWrap at noWrap
  have sum : (size + heap.blockBytes - 1).toNat = size.toNat + (heap.blockBytes.toNat - 1) := by
    rw [BitVec.toNat_sub, BitVec.toNat_add]
    change (2 ^ 64 - 1 + _) % 2 ^ 64 = _
    omega
  rw [Heap.needed, BitVec.toNat_udiv, sum]

theorem needed_pos (noWrap : heap.NoWrap size) (nonzero : size ≠ 0) : 0 < heap.needed size := by
  have positive := blockBytes_pos heap
  have some : 0 < size.toNat := BitVec.toNat_pos_of_ne_zero nonzero
  rw [needed_eq noWrap nonzero]
  exact Nat.div_pos (by omega) positive

theorem size_le_needed (noWrap : heap.NoWrap size) (nonzero : size ≠ 0) :
    size.toNat ≤ heap.needed size * heap.blockBytes.toNat := by
  rw [needed_eq noWrap nonzero]
  exact le_roundUp (blockBytes_pos heap)

theorem toNat_blockOffset {block : Nat} (inside : block ≤ heap.total) :
    (BitVec.ofNat 64 block * heap.blockBytes).toNat = block * heap.blockBytes.toNat := by
  have bound := total_mul_le heap
  have le : block * heap.blockBytes.toNat ≤ heap.total * heap.blockBytes.toNat :=
    Nat.mul_le_mul_right _ inside
  have whole := heap.maxSize.isLt
  have index := total_lt heap
  have small : block % 2 ^ 64 = block := Nat.mod_eq_of_lt (by omega)
  rw [BitVec.toNat_mul, BitVec.toNat_ofNat, small, Nat.mod_eq_of_lt (by omega)]

theorem block_of_addr {block : Nat} (inside : block < heap.total) :
    ((heap.blockAddr block - heap.startAddr) / heap.blockBytes).toNat = block := by
  have positive := blockBytes_pos heap
  have offset : heap.blockAddr block - heap.startAddr = BitVec.ofNat 64 block * heap.blockBytes := by
    rw [Heap.blockAddr, BitVec.add_comm, BitVec.add_sub_cancel]
  rw [offset, BitVec.toNat_udiv, toNat_blockOffset inside.le, Nat.mul_div_cancel _ positive]

theorem free_blockAddr {block : Nat} (inside : block < heap.total)
    (nonnull : heap.blockAddr block ≠ 0) :
    free heap (heap.blockAddr block) =
      heap.fill block (heap.blocks block).endBlock.toNat .cleared := by
  rw [free, if_neg nonnull]
  simp only [block_of_addr inside]

end

section
variable {heap : Heap} {i n : Nat}

theorem firstAllocated_none (clear : firstAllocated heap i n = none) : heap.Unused i (i + n) := by
  intro k low high
  have all := List.find?_eq_none.mp clear (k - i) (List.mem_range.mpr (by omega))
  rwa [show i + (k - i) = k by omega, Bool.not_eq_true] at all

theorem firstAllocated_some {j : Nat} (hit : firstAllocated heap i n = some j) :
    j < n ∧ (heap.blocks (i + j)).isAllocated = true ∧ heap.Unused i (i + j) := by
  obtain ⟨taken, member, earlier⟩ := List.find?_range_eq_some.mp hit
  refine ⟨List.mem_range.mp member, taken, ?_⟩
  intro k low high
  have before := earlier (k - i) (by omega)
  rwa [show i + (k - i) = k by omega, Bool.not_eq_true'] at before

theorem mem_entriesFrom {k : Nat} : k ∈ entriesFrom i n ↔ i ≤ k ∧ k < i + n := by
  simp only [entriesFrom, List.mem_map, List.mem_range]
  constructor
  · rintro ⟨j, below, rfl⟩
    omega
  · rintro ⟨low, high⟩
    exact ⟨k - i, by omega, by omega⟩

/-- Everything one turn of `alloc`'s search can do. -/
theorem allocTurn_cases (heap : Heap) (n : Nat) (s : Search) :
    (heap.total ≤ s.i ∧ allocTurn heap n s = .leave (refuse heap s.touched)) ∨
    (s.i < heap.total ∧ (heap.blocks s.i).isAllocated = false ∧
      ((firstAllocated heap s.i n = none ∧ allocTurn heap n s =
          .leave (grant heap s.i n (s.touched ++ s.i :: entriesFrom s.i n))) ∨
        ∃ j, firstAllocated heap s.i n = some j ∧ allocTurn heap n s =
          .again ⟨s.i + 2, s.touched ++ s.i :: entriesFrom s.i (j + 1)⟩)) ∨
    (s.i < heap.total ∧ (heap.blocks s.i).isAllocated = true ∧ ∃ next,
      (next = s.i + 1 ∨ s.i < next ∧ next = (heap.blocks s.i).endBlock.toNat) ∧
      allocTurn heap n s = .again ⟨next, s.touched ++ [s.i]⟩) := by
  unfold allocTurn
  by_cases inside : heap.total > s.i
  · rw [if_pos inside]
    cases taken : (heap.blocks s.i).isAllocated with
    | false =>
      refine Or.inr (Or.inl ⟨inside, rfl, ?_⟩)
      rw [if_pos rfl]
      cases check : firstAllocated heap s.i n with
      | none => exact Or.inl ⟨rfl, rfl⟩
      | some j => exact Or.inr ⟨j, rfl, rfl⟩
    | true =>
      refine Or.inr (Or.inr ⟨inside, rfl, ?_⟩)
      rw [if_neg (by decide)]
      by_cases jump : (heap.blocks s.i).endBlock.toNat > s.i
      · exact ⟨_, Or.inr ⟨jump, rfl⟩, if_pos jump⟩
      · exact ⟨_, Or.inl rfl, if_neg jump⟩
  · exact Or.inl ⟨by omega, if_neg inside⟩

theorem allocTurn_again {heap : Heap} {n : Nat} {s next : Search} (turn : allocTurn heap n s = .again next) :
    s.i < heap.total ∧
    (((heap.blocks s.i).isAllocated = false ∧ ∃ j, firstAllocated heap s.i n = some j ∧
        next = ⟨s.i + 2, s.touched ++ s.i :: entriesFrom s.i (j + 1)⟩) ∨
      ((heap.blocks s.i).isAllocated = true ∧ ∃ i',
        (i' = s.i + 1 ∨ s.i < i' ∧ i' = (heap.blocks s.i).endBlock.toNat) ∧ next = ⟨i', s.touched ++ [s.i]⟩)) := by
  rcases allocTurn_cases heap n s with ⟨_, same⟩ | ⟨inside, free, ⟨_, same⟩ | ⟨j, hit, same⟩⟩ |
    ⟨inside, taken, i', step, same⟩
  · cases turn.symm.trans same
  · cases turn.symm.trans same
  · exact ⟨inside, Or.inl ⟨free, j, hit, Turn.again.inj (turn.symm.trans same)⟩⟩
  · exact ⟨inside, Or.inr ⟨taken, i', step, Turn.again.inj (turn.symm.trans same)⟩⟩

theorem allocTurn_leave {heap : Heap} {n : Nat} {s : Search} {call : Call} (turn : allocTurn heap n s = .leave call) :
    (heap.total ≤ s.i ∧ call = refuse heap s.touched) ∨
    (s.i < heap.total ∧ (heap.blocks s.i).isAllocated = false ∧ firstAllocated heap s.i n = none ∧
      call = grant heap s.i n (s.touched ++ s.i :: entriesFrom s.i n)) := by
  rcases allocTurn_cases heap n s with ⟨past, same⟩ | ⟨inside, free, ⟨clear, same⟩ | ⟨_, _, same⟩⟩ | ⟨_, _, _, _, same⟩
  · exact Or.inl ⟨past, Turn.leave.inj (turn.symm.trans same)⟩
  · exact Or.inr ⟨inside, free, clear, Turn.leave.inj (turn.symm.trans same)⟩
  · cases turn.symm.trans same
  · cases turn.symm.trans same

theorem allocTurn_grows {heap : Heap} {n : Nat} {s next : Search}
    (turn : allocTurn heap n s = .again next) : s.i < next.i ∧ s.i < heap.total := by
  rcases allocTurn_again turn with ⟨inside, ⟨_, j, _, rfl⟩ | ⟨_, i', step, rfl⟩⟩
  · exact ⟨by dsimp only; omega, inside⟩
  · exact ⟨by dsimp only; omega, inside⟩

theorem alloc_returns (heap : Heap) (size : BitVec 64) : ∃ call, alloc heap size = some call := by
  unfold alloc
  split
  · exact ⟨_, rfl⟩
  · apply run_ends (fun _ => True) (fun s : Search => heap.total - s.i)
    · intro s next _ turn
      have grows := allocTurn_grows turn
      exact ⟨trivial, by omega⟩
    · trivial
    · dsimp only; omega

/-- A call refuses and leaves the heap alone, or hands out a run whose blocks were
all free; `inside` says where such a run may lie. -/
def Settled (heap : Heap) (needed : Nat) (inside : Nat → Prop) (call : Call) : Prop :=
  (∃ touched, call = refuse heap touched) ∨ ∃ start touched, inside start ∧
    heap.Unused start (start + needed) ∧ call = grant heap start needed touched

/-- A run handed out by `alloc` starts inside the table. -/
theorem alloc_settled {size : BitVec 64} {call : Call} (done : alloc heap size = some call) :
    Settled heap (heap.needed size) (· < heap.total) call := by
  unfold alloc at done
  split at done
  · exact Or.inl ⟨[], (Option.some.inj done).symm⟩
  · refine run_invariant (fun _ => True) (Settled heap (heap.needed size) (· < heap.total))
      (fun _ _ _ _ => trivial) ?_ trivial done
    intro s result _ turn
    rcases allocTurn_leave turn with ⟨_, refused⟩ | ⟨inside, _, clear, granted⟩
    · exact Or.inl ⟨_, refused⟩
    · exact Or.inr ⟨s.i, _, inside, firstAllocated_none clear, granted⟩

end

section
variable {heap : Heap} {n k : Nat} {alignment : BitVec 64} {s : Search}

def slack (heap : Heap) (alignment : BitVec 64) (i : Nat) : Nat :=
  roundUp alignment.toNat (heap.blockAddr i).toNat - (heap.blockAddr i).toNat

theorem slack_lt (heap : Heap) (power : alignment.toNat = 2 ^ k) (i : Nat) :
    slack heap alignment i < 2 ^ k := by
  have near := roundUp_lt (n := (heap.blockAddr i).toNat) (Nat.two_pow_pos k)
  have positive := Nat.two_pow_pos k
  unfold slack
  rw [power]
  omega

theorem slack_pos (power : alignment.toNat = 2 ^ k) {i : Nat}
    (unaligned : ¬ 2 ^ k ∣ (heap.blockAddr i).toNat) : 0 < slack heap alignment i := by
  have up := le_roundUp (n := (heap.blockAddr i).toNat) (Nat.two_pow_pos k)
  have moves : roundUp (2 ^ k) (heap.blockAddr i).toNat ≠ (heap.blockAddr i).toNat :=
    fun same => unaligned (same ▸ dvd_roundUp)
  unfold slack
  rw [power]
  omega

def landing (heap : Heap) (alignment : BitVec 64) (i : Nat) : Nat :=
  (i * heap.blockBytes.toNat + slack heap alignment i + (heap.blockBytes.toNat - 1)) % 2 ^ 64 /
    heap.blockBytes.toNat

theorem jump_eq (power : alignment.toNat = 2 ^ k) {i : Nat} (inside : i ≤ heap.total) :
    ((((heap.blockAddr i + alignment - 1) &&& ~~~(alignment - 1)) - heap.startAddr +
        heap.blockBytes - 1) / heap.blockBytes).toNat = landing heap alignment i := by
  have positive := blockBytes_pos heap
  have addr : (heap.blockAddr i).toNat =
      (heap.startAddr.toNat + i * heap.blockBytes.toNat) % 2 ^ 64 := by
    rw [Heap.blockAddr, BitVec.toNat_add, toNat_blockOffset inside]
  have up := le_roundUp (n := (heap.blockAddr i).toNat) (Nat.two_pow_pos k)
  have aligned := toNat_mask_up power (heap.blockAddr i)
  have sum : (((heap.blockAddr i + alignment - 1) &&& ~~~(alignment - 1)) - heap.startAddr +
      heap.blockBytes - 1).toNat =
        (i * heap.blockBytes.toNat + slack heap alignment i + (heap.blockBytes.toNat - 1)) % 2 ^ 64 := by
    rw [BitVec.toNat_sub, BitVec.toNat_add, BitVec.toNat_sub, aligned, slack, power]
    change (2 ^ 64 - 1 + _) % 2 ^ 64 = _
    omega
  rw [BitVec.toNat_udiv, sum, landing]

/-- Everything one turn of the aligned search can do on a table of at most `2^61` blocks;
a larger one would not fit the address space. -/
theorem alignedTurn_cases (power : alignment.toNat = 2 ^ k) (roomy : heap.total ≤ 2 ^ 61)
    (fits : n ≤ heap.total) (bound : s.i < 2 ^ 63 + 2 ^ 62) :
    (heap.total < s.i + n ∧ alignedTurn heap n alignment s = .leave (refuse heap s.touched)) ∨
    (s.i + n ≤ heap.total ∧ ¬ 2 ^ k ∣ (heap.blockAddr s.i).toNat ∧
      alignedTurn heap n alignment s = .again ⟨landing heap alignment s.i, s.touched⟩) ∨
    (s.i + n ≤ heap.total ∧ 2 ^ k ∣ (heap.blockAddr s.i).toNat ∧
      ((firstAllocated heap s.i n = none ∧ ∃ touched,
          alignedTurn heap n alignment s = .leave (grant heap s.i n touched)) ∨
        ∃ j next touched, firstAllocated heap s.i n = some j ∧
          (next = s.i + j + 1 ∨ s.i + j < next ∧ next = (heap.blocks (s.i + j)).endBlock.toNat) ∧
          alignedTurn heap n alignment s = .again ⟨next, touched⟩)) := by
  have index : (s.i + n) % 2 ^ 64 = s.i + n := Nat.mod_eq_of_lt (by omega)
  unfold alignedTurn
  rw [index]
  by_cases inside : s.i + n ≤ heap.total
  · rw [if_pos inside]
    dsimp only
    by_cases aligned : heap.blockAddr s.i &&& (alignment - 1) = 0
    · refine Or.inr (Or.inr ⟨inside, (and_pred_eq_zero_iff power _).mp aligned, ?_⟩)
      rw [if_neg (not_not.mpr aligned)]
      cases check : firstAllocated heap s.i n with
      | none => exact Or.inl ⟨rfl, _, rfl⟩
      | some j =>
        refine Or.inr ⟨j, ?_⟩
        by_cases jump : (heap.blocks (s.i + j)).endBlock.toNat > s.i + j
        · exact ⟨_, _, rfl, Or.inr ⟨jump, rfl⟩, if_pos jump⟩
        · exact ⟨_, _, rfl, Or.inl rfl, if_neg jump⟩
    · refine Or.inr (Or.inl ⟨inside, fun divides => aligned ((and_pred_eq_zero_iff power _).mpr divides), ?_⟩)
      rw [if_pos aligned, jump_eq power (by omega)]
  · exact Or.inl ⟨by omega, if_neg inside⟩

theorem alignedTurn_again (power : alignment.toNat = 2 ^ k) (roomy : heap.total ≤ 2 ^ 61) (fits : n ≤ heap.total)
    (bound : s.i < 2 ^ 63 + 2 ^ 62) {next : Search} (turn : alignedTurn heap n alignment s = .again next) :
    s.i + n ≤ heap.total ∧
    ((¬ 2 ^ k ∣ (heap.blockAddr s.i).toNat ∧ next = ⟨landing heap alignment s.i, s.touched⟩) ∨
      ∃ j i' touched, firstAllocated heap s.i n = some j ∧
        (i' = s.i + j + 1 ∨ s.i + j < i' ∧ i' = (heap.blocks (s.i + j)).endBlock.toNat) ∧ next = ⟨i', touched⟩) := by
  rcases alignedTurn_cases power roomy fits bound with ⟨_, same⟩ | ⟨inside, unaligned, same⟩ |
    ⟨inside, _, ⟨_, _, same⟩ | ⟨j, i', touched, hit, step, same⟩⟩
  · cases turn.symm.trans same
  · exact ⟨inside, Or.inl ⟨unaligned, Turn.again.inj (turn.symm.trans same)⟩⟩
  · cases turn.symm.trans same
  · exact ⟨inside, Or.inr ⟨j, i', touched, hit, step, Turn.again.inj (turn.symm.trans same)⟩⟩

theorem alignedTurn_leave (power : alignment.toNat = 2 ^ k) (roomy : heap.total ≤ 2 ^ 61) (fits : n ≤ heap.total)
    (bound : s.i < 2 ^ 63 + 2 ^ 62) {call : Call} (turn : alignedTurn heap n alignment s = .leave call) :
    (heap.total < s.i + n ∧ call = refuse heap s.touched) ∨
    (s.i + n ≤ heap.total ∧ 2 ^ k ∣ (heap.blockAddr s.i).toNat ∧ firstAllocated heap s.i n = none ∧
      ∃ touched, call = grant heap s.i n touched) := by
  rcases alignedTurn_cases power roomy fits bound with ⟨past, same⟩ | ⟨_, _, same⟩ |
    ⟨inside, aligned, ⟨clear, touched, same⟩ | ⟨_, _, _, _, _, same⟩⟩
  · exact Or.inl ⟨past, Turn.leave.inj (turn.symm.trans same)⟩
  · cases turn.symm.trans same
  · exact Or.inr ⟨inside, aligned, clear, touched, Turn.leave.inj (turn.symm.trans same)⟩
  · cases turn.symm.trans same

theorem landing_lt (power : alignment.toNat = 2 ^ k) {i : Nat} (roomy : i ≤ 2 ^ 61) :
    landing heap alignment i < 2 ^ 63 + 2 ^ 62 := by
  have positive := blockBytes_pos heap
  have near := slack_lt heap power i
  have powerLe := power_le power
  unfold landing
  by_cases one : heap.blockBytes.toNat = 1
  · rw [one, Nat.div_one]
    omega
  · calc
      _ ≤ 2 ^ 64 / heap.blockBytes.toNat := Nat.div_le_div_right (Nat.mod_lt _ (by decide)).le
      _ ≤ 2 ^ 64 / 2 := Nat.div_le_div_left (by omega) (by decide)
      _ < 2 ^ 63 + 2 ^ 62 := by decide

theorem alignedTurn_bounded (power : alignment.toNat = 2 ^ k) (roomy : heap.total ≤ 2 ^ 61)
    (fits : n ≤ heap.total) (bound : s.i < 2 ^ 63 + 2 ^ 62) {next : Search}
    (turn : alignedTurn heap n alignment s = .again next) : next.i < 2 ^ 63 + 2 ^ 62 := by
  rcases alignedTurn_again power roomy fits bound turn with ⟨inside, ⟨_, rfl⟩ | ⟨j, i', _, hit, step, rfl⟩⟩
  · exact landing_lt power (by omega)
  · obtain ⟨below, _⟩ := firstAllocated_some hit
    have word := (heap.blocks (s.i + j)).endBlock.isLt
    dsimp only
    omega

theorem landing_eq (power : alignment.toNat = 2 ^ k) (small : heap.total ≤ 2 ^ 32) {i : Nat}
    (inside : i ≤ heap.total) : landing heap alignment i =
      (i * heap.blockBytes.toNat + slack heap alignment i + (heap.blockBytes.toNat - 1)) /
        heap.blockBytes.toNat := by
  have width := heap.blockSize.isLt
  have bytes := toNat_blockBytes heap
  have near := slack_lt heap power i
  have powerLe := power_le power
  have offset : i * heap.blockBytes.toNat ≤ 2 ^ 32 * heap.blockBytes.toNat :=
    Nat.mul_le_mul_right _ (by omega)
  rw [landing, Nat.mod_eq_of_lt (by omega)]

theorem alignedTurn_grows (power : alignment.toNat = 2 ^ k) (small : heap.total ≤ 2 ^ 32)
    (fits : n ≤ heap.total) (bound : s.i < 2 ^ 63 + 2 ^ 62) {next : Search}
    (turn : alignedTurn heap n alignment s = .again next) : s.i < next.i ∧ s.i ≤ heap.total := by
  have positive := blockBytes_pos heap
  rcases alignedTurn_again power (by omega) fits bound turn with ⟨inside, ⟨unaligned, rfl⟩ | ⟨j, i', _, hit, step, rfl⟩⟩
  · have moves := slack_pos power unaligned
    refine ⟨?_, by omega⟩
    dsimp only
    rw [landing_eq power small (by omega), ← Nat.succ_le_iff, Nat.le_div_iff_mul_le positive, Nat.succ_mul]
    omega
  · exact ⟨by dsimp only; omega, by omega⟩

/-- `alloc_aligned` returns on every table of at most `2^32` blocks. -/
theorem allocAligned_returns (small : heap.total ≤ 2 ^ 32) (size alignment : BitVec 64) :
    ∃ call, allocAligned heap size alignment = some call := by
  unfold allocAligned
  split
  · exact ⟨_, rfl⟩
  dsimp only
  split
  · exact ⟨_, rfl⟩
  next test =>
  split
  · exact ⟨_, rfl⟩
  next fits =>
  obtain ⟨k, power⟩ := power_of_orOne (by decide) (not_not.mp test)
  apply run_ends (fun s : Search => s.i < 2 ^ 63 + 2 ^ 62) (fun s : Search => heap.total + 1 - s.i)
  · intro s next bound turn
    have grows := alignedTurn_grows power small (by omega) bound turn
    exact ⟨alignedTurn_bounded power (by omega) (by omega) bound turn, by omega⟩
  · dsimp only; omega
  · dsimp only; omega

/-- A run handed out by `alloc_aligned` lies inside the table, at an aligned address. -/
theorem allocAligned_placed (roomy : heap.total ≤ 2 ^ 61) {size : BitVec 64} {call : Call}
    (done : allocAligned heap size alignment = some call) :
    Settled heap (heap.needed size) (fun start => start + heap.needed size ≤ heap.total ∧
      (orOne alignment).toNat ∣ (heap.blockAddr start).toNat) call := by
  unfold allocAligned at done
  split at done
  · exact Or.inl ⟨[], (Option.some.inj done).symm⟩
  dsimp only at done
  split at done
  · exact Or.inl ⟨[], (Option.some.inj done).symm⟩
  next test =>
  split at done
  · exact Or.inl ⟨[], (Option.some.inj done).symm⟩
  next fits =>
  obtain ⟨k, power⟩ := power_of_orOne (by decide) (not_not.mp test)
  refine run_invariant (fun s : Search => s.i < 2 ^ 63 + 2 ^ 62)
    (Settled heap (heap.needed size) (fun start => start + heap.needed size ≤ heap.total ∧
      (orOne alignment).toNat ∣ (heap.blockAddr start).toNat)) ?_ ?_ (by dsimp only; omega) done
  · intro s next bound turn
    exact alignedTurn_bounded power roomy (Nat.not_lt.mp fits) bound turn
  · intro s result bound turn
    rcases alignedTurn_leave power roomy (Nat.not_lt.mp fits) bound turn with ⟨_, refused⟩ |
      ⟨inside, aligned, clear, touched, granted⟩
    · exact Or.inl ⟨_, refused⟩
    · rw [← power] at aligned
      exact Or.inr ⟨s.i, touched, ⟨inside, aligned⟩, firstAllocated_none clear, granted⟩

theorem allocAligned_settled (roomy : heap.total ≤ 2 ^ 61) {size : BitVec 64} {call : Call}
    (done : allocAligned heap size alignment = some call) :
    Settled heap (heap.needed size) (· + heap.needed size ≤ heap.total) call := by
  rcases allocAligned_placed roomy done with refused | ⟨start, touched, ⟨inside, _⟩, unused, same⟩
  · exact Or.inl refused
  · exact Or.inr ⟨start, touched, inside, unused, same⟩

end

end Ketone.MemManager.Allocator
