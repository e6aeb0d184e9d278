import Ketone.MemManager.BlockRuns

/-! How far a call of `alloc` reaches. The search bounds the block a run starts
at, not the block it ends at, so what the last block holds decides. -/

namespace Ketone.MemManager.AllocBounds
open Library Library.Loop Allocator BlockRuns

/-! The memory behind the table may hold anything, so only entries inside it are described.
Ends are stored in 32 bits: a cut end makes `free` leave blocks behind, and those
must not send a search past a free block. -/

structure Sound (heap : Heap) (live : List Live) : Prop where
  apart : live.Pairwise Live.Apart
  starts : ∀ entry ∈ live, entry.start < entry.stop ∧ entry.start < heap.total
  held : ∀ entry ∈ live, ∀ k, k < heap.total → entry.Holds k → heap.blocks k = entry.entry
  stale : ∀ k, k < heap.total → (heap.blocks k).isAllocated = true →
    (∃ entry ∈ live, entry.Holds k) ∨ (heap.blocks k).endBlock.toNat ≤ k

/-- A jump to the stored end passes over allocated blocks only. -/
def JumpSound (heap : Heap) : Prop :=
  ∀ i j, i < heap.total → j < heap.total → (heap.blocks i).isAllocated = true → i ≤ j →
    j < (heap.blocks i).endBlock.toNat → (heap.blocks j).isAllocated = true

section
variable {heap : Heap} {live : List Live}

theorem sound_jump (sound : Sound heap live) : JumpSound heap := by
  intro i j inside inside' taken le below
  rcases sound.stale i inside taken with ⟨entry, member, holds⟩ | stale
  · have stored := sound.held entry member i inside holds
    rw [stored] at below
    have cut : (BitVec.ofNat 32 entry.stop).toNat ≤ entry.stop := Nat.mod_le _ _
    have reaches : entry.Holds j := ⟨by have := holds.1; omega, lt_of_lt_of_le below cut⟩
    rw [sound.held entry member j inside' reaches]
    rfl
  · omega

theorem sound_mark (sound : Sound heap live) (entry : Live)
    (unused : heap.Unused entry.start entry.stop) (some : entry.start < entry.stop)
    (inside : entry.start < heap.total) :
    Sound (heap.mark entry.start entry.stop) (entry :: live) := by
  have separate : ∀ other ∈ live, Live.Apart entry other := by
    intro other member
    by_contra meets
    have bounds := sound.starts other member
    unfold Live.Apart at meets
    -- two runs that meet behind the table also meet at its last block
    have shared : other.Holds (max entry.start other.start) := ⟨by omega, by omega⟩
    have free := unused (max entry.start other.start) (by omega) (by omega)
    rw [sound.held other member _ (by omega) shared] at free
    simp [Live.entry] at free
  refine ⟨List.pairwise_cons.mpr ⟨separate, sound.apart⟩, ?_, ?_, ?_⟩
  · intro other member
    rcases List.mem_cons.mp member with rfl | old
    · exact ⟨some, inside⟩
    · exact sound.starts other old
  · intro other member k below holds
    rcases List.mem_cons.mp member with rfl | old
    · exact if_pos holds
    · have outside : ¬ entry.Holds k := by
        have clear := separate other old
        unfold Live.Apart at clear
        unfold Live.Holds at holds ⊢
        omega
      rw [← sound.held other old k below holds]
      exact if_neg outside
  · intro k below taken
    by_cases holds : entry.Holds k
    · exact Or.inl ⟨entry, List.mem_cons_self .., holds⟩
    · have same : (heap.mark entry.start entry.stop).blocks k = heap.blocks k := if_neg holds
      rw [same] at taken ⊢
      rcases sound.stale k below taken with ⟨other, member, held⟩ | stale
      · exact Or.inl ⟨other, List.mem_cons_of_mem _ member, held⟩
      · exact Or.inr stale

theorem sound_clear (sound : Sound heap live) {entry : Live} (member : entry ∈ live) :
    Sound (heap.fill entry.start (BitVec.ofNat 32 entry.stop).toNat .cleared) (live.erase entry) := by
  have cut : (BitVec.ofNat 32 entry.stop).toNat ≤ entry.stop := Nat.mod_le _ _
  have whole := cons_erase_pairwise sound.apart member
  refine ⟨(List.pairwise_cons.mp whole).2, ?_, ?_, ?_⟩
  · exact fun other old => sound.starts other (List.mem_of_mem_erase old)
  · intro other old k below holds
    have clear := (List.pairwise_cons.mp whole).1 other old
    unfold Live.Apart at clear
    rw [← sound.held other (List.mem_of_mem_erase old) k below holds]
    exact if_neg (by unfold Live.Holds at holds; omega)
  · intro k below taken
    by_cases cleared : entry.start ≤ k ∧ k < (BitVec.ofNat 32 entry.stop).toNat
    · have zero : (heap.fill entry.start (BitVec.ofNat 32 entry.stop).toNat .cleared).blocks k =
          .cleared := if_pos cleared
      rw [zero] at taken
      simp [Allocation.cleared] at taken
    · have same : (heap.fill entry.start (BitVec.ofNat 32 entry.stop).toNat .cleared).blocks k =
          heap.blocks k := if_neg cleared
      rw [same] at taken ⊢
      rcases sound.stale k below taken with ⟨other, old, holds⟩ | stale
      · by_cases self : other = entry
        · subst self
          rw [sound.held other old k below holds]
          exact Or.inr (by simp only [Live.entry]; have := holds.1; omega)
        · exact Or.inl ⟨other, (List.mem_erase_of_ne self).mpr old, holds⟩
      · exact Or.inr stale

theorem sound_settled (sound : Sound heap live) {size : BitVec 64} {n : Nat} {call : Call}
    {inside : Nat → Prop} (settled : Settled heap n inside call)
    (starts : ∀ start, inside start → 0 < n → start < heap.total) :
    Sound call.heap (grow size call live) := by
  rcases settled with ⟨touched, rfl⟩ | ⟨start, touched, inside', unused, rfl⟩
  · exact sound
  · simp only [grow, grant]
    by_cases some : start < start + n
    · rw [if_pos some]
      exact sound_mark sound ⟨start, start + n, size⟩ unused some (starts start inside' (by omega))
    · have none : heap.mark start (start + n) = heap := fill_empty heap (by omega) _
      rw [if_neg some, none]
      exact sound

end

/-- The invariant holds after any run of calls, whatever their sizes and results. -/
theorem reach_sound {first heap : Heap} {live : List Live} (roomy : first.total ≤ 2 ^ 61)
    (fresh : ∀ k, k < first.total → (first.blocks k).isAllocated = false)
    (reach : Reach (fun _ _ => True) (fun _ _ => True) first heap live) :
    SameRecord first heap ∧ Sound heap live := by
  induction reach with
  | initial =>
    refine ⟨⟨rfl, rfl, rfl⟩, List.Pairwise.nil, by simp, by simp, ?_⟩
    intro k below taken
    rw [fresh k below] at taken
    simp at taken
  | alloc _ _ done _ ih =>
    obtain ⟨same, sound⟩ := ih
    have settled := alloc_settled done
    exact ⟨SameRecord.trans same (settled_record settled), sound_settled sound settled fun _ inside _ => inside⟩
  | allocAligned _ _ done ih =>
    obtain ⟨same, sound⟩ := ih
    have total := same.total
    have settled := allocAligned_settled (by omega) done
    exact ⟨SameRecord.trans same (settled_record settled),
      sound_settled sound settled fun _ inside _ => by omega⟩
  | @free heap live entry _ member nonnull ih =>
    obtain ⟨same, sound⟩ := ih
    have bounds := sound.starts entry member
    have stored := sound.held entry member entry.start bounds.2 ⟨le_rfl, bounds.1⟩
    rw [free_blockAddr bounds.2 nonnull, stored]
    exact ⟨same, sound_clear sound member⟩
  | freeNull _ ih =>
    rw [Allocator.free, if_pos rfl]
    exact ih
  | @outside heap live blocks _ kept ih =>
    obtain ⟨same, sound⟩ := ih
    refine ⟨same, sound.apart, sound.starts, ?_, ?_⟩
    · exact fun entry member k below holds => (kept k below).trans (sound.held entry member k below holds)
    · intro k below taken
      have table : blocks k = heap.blocks k := kept k below
      dsimp only at taken ⊢
      rw [table] at taken ⊢
      exact sound.stale k below taken

/-- A run of `n` free blocks that ends inside the table. -/
def Fits (heap : Heap) (n start : Nat) : Prop := start + n ≤ heap.total ∧ heap.Unused start (start + n)

structure StaysInside (heap : Heap) (size : BitVec 64) (call : Call) : Prop where
  entries : ∀ k ∈ call.touched, k < heap.total
  bytes : call.ptr ≠ 0 → heap.startAddr.toNat ≤ call.ptr.toNat ∧
    call.ptr.toNat + size.toNat ≤ heap.startAddr.toNat + heap.maxSize.toNat
  exhausted : (¬ ∃ start, Fits heap (heap.needed size) start) → call.ptr = 0

/-- Either nothing is free up to the end of the table or some run fits. -/
def Guarded (heap : Heap) (n : Nat) : Prop :=
  (∃ start, Fits heap n start) ∨ ∀ k, k + 1 = heap.total → (heap.blocks k).isAllocated = true

section
variable {heap : Heap} {n : Nat} {s : Search}

theorem touched_free {i count : Nat} {touched : List Nat} (before : ∀ k ∈ touched, k < heap.total)
    (first : i < heap.total) (inside : i + count ≤ heap.total) :
    ∀ k ∈ touched ++ i :: entriesFrom i count, k < heap.total := by
  intro k member
  rcases List.mem_append.mp member with old | new
  · exact before k old
  · rcases List.mem_cons.mp new with rfl | checked
    · exact first
    · have := mem_entriesFrom.mp checked
      omega

theorem grant_inside {size : BitVec 64} (noWrap : heap.NoWrap size) (nonzero : size ≠ 0)
    (area : heap.startAddr.toNat + heap.maxSize.toNat ≤ 2 ^ 64) {start : Nat} {touched : List Nat}
    (fits : Fits heap (heap.needed size) start) (before : ∀ k ∈ touched, k < heap.total) :
    StaysInside heap size (grant heap start (heap.needed size) touched) := by
  have enough := size_le_needed noWrap nonzero
  have some := needed_pos noWrap nonzero
  have positive := blockBytes_pos heap
  have whole : start * heap.blockBytes.toNat + heap.needed size * heap.blockBytes.toNat ≤
      heap.maxSize.toNat := by
    calc
      _ = (start + heap.needed size) * heap.blockBytes.toNat := (Nat.add_mul ..).symm
      _ ≤ heap.total * heap.blockBytes.toNat := Nat.mul_le_mul_right _ fits.1
      _ ≤ heap.maxSize.toNat := total_mul_le heap
  have gap : 0 < heap.needed size * heap.blockBytes.toNat := Nat.mul_pos some positive
  have addr : (heap.blockAddr start).toNat = heap.startAddr.toNat + start * heap.blockBytes.toNat := by
    have bound := fits.1
    rw [Heap.blockAddr, BitVec.toNat_add, toNat_blockOffset (by omega), Nat.mod_eq_of_lt (by omega)]
  refine ⟨?_, ?_, fun none => (none ⟨start, fits⟩).elim⟩
  · intro k member
    rcases List.mem_append.mp member with old | new
    · exact before k old
    · have := mem_entriesFrom.mp new
      have := fits.1
      omega
  · intro _
    simp only [grant, addr]
    omega

theorem refuse_inside {size : BitVec 64} {touched : List Nat} (before : ∀ k ∈ touched, k < heap.total) :
    StaysInside heap size (refuse heap touched) :=
  ⟨before, fun nonnull => (nonnull rfl).elim, fun _ => rfl⟩

theorem jump_le (jumps : JumpSound heap) {i j next : Nat} (inside : j < heap.total)
    (free : (heap.blocks j).isAllocated = false) (le : i ≤ j) (taken : (heap.blocks i).isAllocated = true)
    (step : next = i + 1 ∨ i < next ∧ next = (heap.blocks i).endBlock.toNat) : next ≤ j := by
  have different : i ≠ j := by
    rintro rfl
    rw [taken] at free
    simp at free
  rcases step with rfl | ⟨_, rfl⟩
  · omega
  · by_contra passes
    have := jumps i j (by omega) inside taken le (by omega)
    rw [this] at free
    simp at free

/-- While a run fits, the search stays at or below the lowest one. -/
theorem fit_again (jumps : JumpSound heap) (some : 0 < n) {fit : Nat} (fits : Fits heap n fit)
    {next : Search} (bound : s.i ≤ fit ∧ ∀ k ∈ s.touched, k < heap.total)
    (turn : allocTurn heap n s = .again next) :
    next.i ≤ fit ∧ ∀ k ∈ next.touched, k < heap.total := by
  obtain ⟨low, before⟩ := bound
  have inside := fits.1
  have first := fits.2 fit le_rfl (by omega)
  rcases allocTurn_again turn with ⟨_, ⟨open_, j, hit, rfl⟩ | ⟨taken, i', step, rfl⟩⟩
  · obtain ⟨below, taken, clear⟩ := firstAllocated_some hit
    -- the block that failed the check lies below the fit
    have short : s.i + j < fit := by
      by_contra far
      have free := fits.2 (s.i + j) (by omega) (by omega)
      rw [taken] at free
      simp at free
    have moved : j ≠ 0 := by
      rintro rfl
      rw [Nat.add_zero, open_] at taken
      simp at taken
    exact ⟨by dsimp only; omega, touched_free before (by omega) (by omega)⟩
  · refine ⟨jump_le jumps (by omega) first low taken step, ?_⟩
    intro k member
    rcases List.mem_append.mp member with old | new
    · exact before k old
    · obtain rfl := List.mem_singleton.mp new
      omega

theorem last_again (last : ∀ k, k + 1 = heap.total → (heap.blocks k).isAllocated = true)
    {next : Search} (before : ∀ k ∈ s.touched, k < heap.total)
    (turn : allocTurn heap n s = .again next) : ∀ k ∈ next.touched, k < heap.total := by
  rcases allocTurn_again turn with ⟨inside, ⟨_, j, hit, rfl⟩ | ⟨_, i', _, rfl⟩⟩
  · obtain ⟨_, _, clear⟩ := firstAllocated_some hit
    refine touched_free before inside ?_
    by_contra far
    have free := clear (heap.total - 1) (by omega) (by omega)
    rw [last _ (by omega)] at free
    simp at free
  · intro k member
    rcases List.mem_append.mp member with old | new
    · exact before k old
    · obtain rfl := List.mem_singleton.mp new
      exact inside

/-- The lowest block from which everything up to the end of the table is free. -/
structure FreeTail (heap : Heap) (t : Nat) : Prop where
  inside : t < heap.total
  unused : heap.Unused t heap.total
  least : ∀ k, k + 1 = t → (heap.blocks k).isAllocated = true

theorem freeTail_exists {last : Nat} (final : last + 1 = heap.total)
    (free : (heap.blocks last).isAllocated = false) : ∃ t, FreeTail heap t := by
  classical
  have some : ∃ t, t ≤ last ∧ heap.Unused t heap.total := by
    refine ⟨last, le_rfl, ?_⟩
    intro k low high
    obtain rfl : k = last := by omega
    exact free
  obtain ⟨bound, unused⟩ := Nat.find_spec some
  refine ⟨Nat.find some, by omega, unused, ?_⟩
  intro k before
  by_contra open_
  rw [Bool.not_eq_true] at open_
  have smaller := Nat.find_min some (m := k) (by omega)
  refine smaller ⟨by omega, ?_⟩
  intro j low high
  by_cases edge : j = k
  · exact edge ▸ open_
  · exact unused j (by omega) high

theorem total_checked {i count : Nat} (below : i < heap.total) (far : heap.total < i + count)
    (touched : List Nat) :
    heap.total ∈ touched ++ i :: entriesFrom i count := by
  apply List.mem_append_right
  apply List.mem_cons_of_mem
  exact mem_entriesFrom.mpr ⟨below.le, far⟩

/-- The search stays at or below the free tail until it has checked the entry
behind the table. -/
theorem tail_again (jumps : JumpSound heap) {t : Nat} (tail : FreeTail heap t)
    {next : Search} (bound : s.i ≤ t ∨ heap.total ∈ s.touched) (turn : allocTurn heap n s = .again next) :
    next.i ≤ t ∨ heap.total ∈ next.touched := by
  have inside := tail.inside
  rcases allocTurn_again turn with ⟨below, ⟨open_, j, hit, rfl⟩ | ⟨taken, i', step, rfl⟩⟩
  · rcases bound with low | done
    · obtain ⟨_, taken, _⟩ := firstAllocated_some hit
      have last := tail.least s.i
      by_cases edge : s.i = t
      · refine Or.inr (total_checked below ?_ _)
        by_contra short
        have free := tail.unused (s.i + j) (by omega) (by omega)
        rw [taken] at free
        simp at free
      · refine Or.inl ?_
        have apart : s.i + 1 ≠ t := by
          intro next
          rw [last next] at open_
          simp at open_
        dsimp only
        omega
    · exact Or.inr (List.mem_append_left _ done)
  · rcases bound with low | done
    · exact Or.inl (jump_le jumps inside (tail.unused t le_rfl inside) low taken step)
    · exact Or.inr (List.mem_append_left _ done)

end

section
variable {heap : Heap} {size : BitVec 64} {call : Call}

theorem alloc_run (nonzero : size ≠ 0) (done : alloc heap size = some call) :
    Loop.run (allocTurn heap (heap.needed size)) (heap.total + 2) ⟨0, []⟩ = some call := by
  rwa [alloc, if_neg nonzero] at done

theorem alloc_inside_of_fit (jumps : JumpSound heap) (noWrap : heap.NoWrap size) (nonzero : size ≠ 0)
    (area : heap.startAddr.toNat + heap.maxSize.toNat ≤ 2 ^ 64)
    (fit : ∃ start, Fits heap (heap.needed size) start) (done : alloc heap size = some call) :
    StaysInside heap size call := by
  obtain ⟨start, fits⟩ := fit
  have some := needed_pos noWrap nonzero
  refine run_invariant (fun s : Search => s.i ≤ start ∧ ∀ k ∈ s.touched, k < heap.total)
    (StaysInside heap size) (fun _ _ bound turn => fit_again jumps some fits bound turn) ?_
    ⟨Nat.zero_le _, by simp⟩ (alloc_run nonzero done)
  intro s result ⟨low, before⟩ turn
  have inside := fits.1
  rcases allocTurn_leave turn with ⟨past, _⟩ | ⟨below, _, clear, rfl⟩
  · omega
  · exact grant_inside noWrap nonzero area ⟨by omega, firstAllocated_none clear⟩
      (touched_free before below (by omega))

theorem alloc_inside_of_last (last : ∀ k, k + 1 = heap.total → (heap.blocks k).isAllocated = true)
    (noWrap : heap.NoWrap size) (nonzero : size ≠ 0)
    (area : heap.startAddr.toNat + heap.maxSize.toNat ≤ 2 ^ 64) (done : alloc heap size = some call) :
    StaysInside heap size call := by
  refine run_invariant (fun s : Search => ∀ k ∈ s.touched, k < heap.total)
    (StaysInside heap size) (fun _ _ before turn => last_again last before turn) ?_
    (by simp) (alloc_run nonzero done)
  intro s result before turn
  rcases allocTurn_leave turn with ⟨_, rfl⟩ | ⟨below, _, clear, rfl⟩
  · exact refuse_inside before
  · have unused := firstAllocated_none clear
    have ends : s.i + heap.needed size ≤ heap.total := by
      by_contra far
      have free := unused (heap.total - 1) (by omega) (by omega)
      rw [last _ (by omega)] at free
      simp at free
    exact grant_inside noWrap nonzero area ⟨ends, unused⟩ (touched_free before below ends)

theorem alloc_outside (jumps : JumpSound heap) (nonzero : size ≠ 0) {last : Nat}
    (final : last + 1 = heap.total) (free : (heap.blocks last).isAllocated = false)
    (none : ¬ ∃ start, Fits heap (heap.needed size) start) (done : alloc heap size = some call) :
    heap.total ∈ call.touched := by
  obtain ⟨t, tail⟩ := freeTail_exists final free
  have inside := tail.inside
  refine run_invariant (fun s : Search => s.i ≤ t ∨ heap.total ∈ s.touched)
    (fun call => heap.total ∈ call.touched) (fun _ _ bound turn => tail_again jumps tail bound turn) ?_
    (Or.inl (Nat.zero_le _)) (alloc_run nonzero done)
  intro s result bound turn
  rcases allocTurn_leave turn with ⟨past, rfl⟩ | ⟨below, _, clear, rfl⟩
  · rcases bound with low | done
    · omega
    · exact done
  · have far : heap.total < s.i + heap.needed size := by
      by_contra short
      exact none ⟨s.i, by omega, firstAllocated_none clear⟩
    apply List.mem_append_right
    exact mem_entriesFrom.mpr ⟨below.le, far⟩

end

/-- In every state reached from an all-free table, `alloc` returns, and keeps to its
heap exactly when some run fits in the table or the last block of the table is taken. -/
theorem alloc_stays_inside_iff (first : Heap) (table : 12 * first.total ≤ 2 ^ 64)
    (area : first.startAddr.toNat + first.maxSize.toNat ≤ 2 ^ 64)
    (fresh : ∀ k, k < first.total → (first.blocks k).isAllocated = false) (heap : Heap)
    (live : List Live) (reach : Reach (fun _ _ => True) (fun _ _ => True) first heap live)
    (size : BitVec 64) (nonzero : size ≠ 0) (noWrap : heap.NoWrap size) :
    ∃ call, alloc heap size = some call ∧
      (StaysInside heap size call ↔ Guarded heap (heap.needed size)) := by
  obtain ⟨same, sound⟩ := reach_sound (by omega) fresh reach
  have jumps := sound_jump sound
  have area' := same.area area
  obtain ⟨call, done⟩ := alloc_returns heap size
  refine ⟨call, done, ?_, ?_⟩
  · intro stays
    by_contra open_
    simp only [Guarded, not_or, not_forall] at open_
    obtain ⟨none, last, final, free⟩ := open_
    have reads := alloc_outside jumps nonzero final (Bool.not_eq_true _ ▸ free) none done
    exact lt_irrefl _ (stays.entries _ reads)
  · rintro (fit | last)
    · exact alloc_inside_of_fit jumps noWrap nonzero area' fit done
    · exact alloc_inside_of_last last noWrap nonzero area' done

/-- One free block of 512 bytes at 2 MiB, followed by memory that reads as free. -/
def oneBlock : Heap := ⟨512, 0x200000, 512, fun _ => .cleared, sector_pos⟩

/-- A request for two blocks of a heap of one is granted past its end. -/
theorem alloc_leaves_one_block_heap :
    alloc oneBlock 1024 = some (grant oneBlock 0 2 [0, 0, 1]) ∧
      ¬ StaysInside oneBlock 1024 (grant oneBlock 0 2 [0, 0, 1]) := by
  refine ⟨rfl, fun stays => ?_⟩
  have inside := stays.entries 1 (by decide)
  revert inside
  decide

/-- A request for one block of the same heap stays inside it. -/
theorem alloc_stays_inside_one_block :
    ∃ call, alloc oneBlock 512 = some call ∧ StaysInside oneBlock 512 call := by
  obtain ⟨call, done, exact_⟩ := alloc_stays_inside_iff oneBlock (by decide) (by decide)
    (fun _ _ => rfl) oneBlock [] .initial 512 (by decide) (show _ ≤ _ by decide)
  exact ⟨call, done, exact_.mpr (Or.inl ⟨0, by decide, fun _ _ _ => rfl⟩)⟩

end Ketone.MemManager.AllocBounds
