import Ketone.MemManager.HeapsFit

/-! The memory manager over whole runs: behind its set-up, calls of its callers and their own stores in any order. -/

namespace Ketone.MemManager.WholeRuns
open Library.Align Library.Gap Library.Ram Library.Cells Allocator BlockRuns AllocBounds FirstFit E820 MmioHole Manager
  Layout LowHeap SearchAgreement InputMap HeapMemory BumpMemory Separation SetUpMemory HeapsFit

structure Pointers where
  rootHeap : BitVec 64
  lowHeap : BitVec 64
  bumpHeap : BitVec 64

/-- A call of the manager, or a byte that somebody stores. -/
inductive Act where
  | kalloc (size : BitVec 64)
  | kallocAligned (size align : BitVec 64)
  | kfree (ptr : BitVec 64)
  | lowKalloc (size : BitVec 64)
  | lowKallocAligned (size align : BitVec 64)
  | lowKfree (ptr : BitVec 64)
  | kBumpAlloc (size : BitVec 64)
  | kBumpAllocAligned (size align : BitVec 64)
  | write (addr : BitVec 64) (byte : BitVec 8)

structure World where
  memory : Memory
  root : List Area
  low : List Area
  bump : List Area

namespace World

def onRoot (w : World) (held : BitVec 64 → List Area) (answer : Answer) : World :=
  { w with memory := answer.memory, root := held answer.ptr }

def onLow (w : World) (held : BitVec 64 → List Area) (answer : Answer) : World :=
  { w with memory := answer.memory, low := held answer.ptr }

/-- No world is left where a call faults or never returns. -/
def step (p : Pointers) (w : World) : Act → Option World
  | .kalloc size => (allocAt w.memory p.rootHeap size).map (w.onRoot (take · size w.root))
  | .kallocAligned size align => (allocAlignedAt w.memory p.rootHeap size align).map (w.onRoot (take · size w.root))
  | .kfree ptr => (freeAt w.memory p.rootHeap ptr).map fun memory => w.onRoot (giveBack · w.root) ⟨ptr, memory⟩
  | .lowKalloc size => (allocAt w.memory p.lowHeap size).map (w.onLow (take · size w.low))
  | .lowKallocAligned size align => (allocAlignedAt w.memory p.lowHeap size align).map (w.onLow (take · size w.low))
  | .lowKfree ptr => (freeAt w.memory p.lowHeap ptr).map fun memory => w.onLow (giveBack · w.low) ⟨ptr, memory⟩
  | .kBumpAlloc size =>
      let answer := bumpAllocAlignedAt w.memory p.bumpHeap size 1
      some { w with memory := answer.memory, bump := take answer.ptr size w.bump }
  -- the wrapper drops the pointer
  | .kBumpAllocAligned size align =>
      some { w with memory := (bumpAllocAlignedAt w.memory p.bumpHeap size align).memory }
  | .write addr byte => some { w with memory := store w.memory addr byte }

end World

def ownParts (p : Pointers) (layout : Layout) : List Area :=
  [own layout.root, own layout.low, bumpRecord.area p.bumpHeap]

/-- What callers keep to: no size wraps, `alloc` finds room or a last block that is taken, only what is held is freed,
and nobody stores to the parts of the manager. -/
def Allowed (p : Pointers) (layout : Layout) (w : World) : Act → Prop
  | .kalloc size => size.toNat + 512 ≤ 2 ^ 64 ∧ Fitting w.memory p.rootHeap size
  | .kallocAligned size _ => size.toNat + 512 ≤ 2 ^ 64
  | .kfree ptr => Held ptr w.root
  | .lowKalloc size => size.toNat + 512 ≤ 2 ^ 64 ∧ Fitting w.memory p.lowHeap size
  | .lowKallocAligned size _ => size.toNat + 512 ≤ 2 ^ 64
  | .lowKfree ptr => Held ptr w.low
  | .kBumpAlloc _ => True
  | .kBumpAllocAligned _ _ => True
  | .write addr _ => ∀ part ∈ ownParts p layout, ¬ part.Has addr

inductive Run (p : Pointers) (layout : Layout) (first : World) : List Act → World → Prop where
  | nil : Run p layout first [] first
  | snoc {acts : List Act} {w next : World} {act : Act} : Run p layout first acts w → Allowed p layout w act →
      w.step p act = some next → Run p layout first (acts ++ [act]) next

def written (memory : Memory) (acts : List Act) : Memory :=
  acts.foldl (fun memory act => match act with
    | .write addr byte => store memory addr byte
    | _ => memory) memory

/-- The heaps stand in memory. The root heap holds two allocations of the manager's own. -/
structure Inv (p : Pointers) (layout : Layout) (kept : List Area) (w : World) : Prop where
  root : Stands layout.root w.memory (w.root ++ kept)
  low : Stands layout.low w.memory w.low
  bump : Handed layout.bump w.memory p.bumpHeap w.bump

structure Chosen (p : Pointers) (layout : Layout) (kept : List Area) : Prop where
  rootPtr : p.rootHeap = layout.root.header
  lowPtr : p.lowHeap = layout.low.header
  record : bumpRecord.area p.bumpHeap ∈ kept
  rootFormed : Formed layout.root
  lowFormed : Formed layout.low
  rootLow : AreasApart layout.root.areas layout.low.areas

section
variable {p : Pointers} {layout : Layout} {kept : List Area} {w next : World} {act : Act}

theorem Chosen.own_apart (chosen : Chosen p layout kept) (inv : Inv p layout kept w) :
    (ownParts p layout).Pairwise Area.Apart := by
  have inside := inv.root.inside chosen.rootFormed (List.mem_append_right w.root chosen.record)
  have heaps := heaps_apart chosen.rootFormed chosen.lowFormed chosen.rootLow (own_inside _) (own_listed _) (own_inside _)
    (own_listed _)
  have root := own_apart_data chosen.rootFormed inside
  have low := heaps_apart chosen.rootFormed chosen.lowFormed chosen.rootLow inside (data_listed _) (own_inside _)
    (own_listed _)
  unfold ownParts
  simp only [List.pairwise_cons, List.mem_cons, List.not_mem_nil, or_false, forall_eq_or_imp, forall_eq,
    List.Pairwise.nil, and_true, false_imp_iff, implies_true]
  exact ⟨⟨heaps, root⟩, low.symm⟩

/-- What one act of a caller leaves: the heaps as they stand, and the bytes outside of the manager's parts. -/
structure Leaves (p : Pointers) (layout : Layout) (kept : List Area) (w : World) (act : Act) (next : World) : Prop where
  inv : Inv p layout kept next
  bytes : ∀ addr, (∀ part ∈ ownParts p layout, ¬ part.Has addr) → next.memory addr = written w.memory [act] addr

theorem byte_same {memory after : Memory} {part : Area}
    (frame : ∀ area, Area.Apart area part → area.Same memory after) {addr : BitVec 64} (outside : ¬ part.Has addr) :
    after addr = memory addr := by
  refine frame ⟨addr, 1⟩ (fun other has has' => ?_) addr (show (addr - addr).toNat < 1 by rw [BitVec.sub_self]; decide)
  have here : other = addr := Area.eq_of_toNat_sub (Nat.lt_one_iff.mp has)
  exact outside (here ▸ has')

variable {memory : Memory} {held : List Area}

theorem leaves_root (chosen : Chosen p layout kept) (inv : Inv p layout kept w)
    (serves : Serves layout.root w.memory memory (held ++ kept)) (call : written w.memory [act] = w.memory) :
    Leaves p layout kept w act { w with memory := memory, root := held } := by
  obtain ⟨others, _⟩ := List.pairwise_cons.mp (chosen.own_apart inv)
  have low := serves.2 _ (others (own layout.low) (by simp)).symm
  have bump := serves.2 _ (others (bumpRecord.area p.bumpHeap) (by simp)).symm
  refine ⟨⟨serves.1, Stands.others inv.low chosen.lowFormed low, inv.bump.others bump⟩, fun addr outside => ?_⟩
  rw [call]
  exact byte_same serves.2 (outside _ (by simp [ownParts]))

theorem leaves_low (chosen : Chosen p layout kept) (inv : Inv p layout kept w)
    (serves : Serves layout.low w.memory memory held) (call : written w.memory [act] = w.memory) :
    Leaves p layout kept w act { w with memory := memory, low := held } := by
  obtain ⟨others, rest⟩ := List.pairwise_cons.mp (chosen.own_apart inv)
  obtain ⟨last, _⟩ := List.pairwise_cons.mp rest
  have root := serves.2 _ (others (own layout.low) (by simp))
  have bump := serves.2 _ (last (bumpRecord.area p.bumpHeap) (by simp)).symm
  refine ⟨⟨Stands.others inv.root chosen.rootFormed root, serves.1, inv.bump.others bump⟩, fun addr outside => ?_⟩
  rw [call]
  exact byte_same serves.2 (outside _ (by simp [ownParts]))

theorem leaves_bump (chosen : Chosen p layout kept) (inv : Inv p layout kept w)
    (handed : Handed layout.bump memory p.bumpHeap held)
    (frame : ∀ area, Area.Apart area (bumpRecord.area p.bumpHeap) → area.Same w.memory memory)
    (call : written w.memory [act] = w.memory) :
    Leaves p layout kept w act { w with memory := memory, bump := held } := by
  obtain ⟨others, rest⟩ := List.pairwise_cons.mp (chosen.own_apart inv)
  obtain ⟨last, _⟩ := List.pairwise_cons.mp rest
  have root := frame _ (others (bumpRecord.area p.bumpHeap) (by simp))
  have low := frame _ (last (bumpRecord.area p.bumpHeap) (by simp))
  refine ⟨⟨Stands.others inv.root chosen.rootFormed root, Stands.others inv.low chosen.lowFormed low, handed⟩,
    fun addr outside => ?_⟩
  rw [call]
  exact byte_same frame (outside _ (by simp [ownParts]))

theorem leaves_write (chosen : Chosen p layout kept) (inv : Inv p layout kept w) {addr : BitVec 64} (byte : BitVec 8)
    (outside : ∀ part ∈ ownParts p layout, ¬ part.Has addr) :
    Leaves p layout kept w (.write addr byte) { w with memory := store w.memory addr byte } := by
  have same : ∀ part ∈ ownParts p layout, part.Same w.memory (store w.memory addr byte) := by
    intro part own other has
    exact if_neg fun here : other = addr => outside part own (here ▸ has)
  refine ⟨⟨?_, ?_, ?_⟩, fun _ _ => rfl⟩
  · exact Stands.others inv.root chosen.rootFormed (same _ (by simp [ownParts]))
  · exact Stands.others inv.low chosen.lowFormed (same _ (by simp [ownParts]))
  · exact inv.bump.others (same _ (by simp [ownParts]))

/-- Every act that is allowed is carried out. -/
theorem step_leaves (chosen : Chosen p layout kept) (inv : Inv p layout kept w) (act : Act)
    (allowed : Allowed p layout w act) : ∃ next, w.step p act = some next ∧ Leaves p layout kept w act next := by
  obtain ⟨rootHeap, rootLive, rootKeeps, rootHeld⟩ := inv.root
  obtain ⟨lowHeap, lowLive, lowKeeps, lowHeld⟩ := inv.low
  cases act with
  | kalloc size =>
    obtain ⟨small, fits⟩ := allowed
    rw [chosen.rootPtr] at fits
    obtain ⟨answer, done, serves⟩ := rootKeeps.alloc chosen.rootFormed small fits
    rw [rootHeld, take_append] at serves
    refine ⟨_, ?_, leaves_root chosen inv serves rfl⟩
    rw [World.step, chosen.rootPtr, done]
    rfl
  | kallocAligned size align =>
    obtain ⟨answer, done, serves⟩ := rootKeeps.allocAligned chosen.rootFormed allowed align
    rw [rootHeld, take_append] at serves
    refine ⟨_, ?_, leaves_root chosen inv serves rfl⟩
    rw [World.step, chosen.rootPtr, done]
    rfl
  | kfree ptr =>
    have may : Held ptr (w.root ++ kept) :=
      allowed.imp_right fun ⟨area, member, based⟩ => ⟨area, List.mem_append_left _ member, based⟩
    obtain ⟨after, done, serves⟩ := rootKeeps.free chosen.rootFormed (rootHeld ▸ may)
    rw [rootHeld, giveBack_append allowed] at serves
    refine ⟨_, ?_, leaves_root chosen inv serves rfl⟩
    rw [World.step, chosen.rootPtr, done]
    rfl
  | lowKalloc size =>
    obtain ⟨small, fits⟩ := allowed
    rw [chosen.lowPtr] at fits
    obtain ⟨answer, done, serves⟩ := lowKeeps.alloc chosen.lowFormed small fits
    rw [lowHeld] at serves
    refine ⟨_, ?_, leaves_low chosen inv serves rfl⟩
    rw [World.step, chosen.lowPtr, done]
    rfl
  | lowKallocAligned size align =>
    obtain ⟨answer, done, serves⟩ := lowKeeps.allocAligned chosen.lowFormed allowed align
    rw [lowHeld] at serves
    refine ⟨_, ?_, leaves_low chosen inv serves rfl⟩
    rw [World.step, chosen.lowPtr, done]
    rfl
  | lowKfree ptr =>
    have may : Held ptr w.low := allowed
    obtain ⟨after, done, serves⟩ := lowKeeps.free chosen.lowFormed (lowHeld ▸ may)
    rw [lowHeld] at serves
    refine ⟨_, ?_, leaves_low chosen inv serves rfl⟩
    rw [World.step, chosen.lowPtr, done]
    rfl
  | kBumpAlloc size =>
    have handed := (inv.bump.bumpAlloc size 1).2
    exact ⟨_, rfl, leaves_bump chosen inv handed (bumpAllocAlignedAt_eq size 1).2.2 rfl⟩
  | kBumpAllocAligned size align =>
    have handed := (inv.bump.bumpAlloc size align).1
    exact ⟨_, rfl, leaves_bump chosen inv handed (bumpAllocAlignedAt_eq size align).2.2 rfl⟩
  | write addr byte => exact ⟨_, rfl, leaves_write chosen inv byte allowed⟩

theorem run_leaves (chosen : Chosen p layout kept) {first : World} (inv : Inv p layout kept first) {acts : List Act}
    (run : Run p layout first acts w) : Inv p layout kept w ∧
      ∀ addr, (∀ part ∈ ownParts p layout, ¬ part.Has addr) → w.memory addr = written first.memory acts addr := by
  induction run with
  | nil => exact ⟨inv, fun _ _ => rfl⟩
  | snoc _ allowed done ih =>
    obtain ⟨inv', bytes⟩ := ih
    obtain ⟨next, done', leaves⟩ := step_leaves chosen inv' _ allowed
    obtain rfl := Option.some.inj (done.symm.trans done')
    refine ⟨leaves.inv, fun addr outside => ?_⟩
    rw [leaves.bytes addr outside, written, written, List.foldl_append, List.foldl_cons, List.foldl_nil, List.foldl_cons,
      List.foldl_nil]
    have before := bytes addr outside
    split
    next other byte =>
      unfold store
      rw [before]
      rfl
    next => exact before

end

def pointersOf (started : Started) : Pointers := ⟨started.rootHeap, started.lowHeap, started.bumpHeap⟩

def firstWorld (started : Started) : World := ⟨started.memory, [], [], []⟩

/-- The heaps in the places that the searches have chosen. -/
def layoutOf (boot : Boot) (place : boot.Place) (region : Region) (gap : Span) (started : Started) : Layout :=
  ⟨boot.reserved place, rootHeap place.start boot, lowHeap region boot.lowHeapSize boot.behindLow, started.bumpHeap,
    bumpHeap gap⟩

section
variable {boot : Boot} {place : boot.Place} {region : Region} {gap : Span} {memory : Memory} {e820Addr : BitVec 64}
  {started : Started}

theorem first_inv (placed : InPlace boot place region gap memory e820Addr started) (inside : RootInside boot place)
    (noWrap : place.chosen.NoWrap)
    (alone : ∀ e ∈ place.before ++ place.behind, e.type = E820_USABLE → Span.Apart e.span place.chosen.span)
    (enough : 32 + 0xFFF ≤ boot.lowHeapSize.toNat)
    (lowFound : e820FindRegion (boot.reserved place) E820_USABLE boot.lowHeapSize 0 UINT32_MAX 0x1000 = some region)
    (holeFound : findMmioHole (boot.reserved place) boot.mcfg = some gap) :
    Chosen (pointersOf started) (layoutOf boot place region gap started) started.kept ∧
      Inv (pointersOf started) (layoutOf boot place region gap started) started.kept (firstWorld started) := by
  have rootLow := root_apart_low inside noWrap alone lowFound (low_mapped enough lowFound) enough
  have largest := hole_largest holeFound
  have within := (bumpHeap_within largest.free.nonempty.le largest.free.below).1
  constructor
  · exact ⟨placed.rootHeap, placed.lowHeap, List.mem_cons_self .., root_formed inside, (low_formed enough lowFound).1, rootLow⟩
  · refine ⟨placed.root, placed.low, ?_, nofun, List.Pairwise.nil⟩
    change BumpRuns.Later (bumpHeap gap) (bumpRecord.load started.memory started.bumpHeap)
    rw [placed.bump]
    exact ⟨within, rfl, rfl⟩

end

def kernelArea (boot : Boot) : Area := ⟨KERNEL_START, (boot.kernelSizeSectors * 512).toNat⟩

/-- What is in use: the kernel image, and for each heap its record and table and what is held of it. -/
def parts (boot : Boot) (layout : Layout) (kept : List Area) (w : World) : List (List Area) :=
  [[kernelArea boot], own layout.root :: (w.root ++ kept), own layout.low :: w.low, w.bump]

/-- What holds of a world, after `acts` of its callers. -/
structure Safe (boot : Boot) (layout : Layout) (started : Started) (acts : List Act) (w : World) : Prop where
  apart : (parts boot layout started.kept w).flatten.Pairwise Area.Apart
  root : ∀ area ∈ w.root, Inside area (data layout.root)
  low : ∀ area ∈ w.low, Inside area (data layout.low)
  bump : ∀ area ∈ w.bump, Inside area (hole layout)
  bytes : ∀ addr, (∀ part ∈ ownParts (pointersOf started) layout, ¬ part.Has addr) →
    w.memory addr = written started.memory acts addr
  rootBlocks : ∀ k < layout.root.heap.total, (entryAt layout.root w.memory k).isAllocated = true ↔
    ∃ area ∈ w.root ++ started.kept, ∃ addr, area.Has addr ∧ (blockArea layout.root k).Has addr
  lowBlocks : ∀ k < layout.low.heap.total, (entryAt layout.low w.memory k).isAllocated = true ↔
    ∃ area ∈ w.low, ∃ addr, area.Has addr ∧ (blockArea layout.low k).Has addr
  stores : ∀ area ∈ w.root ++ (w.low ++ w.bump), ∀ addr, area.Has addr → ∀ byte,
    Allowed (pointersOf started) layout w (.write addr byte)
  goesOn : ∀ act, Allowed (pointersOf started) layout w act → ∃ next, w.step (pointersOf started) act = some next

section
variable {boot : Boot} {layout : Layout}

theorem groups_apart {first second : List Area} {left right : List Span}
    (low : ∀ area ∈ first, ∃ span ∈ left, Inside area span) (high : ∀ area ∈ second, ∃ span ∈ right, Inside area span)
    (bound : ∀ span ∈ left, span.hi ≤ 2 ^ 64) (bound' : ∀ span ∈ right, span.hi ≤ 2 ^ 64)
    (apart : AreasApart left right) : ∀ a ∈ first, ∀ b ∈ second, Area.Apart a b := by
  intro a member b member'
  obtain ⟨span, listed, inside⟩ := low a member
  obtain ⟨span', listed', inside'⟩ := high b member'
  exact apart_of_inside inside inside' (apart span listed span' listed') (bound span listed) (bound' span' listed')

theorem heap_group {placed : PlacedHeap} {memory : Memory} {held : List Area} (stands : Stands placed memory held)
    (formed : Formed placed) : (own placed :: held).Pairwise Area.Apart ∧
      ∀ area ∈ own placed :: held, ∃ span ∈ placed.areas, Inside area span := by
  constructor
  · refine List.pairwise_cons.mpr ⟨fun area member => ?_, stands.apart formed⟩
    exact own_apart_data formed (stands.inside formed member)
  · intro area member
    rcases List.mem_cons.mp member with rfl | other
    · exact ⟨_, own_listed placed, own_inside placed⟩
    · exact ⟨_, data_listed placed, stands.inside formed other⟩

theorem kernel_inside (boot : Boot) : Inside (kernelArea boot) (kernelImage boot) :=
  ⟨le_rfl, (toNat_kernelEnd boot.kernelSizeSectors).ge⟩

/-- What the manager hands out in a whole run is apart from everything else in use. -/
theorem inv_apart {p : Pointers} {kept : List Area} {w : World} (chosen : Chosen p layout kept) (inv : Inv p layout kept w)
    (kernelRoot : AreasApart [kernelImage boot] layout.root.areas)
    (kernelLow : AreasApart [kernelImage boot] layout.low.areas) (kernelHole : AreasApart [kernelImage boot] [hole layout])
    (rootHole : AreasApart layout.root.areas [hole layout]) (lowHole : AreasApart layout.low.areas [hole layout]) :
    (parts boot layout kept w).flatten.Pairwise Area.Apart := by
  obtain ⟨rootApart, rootInside⟩ := heap_group inv.root chosen.rootFormed
  obtain ⟨lowApart, lowInside⟩ := heap_group inv.low chosen.lowFormed
  have later := inv.bump.later
  have high := later.within.high
  have area := later.within.area
  rw [later.start, later.size] at high area
  have kernelInside : ∀ area ∈ [kernelArea boot], ∃ span ∈ [kernelImage boot], Inside area span := by
    intro area member
    rw [List.mem_singleton.mp member]
    exact ⟨_, List.mem_singleton_self _, kernel_inside boot⟩
  have bumpInside : ∀ area ∈ w.bump, ∃ span ∈ [hole layout], Inside area span := by
    intro area member
    obtain ⟨low, upTo⟩ := inv.bump.inside area member
    exact ⟨_, List.mem_singleton_self _, low, le_trans upTo high⟩
  have kernelBound : ∀ span ∈ [kernelImage boot], span.hi ≤ 2 ^ 64 := by
    intro span member
    rw [List.mem_singleton.mp member]
    exact (kernelEnd boot.kernelSizeSectors).isLt.le
  have holeBound : ∀ span ∈ [hole layout], span.hi ≤ 2 ^ 64 := by
    intro span member
    rw [List.mem_singleton.mp member]
    exact le_trans area (by decide)
  have rootBound : ∀ span ∈ layout.root.areas, span.hi ≤ 2 ^ 64 :=
    fun span member => le_trans (Formed.areas_le chosen.rootFormed member) (by decide)
  have lowBound : ∀ span ∈ layout.low.areas, span.hi ≤ 2 ^ 64 :=
    fun span member => le_trans (Formed.areas_le chosen.lowFormed member) (by decide)
  rw [List.pairwise_flatten]
  constructor
  · intro group member
    simp only [parts, List.mem_cons, List.not_mem_nil, or_false] at member
    rcases member with rfl | rfl | rfl | rfl
    · exact List.pairwise_singleton _ _
    · exact rootApart
    · exact lowApart
    · exact inv.bump.apart
  · simp only [parts, List.pairwise_cons, List.mem_cons (b := w.bump), List.mem_cons (b := own layout.low :: w.low),
      List.mem_cons (b := own layout.root :: (w.root ++ kept)), List.not_mem_nil, or_false, forall_eq_or_imp, forall_eq,
      List.Pairwise.nil, and_true, false_imp_iff, implies_true]
    exact ⟨⟨groups_apart kernelInside rootInside kernelBound rootBound kernelRoot,
      groups_apart kernelInside lowInside kernelBound lowBound kernelLow,
      groups_apart kernelInside bumpInside kernelBound holeBound kernelHole⟩,
      ⟨groups_apart rootInside lowInside rootBound lowBound chosen.rootLow,
        groups_apart rootInside bumpInside rootBound holeBound rootHole⟩,
      groups_apart lowInside bumpInside lowBound holeBound lowHole⟩

theorem held_apart {p : Pointers} {kept : List Area} {w : World} (chosen : Chosen p layout kept)
    (apart : (parts boot layout kept w).flatten.Pairwise Area.Apart) :
    ∀ area ∈ w.root ++ (w.low ++ w.bump), ∀ part ∈ ownParts p layout, Area.Apart part area := by
  obtain ⟨groups, across⟩ := List.pairwise_flatten.mp apart
  have rootGroup := groups (own layout.root :: (w.root ++ kept)) (by simp [parts])
  have lowGroup := groups (own layout.low :: w.low) (by simp [parts])
  simp only [parts, List.pairwise_cons, List.mem_cons (b := w.bump), List.mem_cons (b := own layout.low :: w.low),
    List.mem_cons (b := own layout.root :: (w.root ++ kept)), List.not_mem_nil, or_false, forall_eq_or_imp, forall_eq,
    List.Pairwise.nil, and_true, false_imp_iff, implies_true] at across
  obtain ⟨_, ⟨rootLow, rootBump⟩, lowBump⟩ := across
  have record := List.mem_cons_of_mem (own layout.root) (List.mem_append_right w.root chosen.record)
  intro area member part own'
  simp only [ownParts, List.mem_cons, List.not_mem_nil, or_false] at own'
  rcases List.mem_append.mp member with root | other
  · have listed := List.mem_cons_of_mem (own layout.root) (List.mem_append_left kept root)
    rcases own' with rfl | rfl | rfl
    · exact (List.pairwise_cons.mp rootGroup).1 area (List.mem_append_left _ root)
    · exact (rootLow area listed _ (List.mem_cons_self ..)).symm
    · exact ((List.pairwise_append.mp (List.pairwise_cons.mp rootGroup).2).2.2 area root _ chosen.record).symm
  · rcases List.mem_append.mp other with low | bump
    · have listed := List.mem_cons_of_mem (own layout.low) low
      rcases own' with rfl | rfl | rfl
      · exact rootLow _ (List.mem_cons_self ..) area listed
      · exact (List.pairwise_cons.mp lowGroup).1 area low
      · exact rootLow _ record area listed
    · rcases own' with rfl | rfl | rfl
      · exact rootBump _ (List.mem_cons_self ..) area bump
      · exact lowBump _ (List.mem_cons_self ..) area bump
      · exact rootBump _ record area bump

end

/-- For every map that lies in front of the kernel, whose entries do not wrap and of which no other usable one overlaps
the entry with the root heap, every root heap of five blocks or more and every low heap of at least its record and a page,
if the map keeps the low heap and the hole clear of the kernel: behind a set-up that returns the three heaps stand in memory
where the searches have put them, and in every run of calls and of stores of the callers, no byte is held twice, none that
is held belongs to the kernel, a record or a table, memory holds what the callers stored last, a block reads as taken
exactly if it is held, and every call that is allowed returns. -/
theorem heaps_stay_apart (boot : Boot) (straight : ∀ e ∈ boot.map.entries, e.NoWrap) (alone : RootAlone boot)
    (room : 2560 ≤ boot.size.toNat) (enough : 32 + 0xFFF ≤ boot.lowHeapSize.toNat) (clear : KernelClear boot)
    (memory : Memory) (e820Addr : BitVec 64) (handed : HandedOver boot memory e820Addr) (started : Started)
    (done : startAt boot memory e820Addr = .ok started) :
    ∃ place region gap, boot.findRoot = some place ∧
      e820FindRegion (boot.reserved place) E820_USABLE boot.lowHeapSize 0 UINT32_MAX 0x1000 = some region ∧
      findMmioHole (boot.reserved place) boot.mcfg = some gap ∧ InPlace boot place region gap memory e820Addr started ∧
      ∀ acts w, Run (pointersOf started) (layoutOf boot place region gap started) (firstWorld started) acts w →
        Safe boot (layoutOf boot place region gap started) started acts w := by
  obtain ⟨place, found, nonnull, mapped⟩ := startAt_place handed done
  have alone := alone _ _ _ (rootEntry_of place)
  have noWrap := straight place.chosen ((mem_map place).mpr (Or.inr rfl))
  have inside := root_inside noWrap nonnull mapped
  obtain ⟨region, gap, lowFound, holeFound⟩ := searches_found handed found nonnull mapped noWrap alone enough room
    (by rw [done]; nofun)
  obtain ⟨same, done', placed⟩ := startAt_done handed found nonnull mapped noWrap alone enough room lowFound holeFound
  obtain rfl := Except.ok.inj (done.symm.trans done')
  obtain ⟨kernelLow, kernelHole⟩ := (kernelClear_iff nonnull mapped straight enough lowFound holeFound).mp clear
  obtain ⟨chosen, initial⟩ := first_inv placed inside noWrap alone enough lowFound holeFound
  refine ⟨place, region, gap, found, lowFound, holeFound, placed, fun acts w run => ?_⟩
  obtain ⟨inv, bytes⟩ := run_leaves chosen initial run
  have later := inv.bump.later
  have high := later.within.high
  rw [later.start, later.size] at high
  have gapHole : hole (layoutOf boot place region gap started) = gap := hole_bump holeFound rfl
  have apart : (parts boot (layoutOf boot place region gap started) started.kept w).flatten.Pairwise Area.Apart := by
    apply inv_apart chosen inv (kernel_apart_root inside) kernelLow
    · rw [gapHole]
      exact kernelHole
    · rw [gapHole]
      exact root_apart_hole inside straight holeFound
    · rw [gapHole]
      exact low_apart_hole (fun _ => reserved_noWrap straight inside) enough lowFound holeFound
  constructor
  · exact apart
  · exact fun area member => inv.root.inside chosen.rootFormed (List.mem_append_left _ member)
  · exact fun area member => inv.low.inside chosen.lowFormed member
  · intro area member
    obtain ⟨low, upTo⟩ := inv.bump.inside area member
    exact ⟨low, le_trans upTo high⟩
  · exact bytes
  · exact fun k below => inv.root.taken_iff chosen.rootFormed below
  · exact fun k below => inv.low.taken_iff chosen.lowFormed below
  · exact fun area member addr has _ part own has' => held_apart chosen apart area member part own addr has' has
  · intro act allowed
    obtain ⟨next, stepped, _⟩ := step_leaves chosen inv act allowed
    exact ⟨next, stepped⟩

/-- A block that is stored to and given back, and a request to each of the other heaps. -/
def fiveActs (ptr : BitVec 64) : List Act :=
  [.kalloc 100, .write ptr 7, .kfree ptr, .lowKallocAligned 1000 512, .kBumpAlloc 4096]

theorem heaps_stay_apart_five_acts : ∃ memory started place region gap ptr w,
    startAt HoleCoverage.shortBoot memory 0x8F04 = .ok started ∧ ptr ≠ 0 ∧
      Run (pointersOf started) (layoutOf HoleCoverage.shortBoot place region gap started) (firstWorld started) (fiveActs ptr) w ∧
      Safe HoleCoverage.shortBoot (layoutOf HoleCoverage.shortBoot place region gap started) started (fiveActs ptr) w := by
  obtain ⟨memory, handed⟩ := exists_handed HoleCoverage.shortBoot
  obtain ⟨place, region, gap, found, nonnull, mapped, noWrap, alone, lowFound, holeFound, clear⟩ := shortBoot_found
  obtain ⟨started, done, _⟩ := startAt_done handed found nonnull mapped noWrap alone (by decide) (by decide) lowFound holeFound
  obtain ⟨place', region, gap, found', _, _, placed, safe⟩ := heaps_stay_apart HoleCoverage.shortBoot (by decide)
    (rootAlone_of alone) (by decide) (by decide) ((kernelClear_iff nonnull mapped (by decide) (by decide) lowFound holeFound).mpr
    clear) memory 0x8F04 handed started done
  obtain rfl := Option.some.inj (found'.symm.trans found)
  have formed := root_formed (root_inside noWrap nonnull mapped)
  have goes : ∀ {acts w} (run : Run (pointersOf started) (layoutOf HoleCoverage.shortBoot place' region gap started)
      (firstWorld started) acts w) act, Allowed (pointersOf started) (layoutOf HoleCoverage.shortBoot place' region gap
      started) w act → ∃ next, w.step (pointersOf started) act = some next ∧ Run (pointersOf started)
        (layoutOf HoleCoverage.shortBoot place' region gap started) (firstWorld started) (acts ++ [act]) next := by
    intro acts w run act allowed
    obtain ⟨next, step⟩ := (safe acts w run).goesOn act allowed
    exact ⟨next, step, run.snoc allowed step⟩
  -- the copy of the map takes four blocks, and the record of the bump heap one
  have room : (started.kept.map fun area => (area.size + 511) / 512).sum < (rootHeap place'.start
    HoleCoverage.shortBoot).heap.total := by
    change (24 + 511) / 512 + ((1538 + 511) / 512 + 0) < (HoleCoverage.shortBoot.size / 512).toNat
    decide
  obtain ⟨heap, live, keeps, _, fits⟩ := @Stands.fits_block _ _ _ placed.root formed 100 (by decide) (by decide) room
  obtain ⟨answer, served, serves⟩ := @Stands.serves_block _ _ _ placed.root formed 100 (by decide) (by decide) room
  have given := serves.1.nonnull formed (List.mem_cons_self ..)
  obtain ⟨first, step, run₁⟩ := goes .nil (.kalloc 100) ⟨by decide, heap,
    (congrArg (heapAt started.memory) placed.rootHeap).trans keeps.found, Or.inl fits⟩
  have root : first.root = [⟨answer.ptr, 100⟩] := by
    change (allocAt started.memory started.rootHeap 100).map _ = _ at step
    rw [placed.rootHeap, show allocAt started.memory place'.start 100 = some answer from served] at step
    obtain rfl := Option.some.inj step
    exact if_neg given
  have held : (⟨answer.ptr, 100⟩ : Area) ∈ first.root := by simp [root]
  have has : (⟨answer.ptr, 100⟩ : Area).Has answer.ptr := by
    change (answer.ptr - answer.ptr).toNat < 100
    rw [BitVec.sub_self]
    decide
  obtain ⟨second, step₂, run₂⟩ := goes run₁ (.write answer.ptr 7)
    ((safe _ _ run₁).stores _ (List.mem_append_left _ held) _ has 7)
  obtain rfl := Option.some.inj step₂
  obtain ⟨_, _, run₃⟩ := goes run₂ (.kfree answer.ptr) (Or.inr ⟨_, held, rfl⟩)
  obtain ⟨_, _, run₄⟩ := goes run₃ (.lowKallocAligned 1000 512) (show _ ≤ _ by decide)
  obtain ⟨w, _, run₅⟩ := goes run₄ (.kBumpAlloc 4096) trivial
  exact ⟨memory, started, place', region, gap, answer.ptr, w, done, given, run₅, safe _ _ run₅⟩

end Ketone.MemManager.WholeRuns
