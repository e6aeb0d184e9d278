import Ketone.Disk.SataSteps

/-! The ports of the controllers as set-ups leave them: what is in memory for the controller to find, and
what the low heap holds for it. -/

namespace Ketone.Disk.SataPorts
open Library.Ram MemManager.Allocator MemManager.BlockRuns MemManager.AllocBounds MemManager.FirstFit
open MemManager.LiveAreas Sata SataSetUp SataSteps

/-- A low heap below 4 GiB that starts behind as many bytes as it has itself. -/
structure Far (low : Heap) : Prop where
  blocks : low.blockSize = 512
  some : 0 < low.startAddr.toNat
  behind : low.maxSize.toNat ≤ low.startAddr.toNat
  below : low.startAddr.toNat + low.maxSize.toNat ≤ 2 ^ 32

def heapArea (low : Heap) : Area := ⟨low.startAddr, low.maxSize.toNat⟩

/-- The bytes that `memset` writes instead of those of the heap. -/
def doubled (low : Heap) : Area := ⟨low.startAddr + low.startAddr, 2 * low.maxSize.toNat⟩

section
variable {low other : Heap} {live : List Live}

theorem Far.same (far : Far low) (same : SameRecord low other) : Far other := by
  obtain ⟨size, start, max⟩ := same
  constructor
  · exact size.trans far.blocks
  · rw [start]
    exact far.some
  · rw [start, max]
    exact far.behind
  · rw [start, max]
    exact far.below

theorem heapArea_same (same : SameRecord low other) : heapArea other = heapArea low := by
  unfold heapArea
  rw [same.2.1, same.2.2]

theorem Far.blockBytes (far : Far low) : low.blockBytes.toNat = 512 := by
  rw [toNat_blockBytes, far.blocks]
  rfl

theorem Far.total_le (far : Far low) : low.total * 512 ≤ low.maxSize.toNat := by
  have bytes := far.blockBytes
  unfold Heap.total
  rw [BitVec.toNat_udiv, bytes]
  exact Nat.div_mul_le_self _ _

theorem Far.roomy (far : Far low) : low.total < 2 ^ 32 := by
  have most := far.total_le
  have below := far.below
  omega

def Inside (low : Heap) (area : Area) : Prop :=
  low.startAddr.toNat ≤ area.base.toNat ∧ area.base.toNat + area.size ≤ low.startAddr.toNat + low.maxSize.toNat

theorem Inside.within {area : Area} (inside : Inside low area) (far : Far low) : Area.Within area (heapArea low) := by
  have below := far.below
  obtain ⟨first, last⟩ := inside
  intro addr has
  rw [Area.has_iff (by omega)] at has
  rw [Area.has_iff (by unfold heapArea; dsimp only; omega)]
  unfold heapArea
  dsimp only
  omega

theorem backs_inside (pictured : Pictured low live) (far : Far low) {entry : Live} (member : entry ∈ live) {request : Area}
    (backs : Backs low entry request) : Inside low request := by
  obtain ⟨some, inside⟩ := pictured.inside entry member
  have below := far.below
  have most := far.total_le
  have straight := blocksOf_straight (show low.startAddr.toNat + low.maxSize.toNat ≤ 2 ^ 64 by omega) some inside
  have room := backs.room
  unfold blocksOf at straight
  rw [far.blockBytes] at straight room
  dsimp only at straight
  rw [← backs.ptr] at straight
  constructor
  · omega
  · omega

theorem Far.double (far : Far low) : (doubled low).base.toNat = low.startAddr.toNat + low.startAddr.toNat := by
  have below := far.below
  unfold doubled
  dsimp only
  rw [BitVec.toNat_add]
  omega

theorem heap_beyond (far : Far low) : Area.Apart (heapArea low) (doubled low) := by
  have below := far.below
  have behind := far.behind
  have double := far.double
  apply Area.apart_of_le
  · rw [double]
    unfold doubled
    dsimp only
    omega
  · rw [double]
    unfold heapArea
    dsimp only
    omega

/-- Where `memset` is asked to clear a part of the heap. -/
theorem memset_doubled (far : Far low) {ptr : BitVec 64} {n : Nat} (inside : Inside low ⟨ptr, n⟩) {area : Area}
    (apart : Area.Apart area (doubled low)) (memory : Memory) (c : BitVec 8) :
    area.Same memory (builtRoutines.memset memory ptr c n) := by
  obtain ⟨first, last⟩ := inside
  have below := far.below
  dsimp only at first last
  have count : (BitVec.ofNat 64 n).toNat = n := Nat.mod_eq_of_lt (by omega)
  have whole : builtRoutines.memset memory ptr c n = fill memory (Utils.written ptr (BitVec.ofNat 64 n)) c := by
    unfold builtRoutines
    dsimp only
    rw [Utils.memset_eq (by omega)]
    rfl
  have start : (Utils.written ptr (BitVec.ofNat 64 n)).base.toNat = ptr.toNat + ptr.toNat := by
    unfold Utils.written
    dsimp only
    rw [BitVec.toNat_add]
    omega
  have size : (Utils.written ptr (BitVec.ofNat 64 n)).size = n := count
  rw [whole]
  refine fill_same memory c (apart.mono (Area.Within.refl _) ?_)
  intro addr has
  rw [Area.has_iff (by omega), start, size] at has
  have double := far.double
  have room : (doubled low).size = 2 * low.maxSize.toNat := rfl
  rw [Area.has_iff (by omega), double, room]
  omega

theorem memset_aside (far : Far low) {ptr : BitVec 64} {n : Nat} (inside : Inside low ⟨ptr, n⟩) (memory : Memory)
    (c : BitVec 8) : (heapArea low).Same memory (builtRoutines.memset memory ptr c n) :=
  memset_doubled far inside (heap_beyond far) memory c

end

/-- A port that has been set up: where its tables are, and the addresses that the controller has been given. -/
structure Attachment where
  data : PortData
  tables : Nat → BitVec 64
  list : BitVec 64
  received : BitVec 64

namespace Attachment

def areas (a : Attachment) : List Area :=
  (List.range a.data.commandSlots).reverse.map (fun slot => ⟨a.tables slot, sizeofCmdTable⟩) ++
    [a.data.pointersArea, a.data.fisArea, a.data.listArea]

end Attachment

/-- The address of a command table, as the controller finds it in the header. -/
def ctba (memory : Memory) (header : BitVec 64) : BitVec 64 :=
  (loadWord 32 memory (header + 12)).setWidth 64 <<< 32 ||| (loadWord 32 memory (header + 8)).setWidth 64

/-- What memory holds of a port while commands come and go. -/
structure Attached (a : Attachment) (memory : Memory) : Prop where
  some : 0 < a.data.commandSlots
  few : a.data.commandSlots ≤ 32
  list : a.list = a.data.cmdList
  received : a.received = a.data.fis
  pointers : ∀ slot < a.data.commandSlots, a.data.table memory slot = a.tables slot
  headers : ∀ slot < a.data.commandSlots, ctba memory (a.data.headerField slot 0) = a.tables slot

section
variable {a : Attachment} {memory after : Memory}

theorem headerField_add (data : PortData) (slot offset : Nat) :
    data.headerField slot 0 + BitVec.ofNat 64 offset = data.headerField slot offset := by
  unfold PortData.headerField
  rw [Nat.add_zero, BitVec.ofNat_add, BitVec.add_assoc]

theorem ctba_same {header : BitVec 64} (same : (⟨header + BitVec.ofNat 64 8, 8⟩ : Area).Same memory after) :
    ctba after header = ctba memory header := by
  have low : (⟨header + 8, 4⟩ : Area).Same memory after :=
    same.mono fun addr has => Nat.lt_trans has (show 4 < 8 by decide)
  have high : (⟨header + 12, 4⟩ : Area).Same memory after := by
    have split : header + 12 = header + BitVec.ofNat 64 8 + BitVec.ofNat 64 4 := by
      rw [BitVec.add_assoc]
      rfl
    rw [split]
    exact same.mono (Area.part_within ⟨header + BitVec.ofNat 64 8, 8⟩ (show 4 + 4 ≤ 8 by decide) (show 8 ≤ 2 ^ 64 by decide))
  unfold ctba
  rw [loadWord_same (w := 32) memory (by decide) low, loadWord_same (w := 32) memory (by decide) high]

theorem Attached.same (attached : Attached a memory) (pointers : a.data.pointersArea.Same memory after)
    (headers : ∀ slot < a.data.commandSlots, (⟨a.data.headerField slot 8, 8⟩ : Area).Same memory after) : Attached a after := by
  refine { attached with pointers := ?_, headers := ?_ }
  · intro slot below
    rw [tables_same attached.few pointers below]
    exact attached.pointers slot below
  · intro slot below
    have same := headers slot below
    rw [← headerField_add] at same
    rw [ctba_same same]
    exact attached.headers slot below

theorem ctba_stored (header table : BitVec 64) (low : table.toNat < 2 ^ 32) (memory : Memory) :
    ctba (storeWord (storeWord memory (header + BitVec.ofNat 64 8) (table.setWidth 32)) (header + BitVec.ofNat 64 12)
      (0 : BitVec 32)) header = table := by
  have apart : Area.Apart ⟨header + BitVec.ofNat 64 8, 4⟩ ⟨header + BitVec.ofNat 64 12, 4⟩ :=
    Area.parts_apart (by decide) (by decide)
  have high : loadWord 32 (storeWord (storeWord memory (header + BitVec.ofNat 64 8) (table.setWidth 32))
      (header + BitVec.ofNat 64 12) (0 : BitVec 32)) (header + 12) = 0 := loadWord_store _ (by decide) (by decide) _ _
  have kept := storeWord_same (storeWord memory (header + BitVec.ofNat 64 8) (table.setWidth 32)) (by decide) (0 : BitVec 32)
    apart
  have lower : loadWord 32 (storeWord (storeWord memory (header + BitVec.ofNat 64 8) (table.setWidth 32))
      (header + BitVec.ofNat 64 12) (0 : BitVec 32)) (header + 8) = table.setWidth 32 :=
    (loadWord_same _ (by decide) kept).trans (loadWord_store _ (by decide) (by decide) _ _)
  unfold ctba
  rw [high, lower]
  apply BitVec.eq_of_toNat_eq
  simp
  omega

end

section
variable {low low' : Heap} {live : List Live} {data : PortData} {memory after : Memory} {others : List Area}

theorem backed_mem {requests : List Area} (pictured : Pictured low live) (far : Far low) (backed : Backed low live requests)
    {request : Area} (member : request ∈ requests) : Inside low request := by
  obtain ⟨owners, rest, rfl, all⟩ := backed
  obtain ⟨owner, listed, backs⟩ := mem_owner all member
  exact backs_inside pictured far (List.mem_append_left _ listed) backs

/-- What is behind a pointer that was handed out by the heap, in front of what was held before. -/
theorem granted_backed {size : BitVec 64} {requests : List Area} {call : Call} (pictured : Pictured low live)
    (far : Far low) (backed : Backed low live requests)
    (done : (∃ alignment, allocAligned low size alignment = some call) ∨ alloc low size = some call ∧ size.toNat ≤ 512)
    (small : size.toNat ≤ 2 ^ 32) (positive : size ≠ 0) (nonnull : call.ptr ≠ 0) :
    ∃ live', Pictured call.heap live' ∧ Far call.heap ∧ SameRecord low call.heap ∧
      Backed call.heap live' (⟨call.ptr, size.toNat⟩ :: requests) := by
  have fits := far.blockBytes
  have few := far.roomy
  have noWrap : low.NoWrap size := by
    unfold Heap.NoWrap
    rw [fits]
    omega
  have granted : ∃ inside, Settled low (low.needed size) inside call ∧ EndsInside low call := by
    rcases done with ⟨alignment, aligned⟩ | ⟨done, one⟩
    · exact ⟨_, allocAligned_settled (by omega) aligned, allocAligned_ends (by omega) aligned⟩
    · have single : low.needed size ≤ 1 := by
        apply MemManager.Reservation.needed_le noWrap positive
        rw [fits]
        omega
      exact ⟨_, alloc_settled done, alloc_ends single done⟩
  obtain ⟨_, settled, ends⟩ := granted
  obtain ⟨entry, backs, pictured', record⟩ := granted_live pictured noWrap positive settled ends nonnull
  exact ⟨_, pictured', far.same record, record, backed_cons backs backed record⟩

/-- A null pointer leaves the heap as it is. -/
theorem refused_same {size alignment : BitVec 64} {call : Call} (far : Far low) (done : allocAligned low size alignment = some call)
    (small : size.toNat ≤ 2 ^ 32) (positive : size ≠ 0) (null : call.ptr = 0) : call.heap = low := by
  have fits := far.blockBytes
  have few := far.roomy
  have below := far.below
  have some := far.some
  have noWrap : low.NoWrap size := by
    unfold Heap.NoWrap
    rw [fits]
    omega
  have needs := needed_pos noWrap positive
  rcases allocAligned_settled (by omega) done with ⟨_, rfl⟩ | ⟨start, _, inside, _, rfl⟩
  · rfl
  · have placed : low.startAddr ≠ 0 := by
      rintro zero
      rw [zero] at some
      exact absurd some (by decide)
    exact (@blockAddr_ne_zero _ placed (by omega) start (by omega) null).elim

/-- An allocation among others is given back. -/
theorem freed_backed {front : List Area} {request : Area} {requests : List Area} (pictured : Pictured low live) (far : Far low)
    (backed : Backed low live (front ++ request :: requests)) :
    ∃ live', Pictured (free low request.base) live' ∧ Far (free low request.base) ∧
      SameRecord low (free low request.base) ∧ Backed (free low request.base) live' (front ++ requests) := by
  have inside := @backed_mem _ _ _ pictured far backed request (by simp)
  obtain ⟨owners, rest, rfl, all⟩ := backed
  have ahead := List.forall₂_take_append _ _ _ all
  have behind := List.forall₂_drop_append _ _ _ all
  have parts := List.take_append_drop front.length owners
  generalize owners.take front.length = first at ahead parts
  generalize owners.drop front.length = second at behind parts
  subst parts
  cases behind with
  | @cons entry _ second _ backs behind =>
    have member : entry ∈ first ++ entry :: second ++ rest := by simp
    have once : entry ∉ first := by
      intro twice
      have apart := (List.pairwise_append.mp (List.pairwise_append.mp pictured.apart).1).2.2 entry twice entry List.mem_cons_self
      have some := (pictured.inside entry member).1
      unfold Live.Apart at apart
      omega
    have nonnull : low.blockAddr entry.start ≠ 0 := by
      intro null
      have some := far.some
      have begins := inside.1
      rw [backs.ptr.trans null] at begins
      change _ ≤ 0 at begins
      omega
    have freed := free_live pictured far.roomy member nonnull
    rw [← backs.ptr] at freed
    have record : SameRecord low (free low request.base) := by
      rw [freed]
      exact ⟨rfl, rfl, rfl⟩
    have pictured' := pictured_clear pictured member
    rw [List.append_assoc, List.erase_append_right _ once, List.cons_append, List.erase_cons_head, ← freed,
      ← List.append_assoc] at pictured'
    have all' := List.rel_append ahead behind
    exact ⟨_, pictured', far.same record, record, first ++ second, rest, rfl, all'.imp fun _ _ old => old.same record⟩

/-- The stores of one turn of the loop over the slots. -/
def tableTurn (data : PortData) (memory : Memory) (i : Nat) (ptr : BitVec 64) : Memory :=
  let memory := storeWord memory (data.tablePointer i) ptr
  let memory := builtRoutines.memset memory ptr 0 sizeofCmdTable
  let memory := storeWord memory (data.headerField i 8) (ptr.setWidth 32)
  storeWord memory (data.headerField i 12) (0 : BitVec 32)

structure Turned (data : PortData) (memory : Memory) (low : Heap) (i : Nat) (ptr : BitVec 64) (after : Memory) : Prop where
  pointer : data.table after i = ptr
  header : ctba after (data.headerField i 0) = ptr
  frame : ∀ area, Area.Within area (heapArea low) → Area.Apart area ⟨data.tablePointer i, 8⟩ →
    Area.Apart area ⟨data.headerField i 8, 8⟩ → area.Same memory after

theorem tableTurn_turned (far : Far low) (few : data.commandSlots ≤ 32) {i : Nat} (below : i < data.commandSlots)
    (pointers : Inside low data.pointersArea) (apart : Area.Apart data.pointersArea data.listArea) {ptr : BitVec 64}
    (inside : Inside low ⟨ptr, sizeofCmdTable⟩) : Turned data memory low i ptr (tableTurn data memory i ptr) := by
  have aside := memset_aside far inside (storeWord memory (data.tablePointer i) ptr) 0
  have fields : ∀ offset, offset = 8 ∨ offset = 12 → Area.Within ⟨data.headerField i offset, 4⟩ ⟨data.headerField i 8, 8⟩ := by
    rintro offset (rfl | rfl)
    · exact fun addr has => Nat.lt_trans has (show 4 < 8 by decide)
    · have split : data.headerField i 12 = data.headerField i 8 + BitVec.ofNat 64 4 := by
        unfold PortData.headerField
        rw [BitVec.add_assoc, ← BitVec.ofNat_add]
      rw [split]
      exact Area.part_within ⟨data.headerField i 8, 8⟩ (show 4 + 4 ≤ 8 by decide) (show 8 ≤ 2 ^ 64 by decide)
  have field : ∀ (memory : Memory) (offset : Nat) (word : BitVec 32) (area : Area), offset = 8 ∨ offset = 12 →
      Area.Apart area ⟨data.headerField i 8, 8⟩ → area.Same memory (storeWord memory (data.headerField i offset) word) :=
    fun memory offset word area which apart => storeWord_same memory (by decide) word
      (apart.mono (Area.Within.refl _) (fields offset which))
  have frame : ∀ area, Area.Within area (heapArea low) → Area.Apart area ⟨data.tablePointer i, 8⟩ →
      Area.Apart area ⟨data.headerField i 8, 8⟩ → area.Same memory (tableTurn data memory i ptr) := by
    intro area within pointer header
    have first := storeWord_same memory (show 64 / 8 ≤ 2 ^ 64 by decide) ptr pointer
    exact ((first.trans (aside.mono within)).trans (field _ 8 _ area (Or.inl rfl) header)).trans
      (field _ 12 _ area (Or.inr rfl) header)
  have pointerHeader : Area.Apart ⟨data.tablePointer i, 8⟩ ⟨data.headerField i 8, 8⟩ :=
    apart.mono (tablePointer_within few below) (headerField_within (by omega) (by decide))
  constructor
  · have stored := loadWord_store memory (w := 64) (by decide) (by decide) (data.tablePointer i) ptr
    have kept := ((aside.mono fun addr has => pointers.within far addr (tablePointer_within few below addr has)).trans
      (field _ 8 (ptr.setWidth 32) _ (Or.inl rfl) pointerHeader)).trans (field _ 12 0 _ (Or.inr rfl) pointerHeader)
    exact (table_same kept).trans stored
  · have straight : ptr.toNat < 2 ^ 32 := by
      have last := inside.2
      have below := far.below
      unfold sizeofCmdTable at last
      dsimp only at last
      omega
    unfold tableTurn
    rw [← headerField_add data i 8, ← headerField_add data i 12]
    exact ctba_stored _ ptr straight _
  · exact frame

structure Tabled (data : PortData) (others : List Area) (low : Heap) (live : List Live) (memory : Memory) (count : Nat) : Prop where
  pictured : Pictured low live
  far : Far low
  backed : Backed low live (data.requests memory count ++ others)
  headers : ∀ slot < count, ctba memory (data.headerField slot 0) = data.table memory slot

theorem Tabled.inside {count : Nat} (tabled : Tabled data others low live memory count) :
    Inside low data.pointersArea ∧ Inside low data.listArea ∧ Area.Apart data.pointersArea data.listArea := by
  have below := tabled.far.below
  have pairwise := backed_apart tabled.pictured (by omega) tabled.backed
  have base := (List.pairwise_append.mp (List.pairwise_append.mp pairwise).1).2.1
  refine ⟨?_, ?_, (List.pairwise_cons.mp base).1 _ (by simp)⟩
  · exact backed_mem tabled.pictured tabled.far tabled.backed (by simp [PortData.requests])
  · exact backed_mem tabled.pictured tabled.far tabled.backed (by simp [PortData.requests])

theorem turn_keeps {count i : Nat} {ptr : BitVec 64} (tabled : Tabled data others low live memory count)
    (turned : Turned data memory low i ptr after) (few : data.commandSlots ≤ 32) (below : i < data.commandSlots) {slot : Nat}
    (below' : slot < data.commandSlots) (different : slot ≠ i) :
    data.table after slot = data.table memory slot ∧
      ctba after (data.headerField slot 0) = ctba memory (data.headerField slot 0) := by
  obtain ⟨pointers, list, apart⟩ := tabled.inside
  have header : ∀ slot < data.commandSlots, Area.Within ⟨data.headerField slot 8, 8⟩ (data.headerArea slot) := by
    intro slot below
    rw [← headerField_add]
    exact Area.part_within (data.headerArea slot) (show 8 + 8 ≤ 32 by decide) (show 32 ≤ 2 ^ 64 by decide)
  constructor
  · apply table_same
    apply turned.frame
    · exact fun addr has => pointers.within tabled.far addr (tablePointer_within few below' addr has)
    · exact tablePointer_apart different (by omega) (by omega)
    · exact apart.mono (tablePointer_within few below') fun addr has =>
        header_in_list few below addr (header i below addr has)
  · apply ctba_same
    rw [headerField_add]
    apply turned.frame
    · exact fun addr has => list.within tabled.far addr (header_in_list few below' addr (header slot below' addr has))
    · exact (apart.mono (tablePointer_within few below) fun addr has =>
        header_in_list few below' addr (header slot below' addr has)).symm
    · exact (headers_apart different (by omega) (by omega)).mono (header slot below') (header i below)

theorem configureTables_tabled (few : data.commandSlots ≤ 32) {todo i : Nat} (count : i + todo = data.commandSlots)
    (tabled : Tabled data others low live memory i)
    (done : configureTables builtRoutines data todo i low memory = some (low', after)) :
    ∃ live', Tabled data others low' live' after data.commandSlots ∧ SameRecord low low' ∧
      ∀ area, Area.Within area (heapArea low) → Area.Apart area data.pointersArea → Area.Apart area data.listArea →
        area.Same memory after := by
  induction todo generalizing i low live memory with
  | zero =>
    obtain ⟨rfl, rfl⟩ := Prod.mk.inj (Option.some.inj done)
    have all : i = data.commandSlots := by omega
    subst all
    exact ⟨live, tabled, ⟨rfl, rfl, rfl⟩, fun area _ _ _ => Area.Same.refl area _⟩
  | succ todo ih =>
    obtain ⟨call, called, done⟩ := Option.bind_eq_some_iff.mp done
    dsimp only at done
    split at done
    · simp at done
    next nonnull =>
    have stored : data.table (storeWord memory (data.tablePointer i) call.ptr) i = call.ptr :=
      loadWord_store memory (by decide) (by decide) _ _
    rw [stored] at nonnull done
    obtain ⟨live₁, pictured, far, record, backed⟩ := granted_backed tabled.pictured tabled.far tabled.backed
      (Or.inl ⟨_, called⟩) (by decide) (by decide) nonnull
    have inside : Inside low ⟨call.ptr, sizeofCmdTable⟩ := by
      have inside := backed_mem pictured far backed List.mem_cons_self
      unfold Inside at inside ⊢
      rw [record.2.1, record.2.2] at inside
      exact inside
    obtain ⟨pointers, list, apart⟩ := tabled.inside
    have here : i < data.commandSlots := by omega
    have turned : Turned data memory low i call.ptr (tableTurn data memory i call.ptr) :=
      tableTurn_turned tabled.far few here pointers apart inside
    have reread : data.table (builtRoutines.memset (storeWord memory (data.tablePointer i) call.ptr) call.ptr 0
        sizeofCmdTable) i = call.ptr := by
      refine (table_same ((memset_aside tabled.far inside _ 0).mono fun addr has => ?_)).trans stored
      exact pointers.within tabled.far addr (tablePointer_within few (by omega) addr has)
    rw [reread] at done
    have turn : tableTurn data memory i call.ptr = storeWord (storeWord (builtRoutines.memset (storeWord memory
        (data.tablePointer i) call.ptr) call.ptr 0 sizeofCmdTable) (data.headerField i 8) (call.ptr.setWidth 32))
        (data.headerField i 12) 0 := rfl
    rw [← turn] at done
    have keeps : ∀ slot < i, data.table (tableTurn data memory i call.ptr) slot = data.table memory slot ∧
        ctba (tableTurn data memory i call.ptr) (data.headerField slot 0) = ctba memory (data.headerField slot 0) :=
      fun slot below => turn_keeps tabled turned few (by omega) (by omega) (by omega)
    have next : Tabled data others call.heap live₁ (tableTurn data memory i call.ptr) (i + 1) := by
      refine ⟨pictured, far, ?_, ?_⟩
      · rw [requests_succ, @requests_congr _ memory _ i fun slot below => (keeps slot below).1]
        unfold PortData.tableArea
        rw [turned.pointer]
        exact backed
      · intro slot below
        by_cases last : slot = i
        · subst last
          exact turned.header.trans turned.pointer.symm
        · obtain ⟨table, header⟩ := keeps slot (by omega)
          rw [table, header]
          exact tabled.headers slot (by omega)
    obtain ⟨live', final, record', frame⟩ := ih (by omega) next done
    refine ⟨live', final, record.trans record', fun area within pointer list => ?_⟩
    have first := turned.frame area within (pointer.mono (Area.Within.refl _) (tablePointer_within few (by omega)))
      (list.mono (Area.Within.refl _) (headerField_within (by omega) (by decide)))
    rw [← heapArea_same record] at within
    exact first.trans (frame area within pointer list)

end

def halves (low high : BitVec 32) : BitVec 64 := high.setWidth 64 <<< 32 ||| low.setWidth 64

theorem halves_low {addr : BitVec 64} (below : addr.toNat < 2 ^ 32) : halves (addr.setWidth 32) 0 = addr := by
  unfold halves
  apply BitVec.eq_of_toNat_eq
  simp
  omega

def attachment (setUp : PortSetUp) : Attachment :=
  ⟨setUp.data, setUp.data.table setUp.memory, halves setUp.clb setUp.clbu, halves setUp.fb setUp.fbu⟩

section
variable {low : Heap} {live : List Live} {memory : Memory} {others : List Area}

section
variable {commandSlots : BitVec 64} {setUp : PortSetUp} {cmdList fis cmdTables : Call}

theorem granted_regions (pictured : Pictured low live) (far : Far low) (backed : Backed low live others)
    (configured : Configured builtRoutines low memory commandSlots setUp cmdList fis cmdTables) :
    ∃ live', Pictured cmdTables.heap live' ∧ Far cmdTables.heap ∧ SameRecord low cmdTables.heap ∧
      Backed cmdTables.heap live'
        ([setUp.data.pointersArea, setUp.data.fisArea, setUp.data.listArea] ++ others) := by
  obtain ⟨_, few, bytes, some⟩ := configured.few
  have nonnull := configured.nonnull
  rw [not_or, not_or] at nonnull
  obtain ⟨live₁, pictured₁, far₁, record₁, backed₁⟩ := granted_backed pictured far backed
    (Or.inl ⟨_, configured.list⟩) (by decide) (by decide) nonnull.1
  obtain ⟨live₂, pictured₂, far₂, record₂, backed₂⟩ := granted_backed pictured₁ far₁ backed₁
    (Or.inl ⟨_, configured.received⟩) (by decide) (by decide) nonnull.2.1
  obtain ⟨live₃, pictured₃, far₃, record₃, backed₃⟩ := granted_backed pictured₂ far₂ backed₂
    (Or.inr ⟨configured.pointers, by rw [bytes]; omega⟩) (by rw [bytes]; omega) some nonnull.2.2
  refine ⟨live₃, pictured₃, far₃, (record₁.trans record₂).trans record₃, ?_⟩
  rw [configured.data]
  unfold PortData.pointersArea PortData.fisArea PortData.listArea
  rw [bytes] at backed₃
  exact backed₃

theorem cleared_aside (far : Far low)
    (configured : Configured builtRoutines low memory commandSlots setUp cmdList fis cmdTables)
    (inside : ∀ area ∈ [setUp.data.pointersArea, setUp.data.fisArea, setUp.data.listArea], Inside low area) :
    (heapArea low).Same memory (builtRoutines.memset (builtRoutines.memset (builtRoutines.memset memory
      cmdList.ptr 0 1024) fis.ptr 0 256) cmdTables.ptr 0 (8 * commandSlots).toNat) := by
  have bytes := configured.few.2.2.1
  rw [configured.data] at inside
  have pointers : Inside low ⟨cmdTables.ptr, (8 * commandSlots).toNat⟩ := by
    rw [bytes]
    exact inside _ (by simp [PortData.pointersArea])
  have received : Inside low ⟨fis.ptr, 256⟩ := inside _ (by simp [PortData.fisArea])
  have list : Inside low ⟨cmdList.ptr, 1024⟩ := inside _ (by simp [PortData.listArea])
  exact ((memset_aside far list memory 0).trans (memset_aside far received _ 0)).trans (memset_aside far pointers _ 0)

theorem halves_inside (far : Far low) {area : Area} (inside : Inside low area) (some : 0 < area.size) :
    halves (area.base.setWidth 32) 0 = area.base := by
  have straight := far.below
  have last := inside.2
  apply halves_low
  omega

end

/-- A port is set up beside what the heap has handed out before, and leaves it alone. -/
theorem attachment_attached (pictured : Pictured low live) (far : Far low) (backed : Backed low live others)
    {cr fr : Nat → BitVec 32} {commandSlots : BitVec 64} {setUp : PortSetUp}
    (done : portConfigure builtRoutines cr fr low memory commandSlots = some setUp) :
    (∃ live', Pictured setUp.low live' ∧ Backed setUp.low live' ((attachment setUp).areas ++ others)) ∧ Far setUp.low ∧
      SameRecord low setUp.low ∧ Attached (attachment setUp) setUp.memory ∧
      ∀ area ∈ others, area.Same memory setUp.memory := by
  obtain ⟨cmdList, fis, cmdTables, configured⟩ := portConfigure_ok done
  obtain ⟨positive, few, _⟩ := configured.few
  obtain ⟨live₃, pictured₃, far₃, record, backed₃⟩ := granted_regions pictured far backed configured
  have inside : ∀ area ∈ [setUp.data.pointersArea, setUp.data.fisArea, setUp.data.listArea], Inside low area := by
    intro area member
    have inside := backed_mem pictured₃ far₃ backed₃ (List.mem_append_left _ member)
    unfold Inside at inside ⊢
    rw [record.2.1, record.2.2] at inside
    exact inside
  have cleared := cleared_aside far configured inside
  have data := configured.data
  have tables := configured.tables
  have slots : setUp.data.commandSlots = commandSlots.toNat := by rw [data]
  generalize builtRoutines.memset (builtRoutines.memset (builtRoutines.memset memory cmdList.ptr 0 1024) fis.ptr 0 256)
    cmdTables.ptr 0 (8 * commandSlots).toNat = start at cleared tables
  have initial : Tabled setUp.data others cmdTables.heap live₃ start 0 :=
    ⟨pictured₃, far₃, backed₃, fun slot below => absurd below (Nat.not_lt_zero _)⟩
  rw [← slots] at tables few positive
  obtain ⟨live', final, record', frame⟩ := configureTables_tabled few (Nat.zero_add _) initial tables
  have straight := final.far.below
  have apart := (List.pairwise_append.mp (backed_apart final.pictured (by omega) final.backed)).2.2
  refine ⟨⟨live', final.pictured, final.backed⟩, final.far, record.trans record', ?_, ?_⟩
  · constructor
    · exact positive
    · exact few
    · have list := halves_inside far (inside setUp.data.listArea (by simp)) (show 0 < 1024 by decide)
      unfold attachment
      rw [configured.clb.1, configured.clb.2]
      rw [data] at list ⊢
      exact list
    · have received := halves_inside far (inside setUp.data.fisArea (by simp)) (show 0 < 256 by decide)
      unfold attachment
      rw [configured.fb.1, configured.fb.2]
      rw [data] at received ⊢
      exact received
    · exact fun slot below => rfl
    · exact final.headers
  · intro area member
    have within := (backed_mem pictured far backed member).within far
    refine (cleared.mono within).trans (frame area ?_ ?_ ?_)
    · rw [heapArea_same record]
      exact within
    · exact (apart setUp.data.pointersArea (by simp [PortData.requests]) area member).symm
    · exact (apart setUp.data.listArea (by simp [PortData.requests]) area member).symm

end

/-- The ports that a search for disks has set up. A buffer for what the drive says of itself is held meanwhile. What
happens to memory besides leaves the pointers to the tables alone, and their addresses in the headers. -/
inductive Discovered (low : Heap) (memory : Memory) : List Attachment → Heap → Memory → Prop where
  | none : Discovered low memory [] low memory
  | port {ports : List Attachment} {before : Heap} {memory' : Memory} {idBuff : Call} {cr fr : Nat → BitVec 32}
      {commandSlots : BitVec 64} {setUp : PortSetUp} (discovered : Discovered low memory ports before memory')
      (buffer : allocAligned before 512 512 = some idBuff) (nonnull : idBuff.ptr ≠ 0)
      (done : portConfigure builtRoutines cr fr idBuff.heap memory' commandSlots = some setUp) :
      Discovered low memory (attachment setUp :: ports) (free setUp.low idBuff.ptr) setUp.memory
  | stored {ports : List Attachment} {before : Heap} {memory' after : Memory}
      (discovered : Discovered low memory ports before memory')
      (spared : ∀ a ∈ ports, a.data.pointersArea.Same memory' after ∧
        ∀ slot < a.data.commandSlots, (⟨a.data.headerField slot 8, 8⟩ : Area).Same memory' after) :
      Discovered low memory ports before after

/-- What the ports hold of the low heap, and what memory holds for them. -/
structure Ready (ports : List Attachment) (low : Heap) (memory : Memory) : Prop where
  far : Far low
  backed : ∃ live, Pictured low live ∧ Backed low live (ports.flatMap Attachment.areas)
  attached : ∀ a ∈ ports, Attached a memory

theorem ready_discovered {low after : Heap} {live : List Live} {memory memory' : Memory} {ports : List Attachment}
    (pictured : Pictured low live) (far : Far low) (discovered : Discovered low memory ports after memory') :
    Ready ports after memory' ∧ SameRecord low after := by
  induction discovered with
  | none =>
    refine ⟨⟨far, ⟨live, pictured, [], live, rfl, List.Forall₂.nil⟩, ?_⟩, rfl, rfl, rfl⟩
    exact fun a member => absurd member List.not_mem_nil
  | @port ports before memory' idBuff cr fr commandSlots setUp _ buffer nonnull done ih =>
    obtain ⟨⟨far, ⟨live, pictured, backed⟩, attached⟩, record⟩ := ih
    obtain ⟨live₁, pictured₁, far₁, record₁, backed₁⟩ := granted_backed pictured far backed (Or.inl ⟨_, buffer⟩) (by decide)
      (by decide) nonnull
    obtain ⟨⟨live₂, pictured₂, backed₂⟩, far₂, record₂, new, kept⟩ := attachment_attached pictured₁ far₁ backed₁ done
    obtain ⟨live₃, pictured₃, far₃, record₃, backed₃⟩ := freed_backed pictured₂ far₂ backed₂
    refine ⟨⟨far₃, ⟨live₃, pictured₃, backed₃⟩, ?_⟩, ((record.trans record₁).trans record₂).trans record₃⟩
    intro a member
    rcases List.mem_cons.mp member with rfl | older
    · exact new
    · have spared : ∀ area ∈ a.areas, area.Same memory' setUp.memory :=
        fun area held => kept area (List.mem_cons_of_mem _ (List.mem_flatMap.mpr ⟨a, older, held⟩))
      apply (attached a older).same
      · exact spared _ (by simp [Attachment.areas])
      · intro slot inside
        have few := (attached a older).few
        exact (spared a.data.listArea (by simp [Attachment.areas])).mono (headerField_within (by omega) (by decide))
  | stored _ spared ih =>
    obtain ⟨ready, record⟩ := ih
    exact ⟨⟨ready.far, ready.backed, fun a member => (ready.attached a member).same (spared a member).1 (spared a member).2⟩,
      record⟩

end Ketone.Disk.SataPorts
