import Ketone.Disk.Sata
import Ketone.MemManager.LiveAreas
import Ketone.MemManager.Reservation
import Ketone.Utils

/-! The set-up of a port: the command list, the buffer for what the drive sends and a table for every
slot are taken from the low heap. -/

namespace Ketone.Disk.SataSetUp
open Library.Ram MemManager.Allocator MemManager.BlockRuns MemManager.AllocBounds MemManager.FirstFit
open MemManager.LiveAreas Sata

structure Routines where
  memset : Memory → BitVec 64 → BitVec 8 → Nat → Memory
  memcpy : Memory → BitVec 64 → BitVec 64 → Nat → Memory

/-- SATA_port_data_t -/
structure PortData where
  cmdList : BitVec 64
  fis : BitVec 64
  cmdTables : BitVec 64
  commandSlots : Nat
deriving DecidableEq

def sizeofCmdHeader : Nat := 32
def sizeofCmdTable : Nat := 144
def sizeofFis : Nat := 20

namespace PortData

/-- A field of `data->cmd_list[slot]`. -/
def headerField (data : PortData) (slot offset : Nat) : BitVec 64 :=
  data.cmdList + BitVec.ofNat 64 (sizeofCmdHeader * slot + offset)

def tablePointer (data : PortData) (slot : Nat) : BitVec 64 := data.cmdTables + BitVec.ofNat 64 (8 * slot)

def table (data : PortData) (memory : Memory) (slot : Nat) : BitVec 64 := loadWord 64 memory (data.tablePointer slot)

end PortData

/-- What a set-up leaves: the heap, memory, the port's data and the addresses given to the controller. -/
structure PortSetUp where
  low : Heap
  memory : Memory
  data : PortData
  clb : BitVec 32
  clbu : BitVec 32
  fb : BitVec 32
  fbu : BitVec 32

/-- The polls until the bits of the mask are clear; a loop that counts its timeout down past 0 fails. -/
def waitClear (mask : BitVec 32) (polls : Nat → BitVec 32) : Nat → Nat → Bool
  | 0, i => polls i &&& mask = 0
  | timeout + 1, i => polls i &&& mask = 0 || waitClear mask polls timeout (i + 1)

def configureTables (routines : Routines) (data : PortData) : Nat → Nat → Heap → Memory → Option (Heap × Memory)
  | 0, _, low, memory => some (low, memory)
  | todo + 1, i, low, memory => do
      let call ← allocAligned low (BitVec.ofNat 64 sizeofCmdTable) 128
      let memory := storeWord memory (data.tablePointer i) call.ptr
      if data.table memory i = 0 then none
      else
        let memory := routines.memset memory (data.table memory i) 0 sizeofCmdTable
        let memory := storeWord memory (data.headerField i 8) ((data.table memory i).setWidth 32)
        let memory := storeWord memory (data.headerField i 12) (0 : BitVec 32)
        configureTables routines data todo (i + 1) call.heap memory

/-- No set-up stands for the result `false`. The command engine and the reception of FIS are stopped first. -/
def portConfigure (routines : Routines) (cr fr : Nat → BitVec 32) (low : Heap) (memory : Memory)
    (commandSlots : BitVec 64) : Option PortSetUp :=
  if commandSlots = 0 ∨ commandSlots > 32 then none
  else if ¬ waitClear 0x8000 cr TIMEOUT 0 then none
  else if ¬ waitClear 0x4000 fr TIMEOUT 0 then none
  else do
    let cmdList ← allocAligned low 1024 1024
    let fis ← allocAligned cmdList.heap 256 256
    let cmdTables ← alloc fis.heap (8 * commandSlots)
    if cmdList.ptr = 0 ∨ fis.ptr = 0 ∨ cmdTables.ptr = 0 then none
    else
      let memory := routines.memset memory cmdList.ptr 0 1024
      let memory := routines.memset memory fis.ptr 0 256
      let memory := routines.memset memory cmdTables.ptr 0 (8 * commandSlots).toNat
      let data : PortData := ⟨cmdList.ptr, fis.ptr, cmdTables.ptr, commandSlots.toNat⟩
      let (low, memory) ← configureTables routines data commandSlots.toNat 0 cmdTables.heap memory
      return ⟨low, memory, data, data.cmdList.setWidth 32, 0, data.fis.setWidth 32, 0⟩

/-- The routines as they are. -/
def builtRoutines : Routines where
  memset memory ptr c n := (Utils.memset memory ptr c (BitVec.ofNat 64 n)).getD memory
  memcpy := Utils.memcpy

/-- The routines as their callers mean them. -/
def meantRoutines : Routines where
  memset memory ptr c n := fill memory ⟨ptr, n⟩ c
  memcpy := Utils.memcpy

/-- Requests that are each backed by an allocation of their own. -/
def Backed (heap : Heap) (live : List Live) (requests : List Area) : Prop :=
  ∃ owners rest, live = owners ++ rest ∧ List.Forall₂ (Backs heap) owners requests

section
variable {heap other : Heap} {live : List Live} {requests : List Area}

theorem backed_cons {entry : Live} {request : Area} (backs : Backs heap entry request)
    (backed : Backed heap live requests) (same : SameRecord heap other) :
    Backed other (entry :: live) (request :: requests) := by
  obtain ⟨owners, rest, rfl, all⟩ := backed
  refine ⟨entry :: owners, rest, rfl, ?_⟩
  apply List.Forall₂.cons (backs.same same)
  exact all.imp fun _ _ old => old.same same

theorem mem_owner {owners : List Live} (all : List.Forall₂ (Backs heap) owners requests) {request : Area}
    (member : request ∈ requests) : ∃ owner ∈ owners, Backs heap owner request := by
  induction all with
  | nil => simp at member
  | @cons entry first owners requests backs all ih =>
    rcases List.mem_cons.mp member with rfl | later
    · exact ⟨entry, List.mem_cons_self .., backs⟩
    · obtain ⟨owner, listed, backs'⟩ := ih later
      exact ⟨owner, List.mem_cons_of_mem _ listed, backs'⟩

/-- Requests that are backed lie apart. -/
theorem backed_apart (pictured : Pictured heap live)
    (area : heap.startAddr.toNat + heap.maxSize.toNat ≤ 2 ^ 64) (backed : Backed heap live requests) :
    requests.Pairwise Area.Apart := by
  obtain ⟨owners, rest, rfl, all⟩ := backed
  have apart := (List.pairwise_append.mp (blocksOf_apart pictured area)).1
  clear pictured
  induction all with
  | nil => exact List.Pairwise.nil
  | @cons entry request owners requests backs all ih =>
    obtain ⟨first, others⟩ := List.pairwise_cons.mp apart
    refine List.pairwise_cons.mpr ⟨?_, ih others⟩
    intro second member
    obtain ⟨owner, listed, backs'⟩ := mem_owner all member
    exact (first owner listed).mono (fun _ has => backs.has has) (fun _ has => backs'.has has)

end

namespace PortData

def listArea (data : PortData) : Area := ⟨data.cmdList, 1024⟩

def pointersArea (data : PortData) : Area := ⟨data.cmdTables, 8 * data.commandSlots⟩

def fisArea (data : PortData) : Area := ⟨data.fis, 256⟩

def headerArea (data : PortData) (slot : Nat) : Area := ⟨data.headerField slot 0, sizeofCmdHeader⟩

def tableArea (data : PortData) (memory : Memory) (slot : Nat) : Area := ⟨data.table memory slot, sizeofCmdTable⟩

/-- What the port holds when the tables of `count` slots have been allocated, the latest first. -/
def requests (data : PortData) (memory : Memory) (count : Nat) : List Area :=
  (List.range count).reverse.map (data.tableArea memory) ++ [data.pointersArea, data.fisArea, data.listArea]

end PortData

section
variable {data : PortData} {memory after : Memory} {slot : Nat}

theorem headerField_within (few : slot < 32) {offset size : Nat} (inside : offset + size ≤ sizeofCmdHeader) :
    Area.Within ⟨data.headerField slot offset, size⟩ data.listArea := by
  unfold sizeofCmdHeader at inside
  apply Area.part_within data.listArea
  · unfold PortData.listArea sizeofCmdHeader
    dsimp only
    omega
  · exact show 1024 ≤ 2 ^ 64 by decide

theorem tablePointer_apart {other : Nat} (different : slot ≠ other) (few : slot < 32) (few' : other < 32) :
    Area.Apart ⟨data.tablePointer slot, 8⟩ ⟨data.tablePointer other, 8⟩ := by
  by_cases below : slot < other
  · exact Area.parts_apart (by omega) (by omega)
  · exact (Area.parts_apart (by omega) (by omega)).symm

theorem tablePointer_within (few : data.commandSlots ≤ 32) (inside : slot < data.commandSlots) :
    Area.Within ⟨data.tablePointer slot, 8⟩ data.pointersArea := by
  apply Area.part_within data.pointersArea
  · unfold PortData.pointersArea
    dsimp only
    omega
  · unfold PortData.pointersArea
    dsimp only
    omega

theorem table_same (same : (⟨data.tablePointer slot, 8⟩ : Area).Same memory after) :
    data.table after slot = data.table memory slot := by
  have small : 64 / 8 ≤ 2 ^ 64 := by decide
  exact loadWord_same memory small same

theorem requests_succ (count : Nat) : data.requests memory (count + 1) =
    data.tableArea memory count :: data.requests memory count := by
  unfold PortData.requests
  rw [List.range_succ, List.reverse_append, List.reverse_singleton, List.singleton_append, List.map_cons,
    List.cons_append]

theorem requests_congr {count : Nat} (same : ∀ i < count, data.table after i = data.table memory i) :
    data.requests after count = data.requests memory count := by
  have tables : (List.range count).reverse.map (data.tableArea after) =
      (List.range count).reverse.map (data.tableArea memory) := by
    apply List.map_congr_left
    intro i member
    have below : i < count := List.mem_range.mp (List.mem_reverse.mp member)
    unfold PortData.tableArea
    rw [same i below]
  unfold PortData.requests
  rw [tables]

end

structure Laid (data : PortData) (memory : Memory) (count : Nat) : Prop where
  pointers_list : Area.Apart data.pointersArea data.listArea
  table_pointers : ∀ i < count, Area.Apart (data.tableArea memory i) data.pointersArea
  table_list : ∀ i < count, Area.Apart (data.tableArea memory i) data.listArea
  table_table : ∀ i < count, ∀ j < count, i ≠ j → Area.Apart (data.tableArea memory i) (data.tableArea memory j)

theorem laid_of_apart {data : PortData} {memory : Memory} {count : Nat}
    (apart : (data.requests memory count).Pairwise Area.Apart) : Laid data memory count := by
  unfold PortData.requests at apart
  obtain ⟨tables, base, across⟩ := List.pairwise_append.mp apart
  have listed : ∀ i < count, data.tableArea memory i ∈ (List.range count).reverse.map (data.tableArea memory) :=
    fun i below => List.mem_map_of_mem (List.mem_reverse.mpr (List.mem_range.mpr below))
  constructor
  · exact (List.pairwise_cons.mp base).1 _ (by simp)
  · exact fun i below => across _ (listed i below) _ (by simp)
  · exact fun i below => across _ (listed i below) _ (by simp)
  · intro i below j below' different
    have both : (List.range count).reverse.Pairwise fun i j =>
        Area.Apart (data.tableArea memory i) (data.tableArea memory j) := List.pairwise_map.mp tables
    have symm : Std.Symm fun i j => Area.Apart (data.tableArea memory i) (data.tableArea memory j) :=
      ⟨fun _ _ => Area.Apart.symm⟩
    exact both.forall (List.mem_reverse.mpr (List.mem_range.mpr below))
      (List.mem_reverse.mpr (List.mem_range.mpr below')) different

theorem configureTables_step {low : Heap} {live : List Live} {data : PortData} {memory : Memory} {i : Nat}
    (pictured : Pictured low live) (blocks : low.blockSize = 512) (roomy : low.total ≤ 2 ^ 61)
    (few : data.commandSlots ≤ 32) (inside : i < data.commandSlots) (backed : Backed low live (data.requests memory i)) {call : Call}
    (done : allocAligned low (BitVec.ofNat 64 sizeofCmdTable) 128 = some call) (nonnull : call.ptr ≠ 0)
    {after : Memory} (same : data.pointersArea.Same (storeWord memory (data.tablePointer i) call.ptr) after) :
    ∃ live', Pictured call.heap live' ∧ SameRecord low call.heap ∧
      Backed call.heap live' (data.requests after (i + 1)) := by
  have fits : low.blockBytes.toNat = 512 := by
    rw [MemManager.Allocator.toNat_blockBytes, blocks]
    rfl
  obtain ⟨entry, backs, pictured', record⟩ := granted_live pictured
    (show _ + _ ≤ 2 ^ 64 by rw [fits]; decide) (by decide) (allocAligned_settled roomy done)
    (allocAligned_ends roomy done) nonnull
  refine ⟨entry :: live, pictured', record, ?_⟩
  have own : data.table after i = call.ptr := by
    rw [table_same (same.mono (tablePointer_within few inside))]
    exact loadWord_store memory (by decide) (by decide) _ _
  have others : ∀ j < i, data.table after j = data.table memory j := by
    intro j below
    rw [table_same (same.mono (tablePointer_within few (by omega)))]
    apply table_same
    exact storeWord_same memory (by decide) _ (tablePointer_apart (by omega) (by omega) (by omega))
  rw [requests_succ, requests_congr others]
  unfold PortData.tableArea
  rw [own]
  exact backed_cons backs backed record

/-- The loop over the slots keeps what the port holds backed. -/
theorem configureTables_backed {data : PortData} (few : data.commandSlots ≤ 32) {todo i : Nat} {low low' : Heap}
    {live : List Live} {memory after : Memory} (count : i + todo = data.commandSlots)
    (pictured : Pictured low live) (blocks : low.blockSize = 512) (roomy : low.total ≤ 2 ^ 61)
    (area : low.startAddr.toNat + low.maxSize.toNat ≤ 2 ^ 64) (backed : Backed low live (data.requests memory i))
    (done : configureTables meantRoutines data todo i low memory = some (low', after)) :
    ∃ live', Pictured low' live' ∧ SameRecord low low' ∧
      Backed low' live' (data.requests after data.commandSlots) := by
  induction todo generalizing i low live memory with
  | zero =>
    obtain ⟨rfl, rfl⟩ := Prod.mk.inj (Option.some.inj done)
    have all : i = data.commandSlots := by omega
    rw [all] at backed
    exact ⟨live, pictured, ⟨rfl, rfl, rfl⟩, backed⟩
  | succ todo ih =>
    obtain ⟨call, called, done⟩ := Option.bind_eq_some_iff.mp done
    dsimp only at done
    split at done
    · simp at done
    next nonnull =>
    have stored : data.table (storeWord memory (data.tablePointer i) call.ptr) i = call.ptr :=
      loadWord_store memory (by decide) (by decide) _ _
    rw [stored] at nonnull done
    have first := configureTables_step pictured blocks roomy few (by omega) backed called nonnull (Area.Same.refl _ _)
    obtain ⟨live₁, pictured₁, record₁, backed₁⟩ := first
    -- neither the new table nor the headers lie over the pointers
    have laid := laid_of_apart (backed_apart pictured₁ (record₁.area area) backed₁)
    have table := laid.table_pointers i (Nat.lt_succ_self i)
    unfold PortData.tableArea at table
    rw [stored] at table
    have cleared := fill_same (storeWord memory (data.tablePointer i) call.ptr) 0 table.symm
    have kept := table_same (cleared.mono (tablePointer_within few (show i < data.commandSlots by omega)))
    rw [stored] at kept
    have header : ∀ offset, offset + 4 ≤ sizeofCmdHeader → ∀ memory' (word : BitVec 32),
        data.pointersArea.Same memory' (storeWord memory' (data.headerField i offset) word) := by
      intro offset inside memory' word
      apply storeWord_same memory' (by decide)
      exact laid.pointers_list.mono (Area.Within.refl _) (headerField_within (by omega) inside)
    have same := (cleared.trans (header 8 (by decide) _ (call.ptr.setWidth 32))).trans (header 12 (by decide) _ 0)
    obtain ⟨live₂, pictured₂, record₂, backed₂⟩ :=
      configureTables_step pictured blocks roomy few (by omega) backed called nonnull same
    change configureTables meantRoutines data todo (i + 1) call.heap (storeWord (storeWord
      (fill (storeWord memory (data.tablePointer i) call.ptr) ⟨call.ptr, sizeofCmdTable⟩ 0) (data.headerField i 8)
      ((data.table (fill (storeWord memory (data.tablePointer i) call.ptr) ⟨call.ptr, sizeofCmdTable⟩ 0) i).setWidth 32))
      (data.headerField i 12) 0) = _ at done
    rw [kept] at done
    obtain ⟨live', final, record', backed'⟩ := ih (by omega) pictured₂ (record₂.1.trans blocks)
      (by rw [record₂.total]; exact roomy) (record₂.area area) backed₂ done
    exact ⟨live', final, record₂.trans record', backed'⟩

structure Configured (routines : Routines) (low : Heap) (memory : Memory) (commandSlots : BitVec 64)
    (setUp : PortSetUp) (cmdList fis cmdTables : Call) : Prop where
  slots : commandSlots ≠ 0 ∧ ¬ commandSlots > 32
  list : allocAligned low 1024 1024 = some cmdList
  received : allocAligned cmdList.heap 256 256 = some fis
  pointers : alloc fis.heap (8 * commandSlots) = some cmdTables
  nonnull : ¬ (cmdList.ptr = 0 ∨ fis.ptr = 0 ∨ cmdTables.ptr = 0)
  data : setUp.data = ⟨cmdList.ptr, fis.ptr, cmdTables.ptr, commandSlots.toNat⟩
  tables : configureTables routines setUp.data commandSlots.toNat 0 cmdTables.heap
    (routines.memset (routines.memset (routines.memset memory cmdList.ptr 0 1024) fis.ptr 0 256)
      cmdTables.ptr 0 (8 * commandSlots).toNat) = some (setUp.low, setUp.memory)
  clb : setUp.clb = cmdList.ptr.setWidth 32 ∧ setUp.clbu = 0
  fb : setUp.fb = fis.ptr.setWidth 32 ∧ setUp.fbu = 0

theorem portConfigure_ok {routines : Routines} {cr fr : Nat → BitVec 32} {low : Heap} {memory : Memory}
    {commandSlots : BitVec 64} {setUp : PortSetUp}
    (done : portConfigure routines cr fr low memory commandSlots = some setUp) :
    ∃ cmdList fis cmdTables, Configured routines low memory commandSlots setUp cmdList fis cmdTables := by
  unfold portConfigure at done
  split at done
  · simp at done
  next slots =>
  split at done
  · simp at done
  split at done
  · simp at done
  obtain ⟨cmdList, list, done⟩ := Option.bind_eq_some_iff.mp done
  obtain ⟨fis, received, done⟩ := Option.bind_eq_some_iff.mp done
  obtain ⟨cmdTables, pointers, done⟩ := Option.bind_eq_some_iff.mp done
  split at done
  · simp at done
  next nonnull =>
  obtain ⟨⟨low', memory'⟩, tables, done⟩ := Option.bind_eq_some_iff.mp done
  obtain rfl := Option.some.inj done
  exact ⟨cmdList, fis, cmdTables, not_or.mp slots, list, received, pointers, nonnull, rfl, tables, ⟨rfl, rfl⟩, ⟨rfl, rfl⟩⟩

/-- The pointers to the tables take at most half a block. -/
theorem Configured.few {routines : Routines} {low : Heap} {memory : Memory} {commandSlots : BitVec 64}
    {setUp : PortSetUp} {cmdList fis cmdTables : Call}
    (configured : Configured routines low memory commandSlots setUp cmdList fis cmdTables) :
    0 < commandSlots.toNat ∧ commandSlots.toNat ≤ 32 ∧ (8 * commandSlots).toNat = 8 * commandSlots.toNat ∧
      8 * commandSlots ≠ 0 := by
  obtain ⟨someSlots, few⟩ := configured.slots
  rw [gt_iff_lt, BitVec.not_lt, BitVec.le_def] at few
  change commandSlots.toNat ≤ 32 at few
  have positive : 0 < commandSlots.toNat := BitVec.toNat_pos_of_ne_zero someSlots
  have bytes : (8 * commandSlots).toNat = 8 * commandSlots.toNat := by
    rw [BitVec.toNat_mul]
    change 8 * commandSlots.toNat % 2 ^ 64 = _
    omega
  refine ⟨positive, few, bytes, ?_⟩
  intro zero
  rw [zero] at bytes
  change 0 = _ at bytes
  omega

/-- On a well-formed low heap everything that a set-up allocates is a live allocation of its own. -/
theorem portConfigure_laid {cr fr : Nat → BitVec 32} {low : Heap} {live : List Live} (formed : WellFormed low live)
    (blocks : low.blockSize = 512) {memory : Memory} {commandSlots : BitVec 64} {setUp : PortSetUp}
    (done : portConfigure meantRoutines cr fr low memory commandSlots = some setUp) :
    0 < setUp.data.commandSlots ∧ setUp.data.commandSlots ≤ 32 ∧
      Laid setUp.data setUp.memory setUp.data.commandSlots := by
  obtain ⟨cmdList, fis, cmdTables, configured⟩ := portConfigure_ok done
  have table := formed.table
  have roomy : low.total ≤ 2 ^ 61 := by omega
  have fits : ∀ heap : Heap, heap.blockSize = 512 → heap.blockBytes.toNat = 512 := by
    intro heap same
    rw [MemManager.Allocator.toNat_blockBytes, same]
    rfl
  obtain ⟨positive, few, bytes, some⟩ := configured.few
  have nonnull := configured.nonnull
  rw [not_or, not_or] at nonnull
  obtain ⟨entry₁, backs₁, pictured₁, record₁⟩ := granted_live formed.pictured
    (show _ + _ ≤ 2 ^ 64 by rw [fits low blocks]; decide) (by decide) (allocAligned_settled roomy configured.list)
    (allocAligned_ends roomy configured.list) nonnull.1
  have backed₁ : Backed cmdList.heap (entry₁ :: live) [⟨cmdList.ptr, 1024⟩] :=
    backed_cons backs₁ ⟨[], live, rfl, .nil⟩ record₁
  have blocks₁ := record₁.1.trans blocks
  obtain ⟨entry₂, backs₂, pictured₂, record₂⟩ := granted_live pictured₁
    (show _ + _ ≤ 2 ^ 64 by rw [fits _ blocks₁]; decide) (by decide)
    (allocAligned_settled (by rw [record₁.total]; exact roomy) configured.received)
    (allocAligned_ends (by rw [record₁.total]; exact roomy) configured.received) nonnull.2.1
  have backed₂ := backed_cons backs₂ backed₁ record₂
  have blocks₂ := record₂.1.trans blocks₁
  have one : fis.heap.needed (8 * commandSlots) ≤ 1 := by
    apply MemManager.Reservation.needed_le
    · unfold Heap.NoWrap
      rw [fits _ blocks₂]
      omega
    · exact some
    · rw [fits _ blocks₂]
      omega
  obtain ⟨entry₃, backs₃, pictured₃, record₃⟩ := granted_live pictured₂
    (show _ + _ ≤ 2 ^ 64 by rw [fits _ blocks₂]; omega) some
    (alloc_settled configured.pointers) (alloc_ends one configured.pointers) nonnull.2.2
  have backed₃ := backed_cons backs₃ backed₂ record₃
  have blocks₃ := record₃.1.trans blocks₂
  have record := (record₁.trans record₂).trans record₃
  have data := configured.data
  have start : setUp.data.requests (meantRoutines.memset (meantRoutines.memset (meantRoutines.memset memory
      cmdList.ptr 0 1024) fis.ptr 0 256) cmdTables.ptr 0 (8 * commandSlots).toNat) 0 =
      [⟨cmdTables.ptr, (8 * commandSlots).toNat⟩, ⟨fis.ptr, 256⟩, ⟨cmdList.ptr, 1024⟩] := by
    rw [data, bytes]
    rfl
  have tables := configured.tables
  have slots : setUp.data.commandSlots = commandSlots.toNat := by rw [data]
  rw [← slots] at tables few positive
  have area := record.area formed.area
  obtain ⟨live', final, record', backed⟩ := configureTables_backed few (Nat.zero_add _) pictured₃ blocks₃
    (by rw [record.total]; exact roomy) area (by rw [start]; exact backed₃) tables
  exact ⟨by omega, few, laid_of_apart (backed_apart final (record'.area area) backed)⟩

end Ketone.Disk.SataSetUp
