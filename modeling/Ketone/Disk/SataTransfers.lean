import Ketone.Disk.SataPorts
import Ketone.Disk.SectorNumber
import Ketone.Disk.SharedBuffers

/-! Sectors on their way through memory: the controller finds a command where the driver has put it, and
stores the sector to the stretch of memory that the command names. -/

namespace Ketone.Disk.SataTransfers
open Library.Bytes Library.Loop Library.Ram MemManager.Allocator MemManager.BlockRuns MemManager.FirstFit MemManager.LiveAreas
open Sata SataSetUp SataSteps SharedBuffers SataPorts

def headerOf (a : Attachment) (slot : Nat) : BitVec 64 := a.list + BitVec.ofNat 64 (32 * slot)

def tableOf (memory : Memory) (a : Attachment) (slot : Nat) : BitVec 64 := ctba memory (headerOf a slot)

def stretch (memory : Memory) (table : BitVec 64) : Area :=
  ⟨halves (loadWord 32 memory (table + 128)) (loadWord 32 memory (table + 132)),
    (loadWord 32 memory (table + 140) &&& 0x3FFFFF).toNat + 1⟩

def sectorAsked (memory : Memory) (table : BitVec 64) : Nat :=
  littleEndian ([memory (table + 4), memory (table + 5), memory (table + 6), memory (table + 8), memory (table + 9),
    memory (table + 10)].getD · 0) 0 6

structure ReadsOne (memory : Memory) (header table : BitVec 64) : Prop where
  flags : loadWord 16 memory header &&& 0x5F = 5
  stretches : loadWord 16 memory (header + 2) = 1
  fisType : memory table = 0x27
  update : memory (table + 1) = 0x80
  command : memory (table + 2) = CMD_SATA_READ_DMA_EXT
  device : memory (table + 7) = 0x40
  countl : memory (table + 12) = 1
  counth : memory (table + 13) = 0

/-- What the controllers may do at any time: they store what the drives send, they count the bytes of a command that is
under way, and they store to its stretch of memory. When the bit of a command goes out its sector is there. -/
structure HbaMoves (ports : List Attachment) (sectors : Nat → Nat → Nat → BitVec 8) (s : System) (next : Nat → HbaPort)
    (dma : Memory → Memory) : Prop where
  clears : ∀ disk, Clears (s.ports disk).ci (next disk).ci
  confined : ∀ addr, (∀ disk a, ports[disk]? = some a → ¬ (⟨a.received, 256⟩ : Area).Has addr ∧
      ∀ slot, UnderWay s disk slot → ¬ (⟨headerOf a slot + 4, 4⟩ : Area).Has addr ∧
        ¬ (stretch s.memory (tableOf s.memory a slot)).Has addr) →
    dma s.memory addr = s.memory addr
  done : ∀ disk a slot, ports[disk]? = some a → UnderWay s disk slot → (next disk).ci.getLsbD slot = false →
    ReadsOne s.memory (headerOf a slot) (tableOf s.memory a slot) →
    ∀ k < 512, k < (stretch s.memory (tableOf s.memory a slot)).size →
      dma s.memory ((stretch s.memory (tableOf s.memory a slot)).base + BitVec.ofNat 64 k) =
        sectors disk (sectorAsked s.memory (tableOf s.memory a slot)) k

def fisArea (call : ReadCall) : Area := ⟨call.fis, sizeofFis⟩

def buffArea (call : ReadCall) : Area := ⟨call.buff, 512⟩

/-- A call whose frame and buffer lie beside the heap, beside what `memset` reaches, and beside memory that is `kept`. -/
structure Placed (ports : List Attachment) (low : Heap) (kept : Area) (call : ReadCall) : Prop where
  disk : call.disk < ports.length
  straight : call.fis.toNat + sizeofFis < 2 ^ 64
  fis : ∀ area ∈ [heapArea low, doubled low, kept], Area.Apart (fisArea call) area
  reached : ∀ area ∈ [heapArea low, kept], Area.Apart (Utils.written call.fis (BitVec.ofNat 64 sizeofFis)) area
  buff : ∀ area ∈ [heapArea low, kept], Area.Apart (buffArea call) area

def Allowed (ports : List Attachment) (sectors : Nat → Nat → Nat → BitVec 8) (low : Heap) (kept : Area) (s : System) :
    Event → Prop
  | .call call => Placed ports low kept call
  | .driver => ¬ GivesUp s
  | .moved next dma => HbaMoves ports sectors s next dma

def dataOf (ports : List Attachment) (disk : Nat) : PortData := ((ports[disk]?).map Attachment.data).getD ⟨0, 0, 0, 0⟩

def Filled (sectors : Nat → Nat → Nat → BitVec 8) (call : ReadCall) (memory : Memory) (at_ : BitVec 64) : Prop :=
  ∀ k < 512, memory (at_ + BitVec.ofNat 64 k) = sectors call.disk (call.lba.toNat % 2 ^ 48) k

def fields (lba : BitVec 64) : List (Nat × BitVec 8) :=
  [(0, 0x27), (1, 0x80), (2, CMD_SATA_READ_DMA_EXT), (4, lba.setWidth 8), (5, (lba >>> 8).setWidth 8),
    (6, (lba >>> 16).setWidth 8), (8, (lba >>> 24).setWidth 8), (9, (lba >>> 32).setWidth 8),
    (10, (lba >>> 40).setWidth 8), (7, 0x40), (12, 1), (13, 0)]

def Asked (memory : Memory) (addr lba : BitVec 64) : Prop :=
  ∀ field ∈ fields lba, memory (addr + BitVec.ofNat 64 field.1) = field.2

def Headed (memory : Memory) (data : PortData) (slot : Nat) : Prop :=
  loadWord 16 memory (data.headerField slot 0) = 5 ∧ loadWord 16 memory (data.headerField slot 2) = 1

def Named (memory : Memory) (table dmaBuffer : BitVec 64) : Prop :=
  loadWord 32 memory (table + 128) = dmaBuffer.setWidth 32 ∧ loadWord 32 memory (table + 132) = 0 ∧
    loadWord 32 memory (table + 140) = 511

structure Ordered (a : Attachment) (lba : BitVec 64) (memory : Memory) (slot : Nat) (dmaBuffer : BitVec 64) : Prop where
  asked : Asked memory (a.tables slot) lba
  headed : Headed memory a.data slot
  named : Named memory (a.tables slot) dmaBuffer

section
variable {memory after : Memory} {lba : BitVec 64}

theorem offset_ne (base : BitVec 64) {i j : Nat} (small : i < 2 ^ 64) (small' : j < 2 ^ 64) (different : i ≠ j) :
    base + BitVec.ofNat 64 i ≠ base + BitVec.ofNat 64 j := by
  intro same
  have offsets := congrArg BitVec.toNat ((BitVec.add_right_inj _).mp same)
  rw [BitVec.toNat_ofNat, BitVec.toNat_ofNat, Nat.mod_eq_of_lt small, Nat.mod_eq_of_lt small'] at offsets
  exact different offsets

theorem stores_found (base : BitVec 64) (fields : List (Nat × BitVec 8)) (apart : (fields.map Prod.fst).Nodup)
    (small : ∀ field ∈ fields, field.1 < 2 ^ 64) (memory : Memory) :
    (∀ field ∈ fields, fields.foldl (fun memory field => store memory (base + BitVec.ofNat 64 field.1) field.2) memory
        (base + BitVec.ofNat 64 field.1) = field.2) ∧
      ∀ addr, (∀ field ∈ fields, addr ≠ base + BitVec.ofNat 64 field.1) →
        fields.foldl (fun memory field => store memory (base + BitVec.ofNat 64 field.1) field.2) memory addr = memory addr := by
  induction fields generalizing memory with
  | nil => exact ⟨fun field member => absurd member List.not_mem_nil, fun addr _ => rfl⟩
  | cons first rest ih =>
    obtain ⟨new, apart⟩ := List.nodup_cons.mp apart
    obtain ⟨found, others⟩ := ih apart (fun field member => small field (List.mem_cons_of_mem _ member))
      (store memory (base + BitVec.ofNat 64 first.1) first.2)
    constructor
    · intro field member
      rcases List.mem_cons.mp member with rfl | later
      · refine (others _ fun other member => ?_).trans (if_pos rfl)
        refine offset_ne base (small field List.mem_cons_self) (small other (List.mem_cons_of_mem _ member)) ?_
        exact fun same => new (List.mem_map.mpr ⟨other, member, same.symm⟩)
      · exact found field later
    · intro addr elsewhere
      refine (others addr fun field member => elsewhere field (List.mem_cons_of_mem _ member)).trans ?_
      exact if_neg (elsewhere first List.mem_cons_self)

theorem fields_small (lba : BitVec 64) : ∀ field ∈ fields lba, field.1 < 20 := by
  unfold fields
  simp

theorem storeFis_asked (memory : Memory) (fis lba : BitVec 64) : Asked (storeFis memory fis lba) fis lba :=
  (stores_found fis (fields lba) (by unfold fields; simp) (fun field member =>
    Nat.lt_trans (fields_small lba field member) (by decide)) memory).1

theorem storeFis_same (memory : Memory) (fis lba : BitVec 64) {area : Area} (apart : Area.Apart area ⟨fis, sizeofFis⟩) :
    area.Same memory (storeFis memory fis lba) := by
  intro addr has
  refine (stores_found fis (fields lba) (by unfold fields; simp) (fun field member =>
    Nat.lt_trans (fields_small lba field member) (by decide)) memory).2 addr ?_
  rintro field member rfl
  exact apart _ has (Area.has_offset ⟨fis, sizeofFis⟩ (fields_small lba field member) (show 20 ≤ 2 ^ 64 by decide))

theorem Asked.same {addr : BitVec 64} (asked : Asked memory addr lba) (same : (⟨addr, sizeofFis⟩ : Area).Same memory after) :
    Asked after addr lba := by
  intro field member
  rw [same _ (Area.has_offset ⟨addr, sizeofFis⟩ (fields_small lba field member) (show 20 ≤ 2 ^ 64 by decide))]
  exact asked field member

theorem memcpy_asked {fis table : BitVec 64} (asked : Asked memory fis lba)
    (apart : Area.Apart ⟨fis, sizeofFis⟩ ⟨table, sizeofFis⟩) : Asked (Utils.memcpy memory fis table sizeofFis) table lba := by
  intro field member
  rw [Utils.memcpy_copied memory (by decide) apart (fields_small lba field member)]
  exact asked field member

theorem storeHeader_headed (data : PortData) (memory : Memory) (slot : Nat) : Headed (storeHeader data memory slot false) data slot := by
  have apart : ∀ first second size size', first + size ≤ second → second + size' ≤ 32 →
      Area.Apart ⟨data.headerField slot first, size⟩ ⟨data.headerField slot second, size'⟩ := by
    intro first second size size' before inside
    rw [← headerField_add data slot first, ← headerField_add data slot second]
    exact Area.parts_apart before (by omega)
  unfold storeHeader
  constructor
  · refine (loadWord_same _ (by decide) (storeWord_same _ (by decide) _ (apart 0 4 2 4 (by decide) (by decide)))).trans ?_
    refine (loadWord_same _ (by decide) (storeWord_same _ (by decide) _ (apart 0 2 2 2 (by decide) (by decide)))).trans ?_
    exact loadWord_store _ (by decide) (by decide) _ _
  · refine (loadWord_same _ (by decide) (storeWord_same _ (by decide) _ (apart 2 4 2 4 (by decide) (by decide)))).trans ?_
    exact loadWord_store _ (by decide) (by decide) _ _

theorem storePrdt_named (memory : Memory) (table dmaBuffer : BitVec 64) : Named (storePrdt memory table dmaBuffer 512) table dmaBuffer := by
  have apart : ∀ first second : Nat, first + 4 ≤ second → second ≤ 140 →
      Area.Apart ⟨table + BitVec.ofNat 64 first, 4⟩ ⟨table + BitVec.ofNat 64 second, 4⟩ :=
    fun first second before inside => Area.parts_apart before (by omega)
  unfold storePrdt
  refine ⟨?_, ?_, loadWord_store _ (by decide) (by decide) _ _⟩
  · refine (loadWord_same _ (by decide) (storeWord_same _ (by decide) _ (apart 128 140 (by decide) (by decide)))).trans ?_
    refine (loadWord_same _ (by decide) (storeWord_same _ (by decide) _ (apart 128 136 (by decide) (by decide)))).trans ?_
    refine (loadWord_same _ (by decide) (storeWord_same _ (by decide) _ (apart 128 132 (by decide) (by decide)))).trans ?_
    exact loadWord_store _ (by decide) (by decide) _ _
  · refine (loadWord_same _ (by decide) (storeWord_same _ (by decide) _ (apart 132 140 (by decide) (by decide)))).trans ?_
    refine (loadWord_same _ (by decide) (storeWord_same _ (by decide) _ (apart 132 136 (by decide) (by decide)))).trans ?_
    exact loadWord_store _ (by decide) (by decide) _ _

theorem storeHeader_touches (data : PortData) (memory : Memory) (slot : Nat) (write : Bool) {area : Area}
    (apart : Area.Apart area ⟨data.headerField slot 0, 8⟩) : area.Same memory (storeHeader data memory slot write) := by
  have store : ∀ {w : Nat} (memory : Memory) (offset : Nat) (word : BitVec w), offset + w / 8 ≤ 8 →
      area.Same memory (storeWord memory (data.headerField slot offset) word) := by
    intro w memory offset word fits
    refine storeWord_same memory (by omega) word (apart.mono (Area.Within.refl _) ?_)
    rw [← headerField_add]
    exact Area.part_within ⟨data.headerField slot 0, 8⟩ fits (show 8 ≤ 2 ^ 64 by decide)
  exact ((store _ 0 _ (by decide)).trans (store _ 2 _ (by decide))).trans (store _ 4 _ (by decide))

theorem storePrdt_touches (memory : Memory) (table buffer bufferSize : BitVec 64) {area : Area}
    (apart : Area.Apart area ⟨table + BitVec.ofNat 64 128, 16⟩) : area.Same memory (storePrdt memory table buffer bufferSize) := by
  have store : ∀ (memory : Memory) (offset : Nat) (word : BitVec 32), 128 ≤ offset → offset + 4 ≤ 144 →
      area.Same memory (storeWord memory (table + BitVec.ofNat 64 offset) word) := by
    intro memory offset word low high
    refine storeWord_same memory (by decide) word (apart.mono (Area.Within.refl _) ?_)
    obtain ⟨part, rfl⟩ := Nat.exists_eq_add_of_le low
    rw [BitVec.ofNat_add, ← BitVec.add_assoc]
    exact Area.part_within ⟨table + BitVec.ofNat 64 128, 16⟩ (show part + 32 / 8 ≤ 16 by omega) (show 16 ≤ 2 ^ 64 by decide)
  exact (((store _ 128 _ (by decide) (by decide)).trans (store _ 132 _ (by decide) (by decide))).trans
    (store _ 136 _ (by decide) (by decide))).trans (store _ 140 _ (by decide) (by decide))

theorem front_within (table : BitVec 64) : Area.Within ⟨table, sizeofFis⟩ ⟨table, sizeofCmdTable⟩ :=
  fun _ has => Nat.lt_trans has (show 20 < 144 by decide)

theorem Headed.same {data : PortData} {slot : Nat} (headed : Headed memory data slot)
    (header : (⟨data.headerField slot 0, 4⟩ : Area).Same memory after) : Headed after data slot := by
  have half : ∀ offset, offset + 2 ≤ 4 →
      loadWord 16 after (data.headerField slot offset) = loadWord 16 memory (data.headerField slot offset) := by
    intro offset inside
    apply loadWord_same memory (by decide)
    rw [← headerField_add]
    exact header.mono (Area.part_within ⟨data.headerField slot 0, 4⟩ inside (show 4 ≤ 2 ^ 64 by decide))
  exact ⟨(half 0 (by decide)).trans headed.1, (half 2 (by decide)).trans headed.2⟩

theorem Ordered.same {a : Attachment} {slot : Nat} {dmaBuffer : BitVec 64} (ordered : Ordered a lba memory slot dmaBuffer)
    (table : (⟨a.tables slot, sizeofCmdTable⟩ : Area).Same memory after)
    (header : (⟨a.data.headerField slot 0, 4⟩ : Area).Same memory after) : Ordered a lba after slot dmaBuffer := by
  have word : ∀ offset, offset + 4 ≤ 144 →
      loadWord 32 after (a.tables slot + BitVec.ofNat 64 offset) = loadWord 32 memory (a.tables slot + BitVec.ofNat 64 offset) :=
    fun offset inside => loadWord_same memory (by decide)
      (table.mono (Area.part_within ⟨a.tables slot, sizeofCmdTable⟩ inside (show 144 ≤ 2 ^ 64 by decide)))
  refine ⟨?_, ordered.headed.same header, ?_⟩
  · exact ordered.asked.same (table.mono (front_within _))
  · exact ⟨(word 128 (by decide)).trans ordered.named.1, (word 132 (by decide)).trans ordered.named.2.1,
      (word 140 (by decide)).trans ordered.named.2.2⟩

/-- The controller finds the command, its sector and its stretch of memory. -/
theorem ordered_found {a : Attachment} {slot : Nat} {dmaBuffer : BitVec 64} (attached : Attached a memory)
    (inside : slot < a.data.commandSlots) (low : dmaBuffer.toNat < 2 ^ 32) (ordered : Ordered a lba memory slot dmaBuffer) :
    ReadsOne memory (headerOf a slot) (tableOf memory a slot) ∧
      stretch memory (tableOf memory a slot) = ⟨dmaBuffer, 512⟩ ∧
      sectorAsked memory (tableOf memory a slot) = lba.toNat % 2 ^ 48 := by
  have header : headerOf a slot = a.data.headerField slot 0 := by
    unfold headerOf PortData.headerField
    rw [attached.list]
    rfl
  have table : tableOf memory a slot = a.tables slot := by
    unfold tableOf
    rw [header]
    exact attached.headers slot inside
  obtain ⟨asked, ⟨flags, stretches⟩, dba, dbau, dbc⟩ := ordered
  have byte : ∀ k value, (k, value) ∈ fields lba → memory (a.tables slot + BitVec.ofNat 64 k) = value :=
    fun k value member => asked (k, value) member
  have first : memory (a.tables slot) = 0x27 := by
    have zero := byte 0 0x27 (by simp [fields])
    rw [BitVec.add_zero] at zero
    exact zero
  rw [header, table]
  refine ⟨⟨?_, ?_, first, byte 1 _ (by simp [fields]), byte 2 _ (by simp [fields]), byte 7 _ (by simp [fields]),
    byte 12 _ (by simp [fields]), byte 13 _ (by simp [fields])⟩, ?_, ?_⟩
  · rw [flags]
    decide
  · rw [← stretches, ← headerField_add a.data slot 2]
    rfl
  · unfold stretch
    rw [dba, dbau, dbc, halves_low low]
    rfl
  · unfold sectorAsked
    have lower : memory (a.tables slot + 4) = lba.setWidth 8 := byte 4 _ (by simp [fields])
    have second : memory (a.tables slot + 5) = (lba >>> 8).setWidth 8 := byte 5 _ (by simp [fields])
    have third : memory (a.tables slot + 6) = (lba >>> 16).setWidth 8 := byte 6 _ (by simp [fields])
    have fourth : memory (a.tables slot + 8) = (lba >>> 24).setWidth 8 := byte 8 _ (by simp [fields])
    have fifth : memory (a.tables slot + 9) = (lba >>> 32).setWidth 8 := byte 9 _ (by simp [fields])
    have sixth : memory (a.tables slot + 10) = (lba >>> 40).setWidth 8 := byte 10 _ (by simp [fields])
    rw [lower, second, third, fourth, fifth, sixth]
    exact SectorNumber.littleEndian_lba lba

end

/-- The areas of the ports lie in the heap and apart from each other. -/
structure Geometry (ports : List Attachment) (low : Heap) : Prop where
  inside : ∀ a ∈ ports, ∀ area ∈ a.areas, Inside low area
  within : ∀ a ∈ ports, ∀ area ∈ a.areas, Area.Within area (heapArea low)
  tables : ∀ a ∈ ports, ∀ slot < a.data.commandSlots, ∀ b ∈ ports,
    ∀ area ∈ [b.data.pointersArea, b.data.fisArea, b.data.listArea], Area.Apart ⟨a.tables slot, sizeofCmdTable⟩ area
  received : ∀ a ∈ ports, ∀ b ∈ ports, Area.Apart a.data.fisArea b.data.pointersArea ∧ Area.Apart a.data.fisArea b.data.listArea
  lists : ∀ a ∈ ports, ∀ b ∈ ports, Area.Apart a.data.listArea b.data.pointersArea
  others : ∀ a ∈ ports, ∀ b ∈ ports, a ≠ b → Area.Apart a.data.listArea b.data.listArea
  beyond : Area.Apart (heapArea low) (doubled low)

section
variable {ports : List Attachment} {low : Heap} {live : List Live} {memory after : Memory}

theorem table_held {a : Attachment} {slot : Nat} (below : slot < a.data.commandSlots) :
    (⟨a.tables slot, sizeofCmdTable⟩ : Area) ∈ a.areas := by
  apply List.mem_append_left
  exact List.mem_map.mpr ⟨slot, List.mem_reverse.mpr (List.mem_range.mpr below), rfl⟩

theorem base_held {a : Attachment} {area : Area} (member : area ∈ [a.data.pointersArea, a.data.fisArea, a.data.listArea]) :
    area ∈ a.areas := List.mem_append_right _ member

theorem geometry_of (pictured : Pictured low live) (far : Far low) {front : List Area}
    (backed : Backed low live (front ++ ports.flatMap Attachment.areas)) : Geometry ports low := by
  have below := far.below
  have pairwise := (List.pairwise_append.mp (backed_apart pictured (by omega) backed)).2.1
  obtain ⟨own, cross⟩ := List.pairwise_flatMap.mp pairwise
  have across : ∀ a ∈ ports, ∀ b ∈ ports, a ≠ b → ∀ x ∈ a.areas, ∀ y ∈ b.areas, Area.Apart x y := by
    intro a held b held' different
    have symm : Std.Symm fun a b : Attachment => ∀ x ∈ a.areas, ∀ y ∈ b.areas, Area.Apart x y :=
      ⟨fun a b apart x member y member' => (apart y member' x member).symm⟩
    exact cross.forall held held' different
  have parts : ∀ a ∈ ports, (∀ x ∈ (List.range a.data.commandSlots).reverse.map
      (fun slot => (⟨a.tables slot, sizeofCmdTable⟩ : Area)), ∀ y ∈ [a.data.pointersArea, a.data.fisArea, a.data.listArea],
        Area.Apart x y) ∧ [a.data.pointersArea, a.data.fisArea, a.data.listArea].Pairwise Area.Apart := by
    intro a held
    obtain ⟨_, base, tables⟩ := List.pairwise_append.mp (own a held)
    exact ⟨tables, base⟩
  have inside : ∀ a ∈ ports, ∀ area ∈ a.areas, Inside low area := fun a held area member =>
    backed_mem pictured far backed (List.mem_append_right _ (List.mem_flatMap.mpr ⟨a, held, member⟩))
  constructor
  · exact inside
  · exact fun a held area member => (inside a held area member).within far
  · intro a held slot inside b held' area member
    by_cases same : a = b
    · subst same
      exact (parts a held).1 _ (List.mem_map.mpr ⟨slot, List.mem_reverse.mpr (List.mem_range.mpr inside), rfl⟩) area member
    · exact across a held b held' same _ (table_held inside) area (base_held member)
  · intro a held b held'
    by_cases same : a = b
    · subst same
      obtain ⟨first, rest⟩ := List.pairwise_cons.mp (parts a held).2
      exact ⟨(first _ (by simp)).symm, (List.pairwise_cons.mp rest).1 _ (by simp)⟩
    · exact ⟨across a held b held' same _ (base_held (by simp)) _ (base_held (by simp)),
        across a held b held' same _ (base_held (by simp)) _ (base_held (by simp))⟩
  · intro a held b held'
    by_cases same : a = b
    · subst same
      exact ((List.pairwise_cons.mp (parts a held).2).1 _ (by simp)).symm
    · exact across a held b held' same _ (base_held (by simp)) _ (base_held (by simp))
  · exact fun a held b held' different => across a held b held' different _ (base_held (by simp)) _ (base_held (by simp))
  · exact heap_beyond far

/-- What has to stay as it is in every step: the pointers and addresses of the ports, and memory that is kept. -/
structure Undisturbed (ports : List Attachment) (kept : Area) (memory after : Memory) : Prop where
  pointers : ∀ a ∈ ports, a.data.pointersArea.Same memory after
  headers : ∀ a ∈ ports, ∀ slot < a.data.commandSlots, (⟨a.data.headerField slot 8, 8⟩ : Area).Same memory after
  kept : kept.Same memory after

variable {kept touched : Area}

theorem Undisturbed.refl (ports : List Attachment) (kept : Area) (memory : Memory) : Undisturbed ports kept memory memory :=
  ⟨fun _ _ => Area.Same.refl _ _, fun _ _ _ _ => Area.Same.refl _ _, Area.Same.refl _ _⟩

theorem Undisturbed.trans {middle : Memory} (first : Undisturbed ports kept memory middle)
    (second : Undisturbed ports kept middle after) : Undisturbed ports kept memory after :=
  ⟨fun a held => (first.pointers a held).trans (second.pointers a held),
    fun a held slot inside => (first.headers a held slot inside).trans (second.headers a held slot inside),
    first.kept.trans second.kept⟩

theorem tail_within {a : Attachment} (few : a.data.commandSlots ≤ 32) {slot : Nat} (inside : slot < a.data.commandSlots) :
    Area.Within ⟨a.data.headerField slot 8, 8⟩ a.data.listArea := headerField_within (by omega) (by decide)

variable (geometry : Geometry ports low) (few : ∀ a ∈ ports, a.data.commandSlots ≤ 32)
include geometry few

theorem undisturbed_outside (outside : Area.Apart touched (heapArea low)) (spared : Area.Apart touched kept)
    (touches : ∀ area, Area.Apart area touched → area.Same memory after) : Undisturbed ports kept memory after := by
  have inside : ∀ area, Area.Within area (heapArea low) → area.Same memory after :=
    fun area within => touches area (outside.symm.mono within (Area.Within.refl _))
  constructor
  · exact fun a held => inside _ (geometry.within a held _ (base_held (by simp)))
  · exact fun a held slot below => inside _ fun addr has =>
      geometry.within a held a.data.listArea (base_held (by simp)) addr (tail_within (few a held) below addr has)
  · exact touches kept spared.symm

theorem undisturbed_table (keptOut : Area.Apart kept (heapArea low)) {a : Attachment} (held : a ∈ ports) {slot : Nat}
    (below : slot < a.data.commandSlots)
    (touches : ∀ area, Area.Apart area ⟨a.tables slot, sizeofCmdTable⟩ → area.Same memory after) :
    Undisturbed ports kept memory after := by
  constructor
  · exact fun b held' => touches _ (geometry.tables a held slot below b held' _ (by simp)).symm
  · intro b held' other below'
    exact touches _ ((geometry.tables a held slot below b held' b.data.listArea (by simp)).symm.mono
      (tail_within (few b held') below') (Area.Within.refl _))
  · exact touches kept (keptOut.mono (Area.Within.refl _) (geometry.within a held _ (table_held below)))

theorem fields_apart {a b : Attachment} (held : a ∈ ports) (held' : b ∈ ports) {slot other : Nat}
    (below : slot < a.data.commandSlots) (below' : other < b.data.commandSlots) {first size second size' : Nat}
    (inside : first + size ≤ sizeofCmdHeader) (inside' : second + size' ≤ sizeofCmdHeader)
    (order : first + size ≤ second ∨ second + size' ≤ first) :
    Area.Apart ⟨a.data.headerField slot first, size⟩ ⟨b.data.headerField other second, size'⟩ := by
  have few' := few a held
  have few'' := few b held'
  by_cases same : a = b
  · subst same
    unfold PortData.headerField
    unfold sizeofCmdHeader at *
    rcases Nat.lt_trichotomy slot other with lower | rfl | higher
    · exact Area.parts_apart (by omega) (by omega)
    · rcases order with before | behind
      · exact Area.parts_apart (by omega) (by omega)
      · exact (Area.parts_apart (by omega) (by omega)).symm
    · exact (Area.parts_apart (by omega) (by omega)).symm
  · exact (geometry.others a held b held' same).mono (headerField_within (by omega) inside) (headerField_within (by omega) inside')

theorem undisturbed_header (keptOut : Area.Apart kept (heapArea low)) {a : Attachment} (held : a ∈ ports) {slot : Nat}
    (below : slot < a.data.commandSlots)
    (touches : ∀ area, Area.Apart area ⟨a.data.headerField slot 0, 8⟩ → area.Same memory after) :
    Undisturbed ports kept memory after := by
  have few' := few a held
  have own : Area.Within ⟨a.data.headerField slot 0, 8⟩ a.data.listArea := headerField_within (by omega) (by decide)
  constructor
  · exact fun b held' => touches _ ((geometry.lists a held b held').symm.mono (Area.Within.refl _) own)
  · exact fun b held' other below' => touches _
      (fields_apart geometry few held' held below' below (by decide) (by decide) (Or.inr (by decide)))
  · exact touches kept (keptOut.mono (Area.Within.refl _) fun addr has =>
      geometry.within a held a.data.listArea (base_held (by simp)) addr (own addr has))

end

def Stage (sectors : Nat → Nat → Nat → BitVec 8) (a : Attachment) (call : ReadCall) (port : HbaPort) (memory : Memory)
    (dmaBuffer : BitVec 64) : Pc → Prop
  | .idle => True
  | .called | .readCi | .readSact _ => Asked memory call.fis call.lba
  | .readTfd slot _ | .clearTable slot => slot < a.data.commandSlots ∧ Asked memory call.fis call.lba
  | .copyFis slot table =>
      slot < a.data.commandSlots ∧ table = a.tables slot ∧ Asked memory call.fis call.lba
  | .writeHeader slot table =>
      slot < a.data.commandSlots ∧ table = a.tables slot ∧ Asked memory (a.tables slot) call.lba
  | .writePrdt slot table => slot < a.data.commandSlots ∧ table = a.tables slot ∧
      Asked memory (a.tables slot) call.lba ∧ Headed memory a.data slot
  | .clearStatus slot | .issue slot => slot < a.data.commandSlots ∧ Ordered a call.lba memory slot dmaBuffer
  | .pollCi slot _ | .pollIs slot _ => slot < a.data.commandSlots ∧ Ordered a call.lba memory slot dmaBuffer ∧
      (port.ci.getLsbD slot = true ∨ Filled sectors call memory dmaBuffer)
  | .finalTfd _ | .finalIs _ => Filled sectors call memory dmaBuffer
  | .returned _ success => success = true → Filled sectors call memory dmaBuffer

def PhaseHolds (ports : List Attachment) (sectors : Nat → Nat → Nat → BitVec 8) (s : System) : Prop :=
  match s.phase with
  | .idle | .allocate | .clear _ | .prepare _ => True
  | .command dmaBuffer pc => ∀ a, ports[s.call.disk]? = some a →
      Stage sectors a s.call (s.ports s.call.disk) s.memory dmaBuffer pc
  | .copy dmaBuffer _ => Filled sectors s.call s.memory dmaBuffer
  | .free _ _ success | .returned success => success = true → Filled sectors s.call s.memory s.call.buff

def held : Phase → List Area
  | .idle | .allocate | .returned _ => []
  | .clear dmaBuffer | .prepare dmaBuffer | .command dmaBuffer _ | .copy dmaBuffer _ | .free dmaBuffer _ _ => [⟨dmaBuffer, 512⟩]

structure Inv (ports : List Attachment) (sectors : Nat → Nat → Nat → BitVec 8) (start : System) (kept : Area) (s : System) :
    Prop where
  backed : ∃ live, Pictured s.low live ∧ Backed s.low live (held s.phase ++ ports.flatMap Attachment.areas)
  far : Far s.low
  same : SameRecord start.low s.low
  attached : ∀ a ∈ ports, Attached a s.memory
  awaited : Awaited s
  placed : s.phase ≠ .idle → Placed ports start.low kept s.call
  kept : kept.Same start.memory s.memory
  holds : PhaseHolds ports sectors s

section
variable {ports : List Attachment} {sectors : Nat → Nat → Nat → BitVec 8} {start s next : System} {kept : Area}

theorem Inv.geometry (inv : Inv ports sectors start kept s) : Geometry ports start.low := by
  obtain ⟨live, pictured, backed⟩ := inv.backed
  have geometry := geometry_of pictured inv.far backed
  have far : Far start.low := inv.far.same ⟨inv.same.1.symm, inv.same.2.1.symm, inv.same.2.2.symm⟩
  refine { geometry with inside := ?_, within := ?_, beyond := heap_beyond far }
  · intro a held area member
    have inside := geometry.inside a held area member
    unfold Inside at inside ⊢
    rw [inv.same.2.1, inv.same.2.2] at inside
    exact inside
  · rw [← heapArea_same inv.same]
    exact geometry.within

theorem Inv.few (inv : Inv ports sectors start kept s) : ∀ a ∈ ports, a.data.commandSlots ≤ 32 :=
  fun a member => (inv.attached a member).few

/-- The buffer lies in the heap, apart from what the ports hold, and below 4 GiB. -/
theorem Inv.buffer (inv : Inv ports sectors start kept s) {dmaBuffer : BitVec 64} (holds : held s.phase = [⟨dmaBuffer, 512⟩]) :
    Inside start.low ⟨dmaBuffer, 512⟩ ∧ dmaBuffer.toNat < 2 ^ 32 ∧
      ∀ a ∈ ports, ∀ area ∈ a.areas, Area.Apart ⟨dmaBuffer, 512⟩ area := by
  obtain ⟨live, pictured, backed⟩ := inv.backed
  rw [holds] at backed
  have below := inv.far.below
  have inside := @backed_mem _ _ _ pictured inv.far backed ⟨dmaBuffer, 512⟩ (by simp)
  have pairwise := backed_apart pictured (by omega) backed
  refine ⟨?_, ?_, ?_⟩
  · unfold Inside at inside ⊢
    rw [inv.same.2.1, inv.same.2.2] at inside
    exact inside
  · have last := inside.2
    dsimp only at last
    omega
  · intro a member area listed
    exact (List.pairwise_cons.mp pairwise).1 area (List.mem_flatMap.mpr ⟨a, member, listed⟩)

/-- A step in which the heap and the buffer stay as they are. -/
theorem Inv.onward (inv : Inv ports sectors start kept s) (low : next.low = s.low) (buffer : held next.phase = held s.phase)
    (undisturbed : Undisturbed ports kept s.memory next.memory) (awaited : Awaited next)
    (placed : next.phase ≠ .idle → Placed ports start.low kept next.call) (holds : PhaseHolds ports sectors next) :
    Inv ports sectors start kept next := by
  constructor
  · rw [low, buffer]
    exact inv.backed
  · rw [low]
    exact inv.far
  · rw [low]
    exact inv.same
  · exact fun a member => (inv.attached a member).same (undisturbed.pointers a member) (undisturbed.headers a member)
  · exact awaited
  · exact placed
  · exact inv.kept.trans undisturbed.kept
  · exact holds

end

theorem slotBit_self {slot : Nat} (few : slot < 32) : (slotBit slot).getLsbD slot = true := by
  unfold slotBit
  rw [BitVec.getLsbD_ofNat, Nat.one_shiftLeft, Nat.testBit_two_pow_self]
  simp [few]

section
variable {ports : List Attachment} {sectors : Nat → Nat → Nat → BitVec 8} {low : Heap} {kept : Area} {call : ReadCall}
variable {a : Attachment} {memory after : Memory} {port port' : HbaPort} {dmaBuffer : BitVec 64}

/-- A stage whose command, table and header are as they were. -/
theorem Stage.same {pc : Pc} (stage : Stage sectors a call port memory dmaBuffer pc) (fis : (fisArea call).Same memory after)
    (table : ∀ slot < a.data.commandSlots, (⟨a.tables slot, sizeofCmdTable⟩ : Area).Same memory after)
    (header : ∀ slot < a.data.commandSlots, (⟨a.data.headerField slot 0, 4⟩ : Area).Same memory after)
    (filled : (∀ slot, waiting pc = some slot → port.ci.getLsbD slot = false) → Filled sectors call memory dmaBuffer →
      Filled sectors call after dmaBuffer)
    (bit : ∀ slot, waiting pc = some slot → port.ci.getLsbD slot = true →
      port'.ci.getLsbD slot = true ∨ Filled sectors call after dmaBuffer) :
    Stage sectors a call port' after dmaBuffer pc := by
  have tableAsked : ∀ slot < a.data.commandSlots, Asked memory (a.tables slot) call.lba → Asked after (a.tables slot) call.lba :=
    fun slot below asked => asked.same ((table slot below).mono (front_within _))
  have polled : ∀ slot, waiting pc = some slot → slot < a.data.commandSlots ∧ Ordered a call.lba memory slot dmaBuffer ∧
      (port.ci.getLsbD slot = true ∨ Filled sectors call memory dmaBuffer) →
      slot < a.data.commandSlots ∧ Ordered a call.lba after slot dmaBuffer ∧
        (port'.ci.getLsbD slot = true ∨ Filled sectors call after dmaBuffer) := by
    rintro slot waits ⟨below, ordered, either⟩
    refine ⟨below, ordered.same (table slot below) (header slot below), ?_⟩
    cases set : port.ci.getLsbD slot with
    | true => exact bit slot waits set
    | false =>
      have alone : ∀ other, waiting pc = some other → port.ci.getLsbD other = false := by
        intro other waits'
        obtain rfl := Option.some.inj (waits.symm.trans waits')
        exact set
      exact Or.inr (filled alone (either.resolve_left (by rw [set]; decide)))
  cases pc with
  | idle => trivial
  | called => exact Asked.same stage fis
  | readCi => exact Asked.same stage fis
  | readSact ci => exact Asked.same stage fis
  | readTfd slot timeout => exact ⟨stage.1, stage.2.same fis⟩
  | clearTable slot => exact ⟨stage.1, stage.2.same fis⟩
  | copyFis slot table => exact ⟨stage.1, stage.2.1, stage.2.2.same fis⟩
  | writeHeader slot table => exact ⟨stage.1, stage.2.1, tableAsked slot stage.1 stage.2.2⟩
  | writePrdt slot table' =>
    obtain ⟨below, at_, asked, headed⟩ := stage
    exact ⟨below, at_, tableAsked slot below asked, headed.same (header slot below)⟩
  | clearStatus slot => exact ⟨stage.1, stage.2.same (table slot stage.1) (header slot stage.1)⟩
  | issue slot => exact ⟨stage.1, stage.2.same (table slot stage.1) (header slot stage.1)⟩
  | pollCi slot timeout => exact polled slot rfl stage
  | pollIs slot timeout => exact polled slot rfl stage
  | finalTfd slot => exact filled nofun stage
  | finalIs slot => exact filled nofun stage
  | returned issued success => exact fun passed => filled nofun (stage passed)

theorem stage_reads (few : a.data.commandSlots ≤ 32) {m : Machine} {pc after : Pc} (reads : Reads a.data m pc after)
    (stage : Stage sectors a call m.port memory dmaBuffer pc) : Stage sectors a call m.port memory dmaBuffer after := by
  cases reads with
  | refused => exact nofun
  | accepted => exact stage
  | ci => exact stage
  | full => exact nofun
  | found found => exact ⟨(findCommandSlot_free few found).1, stage⟩
  | ready => exact stage
  | neverReady => exact nofun
  | notReady => exact stage
  | unreachable => exact nofun
  | done clear =>
    -- a command that was waited for is done when its bit is clear
    obtain ⟨_, _, either⟩ := stage
    exact either.resolve_left (by rw [clear_of_and clear]; decide)
  | notDone => exact stage
  | givesUp => exact nofun
  | again => exact stage
  | failed => exact nofun
  | passed => exact stage
  | ended => exact fun _ => stage

/-- The steps of a command leave behind what the next step needs, and disturb nothing. -/
theorem stage_driven (geometry : Geometry ports low) (few : ∀ a ∈ ports, a.data.commandSlots ≤ 32)
    (keptOut : Area.Apart kept (heapArea low)) (keptOff : Area.Apart kept (doubled low)) (far : Far low) (listed : a ∈ ports)
    (attached : Attached a memory) (placed : Placed ports low kept call)
    {m next : Machine} (machine : m = ⟨memory, port, ⟨call.fis, dmaBuffer, 512, false⟩, m.pc⟩)
    (driven : Driven builtRoutines a.data m next) (stage : Stage sectors a call port memory dmaBuffer m.pc) :
    Undisturbed ports kept memory next.memory ∧ Stage sectors a call next.port next.memory dmaBuffer next.pc := by
  obtain ⟨memory', port', command, pc⟩ := m
  obtain ⟨rfl, rfl, rfl, -⟩ := Machine.mk.inj machine
  have slots := few a listed
  cases driven with
  | reads reads =>
    have onward := stage_reads slots reads stage
    exact ⟨Undisturbed.refl ports kept memory', onward⟩
  | @clearTable slot at_ =>
    subst at_
    obtain ⟨below, asked⟩ := stage
    have table := attached.pointers slot below
    have within := geometry.inside a listed _ (table_held below)
    have spares : ∀ area, Area.Apart area (doubled low) → area.Same memory' (builtRoutines.memset memory'
        (a.data.table memory' slot) 0 sizeofCmdTable) := by
      rw [table]
      exact fun area apart => memset_doubled far within apart memory' 0
    generalize builtRoutines.memset memory' (a.data.table memory' slot) 0 sizeofCmdTable = after at *
    refine ⟨undisturbed_outside geometry few geometry.beyond.symm keptOff.symm spares, below, table, ?_⟩
    exact asked.same (spares _ (placed.fis _ (by simp)))
  | @copyFis slot table at_ =>
    subst at_
    obtain ⟨below, rfl, asked⟩ := stage
    have within := geometry.within a listed _ (table_held below)
    have front := front_within (a.tables slot)
    have apart : Area.Apart ⟨call.fis, sizeofFis⟩ ⟨a.tables slot, sizeofFis⟩ :=
      (placed.fis (heapArea low) (by simp)).mono (Area.Within.refl _) fun addr has => within addr (front addr has)
    refine ⟨undisturbed_table geometry few keptOut listed below fun area apart => ?_, below, rfl, memcpy_asked asked apart⟩
    exact Utils.memcpy_same memory' call.fis (by decide) (apart.mono (Area.Within.refl _) front)
  | @writeHeader slot table at_ =>
    subst at_
    obtain ⟨below, rfl, asked⟩ := stage
    have spares : ∀ area, Area.Apart area ⟨a.data.headerField slot 0, 8⟩ →
        area.Same memory' (storeHeader a.data memory' slot false) := fun area => storeHeader_touches a.data memory' slot false
    have list := geometry.tables a listed slot below a listed a.data.listArea (by simp)
    refine ⟨undisturbed_header geometry few keptOut listed below spares, below, rfl, ?_, storeHeader_headed a.data memory' slot⟩
    exact asked.same (spares _ (list.mono (front_within _) (headerField_within (by omega) (by decide))))
  | @writePrdt slot table at_ =>
    subst at_
    obtain ⟨below, rfl, asked, headed⟩ := stage
    have list := geometry.tables a listed slot below a listed a.data.listArea (by simp)
    have spares : ∀ area, Area.Apart area ⟨a.tables slot, sizeofCmdTable⟩ →
        area.Same memory' (storePrdt memory' (a.tables slot) dmaBuffer 512) := fun area => storePrdt_same dmaBuffer 512
    have front : Area.Apart ⟨a.tables slot, sizeofFis⟩ ⟨a.tables slot + BitVec.ofNat 64 128, 16⟩ := by
      have apart := @Area.parts_apart (a.tables slot) 0 128 20 16 (by decide) (by decide)
      rw [BitVec.add_zero] at apart
      exact apart
    refine ⟨undisturbed_table geometry few keptOut listed below spares, below, ?_⟩
    constructor
    · exact asked.same (storePrdt_touches memory' (a.tables slot) dmaBuffer 512 front)
    · exact headed.same (spares _ (list.symm.mono (headerField_within (by omega) (by decide)) (Area.Within.refl _)))
    · exact storePrdt_named memory' (a.tables slot) dmaBuffer
  | @clearStatus slot at_ =>
    subst at_
    exact ⟨Undisturbed.refl ports kept memory', stage⟩
  | @issue slot at_ =>
    subst at_
    obtain ⟨below, ordered⟩ := stage
    refine ⟨Undisturbed.refl ports kept memory', below, ordered, Or.inl ?_⟩
    rw [BitVec.getLsbD_or, slotBit_self (by omega), Bool.or_true]

end

section
variable {ports : List Attachment} {sectors : Nat → Nat → Nat → BitVec 8} {start s : System} {kept : Area}
variable {next : Nat → HbaPort} {dma : Memory → Memory} {a : Attachment}

/-- A command under way is the present call's, and asks for its sector. -/
theorem Inv.underWay (inv : Inv ports sectors start kept s) {disk slot : Nat} (listed : ports[disk]? = some a)
    (underWay : UnderWay s disk slot) : disk = s.call.disk ∧ ∃ dmaBuffer pc, s.phase = .command dmaBuffer pc ∧
      waiting pc = some slot ∧ slot < a.data.commandSlots ∧ Ordered a s.call.lba s.memory slot dmaBuffer := by
  obtain ⟨rfl, dmaBuffer, pc, at_, waits⟩ := inv.awaited disk slot underWay
  have holds := inv.holds
  unfold PhaseHolds at holds
  rw [at_] at holds
  have stage := holds a listed
  refine ⟨rfl, dmaBuffer, pc, at_, waits, ?_⟩
  cases pc with
  | pollCi other timeout =>
    obtain rfl := Option.some.inj waits
    exact ⟨stage.1, stage.2.1⟩
  | pollIs other timeout =>
    obtain rfl := Option.some.inj waits
    exact ⟨stage.1, stage.2.1⟩
  | _ => simp [waiting] at waits

theorem Inv.moves_same (inv : Inv ports sectors start kept s) (moves : HbaMoves ports sectors s next dma) {area : Area}
    (received : ∀ a ∈ ports, Area.Apart area a.data.fisArea)
    (counts : ∀ a ∈ ports, ∀ slot < a.data.commandSlots, Area.Apart area ⟨a.data.headerField slot 4, 4⟩)
    (buffer : ∀ dmaBuffer pc slot, s.phase = .command dmaBuffer pc → waiting pc = some slot →
      UnderWay s s.call.disk slot → Area.Apart area ⟨dmaBuffer, 512⟩) : area.Same s.memory (dma s.memory) := by
  intro addr has
  refine moves.confined addr fun disk a listed => ?_
  have member := List.mem_of_getElem? listed
  have attached := inv.attached a member
  rw [attached.received]
  refine ⟨received a member addr has, fun slot underWay => ?_⟩
  obtain ⟨rfl, dmaBuffer, pc, at_, waits, below, ordered⟩ := inv.underWay listed underWay
  have low := (inv.buffer (by rw [at_]; rfl)).2.1
  have header : headerOf a slot + 4 = a.data.headerField slot 4 := by
    rw [← headerField_add]
    unfold headerOf PortData.headerField
    rw [attached.list]
    rfl
  rw [header, (ordered_found attached below low ordered).2.1]
  exact ⟨counts a member slot below addr has, buffer dmaBuffer pc slot at_ waits underWay addr has⟩

theorem Inv.far_start (inv : Inv ports sectors start kept s) : Far start.low :=
  inv.far.same ⟨inv.same.1.symm, inv.same.2.1.symm, inv.same.2.2.symm⟩

theorem Inv.moves_outside (inv : Inv ports sectors start kept s) (moves : HbaMoves ports sectors s next dma) {area : Area}
    (apart : Area.Apart area (heapArea start.low)) : area.Same s.memory (dma s.memory) := by
  have within := inv.geometry.within
  apply inv.moves_same moves
  · exact fun a listed => apart.mono (Area.Within.refl _) (within a listed _ (base_held (by simp)))
  · intro a listed slot below
    have few := inv.few a listed
    exact apart.mono (Area.Within.refl _) fun addr has =>
      within a listed a.data.listArea (base_held (by simp)) addr (headerField_within (by omega) (by decide) addr has)
  · intro dmaBuffer pc slot at_ _ _
    exact apart.mono (Area.Within.refl _) ((inv.buffer (by rw [at_]; rfl)).1.within inv.far_start)

theorem Inv.moves_inside (inv : Inv ports sectors start kept s) (moves : HbaMoves ports sectors s next dma) (listed : a ∈ ports) :
    a.data.pointersArea.Same s.memory (dma s.memory) ∧ ∀ slot < a.data.commandSlots,
      (⟨a.tables slot, sizeofCmdTable⟩ : Area).Same s.memory (dma s.memory) ∧
      (⟨a.data.headerField slot 0, 4⟩ : Area).Same s.memory (dma s.memory) ∧
      (⟨a.data.headerField slot 8, 8⟩ : Area).Same s.memory (dma s.memory) := by
  have geometry := inv.geometry
  have few := inv.few
  have apart : ∀ {area : Area}, area ∈ a.areas → ∀ dmaBuffer pc slot, s.phase = .command dmaBuffer pc →
      waiting pc = some slot → UnderWay s s.call.disk slot → Area.Apart area ⟨dmaBuffer, 512⟩ := by
    intro area member dmaBuffer pc slot at_ _ _
    exact ((inv.buffer (by rw [at_]; rfl)).2.2 a listed area member).symm
  have list : ∀ {slot offset size : Nat}, slot < a.data.commandSlots → offset + size ≤ sizeofCmdHeader →
      Area.Within ⟨a.data.headerField slot offset, size⟩ a.data.listArea := by
    intro slot offset size below inside
    have slots := few a listed
    exact headerField_within (by omega) inside
  have field : ∀ {slot offset size : Nat}, slot < a.data.commandSlots → offset + size ≤ sizeofCmdHeader →
      offset + size ≤ 4 ∨ 8 ≤ offset → (⟨a.data.headerField slot offset, size⟩ : Area).Same s.memory (dma s.memory) := by
    intro slot offset size below inside order
    apply inv.moves_same moves
    · exact fun b listed' => (geometry.received b listed' a listed).2.symm.mono (list below inside) (Area.Within.refl _)
    · exact fun b listed' other below' => fields_apart geometry few listed listed' below below' inside (by decide) order
    · exact fun dmaBuffer pc slot at_ waits underWay =>
        (apart (base_held (by simp)) dmaBuffer pc slot at_ waits underWay).mono (list below inside) (Area.Within.refl _)
  constructor
  · apply inv.moves_same moves
    · exact fun b listed' => (geometry.received b listed' a listed).1.symm
    · intro b listed' slot below
      have slots := few b listed'
      exact (geometry.lists b listed' a listed).symm.mono (Area.Within.refl _) (headerField_within (by omega) (by decide))
    · exact apart (base_held (by simp))
  · intro slot below
    refine ⟨?_, field below (by decide) (Or.inl (by decide)), field below (by decide) (Or.inr (by decide))⟩
    apply inv.moves_same moves
    · exact fun b listed' => geometry.tables a listed slot below b listed' b.data.fisArea (by simp)
    · intro b listed' other below'
      have slots := few b listed'
      exact (geometry.tables a listed slot below b listed' b.data.listArea (by simp)).mono (Area.Within.refl _)
        (headerField_within (by omega) (by decide))
    · exact apart (table_held below)

theorem Filled.same {call : ReadCall} {memory after : Memory} {at_ : BitVec 64} (filled : Filled sectors call memory at_)
    (same : (⟨at_, 512⟩ : Area).Same memory after) : Filled sectors call after at_ := by
  intro k below
  rw [same _ (Area.has_offset ⟨at_, 512⟩ below (show 512 ≤ 2 ^ 64 by decide))]
  exact filled k below

theorem Inv.moves_buffer (inv : Inv ports sectors start kept s) (moves : HbaMoves ports sectors s next dma) {dmaBuffer : BitVec 64}
    (holds : held s.phase = [⟨dmaBuffer, 512⟩])
    (still : ∀ dmaBuffer pc slot, s.phase = .command dmaBuffer pc → waiting pc = some slot → ¬ UnderWay s s.call.disk slot) :
    (⟨dmaBuffer, 512⟩ : Area).Same s.memory (dma s.memory) := by
  obtain ⟨_, _, apart⟩ := inv.buffer holds
  apply inv.moves_same moves
  · exact fun a listed => apart a listed _ (base_held (by simp))
  · intro a listed slot below
    have slots := inv.few a listed
    exact (apart a listed a.data.listArea (base_held (by simp))).mono (Area.Within.refl _)
      (headerField_within (by omega) (by decide))
  · exact fun dmaBuffer pc slot at_ waits underWay => (still dmaBuffer pc slot at_ waits underWay).elim

theorem Inv.moves_holds (inv : Inv ports sectors start kept s) (moves : HbaMoves ports sectors s next dma) :
    PhaseHolds ports sectors { s with ports := next, memory := dma s.memory } := by
  have holds := inv.holds
  have placed := inv.placed
  have buffer := @moves_buffer _ _ _ _ _ _ _ inv moves
  unfold PhaseHolds at *
  dsimp only
  cases at_ : s.phase with
  | idle => trivial
  | allocate => trivial
  | clear dmaBuffer => trivial
  | prepare dmaBuffer => trivial
  | command dmaBuffer pc =>
    rw [at_] at holds placed buffer
    intro a listed
    have member := List.mem_of_getElem? listed
    have inside := (inv.moves_inside moves member).2
    refine (holds a listed).same ?_ (fun slot below => (inside slot below).1) (fun slot below => (inside slot below).2.1) ?_ ?_
    · exact inv.moves_outside moves ((placed nofun).fis _ (by simp))
    · intro clear filled
      refine filled.same (buffer rfl ?_)
      intro dmaBuffer' pc' slot same waits underWay
      obtain ⟨_, rfl⟩ := Phase.command.inj same
      unfold UnderWay at underWay
      rw [clear slot waits] at underWay
      simp at underWay
    · intro slot waits set
      cases still : (next s.call.disk).ci.getLsbD slot with
      | true => exact Or.inl rfl
      | false =>
        obtain ⟨_, dmaBuffer', pc', at', _, below, ordered⟩ := inv.underWay listed set
        obtain ⟨rfl, rfl⟩ := Phase.command.inj (at_.symm.trans at')
        have low := (inv.buffer (by rw [at_]; rfl)).2.1
        obtain ⟨reads, stretch, asked⟩ := ordered_found (inv.attached a member) below low ordered
        have done := moves.done s.call.disk a slot listed set still reads
        rw [stretch, asked] at done
        exact Or.inr fun k below => done k below below
  | copy dmaBuffer issued =>
    rw [at_] at holds buffer
    exact holds.same (buffer rfl nofun)
  | free dmaBuffer issued success =>
    rw [at_] at holds placed
    exact fun passed => (holds passed).same (inv.moves_outside moves ((placed nofun).buff _ (by simp)))
  | returned success =>
    rw [at_] at holds placed
    exact fun passed => (holds passed).same (inv.moves_outside moves ((placed nofun).buff _ (by simp)))

theorem Inv.moved (inv : Inv ports sectors start kept s) (keptOut : Area.Apart kept (heapArea start.low))
    (moves : HbaMoves ports sectors s next dma) : Inv ports sectors start kept { s with ports := next, memory := dma s.memory } := by
  refine inv.onward rfl rfl ?_ ?_ inv.placed (inv.moves_holds moves)
  · constructor
    · exact fun a listed => (inv.moves_inside moves listed).1
    · exact fun a listed slot below => ((inv.moves_inside moves listed).2 slot below).2.2
    · exact inv.moves_outside moves keptOut
  · exact fun disk slot underWay => inv.awaited disk slot (moves.clears disk slot underWay)

end

section
variable {ports : List Attachment} {sectors : Nat → Nat → Nat → BitVec 8} {start s next : System} {kept : Area}

theorem dataOf_listed {a : Attachment} {disk : Nat} (listed : ports[disk]? = some a) : dataOf ports disk = a.data := by
  unfold dataOf
  rw [listed]
  rfl

variable (inv : Inv ports sectors start kept s)
include inv

theorem Inv.allocated (at_ : s.phase = .allocate) (awaited : Awaited next)
    (done : readStep builtRoutines (dataOf ports) s = some next) : Inv ports sectors start kept next := by
  have placed := inv.placed
  obtain ⟨live, pictured, backed⟩ := inv.backed
  unfold readStep at done
  rw [at_] at done placed backed
  dsimp only at done
  split at done
  · obtain rfl := Option.some.inj done
    exact ⟨⟨live, pictured, backed⟩, inv.far, inv.same, inv.attached, awaited, fun _ => placed nofun, inv.kept, nofun⟩
  · obtain ⟨granted, called, done⟩ := Option.bind_eq_some_iff.mp done
    split at done
    next null =>
      obtain rfl := Option.some.inj done
      have refused := refused_same inv.far called (by decide) (by decide) null
      refine ⟨⟨live, ?_⟩, ?_, ?_, inv.attached, awaited, fun _ => placed nofun, inv.kept, nofun⟩
      · dsimp only
        rw [refused]
        exact ⟨pictured, backed⟩
      · dsimp only
        rw [refused]
        exact inv.far
      · dsimp only
        rw [refused]
        exact inv.same
    next nonnull =>
      obtain rfl := Option.some.inj done
      obtain ⟨live', pictured', far', record, backed'⟩ := granted_backed pictured inv.far backed (Or.inl ⟨_, called⟩)
        (by decide) (by decide) nonnull
      exact ⟨⟨live', pictured', backed'⟩, far', inv.same.trans record, inv.attached, awaited, fun _ => placed nofun,
        inv.kept, trivial⟩

theorem Inv.freed {dmaBuffer : BitVec 64} {issued : Option Nat} {success : Bool} (at_ : s.phase = .free dmaBuffer issued success)
    (awaited : Awaited next) (done : readStep builtRoutines (dataOf ports) s = some next) :
    Inv ports sectors start kept next := by
  have placed := inv.placed
  have holds := inv.holds
  obtain ⟨live, pictured, backed⟩ := inv.backed
  unfold PhaseHolds at holds
  unfold readStep at done
  rw [at_] at done placed holds backed
  obtain rfl := Option.some.inj done
  obtain ⟨live', pictured', far', record, backed'⟩ :=
    @freed_backed s.low live [] ⟨dmaBuffer, 512⟩ _ pictured inv.far backed
  exact ⟨⟨live', pictured', backed'⟩, far', inv.same.trans record, inv.attached, awaited, fun _ => placed nofun, inv.kept,
    holds⟩

variable (keptOut : Area.Apart kept (heapArea start.low)) (keptOff : Area.Apart kept (doubled start.low))

omit inv in
theorem fis_cleared {memory : Memory} {fis : BitVec 64} (straight : fis.toNat + sizeofFis < 2 ^ 64) {area : Area}
    (apart : Area.Apart area (Utils.written fis (BitVec.ofNat 64 sizeofFis))) :
    area.Same memory (builtRoutines.memset memory fis 0 sizeofFis) := by
  have whole : builtRoutines.memset memory fis 0 sizeofFis = fill memory (Utils.written fis (BitVec.ofNat 64 sizeofFis)) 0 := by
    unfold builtRoutines
    dsimp only
    rw [Utils.memset_eq straight]
    rfl
  rw [whole]
  exact fill_same memory 0 apart

include keptOff in
theorem Inv.cleared {dmaBuffer : BitVec 64} (at_ : s.phase = .clear dmaBuffer) (awaited : Awaited next)
    (done : readStep builtRoutines (dataOf ports) s = some next) : Inv ports sectors start kept next := by
  have placed := inv.placed
  have inside := (inv.buffer (by rw [at_]; rfl)).1
  have spares : ∀ area, Area.Apart area (doubled start.low) → area.Same s.memory (builtRoutines.memset s.memory dmaBuffer 0 512) :=
    fun area apart => memset_doubled inv.far_start inside apart s.memory 0
  unfold readStep at done
  rw [at_] at done placed
  obtain rfl := Option.some.inj done
  generalize builtRoutines.memset s.memory dmaBuffer 0 512 = after at *
  refine inv.onward rfl (by rw [at_]; rfl) ?_ awaited (fun _ => placed nofun) trivial
  exact undisturbed_outside inv.geometry inv.few inv.geometry.beyond.symm keptOff.symm spares

theorem Inv.prepared {dmaBuffer : BitVec 64} (at_ : s.phase = .prepare dmaBuffer) (awaited : Awaited next)
    (done : readStep builtRoutines (dataOf ports) s = some next) : Inv ports sectors start kept next := by
  have placed := inv.placed
  unfold readStep at done
  rw [at_] at done placed
  obtain rfl := Option.some.inj done
  obtain ⟨_, straight, fis, reached, _⟩ := placed nofun
  have cleared := @fis_cleared s.memory s.call.fis straight
  generalize builtRoutines.memset s.memory s.call.fis 0 sizeofFis = middle at *
  have first := undisturbed_outside inv.geometry inv.few (reached (heapArea start.low) (by simp)) (reached kept (by simp))
    fun area apart => cleared apart
  have second := undisturbed_outside inv.geometry inv.few (fis (heapArea start.low) (by simp)) (fis kept (by simp))
    fun area apart => storeFis_same middle s.call.fis s.call.lba apart
  refine inv.onward rfl (by rw [at_]; rfl) (first.trans second) awaited (fun _ => placed nofun) fun a listed => ?_
  exact storeFis_asked middle s.call.fis s.call.lba

theorem Inv.copied {dmaBuffer : BitVec 64} {issued : Option Nat} (at_ : s.phase = .copy dmaBuffer issued)
    (awaited : Awaited next) (done : readStep builtRoutines (dataOf ports) s = some next) :
    Inv ports sectors start kept next := by
  have placed := inv.placed
  have holds := inv.holds
  have inside := (inv.buffer (by rw [at_]; rfl)).1
  unfold PhaseHolds at holds
  unfold readStep at done
  rw [at_] at done placed holds
  have buff := (placed nofun).buff
  have apart := (buff (heapArea start.low) (by simp)).symm.mono (inside.within inv.far_start) (Area.Within.refl _)
  have touches : ∀ area, Area.Apart area (buffArea s.call) →
      area.Same s.memory (Utils.memcpy s.memory dmaBuffer s.call.buff 512) :=
    fun area apart => Utils.memcpy_same s.memory dmaBuffer (by decide) apart
  have copied : ∀ k < 512, Utils.memcpy s.memory dmaBuffer s.call.buff 512 (s.call.buff + BitVec.ofNat 64 k) =
      s.memory (dmaBuffer + BitVec.ofNat 64 k) :=
    fun k below => Utils.memcpy_copied s.memory (by decide) apart below
  have built : builtRoutines.memcpy = Utils.memcpy := rfl
  rw [built] at done
  obtain rfl := Option.some.inj done
  generalize Utils.memcpy s.memory dmaBuffer s.call.buff 512 = after at *
  refine inv.onward rfl (by rw [at_]; rfl) ?_ awaited (fun _ => placed nofun) fun _ k below => ?_
  · exact undisturbed_outside inv.geometry inv.few (buff (heapArea start.low) (by simp)) (buff kept (by simp)) touches
  · exact (copied k below).trans (holds k below)

include keptOut keptOff

theorem Inv.commanded {dmaBuffer : BitVec 64} {pc : Pc} (at_ : s.phase = .command dmaBuffer pc) (awaited : Awaited next)
    (done : readStep builtRoutines (dataOf ports) s = some next) : Inv ports sectors start kept next := by
  have placed := inv.placed
  have holds := inv.holds
  unfold PhaseHolds at holds
  unfold readStep at done
  rw [at_] at done placed holds
  obtain ⟨a, listed⟩ : ∃ a, ports[s.call.disk]? = some a := ⟨_, List.getElem?_eq_getElem (placed nofun).disk⟩
  have member := List.mem_of_getElem? listed
  have stage := holds a listed
  by_cases ended : ∃ issued success, pc = .returned issued success
  · obtain ⟨issued, success, rfl⟩ := ended
    dsimp only at done
    split at done
    next passed =>
      obtain rfl := Option.some.inj done
      exact inv.onward rfl (by rw [at_]; rfl) (Undisturbed.refl ports kept s.memory) awaited (fun _ => placed nofun) (stage passed)
    · obtain rfl := Option.some.inj done
      exact inv.onward rfl (by rw [at_]; rfl) (Undisturbed.refl ports kept s.memory) awaited (fun _ => placed nofun) nofun
  · have going : (driverStep builtRoutines a.data (s.machine dmaBuffer pc)).bind (fun next => some { s with
        memory := next.memory, ports := Function.update s.ports s.call.disk next.port, phase := .command dmaBuffer next.pc }) =
        some next := by
      rw [dataOf_listed listed] at done
      cases pc with
      | returned issued success => exact (ended ⟨issued, success, rfl⟩).elim
      | _ => exact done
    obtain ⟨m, moved, done⟩ := Option.bind_eq_some_iff.mp going
    obtain rfl := Option.some.inj done
    obtain ⟨undisturbed, onward⟩ := stage_driven inv.geometry inv.few keptOut keptOff inv.far_start member
      (inv.attached a member) (placed nofun) rfl (driverStep_driven moved) stage
    refine inv.onward rfl (by rw [at_]; rfl) undisturbed awaited (fun _ => placed nofun) fun b listed' => ?_
    obtain rfl := Option.some.inj (listed.symm.trans listed')
    dsimp only
    rw [Function.update_self]
    exact onward

theorem Inv.driven (patient : ¬ GivesUp s) (done : readStep builtRoutines (dataOf ports) s = some next) :
    Inv ports sectors start kept next := by
  have awaited := awaited_driver inv.awaited patient done
  cases at_ : s.phase with
  | idle => simp [readStep, at_] at done
  | allocate => exact inv.allocated at_ awaited done
  | clear dmaBuffer => exact inv.cleared keptOff at_ awaited done
  | prepare dmaBuffer => exact inv.prepared at_ awaited done
  | command dmaBuffer pc => exact inv.commanded keptOut keptOff at_ awaited done
  | copy dmaBuffer issued => exact inv.copied at_ awaited done
  | free dmaBuffer issued success => exact inv.freed at_ awaited done
  | returned success => simp [readStep, at_] at done

/-- What one step keeps. -/
theorem Inv.stepped {event : Event} (allowed : Allowed ports sectors start.low kept s event)
    (done : step builtRoutines (dataOf ports) s event = some next) : Inv ports sectors start kept next := by
  cases event with
  | call call =>
    have awaited := @awaited_step _ _ _ _ inv.awaited (.call call) trivial done
    unfold step at done
    dsimp only at done
    split at done
    next between =>
      obtain rfl := Option.some.inj done
      have nothing : held s.phase = [] := by
        cases at_ : s.phase with
        | idle => rfl
        | returned success => rfl
        | _ =>
          rw [at_] at between
          simp [Phase.between] at between
      exact inv.onward rfl nothing.symm (Undisturbed.refl ports kept s.memory) awaited (fun _ => allowed) trivial
    · simp at done
  | driver => exact inv.driven keptOut keptOff allowed done
  | moved next dma =>
    obtain rfl := Option.some.inj done
    exact inv.moved keptOut allowed

end

section
variable {ports : List Attachment} {sectors : Nat → Nat → Nat → BitVec 8} {start s : System} {kept : Area}

theorem inv_start (ready : Ready ports start.low start.memory) {low : Heap} (record : SameRecord low start.low)
    (idle : start.phase = .idle) (quiet : ∀ disk, (start.ports disk).ci = 0) :
    Inv ports sectors { start with low := low } kept start := by
  constructor
  · rw [idle]
    exact ready.backed
  · exact ready.far
  · exact record
  · exact ready.attached
  · intro disk slot underWay
    unfold UnderWay at underWay
    rw [quiet disk] at underWay
    simp at underWay
  · exact fun called => (called idle).elim
  · exact Area.Same.refl kept start.memory
  · unfold PhaseHolds
    rw [idle]
    trivial

theorem inv_run {base : System} (inv : Inv ports sectors base kept start) (keptOut : Area.Apart kept (heapArea base.low))
    (keptOff : Area.Apart kept (doubled base.low))
    (run : Run builtRoutines (dataOf ports) (Allowed ports sectors base.low kept) start s) : Inv ports sectors base kept s := by
  induction run with
  | start => exact inv
  | step _ allowed done ih => exact ih.stepped keptOut keptOff allowed done

def arrives (sectors : Nat → Nat → Nat → BitVec 8) (call : ReadCall) (dmaBuffer : BitVec 64) (memory : Memory) : Memory :=
  fun addr => if (⟨dmaBuffer, 512⟩ : Area).Has addr then
    sectors call.disk (call.lba.toNat % 2 ^ 48) (addr - dmaBuffer).toNat
  else memory addr

/-- A controller may let it arrive while the command is under way, and be done. -/
theorem arrives_moves (inv : Inv ports sectors start kept s) {dmaBuffer : BitVec 64} {pc : Pc} {slot : Nat}
    (at_ : s.phase = .command dmaBuffer pc) (underWay : UnderWay s s.call.disk slot) {next : Nat → HbaPort}
    (clears : ∀ disk, Clears (s.ports disk).ci (next disk).ci) :
    HbaMoves ports sectors s next (arrives sectors s.call dmaBuffer) := by
  have found : ∀ disk a slot, ports[disk]? = some a → UnderWay s disk slot → disk = s.call.disk ∧
      stretch s.memory (tableOf s.memory a slot) = ⟨dmaBuffer, 512⟩ ∧
      sectorAsked s.memory (tableOf s.memory a slot) = s.call.lba.toNat % 2 ^ 48 := by
    intro disk a slot listed underWay
    obtain ⟨own, dmaBuffer', pc', at', _, below, ordered⟩ := inv.underWay listed underWay
    obtain ⟨rfl, rfl⟩ := Phase.command.inj (at_.symm.trans at')
    have low := (inv.buffer (by rw [at_]; rfl)).2.1
    exact ⟨own, (ordered_found (inv.attached a (List.mem_of_getElem? listed)) below low ordered).2⟩
  have placed := inv.placed (by rw [at_]; exact nofun)
  constructor
  · exact clears
  · intro addr elsewhere
    obtain ⟨a, listed⟩ : ∃ a, ports[s.call.disk]? = some a := ⟨_, List.getElem?_eq_getElem placed.disk⟩
    have beside := ((elsewhere s.call.disk a listed).2 slot underWay).2
    rw [(found s.call.disk a slot listed underWay).2.1] at beside
    exact if_neg beside
  · intro disk a slot listed underWay _ _ k below _
    obtain ⟨rfl, stretch, asked⟩ := found disk a slot listed underWay
    have offset : (dmaBuffer + BitVec.ofNat 64 k - dmaBuffer).toNat = k := by
      rw [BitVec.toNat_sub, BitVec.toNat_add, BitVec.toNat_ofNat]
      omega
    rw [stretch, asked]
    refine (if_pos (Area.has_offset ⟨dmaBuffer, 512⟩ below (show 512 ≤ 2 ^ 64 by decide))).trans ?_
    dsimp only
    rw [offset]

theorem quiet_allowed {low : Heap} {last : System} {k : Nat}
    (run : Run builtRoutines (dataOf ports) (Allowed ports sectors low kept) start s)
    (passed : nth (quietStep builtRoutines (dataOf ports)) k s = some last) :
    Run builtRoutines (dataOf ports) (Allowed ports sectors low kept) start last := by
  induction k generalizing s with
  | zero =>
    obtain rfl := Option.some.inj passed
    exact run
  | succ k ih =>
    obtain ⟨next, quiet, rest⟩ := Option.bind_eq_some_iff.mp passed
    unfold quietStep at quiet
    split at quiet
    · simp at quiet
    next elsewhere =>
      have driven : step builtRoutines (dataOf ports) s .driver = some next := quiet
      refine ih (.step run ?_ driven) rest
      rintro ⟨dmaBuffer, slot, timeout, at_, _⟩
      exact elsewhere dmaBuffer slot timeout at_

end

/-- On ports that a search for disks has set up in a low heap below 4 GiB, in every run in which the driver gives up on
no command under way: a call that returns `true` has put the sector of the disk it was asked for into the caller's
buffer, whatever the controllers do in between and whichever calls came before, and memory beside the heap, beside
what `memset` reaches and beside the calls' own is as it was. -/
theorem reads_deliver {low : Heap} {live : List Live} (pictured : Pictured low live) (far : Far low) {memory : Memory}
    {ports : List Attachment} {start s : System} (discovered : Discovered low memory ports start.low start.memory)
    (idle : start.phase = .idle) (quiet : ∀ disk, (start.ports disk).ci = 0) (sectors : Nat → Nat → Nat → BitVec 8) {kept : Area}
    (keptOut : Area.Apart kept (heapArea low)) (keptOff : Area.Apart kept (doubled low))
    (run : Run builtRoutines (dataOf ports) (Allowed ports sectors low kept) start s) :
    kept.Same start.memory s.memory ∧ (s.phase = .returned true → Filled sectors s.call s.memory s.call.buff) := by
  obtain ⟨ready, record⟩ := ready_discovered pictured far discovered
  have inv := inv_run (inv_start ready record idle quiet) keptOut keptOff run
  refine ⟨inv.kept, fun returned => ?_⟩
  have holds := inv.holds
  unfold PhaseHolds at holds
  rw [returned] at holds
  exact holds rfl

theorem eightBlocks_far : Far eightBlocks := ⟨rfl, by decide, by decide, by decide⟩

/-- A port of two slots, set up while a buffer is held. -/
def heldAndSetUp : Option (Call × PortSetUp) :=
  (allocAligned eightBlocks 512 512).bind fun idBuff =>
    (portConfigure builtRoutines (fun _ => 0) (fun _ => 0) idBuff.heap (fun _ => 0) 2).map fun setUp => (idBuff, setUp)

def discoveredStart (idBuff : Call) (setUp : PortSetUp) : System :=
  ⟨free setUp.low idBuff.ptr, setUp.memory, fun _ => ⟨0, 0, 0, 0, 0⟩, ⟨0, 0, 0, 0⟩, .idle⟩

def counted (_disk lba k : Nat) : BitVec 8 := BitVec.ofNat 8 (lba + k)

def seventh : ReadCall := ⟨0, 7, 0x300000, 0x90000⟩

theorem seventh_placed (setUp : PortSetUp) : Placed [attachment setUp] eightBlocks ⟨0x500000, 512⟩ seventh := by
  constructor
  · exact Nat.zero_lt_one
  · decide
  · intro area member
    simp only [List.mem_cons, List.not_mem_nil, or_false] at member
    rcases member with rfl | rfl | rfl
    · exact Area.apart_of_le (by decide) (by decide)
    · exact Area.apart_of_le (by decide) (by decide)
    · exact Area.apart_of_le (by decide) (by decide)
  · intro area member
    simp only [List.mem_cons, List.not_mem_nil, or_false] at member
    rcases member with rfl | rfl
    · exact Area.apart_of_le (by decide) (by decide)
    · exact Area.apart_of_le (by decide) (by decide)
  · intro area member
    simp only [List.mem_cons, List.not_mem_nil, or_false] at member
    rcases member with rfl | rfl
    · exact (Area.apart_of_le (by decide) (by decide)).symm
    · exact Area.apart_of_le (by decide) (by decide)

theorem reads_deliver_seventh : ∃ idBuff setUp s, heldAndSetUp = some (idBuff, setUp) ∧
    Run builtRoutines (dataOf [attachment setUp]) (Allowed [attachment setUp] counted eightBlocks ⟨0x500000, 512⟩)
      (discoveredStart idBuff setUp) s ∧
    s.phase = .returned true ∧ Filled counted s.call s.memory s.call.buff := by
  let done_ : Event := .moved (fun _ => ⟨0, 0, 0, 0, 0⟩) (arrives counted seventh 0x200000)
  have whole : (heldAndSetUp.bind fun both =>
      (step builtRoutines (dataOf [attachment both.2]) (discoveredStart both.1 both.2) (.call seventh)).bind fun first =>
      (nth (quietStep builtRoutines (dataOf [attachment both.2])) 13 first).bind fun issued =>
      (step builtRoutines (dataOf [attachment both.2]) issued done_).bind fun cleared =>
      (nth (quietStep builtRoutines (dataOf [attachment both.2])) 6 cleared).map fun last =>
        decide (both.1.ptr ≠ 0 ∧ (issued.call.disk = 0 ∧ issued.call.lba = 7) ∧
          issued.phase = .command 0x200000 (.pollCi 0 TIMEOUT) ∧ UnderWay issued 0 0 ∧
          last.phase = .returned true)) = some true := by
    decide +kernel
  obtain ⟨⟨idBuff, setUp⟩, found, whole⟩ := Option.bind_eq_some_iff.mp whole
  obtain ⟨first, called, whole⟩ := Option.bind_eq_some_iff.mp whole
  obtain ⟨issued, passed, whole⟩ := Option.bind_eq_some_iff.mp whole
  obtain ⟨cleared, moved, whole⟩ := Option.bind_eq_some_iff.mp whole
  obtain ⟨s, passed', holds⟩ := Option.map_eq_some_iff.mp whole
  obtain ⟨nonnull, ⟨disk, lba⟩, at_, underWay, returned⟩ := of_decide_eq_true holds
  have taken := found
  unfold heldAndSetUp at taken
  obtain ⟨idBuff', buffer, taken⟩ := Option.bind_eq_some_iff.mp taken
  obtain ⟨setUp', configured, taken⟩ := Option.map_eq_some_iff.mp taken
  obtain ⟨rfl, rfl⟩ := Prod.mk.inj taken
  have pictured : Pictured eightBlocks [] := pictured_cleared fun _ _ => rfl
  have discovered : Discovered eightBlocks (fun _ => 0) [attachment setUp'] (discoveredStart idBuff' setUp').low
      (discoveredStart idBuff' setUp').memory := .port .none buffer nonnull configured
  have keptOut : Area.Apart ⟨0x500000, 512⟩ (heapArea eightBlocks) := (Area.apart_of_le (by decide) (by decide)).symm
  have keptOff : Area.Apart ⟨0x500000, 512⟩ (doubled eightBlocks) := (Area.apart_of_le (by decide) (by decide)).symm
  have run : Run builtRoutines (dataOf [attachment setUp']) (Allowed [attachment setUp'] counted eightBlocks ⟨0x500000, 512⟩)
      (discoveredStart idBuff' setUp') issued :=
    quiet_allowed (.step .start (show Allowed _ _ _ _ _ (.call seventh) from seventh_placed setUp') called) passed
  obtain ⟨ready, record⟩ := ready_discovered pictured eightBlocks_far discovered
  have inv := inv_run (inv_start ready record rfl fun _ => rfl) keptOut keptOff run
  have same : arrives counted issued.call 0x200000 = arrives counted seventh 0x200000 := by
    unfold arrives
    rw [disk, lba]
    rfl
  have arrived : Allowed [attachment setUp'] counted eightBlocks ⟨0x500000, 512⟩ issued done_ := by
    rw [← disk] at underWay
    change HbaMoves _ _ _ _ (arrives counted seventh 0x200000)
    rw [← same]
    exact arrives_moves inv at_ underWay fun disk i set => by simp at set
  have run' := quiet_allowed (.step run arrived moved) passed'
  have delivered := reads_deliver pictured eightBlocks_far discovered rfl (fun _ => rfl) counted keptOut keptOff run'
  exact ⟨idBuff', setUp', s, found, run', returned, delivered.2 returned⟩

end Ketone.Disk.SataTransfers
