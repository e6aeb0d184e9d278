import Ketone.Boot.Stages
import Ketone.Library.Loop
import Ketone.Library.PageWalk

/-! The page tables that stage 2 leaves, and where the processor's walk of them leads. -/

namespace Ketone.Boot.Paging
open Library.Bytes Library.Ram Library.Loop Library.PageWalk Stages

/-- The kernel takes addresses below this one to be mapped to themselves. -/
def MAPPED_LIMIT : Nat := 0x100000000

/-- The registers and memory at `.fill_pages`, with the addresses of the words stored so far. -/
structure Filling where
  edi : BitVec 32
  eax : BitVec 32
  ecx : BitVec 32
  memory : Memory
  stored : List (BitVec 64)

def fillTurn (s : Filling) : Turn Filling Filling :=
  let edx := s.eax ||| 0x83
  let memory := storeWord s.memory (s.edi.setWidth 64) edx
  let memory := storeWord memory ((s.edi + 4).setWidth 64) (0 : BitVec 32)
  let next : Filling := ⟨s.edi + 8, s.eax + 0x200000, s.ecx - 1, memory,
    s.stored ++ [s.edi.setWidth 64, (s.edi + 4).setWidth 64]⟩
  if next.ecx ≠ 0 then .again next else .leave next

def fillStart (memory : Memory) : Filling :=
  let memory := storeDwords memory PML4 [BitVec.ofNat 32 PDPT ||| 3, 0]
  let memory := storeDwords memory PDPT [0x92003, 0, 0x93003, 0, 0x94003, 0, 0x95003, 0]
  ⟨BitVec.ofNat 32 PD0, 0, 2048, memory, []⟩

def fillPages (memory : Memory) : Option Filling := run fillTurn 2048 (fillStart memory)

def directories : Area := ⟨BitVec.ofNat 64 PD0, 4 * 4096⟩

def entryWords (entries : List (BitVec 32)) : List (BitVec 32) := entries.flatMap fun entry => [entry, 0]

def pageEntry (i : Nat) : BitVec 32 := BitVec.ofNat 32 (0x200000 * i) ||| 0x83

section
variable {memory : Memory}

theorem wide_address {p : Nat} (small : p < 2 ^ 32) : (BitVec.ofNat 32 p).setWidth 64 = BitVec.ofNat 64 p := by
  apply BitVec.eq_of_toNat_eq
  rw [BitVec.toNat_setWidth, BitVec.toNat_ofNat, BitVec.toNat_ofNat]
  omega

def storedFrom (first count : Nat) : List (BitVec 64) :=
  (List.range' first count).flatMap fun i => [BitVec.ofNat 64 (PD0 + 8 * i), BitVec.ofNat 64 (PD0 + 8 * i + 4)]

def fillAt (first left : Nat) (memory : Memory) (stored : List (BitVec 64)) : Filling :=
  ⟨BitVec.ofNat 32 (PD0 + 8 * first), BitVec.ofNat 32 (0x200000 * first), BitVec.ofNat 32 left, memory, stored⟩

@[simp] theorem fillAt_memory (first left : Nat) (memory : Memory) (stored : List (BitVec 64)) :
    (fillAt first left memory stored).memory = memory := rfl

@[simp] theorem fillAt_stored (first left : Nat) (memory : Memory) (stored : List (BitVec 64)) :
    (fillAt first left memory stored).stored = stored := rfl

theorem fillTurn_eq (memory : Memory) {first left : Nat} (room : first + left < 2048) (stored : List (BitVec 64)) :
    fillTurn (fillAt first (left + 1) memory stored) =
      let next := fillAt (first + 1) left (storeDwords memory (PD0 + 8 * first) [pageEntry first, 0])
        (stored ++ storedFrom first 1)
      if left ≠ 0 then .again next else .leave next := by
  have directory : PD0 = 0x92000 := rfl
  have high : BitVec.ofNat 32 (PD0 + 8 * first) + 4 = BitVec.ofNat 32 (PD0 + 8 * first + 4) :=
    (BitVec.ofNat_add _ 4).symm
  have edi : BitVec.ofNat 32 (PD0 + 8 * first) + 8 = BitVec.ofNat 32 (PD0 + 8 * (first + 1)) :=
    (BitVec.ofNat_add _ 8).symm
  have eax : BitVec.ofNat 32 (0x200000 * first) + 0x200000 = BitVec.ofNat 32 (0x200000 * (first + 1)) :=
    (BitVec.ofNat_add _ 0x200000).symm
  have ecx : BitVec.ofNat 32 (left + 1) - 1 = BitVec.ofNat 32 left := by
    rw [BitVec.ofNat_add left 1]
    exact BitVec.add_sub_cancel _ _
  have counter : BitVec.ofNat 32 left ≠ 0 ↔ left ≠ 0 := by
    rw [Ne, ← BitVec.toNat_inj, BitVec.toNat_ofNat]
    change ¬ left % 2 ^ 32 = 0 ↔ _
    omega
  unfold fillTurn fillAt
  dsimp only
  rw [high, edi, eax, ecx, wide_address (by omega), wide_address (by omega)]
  by_cases done : left = 0
  · rw [if_neg (fun again => counter.mp again done), if_neg (not_not.mpr done)]
    rfl
  · rw [if_pos (counter.mpr done), if_pos done]
    rfl

theorem storeDwords_append (memory : Memory) (addr : Nat) (before after : List (BitVec 32)) :
    storeDwords memory addr (before ++ after) =
      storeDwords (storeDwords memory addr before) (addr + 4 * before.length) after := by
  induction before generalizing memory addr with
  | nil => rfl
  | cons dword rest ih =>
    rw [List.cons_append, storeDwords, ih, storeDwords, List.length_cons, Nat.mul_succ, Nat.add_right_comm, Nat.add_assoc]

/-- The loop stores the entries of the pages one behind the other. -/
theorem fill_run {first left : Nat} (room : first + left < 2048) (stored : List (BitVec 64)) :
    run fillTurn (left + 1) (fillAt first (left + 1) memory stored) =
      some (fillAt (first + left + 1) 0
        (storeDwords memory (PD0 + 8 * first) (entryWords ((List.range' first (left + 1)).map pageEntry)))
        (stored ++ storedFrom first (left + 1))) := by
  induction left generalizing first memory stored with
  | zero => exact run_leave 0 (fillTurn_eq memory room stored)
  | succ left ih =>
    have turn := fillTurn_eq memory room stored
    dsimp only at turn
    rw [if_pos (Nat.succ_ne_zero left)] at turn
    rw [run_again _ turn, ih (show first + 1 + left < 2048 by omega)]
    have stores : stored ++ storedFrom first 1 ++ storedFrom (first + 1) (left + 1) =
        stored ++ storedFrom first (left + 1 + 1) := by
      rw [List.append_assoc]
      rfl
    have words : storeDwords memory (PD0 + 8 * first) (entryWords ((List.range' first (left + 1 + 1)).map pageEntry)) =
        storeDwords (storeDwords memory (PD0 + 8 * first) [pageEntry first, 0]) (PD0 + 8 * first + 8)
          (entryWords ((List.range' (first + 1) (left + 1)).map pageEntry)) := by
      rw [List.range'_succ, List.map_cons]
      exact storeDwords_append memory _ [pageEntry first, 0] _
    rw [stores, words, Nat.mul_succ, Nat.add_assoc PD0, show first + 1 + left + 1 = first + (left + 1) + 1 by omega]

theorem fillPages_eq (memory : Memory) :
    fillPages memory = some (fillAt 2048 0 (pageTables memory) (storedFrom 0 2048)) := by
  have pages : entryWords ((List.range' 0 2048).map pageEntry) =
      (List.range 2048).flatMap fun i => [BitVec.ofNat 32 (0x200000 * i) ||| 0x83, 0] := by
    rw [entryWords, List.flatMap_map, List.range_eq_range']
    rfl
  have start : fillStart memory = fillAt 0 2048 (fillStart memory).memory [] := rfl
  unfold fillPages
  rw [start, fill_run (by decide), List.nil_append, pages]
  rfl

theorem stored_inside {first count : Nat} (room : first + count ≤ 2048) : ∀ addr ∈ storedFrom first count,
    Area.Within ⟨addr, 4⟩ directories := by
  intro addr member
  obtain ⟨i, inside, place⟩ := List.mem_flatMap.mp member
  have bounds := List.mem_range'_1.mp inside
  have part : ∀ offset, offset + 4 ≤ 4 * 4096 →
      Area.Within ⟨BitVec.ofNat 64 (PD0 + offset), 4⟩ directories := by
    intro offset fits
    rw [BitVec.ofNat_add]
    exact Area.part_within directories fits (by decide)
  rcases List.mem_cons.mp place with rfl | place
  · exact part (8 * i) (by omega)
  · rw [List.mem_singleton.mp place, Nat.add_assoc]
    exact part (8 * i + 4) (by omega)

end

section
variable {memory : Memory}

theorem loadWord_halves (p : Nat) : (loadWord 64 memory (BitVec.ofNat 64 p)).toNat =
    (loadWord 32 memory (BitVec.ofNat 64 p)).toNat + 2 ^ 32 * (loadWord 32 memory (BitVec.ofNat 64 (p + 4))).toNat := by
  have high : littleEndian (fun k => memory (BitVec.ofNat 64 p + BitVec.ofNat 64 k)) (0 + 4) 4 =
      littleEndian (fun k => memory (BitVec.ofNat 64 (p + 4) + BitVec.ofNat 64 k)) 0 4 := by
    apply littleEndian_congr
    intro k below
    rw [Nat.zero_add, Nat.zero_add, ← BitVec.ofNat_add, ← BitVec.ofNat_add, Nat.add_assoc]
  unfold loadWord
  rw [toNat_field _ _ _ rfl, toNat_field _ _ _ rfl, toNat_field _ _ _ rfl]
  change littleEndian _ 0 (4 + 4) = littleEndian _ 0 4 + 256 ^ 4 * littleEndian _ 0 4
  rw [littleEndian_add, high]

theorem loadWord_entry (memory : Memory) {addr : Nat} (fits : addr + 8 ≤ 2 ^ 64) (entry : BitVec 32) :
    loadWord 64 (storeDwords memory addr [entry, 0]) (BitVec.ofNat 64 addr) = entry.setWidth 64 := by
  apply BitVec.eq_of_toNat_eq
  have low : loadWord 32 (storeDwords memory addr [entry, 0]) (BitVec.ofNat 64 addr) = entry := by
    refine Eq.trans ?_ (loadWord_store memory rfl (by decide) (BitVec.ofNat 64 addr) entry)
    apply loadWord_congr
    intro k below
    rw [storeDwords, storeDwords, storeDwords, byteAt_storeWord (by omega) (by omega)]
    exact if_neg (by omega)
  have high : loadWord 32 (storeDwords memory addr [entry, 0]) (BitVec.ofNat 64 (addr + 4)) = 0 := by
    rw [storeDwords, storeDwords, storeDwords]
    exact loadWord_store _ rfl (by decide) _ _
  rw [loadWord_halves, low, high, BitVec.toNat_setWidth_of_le (by decide)]
  rfl

theorem length_entryWords (entries : List (BitVec 32)) : (entryWords entries).length = 2 * entries.length := by
  induction entries with
  | nil => rfl
  | cons entry rest ih =>
    calc
      _ = (entryWords rest).length + 2 := rfl
      _ = _ := by rw [ih, List.length_cons, Nat.mul_succ]

theorem loadWord_entries {addr k : Nat} {entries : List (BitVec 32)} (below : k < entries.length)
    (fits : addr + 8 * entries.length ≤ 2 ^ 64) :
    loadWord 64 (storeDwords memory addr (entryWords entries)) (BitVec.ofNat 64 (addr + 8 * k)) =
      entries[k].setWidth 64 := by
  induction entries generalizing memory addr k with
  | nil => cases below
  | cons entry rest ih =>
    have split : storeDwords memory addr (entryWords (entry :: rest)) =
        storeDwords (storeDwords memory addr [entry, 0]) (addr + 8) (entryWords rest) :=
      storeDwords_append memory addr [entry, 0] (entryWords rest)
    have length := length_entryWords rest
    rw [List.length_cons] at below fits
    rw [split]
    cases k with
    | zero =>
      rw [List.getElem_cons_zero]
      refine Eq.trans ?_ (loadWord_entry memory (show addr + 8 ≤ 2 ^ 64 by omega) entry)
      apply loadWord_congr
      intro i near
      exact byteAt_storeDwords (by omega) (by omega) (by omega)
    | succ k =>
      rw [List.getElem_cons_succ, Nat.mul_succ, Nat.add_comm (8 * k), ← Nat.add_assoc]
      exact ih (by omega) (by omega)

theorem pageTables_eq (memory : Memory) : pageTables memory =
    storeDwords (storeDwords (storeDwords memory PML4 (entryWords [0x91003])) PDPT
      (entryWords ((List.range 4).map fun q => BitVec.ofNat 32 (0x92003 + 0x1000 * q)))) PD0
      (entryWords ((List.range 2048).map pageEntry)) := by
  have pages : entryWords ((List.range 2048).map pageEntry) =
      (List.range 2048).flatMap fun i => [BitVec.ofNat 32 (0x200000 * i) ||| 0x83, 0] := List.flatMap_map ..
  rw [pages]
  rfl

theorem loadWord_storeDwords {addr p : Nat} {dwords : List (BitVec 32)} (fits : addr + 4 * dwords.length ≤ 2 ^ 64)
    (fits' : p + 8 ≤ 2 ^ 64) (apart : p + 8 ≤ addr ∨ addr + 4 * dwords.length ≤ p) :
    loadWord 64 (storeDwords memory addr dwords) (BitVec.ofNat 64 p) = loadWord 64 memory (BitVec.ofNat 64 p) := by
  apply loadWord_congr
  intro k below
  exact byteAt_storeDwords fits (by omega) (by omega)

theorem loadWord_directory {i : Nat} (below : i < 2048) :
    loadWord 64 (pageTables memory) (BitVec.ofNat 64 (PD0 + 8 * i)) = (pageEntry i).setWidth 64 := by
  have length : ((List.range 2048).map pageEntry).length = 2048 := by rw [List.length_map, List.length_range]
  rw [pageTables_eq, loadWord_entries (by rw [length]; exact below) (by rw [length]; decide), List.getElem_map,
    List.getElem_range]

theorem loadWord_upper {p : Nat} (before : p + 8 ≤ PD0) : loadWord 64 (pageTables memory) (BitVec.ofNat 64 p) =
    loadWord 64 (storeDwords (storeDwords memory PML4 (entryWords [0x91003])) PDPT
      (entryWords ((List.range 4).map fun q => BitVec.ofNat 32 (0x92003 + 0x1000 * q)))) (BitVec.ofNat 64 p) := by
  have directory : PD0 = 0x92000 := rfl
  rw [pageTables_eq]
  apply loadWord_storeDwords
  · rw [length_entryWords, List.length_map, List.length_range]
    decide
  · omega
  · exact Or.inl before

theorem loadWord_pointer {q : Nat} (below : q < 4) : loadWord 64 (pageTables memory) (BitVec.ofNat 64 (PDPT + 8 * q)) =
    (BitVec.ofNat 32 (0x92003 + 0x1000 * q)).setWidth 64 := by
  have pointers : PDPT = 0x91000 := rfl
  have directory : PD0 = 0x92000 := rfl
  have length : ((List.range 4).map fun q => BitVec.ofNat 32 (0x92003 + 0x1000 * q)).length = 4 := rfl
  rw [loadWord_upper (by omega), loadWord_entries (by rw [length]; exact below) (by rw [length]; decide),
    List.getElem_map, List.getElem_range]

theorem loadWord_root : loadWord 64 (pageTables memory) (BitVec.ofNat 64 (PML4 + 8 * 0)) = 0x91003 := by
  rw [loadWord_upper (by decide), loadWord_storeDwords (by decide) (by decide) (by decide),
    loadWord_entries Nat.zero_lt_one (by decide)]
  rfl

variable {va : BitVec 64}

theorem toNat_pageEntry {i : Nat} (below : i < 2048) : ((pageEntry i).setWidth 64).toNat = 0x200000 * i + 0x83 := by
  have number : (BitVec.ofNat 32 (0x200000 * i)).toNat = i <<< 21 := by
    rw [BitVec.toNat_ofNat, Nat.shiftLeft_eq]
    omega
  rw [BitVec.toNat_setWidth_of_le (by decide), pageEntry, BitVec.toNat_or, number]
  change i <<< 21 ||| 0x83 = _
  rw [← Nat.shiftLeft_add_eq_or_of_lt (show 0x83 < 2 ^ 21 by decide), Nat.shiftLeft_eq]
  omega

theorem toNat_pointer {q : Nat} (below : q < 4) :
    ((BitVec.ofNat 32 (0x92003 + 0x1000 * q)).setWidth 64).toNat = 0x92003 + 0x1000 * q := by
  rw [BitVec.toNat_setWidth_of_le (by decide), BitVec.toNat_ofNat]
  omega

/-- The walk below the limit goes through the root, one of four pointers, and one of 2048 pages. -/
theorem walk_identity (small : va.toNat < MAPPED_LIMIT) :
    translate (pageTables memory) (BitVec.ofNat 64 PML4) va = some ⟨va, 21, true⟩ := by
  have limit : MAPPED_LIMIT = 2 ^ 32 := rfl
  have quarter : va.toNat / 2 ^ 30 < 4 := by omega
  have place : va.toNat / 2 ^ 21 < 2048 := by omega
  let pointer : Entry := (BitVec.ofNat 32 (0x92003 + 0x1000 * (va.toNat / 2 ^ 30))).setWidth 64
  let last : Entry := (pageEntry (va.toNat / 2 ^ 21)).setWidth 64
  have pointerWord : pointer.toNat = _ := toNat_pointer quarter
  have lastWord : last.toNat = _ := toNat_pageEntry place
  have first : entryAt (pageTables memory) (Entry.base (BitVec.ofNat 64 PML4) 12) va 3 = 0x91003 := by
    rw [entryAt_eq _ (show _ = PML4 from rfl) (show va.toNat / 2 ^ 39 % 512 = 0 by omega), loadWord_root]
  have second : entryAt (pageTables memory) (Entry.base 0x91003 12) va 2 = pointer := by
    rw [entryAt_eq _ (show _ = PDPT from rfl) (show va.toNat / 2 ^ 30 % 512 = va.toNat / 2 ^ 30 by omega),
      loadWord_pointer quarter]
  have third : entryAt (pageTables memory) (Entry.base pointer 12) va 1 = last := by
    have directory : PD0 + 4096 * (va.toNat / 2 ^ 30) + 8 * (va.toNat / 2 ^ 21 % 512) = PD0 + 8 * (va.toNat / 2 ^ 21) := by
      omega
    have table : (Entry.base pointer 12).toNat = PD0 + 4096 * (va.toNat / 2 ^ 30) := by
      have start : PD0 = 0x92000 := rfl
      rw [toNat_base _ (by decide), pointerWord]
      omega
    rw [entryAt_eq _ table (show va.toNat / 2 ^ 21 % 512 = _ from rfl), directory, loadWord_directory place]
  have mapped : (page last va 21 true).physical = va := by
    apply page_identity (by decide)
    rw [lastWord]
    omega
  calc
    _ = walk (pageTables memory) va 2 (Entry.base 0x91003 12) true := walk_table first rfl rfl
    _ = walk (pageTables memory) va 1 (Entry.base pointer 12) (true && pointer.writable) := by
      apply walk_table second
      · rw [Entry.present, bit_eq, pointerWord]
        exact decide_eq_true (by omega)
      · rw [Entry.large, bit_eq, pointerWord]
        exact decide_eq_false (by omega)
    _ = some (page last va 21 (true && pointer.writable && last.writable)) := by
      apply walk_page third
      · rw [Entry.present, bit_eq, lastWord]
        exact decide_eq_true (by omega)
      · rw [Entry.large, bit_eq, lastWord]
        exact decide_eq_true (by omega)
      · decide
      · apply reserved_eq_false
        rw [lastWord]
        change _ % 2 ^ 8 = 0
        omega
    _ = _ := by
      have pointerWritable : pointer.writable = true := by
        rw [Entry.writable, bit_eq, pointerWord]
        exact decide_eq_true (by omega)
      have lastWritable : last.writable = true := by
        rw [Entry.writable, bit_eq, lastWord]
        exact decide_eq_true (by omega)
      rw [pointerWritable, lastWritable, Bool.and_self, Bool.and_self]
      exact congrArg (fun physical => some (Mapping.mk physical 21 true)) mapped

end

/-- Whatever memory holds, the tables that stage 2 leaves map every address below the limit to itself, in a page of
2 MiB that may be written to, and the loop that fills in the pages ends and stores words of the four directories only. -/
theorem boot_paging_identity (sectors : Nat) (memory : Memory) :
    (∀ va : BitVec 64, va.toNat < MAPPED_LIMIT →
      translate (stage2 sectors memory) (BitVec.ofNat 64 PML4) va = some ⟨va, 21, true⟩) ∧
    ∃ last, fillPages memory = some last ∧ last.memory = pageTables memory ∧
      ∀ addr ∈ last.stored, Area.Within ⟨addr, 4⟩ directories := by
  constructor
  · intro va small
    unfold stage2
    exact walk_identity small
  · refine ⟨_, fillPages_eq memory, fillAt_memory .., ?_⟩
    rw [fillAt_stored]
    exact stored_inside (Nat.le_of_eq (Nat.zero_add 2048))

end Ketone.Boot.Paging
