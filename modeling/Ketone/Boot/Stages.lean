import Ketone.Library.Ram

/-! The two stages of the boot loader. Stage 1 collects the memory map and reads the kernel image behind it,
stage 2 copies the image to its place. -/

namespace Ketone.Boot.Stages
open Library.Bytes Library.Ram

def E820_MAP : Nat := 0x8F04
def E820_MAX_ENTRIES : Nat := 64
def E820_ENTRY_SIZE : Nat := 24
def SMAP : BitVec 32 := 0x534D4150
def STAGE2 : Nat := 0x7E00
def KERNEL_START : Nat := 0x120000
def KERNEL_SIZE : Nat := 0x8F00
def PML4 : Nat := 0x90000
def PDPT : Nat := 0x91000
def PD0 : Nat := 0x92000

/-- The firmware's answer to one request for an entry; `ecx` is the number of bytes that it stores at `es:di`. -/
structure Reply where
  carry : Bool
  eax : BitVec 32
  ebx : BitVec 32
  bytes : List (BitVec 8)
  fits : bytes.length ≤ E820_ENTRY_SIZE

/-- The sectors that stage 1 reads: stage 2, and the kernel image. -/
structure Disk where
  stage2 : List (BitVec 8)
  stage2_length : stage2.length = 512
  sectors : Nat
  image : List (BitVec 8)
  image_length : image.length = 512 * sectors

/-- An entry before the firmware fills it in. -/
def descriptor : List (BitVec 8) := List.replicate 20 0 ++ [1, 0, 0, 0]

def storeReply (memory : Memory) (di : Nat) (reply : Reply) : Memory :=
  storeBytes (storeBytes memory (BitVec.ofNat 64 di) descriptor) (BitVec.ofNat 64 di) reply.bytes

/-- The loop of `get_memory_map`; `none` stands for a failure, or for a firmware that has not come to its end. -/
def nextEntry : List Reply → Memory → Nat → Nat → Option Memory
  | [], _, _, _ => none
  | reply :: rest, memory, di, bp =>
      if bp ≥ E820_MAX_ENTRIES then none
      else
        let memory := storeReply memory di reply
        if reply.carry then none
        else if reply.eax ≠ SMAP then none
        else if reply.bytes.length < 20 then none
        else if loadWord 32 memory (BitVec.ofNat 64 (di + 8)) ||| loadWord 32 memory (BitVec.ofNat 64 (di + 12)) = 0 then
          if reply.ebx = 0 then some memory else nextEntry rest memory di bp
        else
          let memory := storeWord memory (BitVec.ofNat 64 E820_MAP) (BitVec.ofNat 16 (bp + 1))
          if reply.ebx = 0 then some memory else nextEntry rest memory (di + E820_ENTRY_SIZE) (bp + 1)

def getMemoryMap (replies : List Reply) (memory : Memory) : Option Memory :=
  nextEntry replies (storeWord memory (BitVec.ofNat 64 E820_MAP) (0 : BitVec 16)) (E820_MAP + 2) 0

/-- What stage 1 reads of the image: `al` holds the low byte of the number of sectors. -/
def Disk.read (disk : Disk) : List (BitVec 8) := disk.image.take (512 * (disk.sectors % 256))

/-- The image is read to the address behind the entries, counted from the start of the map. -/
def stage1 (replies : List Reply) (disk : Disk) (memory : Memory) : Option Memory := do
  let memory ← getMemoryMap replies memory
  let bx := loadWord 16 memory (BitVec.ofNat 64 E820_MAP) * BitVec.ofNat 16 E820_ENTRY_SIZE + BitVec.ofNat 16 E820_MAP
  if disk.sectors % 256 = 0 then none
  else return storeBytes (storeBytes memory (bx.setWidth 64) disk.read) (BitVec.ofNat 64 STAGE2) disk.stage2

def copyLoop (memory : Memory) (esi edi : BitVec 32) : Nat → Memory
  | 0 => memory
  | eax + 1 =>
      let memory := copyLoop memory esi edi eax
      let edx := loadWord 32 memory ((esi + BitVec.ofNat 32 (4 * eax)).setWidth 64)
      storeWord memory ((edi + BitVec.ofNat 32 (4 * eax)).setWidth 64) edx

def storeDwords (memory : Memory) (addr : Nat) : List (BitVec 32) → Memory
  | [] => memory
  | dword :: rest => storeDwords (storeWord memory (BitVec.ofNat 64 addr) dword) (addr + 4) rest

def pageTables (memory : Memory) : Memory :=
  let memory := storeDwords memory PML4 [BitVec.ofNat 32 PDPT ||| 3, 0]
  let memory := storeDwords memory PDPT [0x92003, 0, 0x93003, 0, 0x94003, 0, 0x95003, 0]
  storeDwords memory PD0 ((List.range 2048).flatMap fun i => [BitVec.ofNat 32 (0x200000 * i) ||| 0x83, 0])

/-- The counter of the copy is compared with `ecx` as a signed number. -/
def stage2 (sectors : Nat) (memory : Memory) : Memory :=
  let count := (loadWord 16 memory (BitVec.ofNat 64 E820_MAP)).setWidth 32
  let esi := count * BitVec.ofNat 32 E820_ENTRY_SIZE + BitVec.ofNat 32 E820_MAP
  let ecx := BitVec.ofNat 32 sectors <<< 7
  let memory := copyLoop memory esi (BitVec.ofNat 32 KERNEL_START) ecx.toInt.toNat
  pageTables (storeWord memory (BitVec.ofNat 64 KERNEL_SIZE) (BitVec.ofNat 16 sectors))

def boot (replies : List Reply) (disk : Disk) (memory : Memory) : Option Memory :=
  (stage1 replies disk memory).map (stage2 disk.sectors)

/-- The 24 bytes of an entry: what the firmware stores, and behind it what was there. -/
def Reply.entry (reply : Reply) : List (BitVec 8) := reply.bytes ++ descriptor.drop reply.bytes.length

def Reply.empty (reply : Reply) : Prop :=
  field 32 (reply.entry.getD · 0) 8 ||| field 32 (reply.entry.getD · 0) 12 = 0

instance (reply : Reply) : Decidable reply.empty := by
  unfold Reply.empty; infer_instance

def reported : List Reply → List (List (BitVec 8))
  | [] => []
  | reply :: rest =>
      (if reply.empty then [] else [reply.entry]) ++ if reply.ebx = 0 then [] else reported rest

section
variable {memory : Memory} {a : Nat}

theorem byteAt_storeReply {di : Nat} (reply : Reply) (fits : di + 24 ≤ 2 ^ 64) (small : a < 2 ^ 64) :
    byteAt (storeReply memory di reply) a =
      if di ≤ a ∧ a < di + 24 then reply.entry.getD (a - di) 0 else byteAt memory a := by
  have bytes : reply.bytes.length ≤ 24 := reply.fits
  have whole : descriptor.length = 24 := rfl
  unfold storeReply Reply.entry
  rw [byteAt_storeBytes (by omega) small, byteAt_storeBytes (by omega) small, whole]
  by_cases stored : di ≤ a ∧ a < di + reply.bytes.length
  · rw [if_pos stored, if_pos (by omega), List.getD_append _ _ _ _ (by omega)]
  · rw [if_neg stored]
    by_cases inside : di ≤ a ∧ a < di + 24
    · have behind : reply.bytes.length ≤ a - di := by omega
      have place : reply.bytes.length + (a - di - reply.bytes.length) = a - di := by omega
      rw [if_pos inside, if_pos inside, List.getD_append_right _ _ _ _ behind, List.getD_eq_getElem?_getD,
        List.getD_eq_getElem?_getD, List.getElem?_drop, place]
    · rw [if_neg inside, if_neg inside]

theorem empty_iff (memory : Memory) {di : Nat} (reply : Reply) (fits : di + 24 < 2 ^ 64) :
    loadWord 32 (storeReply memory di reply) (BitVec.ofNat 64 (di + 8)) |||
      loadWord 32 (storeReply memory di reply) (BitVec.ofNat 64 (di + 12)) = 0 ↔ reply.empty := by
  have word : ∀ offset, offset + 4 ≤ 24 → loadWord 32 (storeReply memory di reply) (BitVec.ofNat 64 (di + offset)) =
      field 32 (reply.entry.getD · 0) offset := by
    intro offset inside
    unfold loadWord field
    congr 1
    apply littleEndian_congr
    intro k below
    rw [Nat.zero_add, ← BitVec.ofNat_add]
    have byte : byteAt (storeReply memory di reply) (di + offset + k) = _ :=
      byteAt_storeReply reply (Nat.le_of_lt fits) (by omega)
    rw [if_pos (by omega), show di + offset + k - di = offset + k by omega] at byte
    exact byte
  rw [word 8 (by decide), word 12 (by decide)]
  rfl

/-- What the loop leaves that starts with the entry number `bp`, to be stored at `di`. -/
structure Collected (di bp : Nat) (entries : List (List (BitVec 8))) (memory after : Memory) : Prop where
  room : bp + entries.length ≤ 64
  count : loadWord 16 after (BitVec.ofNat 64 E820_MAP) = BitVec.ofNat 16 (bp + entries.length)
  stored : ∀ i k, i < entries.length → k < 24 →
    byteAt after (di + 24 * i + k) = (entries.getD i []).getD k 0
  other : ∀ a < 2 ^ 64, ¬ (E820_MAP ≤ a ∧ a < E820_MAP + 2) →
    ¬ (di ≤ a ∧ a < di + 24 * (entries.length + 1)) → byteAt after a = byteAt memory a

section
variable {di bp : Nat} {reply : Reply} {after : Memory}

theorem collected_empty (memory : Memory) (reply : Reply) (place : di = E820_MAP + 2 + 24 * bp) (room : bp ≤ 64)
    (count : loadWord 16 memory (BitVec.ofNat 64 E820_MAP) = BitVec.ofNat 16 bp) :
    Collected di bp [] memory (storeReply memory di reply) := by
  have map : E820_MAP = 0x8F04 := rfl
  constructor
  · exact room
  · rw [loadWord_congr memory]
    · exact count
    · intro k below
      rw [byteAt_storeReply reply (by omega) (by omega)]
      exact if_neg (by omega)
  · exact fun i k below => (Nat.not_lt_zero i below).elim
  · intro a small _ outside
    rw [byteAt_storeReply reply (by omega) small]
    exact if_neg fun inside => outside (by rw [List.length_nil]; omega)

theorem collected_entry (memory : Memory) (reply : Reply) (place : di = E820_MAP + 2 + 24 * bp) (room : bp < 64) :
    Collected di bp [reply.entry] memory
      (storeWord (storeReply memory di reply) (BitVec.ofNat 64 E820_MAP) (BitVec.ofNat 16 (bp + 1))) := by
  have map : E820_MAP = 0x8F04 := rfl
  constructor
  · exact room
  · exact loadWord_store _ (by decide) (by decide) _ _
  · intro i k below inside
    obtain rfl : i = 0 := by simpa using below
    rw [byteAt_storeWord (by decide) (by omega), if_neg (by omega),
      byteAt_storeReply reply (by omega) (by omega),
      if_pos (by omega), show di + 24 * 0 + k - di = k by omega]
    rfl
  · intro a small away outside
    rw [byteAt_storeWord (by decide) small, if_neg (by omega),
      byteAt_storeReply reply (by omega) small]
    exact if_neg fun inside => outside (by rw [List.length_singleton]; omega)

theorem collected_cons {middle : Memory} {entry : List (BitVec 8)} {entries : List (List (BitVec 8))}
    (place : di = E820_MAP + 2 + 24 * bp) (first : Collected di bp [entry] memory middle)
    (rest : Collected (di + 24) (bp + 1) entries middle after) :
    Collected di bp (entry :: entries) memory after := by
  have room := rest.room
  have map : E820_MAP = 0x8F04 := rfl
  constructor
  · rw [List.length_cons]
    omega
  · rw [List.length_cons, rest.count]
    congr 1
    omega
  · intro i k below inside
    cases i with
    | zero =>
      have own := first.stored 0 k Nat.zero_lt_one inside
      rw [rest.other _ (by omega) (by omega)
        (by omega)]
      exact own
    | succ i =>
      have later := rest.stored i k (Nat.lt_of_succ_lt_succ below) inside
      rw [show di + 24 * (i + 1) + k = di + 24 + 24 * i + k by omega]
      exact later
  · intro a small away outside
    rw [List.length_cons] at outside
    rw [rest.other a small away (by omega)]
    exact first.other a small away (by rw [List.length_singleton]; omega)

theorem collected_skip {middle : Memory} {entries : List (List (BitVec 8))}
    (first : Collected di bp [] memory middle) (rest : Collected di bp entries middle after) :
    Collected di bp entries memory after := by
  refine ⟨rest.room, rest.count, rest.stored, ?_⟩
  intro a small away outside
  rw [rest.other a small away outside]
  refine first.other a small away ?_
  rw [List.length_nil]
  omega

theorem nextEntry_collects {replies : List Reply} (place : di = E820_MAP + 2 + 24 * bp)
    (count : loadWord 16 memory (BitVec.ofNat 64 E820_MAP) = BitVec.ofNat 16 bp)
    (done : nextEntry replies memory di bp = some after) : Collected di bp (reported replies) memory after := by
  induction replies generalizing memory di bp with
  | nil => simp [nextEntry] at done
  | cons reply rest ih =>
    rw [nextEntry] at done
    split at done
    · simp at done
    next room =>
    have below : bp < 64 := Nat.lt_of_not_ge room
    have near : di + 24 < 2 ^ 64 := by
      have map : E820_MAP = 0x8F04 := rfl
      omega
    dsimp only at done
    split at done
    · simp at done
    split at done
    · simp at done
    split at done
    · simp at done
    unfold reported
    have test := empty_iff memory reply near
    have skipped := collected_empty memory reply place (Nat.le_of_lt below) count
    have entered := collected_entry memory reply place below
    by_cases empty : reply.empty
    · rw [if_pos (test.mpr empty)] at done
      rw [if_pos empty, List.nil_append]
      by_cases last : reply.ebx = 0
      · rw [if_pos last] at done ⊢
        obtain rfl := Option.some.inj done
        exact skipped
      · rw [if_neg last] at done ⊢
        exact collected_skip skipped (ih place skipped.count done)
    · rw [if_neg fun zero => empty (test.mp zero)] at done
      rw [if_neg empty, List.singleton_append]
      by_cases last : reply.ebx = 0
      · rw [if_pos last] at done ⊢
        obtain rfl := Option.some.inj done
        exact entered
      · rw [if_neg last] at done ⊢
        exact collected_cons place entered (ih (by omega) entered.count done)

theorem getMemoryMap_collects {replies : List Reply} (done : getMemoryMap replies memory = some after) :
    Collected (E820_MAP + 2) 0 (reported replies) (storeWord memory (BitVec.ofNat 64 E820_MAP) (0 : BitVec 16)) after :=
  nextEntry_collects rfl (loadWord_store _ (by decide) (by decide) _ _) done

end

/-- The loop copies `n` words upward to where they do not lie over the source. -/
theorem byteAt_copyLoop {src dest n : Nat} (apart : src + 4 * n ≤ dest) (fits : dest + 4 * n ≤ 2 ^ 32)
    (small : a < 2 ^ 64) : byteAt (copyLoop memory (BitVec.ofNat 32 src) (BitVec.ofNat 32 dest) n) a =
      if dest ≤ a ∧ a < dest + 4 * n then byteAt memory (src + (a - dest)) else byteAt memory a := by
  induction n generalizing a with
  | zero => exact (if_neg (by omega)).symm
  | succ n ih =>
    have wide : ∀ {base : Nat}, base + 4 * (n + 1) ≤ 2 ^ 32 →
        (BitVec.ofNat 32 base + BitVec.ofNat 32 (4 * n)).setWidth 64 = BitVec.ofNat 64 (base + 4 * n) := by
      intro base room
      apply BitVec.eq_of_toNat_eq
      rw [← BitVec.ofNat_add, BitVec.toNat_setWidth, BitVec.toNat_ofNat, BitVec.toNat_ofNat]
      omega
    rw [copyLoop, wide fits, wide (show src + 4 * (n + 1) ≤ 2 ^ 32 by omega), byteAt_storeWord (by omega) small]
    by_cases last : dest + 4 * n ≤ a ∧ a < dest + 4 * n + 4
    · -- the words copied before lie behind the source
      rw [if_pos last, if_pos (by omega), loadWord_byte rfl (show a - (dest + 4 * n) < 32 / 8 by omega),
        ih (by omega) (by omega) (by omega), if_neg (by omega)]
      congr 1
      omega
    · rw [if_neg last, ih (by omega) (by omega) small]
      by_cases before : dest ≤ a ∧ a < dest + 4 * n
      · rw [if_pos before, if_pos (by omega)]
      · rw [if_neg before, if_neg (by omega)]

theorem byteAt_storeDwords {addr : Nat} {dwords : List (BitVec 32)} (fits : addr + 4 * dwords.length ≤ 2 ^ 64)
    (small : a < 2 ^ 64) (outside : ¬ (addr ≤ a ∧ a < addr + 4 * dwords.length)) :
    byteAt (storeDwords memory addr dwords) a = byteAt memory a := by
  induction dwords generalizing memory addr with
  | nil => rfl
  | cons dword rest ih =>
    rw [List.length_cons] at fits outside
    rw [storeDwords, ih (by omega) (by omega), byteAt_storeWord (by omega) small]
    exact if_neg (by omega)

theorem byteAt_pageTables (small : a < 2 ^ 64) (outside : ¬ (0x90000 ≤ a ∧ a < 0x96000)) :
    byteAt (pageTables memory) a = byteAt memory a := by
  have pages : ((List.range 2048).flatMap fun i => [BitVec.ofNat 32 (0x200000 * i) ||| 0x83, 0]).length = 4096 := by
    decide +kernel
  unfold pageTables PML4 PDPT PD0
  rw [byteAt_storeDwords (by rw [pages]; decide) small (by rw [pages]; omega),
    byteAt_storeDwords (by decide) small (by rw [List.length_cons]; simp; omega),
    byteAt_storeDwords (by decide) small (by simp; omega)]

end

end Ketone.Boot.Stages
