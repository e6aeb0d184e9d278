import Ketone.Boot.Stages

/-! What the kernel finds when it starts: the memory map, the size of its image, and the image. -/

namespace Ketone.Boot.HandOff
open Library.Bytes Library.Ram Stages

/-- The kernel finds every entry reported, the number of its sectors, and the image that stage 1 has read. -/
structure HandedOver (entries : List (List (BitVec 8))) (disk : Disk) (memory : Memory) : Prop where
  count : (loadWord 16 memory (BitVec.ofNat 64 E820_MAP)).toNat = entries.length
  entries : ∀ i k, i < entries.length → k < E820_ENTRY_SIZE →
    byteAt memory (E820_MAP + 2 + E820_ENTRY_SIZE * i + k) = (entries.getD i []).getD k 0
  size : (loadWord 32 memory (BitVec.ofNat 64 KERNEL_SIZE)).toNat = disk.sectors
  image : ((List.range (512 * disk.sectors)).map fun k => byteAt memory (KERNEL_START + k)) = disk.read

def lastEntry (entries : List (List (BitVec 8))) : List (BitVec 8) := entries.getD (entries.length - 1) []

section
variable {replies : List Reply} {disk : Disk} {memory final : Memory} {a : Nat}

theorem length_read (few : disk.sectors < 256) : disk.read.length = 512 * disk.sectors := by
  unfold Disk.read
  rw [List.length_take, disk.image_length, Nat.mod_eq_of_lt few]
  omega

theorem read_eq (few : disk.sectors < 256) : disk.read = disk.image := by
  unfold Disk.read
  rw [Nat.mod_eq_of_lt few, ← disk.image_length, List.take_length]

theorem stage1_ok (started : boot replies disk memory = some final) : ∃ map, getMemoryMap replies memory = some map ∧
    disk.sectors % 256 ≠ 0 ∧ final = stage2 disk.sectors (storeBytes (storeBytes map
      ((loadWord 16 map (BitVec.ofNat 64 E820_MAP) * BitVec.ofNat 16 24 + BitVec.ofNat 16 E820_MAP).setWidth 64) disk.read)
      (BitVec.ofNat 64 STAGE2) disk.stage2) := by
  obtain ⟨loaded, first, rfl⟩ := Option.map_eq_some_iff.mp started
  obtain ⟨map, collected, first⟩ := Option.bind_eq_some_iff.mp first
  dsimp only at first
  split at first
  · simp at first
  next some =>
  obtain rfl := Option.some.inj first
  exact ⟨map, collected, some, rfl⟩

theorem byteAt_loaded {map : Memory} {base : Nat} (fits : base + 512 * disk.sectors < 2 ^ 32)
    (few : disk.sectors < 256) (small : a < 2 ^ 64) (behind : 0x8000 ≤ a) :
    byteAt (storeBytes (storeBytes map (BitVec.ofNat 64 base) disk.read) (BitVec.ofNat 64 STAGE2) disk.stage2) a =
      if base ≤ a ∧ a < base + 512 * disk.sectors then disk.image.getD (a - base) 0 else byteAt map a := by
  have length := length_read few
  have second := disk.stage2_length
  unfold STAGE2
  rw [byteAt_storeBytes (by omega) small, if_neg (by omega), byteAt_storeBytes (by omega) small, length, read_eq few]

/-- Memory when the kernel starts. -/
theorem byteAt_final {loaded : Memory} {base : Nat}
    (esi : (loadWord 16 loaded (BitVec.ofNat 64 E820_MAP)).setWidth 32 * BitVec.ofNat 32 E820_ENTRY_SIZE +
      BitVec.ofNat 32 E820_MAP = BitVec.ofNat 32 base)
    (fits : base + 512 * disk.sectors ≤ KERNEL_START) (few : disk.sectors < 256) (small : a < 2 ^ 64)
    (outside : ¬ (0x90000 ≤ a ∧ a < 0x96000)) : byteAt (stage2 disk.sectors loaded) a =
      if KERNEL_SIZE ≤ a ∧ a < KERNEL_SIZE + 2 then (BitVec.ofNat 16 disk.sectors >>> (8 * (a - KERNEL_SIZE))).setWidth 8
      else if KERNEL_START ≤ a ∧ a < KERNEL_START + 512 * disk.sectors then byteAt loaded (base + (a - KERNEL_START))
      else byteAt loaded a := by
  have start : KERNEL_START = 0x120000 := rfl
  have turns : (BitVec.ofNat 32 disk.sectors <<< 7).toInt.toNat = 128 * disk.sectors := by
    have number : (BitVec.ofNat 32 disk.sectors <<< 7).toNat = 128 * disk.sectors := by
      rw [BitVec.toNat_shiftLeft, BitVec.toNat_ofNat, Nat.shiftLeft_eq]
      omega
    rw [BitVec.toInt_eq_toNat_of_lt (by omega), number]
    rfl
  unfold stage2
  dsimp only
  rw [esi, turns, byteAt_pageTables small outside, byteAt_storeWord (by decide) small,
    byteAt_copyLoop (by omega) (by omega) small]
  have words : 4 * (128 * disk.sectors) = 512 * disk.sectors := by omega
  rw [words]

theorem image_address {n : Nat} (few : n ≤ 64) :
    (BitVec.ofNat 16 n * BitVec.ofNat 16 24 + BitVec.ofNat 16 E820_MAP).setWidth 64 = BitVec.ofNat 64 (E820_MAP + 24 * n) ∧
      (BitVec.ofNat 16 n).setWidth 32 * BitVec.ofNat 32 E820_ENTRY_SIZE + BitVec.ofNat 32 E820_MAP =
        BitVec.ofNat 32 (E820_MAP + 24 * n) := by
  have map : E820_MAP = 0x8F04 := rfl
  have short : n % 2 ^ 16 = n := Nat.mod_eq_of_lt (by omega)
  constructor
  · apply BitVec.eq_of_toNat_eq
    rw [BitVec.toNat_setWidth, BitVec.toNat_add, BitVec.toNat_mul, BitVec.toNat_ofNat, BitVec.toNat_ofNat, short]
    change (n * 24 % 2 ^ 16 + 0x8F04) % 2 ^ 16 % 2 ^ 64 = (0x8F04 + 24 * n) % 2 ^ 64
    rw [Nat.mod_eq_of_lt (show n * 24 < 2 ^ 16 by omega), Nat.mod_eq_of_lt (show n * 24 + 0x8F04 < 2 ^ 16 by omega)]
    congr 1
    omega
  · apply BitVec.eq_of_toNat_eq
    rw [BitVec.toNat_add, BitVec.toNat_mul, BitVec.toNat_setWidth, BitVec.toNat_ofNat, short]
    change (n % 2 ^ 32 * 24 % 2 ^ 32 + 0x8F04) % 2 ^ 32 = (0x8F04 + 24 * n) % 2 ^ 32
    rw [Nat.mod_eq_of_lt (show n < 2 ^ 32 by omega), Nat.mod_eq_of_lt (show n * 24 < 2 ^ 32 by omega)]
    congr 1
    omega

/-- All of memory that the kernel looks at, when the image has fewer than 256 sectors. -/
structure Placed (n : Nat) (disk : Disk) (map final : Memory) : Prop where
  size : ∀ a, KERNEL_SIZE ≤ a → a < KERNEL_SIZE + 2 →
    byteAt final a = (BitVec.ofNat 16 disk.sectors >>> (8 * (a - KERNEL_SIZE))).setWidth 8
  low : ∀ a, KERNEL_SIZE + 2 ≤ a → a < E820_MAP + 2 + 24 * n → byteAt final a =
    if E820_MAP + 24 * n ≤ a then disk.image.getD (a - (E820_MAP + 24 * n)) 0 else byteAt map a
  image : ∀ k, k < 512 * disk.sectors → byteAt final (KERNEL_START + k) = disk.image.getD k 0

theorem placed_of_boot {n : Nat} {map : Memory} (few : disk.sectors < 256) (some : disk.sectors % 256 ≠ 0)
    (entries : 0 < n) (room : n ≤ 64)
    (count : loadWord 16 map (BitVec.ofNat 64 E820_MAP) = BitVec.ofNat 16 n)
    (done : final = stage2 disk.sectors (storeBytes (storeBytes map
      ((loadWord 16 map (BitVec.ofNat 64 E820_MAP) * BitVec.ofNat 16 24 + BitVec.ofNat 16 E820_MAP).setWidth 64) disk.read)
      (BitVec.ofNat 64 STAGE2) disk.stage2)) : Placed n disk map final := by
  have place : E820_MAP = 0x8F04 := rfl
  have start : KERNEL_START = 0x120000 := rfl
  have cell : KERNEL_SIZE = 0x8F00 := rfl
  obtain ⟨bx, esi⟩ := image_address room
  rw [count, bx] at done
  have loaded : ∀ a, 0x8000 ≤ a → a < 2 ^ 64 → byteAt (storeBytes (storeBytes map (BitVec.ofNat 64 (E820_MAP + 24 * n))
      disk.read) (BitVec.ofNat 64 STAGE2) disk.stage2) a = if E820_MAP + 24 * n ≤ a ∧
        a < E820_MAP + 24 * n + 512 * disk.sectors then disk.image.getD (a - (E820_MAP + 24 * n)) 0 else byteAt map a :=
    fun a behind small => byteAt_loaded (by omega) few small behind
  -- stage 2 finds the count as it was
  have again : loadWord 16 (storeBytes (storeBytes map (BitVec.ofNat 64 (E820_MAP + 24 * n)) disk.read)
      (BitVec.ofNat 64 STAGE2) disk.stage2) (BitVec.ofNat 64 E820_MAP) = BitVec.ofNat 16 n := by
    rw [loadWord_congr map]
    · exact count
    · intro k below
      rw [loaded _ (by omega) (by omega)]
      exact if_neg (by omega)
  have address : (loadWord 16 (storeBytes (storeBytes map (BitVec.ofNat 64 (E820_MAP + 24 * n)) disk.read)
      (BitVec.ofNat 64 STAGE2) disk.stage2) (BitVec.ofNat 64 E820_MAP)).setWidth 32 * BitVec.ofNat 32 E820_ENTRY_SIZE +
        BitVec.ofNat 32 E820_MAP = BitVec.ofNat 32 (E820_MAP + 24 * n) := by
    rw [again]
    exact esi
  have bytes := fun a => byteAt_final (a := a) address (by omega) few
  rw [← done] at bytes
  constructor
  · intro a low high
    rw [bytes a (by omega) (by omega), if_pos ⟨low, high⟩]
  · intro a low high
    rw [bytes a (by omega) (by omega), if_neg (by omega), if_neg (by omega), loaded a (by omega) (by omega)]
    by_cases behind : E820_MAP + 24 * n ≤ a
    · rw [if_pos behind, if_pos (by omega)]
    · rw [if_neg behind, if_neg (by omega)]
  · intro k below
    rw [bytes _ (by omega) (by omega), if_neg (by omega), if_pos (by omega), loaded _ (by omega) (by omega),
      if_pos (by omega)]
    congr 1
    omega

end

/-- The conditions for a hand-off: the image has as many sectors as `al` holds, its first two bytes are those of
the last entry that they cover, and the upper half of the cell for the size held zeros. -/
structure Fits (entries : List (List (BitVec 8))) (disk : Disk) (memory : Memory) : Prop where
  few : disk.sectors < 256
  covered : ∀ k < 2, disk.image.getD k 0 = (lastEntry entries).getD (22 + k) 0
  upper : ∀ k < 2, byteAt memory (KERNEL_SIZE + 2 + k) = 0

section
variable {entries : List (List (BitVec 8))} {disk : Disk} {memory map final : Memory}

theorem entries_iff (placed : Placed entries.length disk map final) (some : 0 < entries.length)
    (collected : Collected (E820_MAP + 2) 0 entries memory map) :
    (∀ i k, i < entries.length → k < E820_ENTRY_SIZE →
      byteAt final (E820_MAP + 2 + E820_ENTRY_SIZE * i + k) = (entries.getD i []).getD k 0) ↔
      ∀ k < 2, disk.image.getD k 0 = (lastEntry entries).getD (22 + k) 0 := by
  have place : E820_MAP = 0x8F04 := rfl
  have cell : KERNEL_SIZE = 0x8F00 := rfl
  have found : ∀ i k, i < entries.length → k < 24 → byteAt final (E820_MAP + 2 + 24 * i + k) =
      if 24 * entries.length ≤ 2 + 24 * i + k then disk.image.getD (2 + 24 * i + k - 24 * entries.length) 0
      else (entries.getD i []).getD k 0 := by
    intro i k below inside
    have whole : 24 * i + 24 ≤ 24 * entries.length := by omega
    rw [placed.low _ (by omega) (by omega)]
    by_cases behind : 24 * entries.length ≤ 2 + 24 * i + k
    · rw [if_pos behind, if_pos (by omega)]
      congr 1
      omega
    · rw [if_neg behind, if_neg (by omega)]
      exact collected.stored i k below inside
  constructor
  · intro arrive k below
    have byte := arrive (entries.length - 1) (22 + k) (by omega) (show 22 + k < 24 by omega)
    have own := found (entries.length - 1) (22 + k) (by omega) (by omega)
    rw [if_pos (by omega), show 2 + 24 * (entries.length - 1) + (22 + k) - 24 * entries.length = k by omega] at own
    exact own.symm.trans byte
  · intro covered i k below inside
    refine (found i k below inside).trans ?_
    by_cases behind : 24 * entries.length ≤ 2 + 24 * i + k
    · have bound : k < 24 := inside
      obtain rfl : i = entries.length - 1 := by omega
      obtain ⟨j, rfl⟩ : ∃ j, k = 22 + j := ⟨k - 22, by omega⟩
      rw [if_pos behind, show 2 + 24 * (entries.length - 1) + (22 + j) - 24 * entries.length = j by omega]
      exact covered j (by omega)
    · exact if_neg behind

theorem size_iff (placed : Placed entries.length disk map final) (few : disk.sectors < 256)
    (same : ∀ k < 2, byteAt map (KERNEL_SIZE + 2 + k) = byteAt memory (KERNEL_SIZE + 2 + k)) :
    (loadWord 32 final (BitVec.ofNat 64 KERNEL_SIZE)).toNat = disk.sectors ↔
      ∀ k < 2, byteAt memory (KERNEL_SIZE + 2 + k) = 0 := by
  have place : E820_MAP = 0x8F04 := rfl
  have cell : KERNEL_SIZE = 0x8F00 := rfl
  have lower : ∀ k < 2, (byteAt final (KERNEL_SIZE + k)).toNat = disk.sectors / 256 ^ k % 256 := by
    intro k below
    rw [placed.size _ (by omega) (by omega), Nat.add_sub_cancel_left, BitVec.toNat_setWidth,
      BitVec.toNat_ushiftRight, BitVec.toNat_ofNat, Nat.shiftRight_eq_div_pow, Nat.pow_mul,
      Nat.mod_eq_of_lt (show disk.sectors < 2 ^ 16 by omega)]
  have upper : ∀ k < 2, byteAt final (KERNEL_SIZE + 2 + k) = byteAt memory (KERNEL_SIZE + 2 + k) := by
    intro k below
    rw [placed.low _ (by omega) (by omega), if_neg (by omega), same k below]
  have word : (loadWord 32 final (BitVec.ofNat 64 KERNEL_SIZE)).toNat =
      (byteAt final KERNEL_SIZE).toNat + 256 * ((byteAt final (KERNEL_SIZE + 1)).toNat +
        256 * ((byteAt final (KERNEL_SIZE + 2)).toNat + 256 * (byteAt final (KERNEL_SIZE + 3)).toNat)) := by
    rw [loadWord, toNat_field _ _ _ rfl]
    rfl
  have first := lower 0 (by omega)
  have second := lower 1 (by omega)
  have third := upper 0 (by omega)
  have fourth := upper 1 (by omega)
  simp only [Nat.add_zero, pow_zero, pow_one, Nat.div_one] at first second third fourth
  rw [word, first, second, third, show KERNEL_SIZE + 3 = KERNEL_SIZE + 2 + 1 by rfl, fourth]
  constructor
  · intro sum k below
    apply BitVec.eq_of_toNat_eq
    change _ = 0
    obtain rfl | rfl : k = 0 ∨ k = 1 := by omega
    · rw [Nat.add_zero]
      omega
    · omega
  · intro zero
    have zero₀ := zero 0 (by omega)
    have zero₁ := zero 1 (by omega)
    rw [Nat.add_zero] at zero₀
    rw [zero₀, zero₁]
    change disk.sectors % 256 + 256 * (disk.sectors / 256 % 256 + 256 * (0 + 256 * 0)) = _
    omega

theorem image_arrives (placed : Placed entries.length disk map final) (few : disk.sectors < 256) :
    ((List.range (512 * disk.sectors)).map fun k => byteAt final (KERNEL_START + k)) = disk.read := by
  have length := disk.image_length
  rw [read_eq few]
  apply List.ext_getElem
  · rw [List.length_map, List.length_range, length]
  · intro k low high
    rw [List.getElem_map, List.getElem_range, placed.image k (by omega), List.getD_eq_getElem _ _ high]

theorem image_cut (many : ¬ disk.sectors < 256) : disk.read.length ≠ 512 * disk.sectors := by
  unfold Disk.read
  rw [List.length_take]
  omega

end

theorem placed_final {replies : List Reply} {disk : Disk} {memory final : Memory} (nonempty : reported replies ≠ [])
    (started : boot replies disk memory = some final) (few : disk.sectors < 256) :
    ∃ map, Placed (reported replies).length disk map final ∧
      Collected (E820_MAP + 2) 0 (reported replies) (storeWord memory (BitVec.ofNat 64 E820_MAP) (0 : BitVec 16)) map := by
  obtain ⟨map, done, sectors, loaded⟩ := stage1_ok started
  have collected := getMemoryMap_collects done
  have room := collected.room
  have count := collected.count
  rw [Nat.zero_add] at count room
  exact ⟨map, placed_of_boot few sectors (List.length_pos_iff.mpr nonempty) room count loaded, collected⟩

/-- For every map of one entry or more, every image and every content of memory before: the kernel finds the map,
the size and the image exactly if the image fits. -/
theorem hand_off_iff (replies : List Reply) (disk : Disk) (memory final : Memory) (nonempty : reported replies ≠ [])
    (started : boot replies disk memory = some final) :
    HandedOver (reported replies) disk final ↔ Fits (reported replies) disk memory := by
  have place : E820_MAP = 0x8F04 := rfl
  have cell : KERNEL_SIZE = 0x8F00 := rfl
  have positive := List.length_pos_iff.mpr nonempty
  by_cases few : disk.sectors < 256
  · obtain ⟨map, placed, collected⟩ := placed_final nonempty started few
    have room : 0 + (reported replies).length ≤ 64 := collected.room
    have same : ∀ k < 2, byteAt map (KERNEL_SIZE + 2 + k) = byteAt memory (KERNEL_SIZE + 2 + k) := by
      intro k below
      rw [collected.other _ (by omega) (by omega) (by omega), byteAt_storeWord (by decide) (by omega)]
      exact if_neg (by omega)
    have entries := entries_iff placed positive collected
    have size := size_iff placed few same
    constructor
    · exact fun handed => ⟨few, entries.mp handed.entries, size.mp handed.size⟩
    · intro fits
      refine ⟨?_, entries.mpr fits.covered, size.mpr fits.upper, image_arrives placed few⟩
      rw [loadWord_congr map, collected.count, BitVec.toNat_ofNat, Nat.mod_eq_of_lt (by omega), Nat.zero_add]
      intro k below
      rw [placed.low _ (by omega) (by omega)]
      exact if_neg (by omega)
  · apply iff_of_false
    · intro handed
      apply image_cut few
      rw [← handed.image, List.length_map, List.length_range]
    · exact fun fits => few fits.few

def oneReply : Reply where
  carry := false
  eax := SMAP
  ebx := 0
  bytes := [0, 0, 0, 0, 0, 0, 0, 0, 0, 0, 0x0A, 0, 0, 0, 0, 0, 1, 0, 0, 0]
  fits := by decide

/-- A kernel of one sector that begins with the bytes given. -/
def oneSector (first second : BitVec 8) : Disk where
  stage2 := List.replicate 512 0
  stage2_length := List.length_replicate
  sectors := 1
  image := first :: second :: List.replicate 510 0
  image_length := by rw [List.length_cons, List.length_cons, List.length_replicate]

/-- An image that begins with zeros covers the last entry without a change. -/
theorem hand_off_zeros : ∃ final, boot [oneReply] (oneSector 0 0) (fun _ => 0) = some final ∧
    HandedOver (reported [oneReply]) (oneSector 0 0) final := by
  obtain ⟨final, started⟩ := Option.isSome_iff_exists.mp
    (show (boot [oneReply] (oneSector 0 0) fun _ => 0).isSome = true by decide +kernel)
  have exact_ := hand_off_iff [oneReply] (oneSector 0 0) (fun _ => 0) final (by decide +kernel) started
  exact ⟨final, started, exact_.mpr ⟨by decide, by decide +kernel, fun _ _ => rfl⟩⟩

/-- An image that begins with `push rbp` does not: its first byte is found in the last entry. -/
theorem entry_covered : ∃ final, boot [oneReply] (oneSector 0x55 0x48) (fun _ => 0) = some final ∧
    reported [oneReply] ≠ [] ∧ ¬ HandedOver (reported [oneReply]) (oneSector 0x55 0x48) final := by
  obtain ⟨final, started⟩ := Option.isSome_iff_exists.mp
    (show (boot [oneReply] (oneSector 0x55 0x48) fun _ => 0).isSome = true by decide +kernel)
  have nonempty : reported [oneReply] ≠ [] := by decide +kernel
  refine ⟨final, started, nonempty, fun handed => ?_⟩
  obtain ⟨map, placed, collected⟩ := placed_final nonempty started (show 1 < 256 by decide)
  have covered := (entries_iff placed (List.length_pos_iff.mpr nonempty) collected).mp handed.entries
  revert covered
  decide +kernel

end Ketone.Boot.HandOff
