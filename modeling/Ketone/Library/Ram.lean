import Ketone.Library.Bytes
import Mathlib.Data.List.GetD

/-! Memory as a byte behind every 64-bit address: areas, stores, and what a store leaves alone. -/

namespace Ketone.Library.Ram
open Bytes

abbrev Memory := BitVec 64 → BitVec 8

/-- The `size` bytes from `base` on. Behind the last address the first one follows. -/
structure Area where
  base : BitVec 64
  size : Nat
deriving DecidableEq

namespace Area

def Has (area : Area) (addr : BitVec 64) : Prop := (addr - area.base).toNat < area.size

instance (area : Area) (addr : BitVec 64) : Decidable (area.Has addr) := by
  unfold Has; infer_instance

def Apart (first second : Area) : Prop := ∀ addr, first.Has addr → ¬ second.Has addr

/-- One memory holds in the area what the other holds. -/
def Same (area : Area) (memory after : Memory) : Prop := ∀ addr, area.Has addr → after addr = memory addr

theorem Apart.symm {first second : Area} (apart : Area.Apart first second) : Area.Apart second first :=
  fun addr right left => apart addr left right

theorem Same.trans {area : Area} {memory middle after : Memory} (first : area.Same memory middle)
    (second : area.Same middle after) : area.Same memory after :=
  fun addr has => (second addr has).trans (first addr has)

theorem has_iff {area : Area} (straight : area.base.toNat + area.size ≤ 2 ^ 64) (addr : BitVec 64) :
    area.Has addr ↔ area.base.toNat ≤ addr.toNat ∧ addr.toNat < area.base.toNat + area.size := by
  have bound := addr.isLt
  have base := area.base.isLt
  unfold Has
  rw [BitVec.toNat_sub]
  omega

theorem toNat_sub_succ (addr base : BitVec 64) :
    (addr - base).toNat = ((addr - (base + 1)).toNat + 1) % 2 ^ 64 := by
  have bound := addr.isLt
  have start := base.isLt
  rw [BitVec.toNat_sub, BitVec.toNat_sub, BitVec.toNat_add]
  change _ = ((2 ^ 64 - (base.toNat + 1) % 2 ^ 64 + addr.toNat) % 2 ^ 64 + 1) % 2 ^ 64
  omega

theorem eq_of_toNat_sub {addr base : BitVec 64} (zero : (addr - base).toNat = 0) : addr = base := by
  have bound := addr.isLt
  have start := base.isLt
  apply BitVec.eq_of_toNat_eq
  rw [BitVec.toNat_sub] at zero
  omega

/-- The first byte of an area, and the rest of it. -/
theorem has_cons {base addr : BitVec 64} {size : Nat} (small : size + 1 ≤ 2 ^ 64) :
    (⟨base, size + 1⟩ : Area).Has addr ↔ addr = base ∨ (⟨base + 1, size⟩ : Area).Has addr := by
  have bound := (addr - (base + 1)).isLt
  have distance := toNat_sub_succ addr base
  unfold Has
  dsimp only
  constructor
  · intro inside
    by_cases zero : (addr - base).toNat = 0
    · exact Or.inl (eq_of_toNat_sub zero)
    · exact Or.inr (by omega)
  · intro either
    rcases either with rfl | inside
    · rw [BitVec.sub_self]
      exact Nat.succ_pos size
    · omega

theorem apart_of_le {first second : Area} (straight : second.base.toNat + second.size ≤ 2 ^ 64)
    (before : first.base.toNat + first.size ≤ second.base.toNat) : Area.Apart first second := by
  intro addr left right
  rw [has_iff (by omega)] at left
  rw [has_iff straight] at right
  omega

theorem has_part_iff {base addr : BitVec 64} {offset size : Nat} (small : offset + size ≤ 2 ^ 64) :
    (⟨base + BitVec.ofNat 64 offset, size⟩ : Area).Has addr ↔
      offset ≤ (addr - base).toNat ∧ (addr - base).toNat < offset + size := by
  have bound := addr.isLt
  have start := base.isLt
  unfold Has
  dsimp only
  rw [BitVec.toNat_sub, BitVec.toNat_sub, BitVec.toNat_add, BitVec.toNat_ofNat]
  by_cases top : offset = 2 ^ 64
  · have none : size = 0 := by omega
    subst top none
    omega
  · rw [Nat.mod_eq_of_lt (show offset < 2 ^ 64 by omega)]
    omega

def Within (first second : Area) : Prop := ∀ addr, first.Has addr → second.Has addr

theorem part_within (area : Area) {offset size : Nat} (inside : offset + size ≤ area.size)
    (small : area.size ≤ 2 ^ 64) : Within ⟨area.base + BitVec.ofNat 64 offset, size⟩ area := by
  intro addr has
  rw [has_part_iff (by omega)] at has
  unfold Has
  omega

theorem parts_apart {base : BitVec 64} {first second size size' : Nat} (before : first + size ≤ second)
    (small : second + size' ≤ 2 ^ 64) :
    Area.Apart ⟨base + BitVec.ofNat 64 first, size⟩ ⟨base + BitVec.ofNat 64 second, size'⟩ := by
  intro addr left right
  rw [has_part_iff (by omega)] at left
  rw [has_part_iff small] at right
  omega

theorem Apart.mono {first second left right : Area} (apart : Area.Apart first second) (low : Within left first)
    (high : Within right second) : Area.Apart left right :=
  fun addr has has' => apart addr (low addr has) (high addr has')

theorem Within.refl (area : Area) : Within area area := fun _ has => has

theorem Same.mono {first second : Area} {memory after : Memory} (same : second.Same memory after)
    (within : Within first second) : first.Same memory after :=
  fun addr has => same addr (within addr has)

theorem Same.refl (area : Area) (memory : Memory) : area.Same memory memory := fun _ _ => rfl

theorem has_offset (area : Area) {k : Nat} (inside : k < area.size) (small : area.size ≤ 2 ^ 64) :
    area.Has (area.base + BitVec.ofNat 64 k) := by
  unfold Has
  rw [BitVec.add_comm, BitVec.add_sub_cancel, BitVec.toNat_ofNat]
  omega

/-- A part from some offset on stays in an area exactly if it ends there. -/
theorem offset_within_iff (base : BitVec 64) {offset : BitVec 64} {size room : Nat} (some : 0 < size) (small : room < 2 ^ 64) :
    Within ⟨base + offset, size⟩ ⟨base, room⟩ ↔ offset.toNat + size ≤ room := by
  have word := offset.isLt
  have distance : ∀ d, offset.toNat ≤ d → d < 2 ^ 64 →
      (base + BitVec.ofNat 64 d - (base + offset)).toNat = d - offset.toNat ∧
        (base + BitVec.ofNat 64 d - base).toNat = d := by
    intro d low high
    have start := base.isLt
    rw [BitVec.toNat_sub, BitVec.toNat_sub, BitVec.toNat_add, BitVec.toNat_add, BitVec.toNat_ofNat]
    omega
  constructor
  · intro within
    have reached : ∀ d, offset.toNat ≤ d → d < 2 ^ 64 → d - offset.toNat < size → d < room := by
      intro d low high near
      obtain ⟨first, second⟩ := distance d low high
      have has := within (base + BitVec.ofNat 64 d) (show _ < size by rw [first]; exact near)
      unfold Has at has
      rw [second] at has
      exact has
    by_cases straight : offset.toNat + size ≤ 2 ^ 64
    · have last := reached (offset.toNat + size - 1) (by omega) (by omega) (by omega)
      omega
    · -- the part reaches over the last address
      have last := reached (2 ^ 64 - 1) (by omega) (by omega) (by omega)
      omega
  · intro ends addr has
    have bound := addr.isLt
    have start := base.isLt
    unfold Has at *
    dsimp only at *
    rw [BitVec.toNat_sub] at has ⊢
    rw [BitVec.toNat_add] at has
    omega

end Area

def store (memory : Memory) (addr : BitVec 64) (byte : BitVec 8) : Memory := fun other =>
  if other = addr then byte else memory other

def storeBytes (memory : Memory) (addr : BitVec 64) : List (BitVec 8) → Memory
  | [] => memory
  | byte :: rest => storeBytes (store memory addr byte) (addr + 1) rest

def wordBytes {w : Nat} (word : BitVec w) : List (BitVec 8) :=
  (List.range (w / 8)).map fun k => (word >>> (8 * k)).setWidth 8

def storeWord {w : Nat} (memory : Memory) (addr : BitVec 64) (word : BitVec w) : Memory :=
  storeBytes memory addr (wordBytes word)

def loadWord (w : Nat) (memory : Memory) (addr : BitVec 64) : BitVec w :=
  field w (fun k => memory (addr + BitVec.ofNat 64 k)) 0

def fill (memory : Memory) (area : Area) (byte : BitVec 8) : Memory := fun addr =>
  if area.Has addr then byte else memory addr

section
variable (memory : Memory)

theorem storeBytes_eq (addr : BitVec 64) (bytes : List (BitVec 8)) (small : bytes.length ≤ 2 ^ 64)
    (other : BitVec 64) : storeBytes memory addr bytes other =
      if (⟨addr, bytes.length⟩ : Area).Has other then bytes.getD (other - addr).toNat 0 else memory other := by
  induction bytes generalizing memory addr with
  | nil => rfl
  | cons byte rest ih =>
    rw [List.length_cons] at small
    rw [storeBytes, List.length_cons, ih _ _ (by omega)]
    by_cases first : other = addr
    · subst first
      have zero : (other - other).toNat = 0 := by
        rw [BitVec.sub_self]
        rfl
      have outside : ¬ (⟨other + 1, rest.length⟩ : Area).Has other := by
        have distance := Area.toNat_sub_succ other other
        unfold Area.Has
        dsimp only
        omega
      rw [if_neg outside, if_pos ((Area.has_cons small).mpr (Or.inl rfl)), store, if_pos rfl, zero,
        List.getD_cons_zero]
    · by_cases inside : (⟨addr + 1, rest.length⟩ : Area).Has other
      · have distance := Area.toNat_sub_succ other addr
        have apart : (other - addr).toNat ≠ 0 := fun zero => first (Area.eq_of_toNat_sub zero)
        have next : (other - addr).toNat = (other - (addr + 1)).toNat + 1 := by omega
        rw [if_pos inside, if_pos ((Area.has_cons small).mpr (Or.inr inside)), next, List.getD_cons_succ]
      · have outside : ¬ (⟨addr, rest.length + 1⟩ : Area).Has other := by
          rw [Area.has_cons small]
          tauto
        rw [if_neg inside, if_neg outside, store, if_neg first]

theorem length_wordBytes {w : Nat} (word : BitVec w) : (wordBytes word).length = w / 8 := by
  rw [wordBytes, List.length_map, List.length_range]

theorem storeBytes_other {addr other : BitVec 64} {bytes : List (BitVec 8)} (small : bytes.length ≤ 2 ^ 64)
    (outside : ¬ (⟨addr, bytes.length⟩ : Area).Has other) : storeBytes memory addr bytes other = memory other := by
  rw [storeBytes_eq memory addr bytes small, if_neg outside]

theorem storeWord_other {w : Nat} {addr other : BitVec 64} (small : w / 8 ≤ 2 ^ 64) (word : BitVec w)
    (outside : ¬ (⟨addr, w / 8⟩ : Area).Has other) : storeWord memory addr word other = memory other := by
  apply storeBytes_other
  · rw [length_wordBytes]
    exact small
  · rw [length_wordBytes]
    exact outside

theorem storeWord_same {w : Nat} {addr : BitVec 64} {area : Area} (small : w / 8 ≤ 2 ^ 64) (word : BitVec w)
    (apart : Area.Apart area ⟨addr, w / 8⟩) : area.Same memory (storeWord memory addr word) :=
  fun other has => storeWord_other memory small word (apart other has)

theorem fill_same {area filled : Area} (byte : BitVec 8) (apart : Area.Apart area filled) :
    area.Same memory (fill memory filled byte) :=
  fun other has => if_neg (apart other has)

/-- A word is read back from where it was stored. -/
theorem loadWord_store {w : Nat} (whole : 8 * (w / 8) = w) (small : w / 8 ≤ 2 ^ 64) (addr : BitVec 64)
    (word : BitVec w) : loadWord w (storeWord memory addr word) addr = word := by
  apply BitVec.eq_of_toNat_eq
  have bytes : littleEndian (fun k => storeWord memory addr word (addr + BitVec.ofNat 64 k)) 0 (w / 8) =
      littleEndian (fun k => (word >>> (8 * k)).setWidth 8) 0 (w / 8) := by
    apply littleEndian_congr
    intro k below
    have offset : (BitVec.ofNat 64 (0 + k)).toNat = k := by
      rw [BitVec.toNat_ofNat, Nat.mod_eq_of_lt (by omega), Nat.zero_add]
    have length := length_wordBytes word
    have inside : (⟨addr, (wordBytes word).length⟩ : Area).Has (addr + BitVec.ofNat 64 (0 + k)) := by
      apply Area.has_offset ⟨addr, (wordBytes word).length⟩
      · dsimp only
        omega
      · dsimp only
        omega
    rw [storeWord, storeBytes_eq _ _ _ (by omega), if_pos inside, BitVec.add_comm, BitVec.add_sub_cancel, offset,
      Nat.zero_add, wordBytes, List.getD_eq_getElem _ _ (by simpa using below), List.getElem_map,
      List.getElem_range]
  have power : 256 ^ (w / 8) = 2 ^ w := by
    rw [show (256 : Nat) = 2 ^ 8 by decide, ← pow_mul, whole]
  rw [loadWord, toNat_field _ _ _ whole, bytes, littleEndian_word, pow_zero, Nat.div_one, power,
    Nat.mod_eq_of_lt word.isLt]

theorem loadWord_same {w : Nat} {after : Memory} {addr : BitVec 64} (small : w / 8 ≤ 2 ^ 64)
    (same : (⟨addr, w / 8⟩ : Area).Same memory after) : loadWord w after addr = loadWord w memory addr := by
  unfold loadWord field
  congr 1
  apply littleEndian_congr
  intro k below
  rw [Nat.zero_add]
  exact same _ (Area.has_offset ⟨addr, w / 8⟩ below small)

end

def byteAt (memory : Memory) (a : Nat) : BitVec 8 := memory (BitVec.ofNat 64 a)

section
variable {memory after : Memory} {a p : Nat}

theorem byteAt_storeBytes {bytes : List (BitVec 8)} (fits : p + bytes.length ≤ 2 ^ 64) (small : a < 2 ^ 64) :
    byteAt (storeBytes memory (BitVec.ofNat 64 p) bytes) a =
      if p ≤ a ∧ a < p + bytes.length then bytes.getD (a - p) 0 else byteAt memory a := by
  unfold byteAt
  rw [storeBytes_eq _ _ _ (by omega)]
  by_cases inside : p ≤ a ∧ a < p + bytes.length
  · have base : (BitVec.ofNat 64 p).toNat = p := by
      rw [BitVec.toNat_ofNat, Nat.mod_eq_of_lt (by omega)]
    have offset : (BitVec.ofNat 64 a - BitVec.ofNat 64 p).toNat = a - p := by
      rw [BitVec.toNat_sub, base, BitVec.toNat_ofNat]
      omega
    have has : (⟨BitVec.ofNat 64 p, bytes.length⟩ : Area).Has (BitVec.ofNat 64 a) := by
      unfold Area.Has
      dsimp only
      omega
    rw [if_pos inside, if_pos has, offset]
  · have outside : ¬ (⟨BitVec.ofNat 64 p, bytes.length⟩ : Area).Has (BitVec.ofNat 64 a) := by
      unfold Area.Has
      dsimp only
      rw [BitVec.toNat_sub, BitVec.toNat_ofNat, BitVec.toNat_ofNat]
      omega
    rw [if_neg inside, if_neg outside]

theorem byteAt_storeWord {w : Nat} {word : BitVec w} (fits : p + w / 8 ≤ 2 ^ 64) (small : a < 2 ^ 64) :
    byteAt (storeWord memory (BitVec.ofNat 64 p) word) a =
      if p ≤ a ∧ a < p + w / 8 then (word >>> (8 * (a - p))).setWidth 8 else byteAt memory a := by
  have length := length_wordBytes word
  unfold storeWord
  rw [byteAt_storeBytes (by omega) small, length]
  by_cases inside : p ≤ a ∧ a < p + w / 8
  · have below : a - p < ((List.range (w / 8)).map fun k => (word >>> (8 * k)).setWidth 8).length := by
      rw [List.length_map, List.length_range]
      omega
    rw [if_pos inside, if_pos inside, wordBytes, List.getD_eq_getElem _ _ below, List.getElem_map, List.getElem_range]
  · rw [if_neg inside, if_neg inside]

theorem loadWord_congr {w : Nat} (memory : Memory) (same : ∀ k < w / 8, byteAt after (p + k) = byteAt memory (p + k)) :
    loadWord w after (BitVec.ofNat 64 p) = loadWord w memory (BitVec.ofNat 64 p) := by
  unfold loadWord field
  congr 1
  apply littleEndian_congr
  intro k below
  rw [Nat.zero_add, ← BitVec.ofNat_add]
  exact same k below

theorem loadWord_byte {w k : Nat} (whole : 8 * (w / 8) = w) (below : k < w / 8) :
    (loadWord w memory (BitVec.ofNat 64 p) >>> (8 * k)).setWidth 8 = byteAt memory (p + k) := by
  apply BitVec.eq_of_toNat_eq
  have power : (2 : Nat) ^ (8 * k) = 256 ^ k := by
    rw [show (256 : Nat) = 2 ^ 8 by decide, ← pow_mul]
  obtain ⟨rest, split⟩ : ∃ rest, w / 8 = k + (rest + 1) := ⟨w / 8 - k - 1, by omega⟩
  have low := littleEndian_lt (fun k => memory (BitVec.ofNat 64 p + BitVec.ofNat 64 k)) 0 k
  rw [BitVec.toNat_setWidth, BitVec.toNat_ushiftRight, Nat.shiftRight_eq_div_pow, loadWord, toNat_field _ _ _ whole,
    split, littleEndian_add, littleEndian, power, Nat.add_mul_div_left _ _ (Nat.pow_pos (by decide)),
    Nat.div_eq_of_lt low, Nat.zero_add, Nat.zero_add, Nat.add_mul_mod_self_left, ← BitVec.ofNat_add]
  exact Nat.mod_eq_of_lt (byteAt memory (p + k)).isLt

end

end Ketone.Library.Ram
