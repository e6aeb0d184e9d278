import Ketone.Library.AddressBits
import Ketone.Pcie.Acceptance

/-! The six base address registers of a function as the standard lays them out, and that the probe
records each of them as it is. -/

namespace Ketone.Pcie.BarLayout
open Library.AddressBits Library.Align Library.MaskedRegisters Acpi.Mcfg Config Probe Remap BarRanges
  Acceptance

/-- One base address register, of `2 ^ k` bytes or ports at an aligned base. -/
inductive Bar where
  | unimplemented
  | io (k : Nat) (base : BitVec 32) (bounds : 2 ≤ k ∧ k ≤ 31) (aligned : 2 ^ k ∣ base.toNat)
  | memory32 (k : Nat) (base : BitVec 32) (prefetchable : Bool) (bounds : 4 ≤ k ∧ k ≤ 31)
      (aligned : 2 ^ k ∣ base.toNat)
  | memory64 (k : Nat) (base : BitVec 64) (prefetchable : Bool) (bounds : 4 ≤ k ∧ k ≤ 63)
      (aligned : 2 ^ k ∣ base.toNat)

structure Register where
  value : BitVec 32
  writable : BitVec 32

structure Expected where
  isIo : Bool
  is64Bits : Bool
  base : BitVec 64
  size : Nat

namespace Bar

def memoryFlags (is64 prefetchable : Bool) : BitVec 32 :=
  (if is64 then 4 else 0) ||| (if prefetchable then 8 else 0)

/-- The dwords it takes: what they read, and which of their bits a write can change. -/
def registers : Bar → List Register
  | unimplemented => [⟨0, 0⟩]
  | io k base _ _ => [⟨base ||| 1, highBits 32 k⟩]
  | memory32 k base prefetchable _ _ => [⟨base ||| memoryFlags false prefetchable, highBits 32 k⟩]
  | memory64 k base prefetchable _ _ =>
      [⟨lowHalf base ||| memoryFlags true prefetchable, lowHalf (highBits 64 k)⟩,
        ⟨highHalf base, highHalf (highBits 64 k)⟩]

/-- What each of its dwords should be recorded as, where no record is an invalid one. -/
def expected : Bar → List (Option Expected)
  | unimplemented => [none]
  | io k base _ _ => [some ⟨true, false, base.setWidth 64, 2 ^ k⟩]
  | memory32 k base _ _ _ => [some ⟨false, false, base.setWidth 64, 2 ^ k⟩]
  | memory64 k base _ _ _ => [some ⟨false, true, base, 2 ^ k⟩, none]

end Bar

/-- The registers of a function: as many as fill its six dwords. -/
structure Layout where
  bars : List Bar
  six : (bars.flatMap Bar.registers).length = 6

def Layout.registers (layout : Layout) : List Register := layout.bars.flatMap Bar.registers

/-- The dwords from `n` on hold the given registers. -/
def Holds (ecam : Ecam) (slot : Slot) (n : Nat) (registers : List Register) : Prop :=
  ∀ i register, registers[i]? = some register →
    ecam.read32 slot (barOffset (n + i)) = register.value ∧
      ecam.writable32 slot (barOffset (n + i)) = register.writable

def Matches (record : BarRecord) : Option Expected → Prop
  | none => record.isValid = false
  | some right => record.isValid = true ∧ record.isIo = right.isIo ∧ record.is64Bits = right.is64Bits ∧
      record.base = right.base ∧ record.barSize.toNat = right.size

theorem io_flags : ~~~(3 : BitVec 32) = highBits 32 2 := by decide
theorem memory_flags : ~~~(0xF : BitVec 32) = highBits 32 4 := by decide

section
variable {x mask high maskHigh : BitVec 32} {k : Nat}

theorem toNat_size (small : k ≤ 31) : ((~~~highBits 32 k + 1).setWidth 64).toNat = 2 ^ k := by
  have bound : 2 ^ k < 2 ^ 32 := Nat.pow_lt_pow_right (by decide) (by omega)
  rw [not_highBits, BitVec.toNat_setWidth, BitVec.toNat_twoPow_of_lt (by omega), Nat.mod_eq_of_lt (by omega)]

theorem size_ne_zero {w : Nat} (inside : k < w) : ~~~highBits w k + 1 ≠ 0 := by
  rw [not_highBits]
  exact ne_zero_of_power (BitVec.toNat_twoPow_of_lt inside)

theorem tests_pass {w : Nat} (inside : k < w) :
    (!(highBits w k == 0 || ~~~highBits w k + 1 == 0)) = true := by
  rw [beq_false_of_ne (highBits_ne_zero inside), beq_false_of_ne (size_ne_zero inside)]
  rfl

theorem kind_eq (x : BitVec 32) : isIoBar x = isIoBar (x &&& 0xF) ∧ is64Bar x = is64Bar (x &&& 0xF) ∧
    (x >>> 1) &&& (3 : BitVec 32) = ((x &&& 0xF) >>> 1) &&& 3 := by
  have one : x &&& 1 = x &&& 0xF &&& 1 := by rw [BitVec.and_assoc]; rfl
  have two : (x >>> 1) &&& (3 : BitVec 32) = ((x &&& 0xF) >>> 1) &&& 3 := by
    rw [BitVec.ushiftRight_and_distrib, BitVec.and_assoc]
    rfl
  refine ⟨?_, ?_, two⟩
  · rw [isIoBar, isIoBar, ← one]
  · rw [is64Bar, is64Bar, isIoBar, isIoBar, ← one, ← two]

theorem flags_of_or {base flags : BitVec 32} (four : 4 ≤ k) (aligned : 2 ^ k ∣ base.toNat)
    (under : flags &&& 0xF = flags) : (base ||| flags) &&& 0xF = flags := by
  have clear : base &&& 0xF = 0 := by
    have power : (0x10 : BitVec 32).toNat = 2 ^ 4 := rfl
    exact (and_pred_eq_zero_iff power base).mpr ((Nat.pow_dvd_pow 2 four).trans aligned)
  calc
    _ = (base &&& 0xF) ||| (flags &&& 0xF) := BitVec.and_or_distrib_right
    _ = flags := by rw [clear, under]; exact BitVec.zero_or

theorem classify_unimplemented (high maskHigh : BitVec 32) : Matches (classify 0 high 0 maskHigh) none := rfl

theorem classify_io {base : BitVec 32} (bounds : 2 ≤ k ∧ k ≤ 31) (aligned : 2 ^ k ∣ base.toNat)
    (seen : mask &&& ~~~3 = highBits 32 k) :
    Matches (classify (base ||| 1) high mask maskHigh) (some ⟨true, false, base.setWidth 64, 2 ^ k⟩) ∧
      is64Bar (base ||| 1) = false := by
  have one : (base ||| 1) &&& 1 = 1 := by
    rw [BitVec.and_or_distrib_right, BitVec.and_self]
    ext i inside
    rw [BitVec.getElem_or, BitVec.getElem_and]
    cases (1 : BitVec 32)[i] <;> simp
  have io : isIoBar (base ||| 1) = true := by
    rw [isIoBar, one]
    rfl
  have narrow : is64Bar (base ||| 1) = false := by
    rw [is64Bar, io]
    rfl
  have address : (base ||| 1) &&& ~~~3 = base := by
    rw [io_flags]
    exact or_and_highBits (by omega) aligned bounds.1 (by decide)
  refine ⟨?_, narrow⟩
  unfold classify
  rw [if_pos io, seen, address, narrow, io]
  exact ⟨tests_pass (by omega), rfl, rfl, rfl, toNat_size bounds.2⟩

theorem memory_kind {base : BitVec 32} (wide prefetchable : Bool) (bounds : 4 ≤ k ∧ k < 32)
    (aligned : 2 ^ k ∣ base.toNat) :
    isIoBar (base ||| Bar.memoryFlags wide prefetchable) = false ∧
      is64Bar (base ||| Bar.memoryFlags wide prefetchable) = wide ∧
      ¬ ((base ||| Bar.memoryFlags wide prefetchable) >>> 1) &&& 3 = 3 ∧
      (base ||| Bar.memoryFlags wide prefetchable) &&& ~~~0xF = base := by
  obtain ⟨io, is64, type⟩ := kind_eq (base ||| Bar.memoryFlags wide prefetchable)
  rw [flags_of_or bounds.1 aligned (by cases wide <;> cases prefetchable <;> rfl)] at io is64 type
  rw [io, is64, type, memory_flags]
  refine ⟨?_, ?_, ?_, ?_⟩
  · cases wide <;> cases prefetchable <;> rfl
  · cases wide <;> cases prefetchable <;> rfl
  · cases wide <;> cases prefetchable <;> decide
  · exact or_and_highBits bounds.2 aligned bounds.1 (by cases wide <;> cases prefetchable <;> decide)

theorem classify_memory32 {base : BitVec 32} (prefetchable : Bool) (bounds : 4 ≤ k ∧ k ≤ 31)
    (aligned : 2 ^ k ∣ base.toNat) (seen : mask &&& ~~~0xF = highBits 32 k) :
    Matches (classify (base ||| Bar.memoryFlags false prefetchable) high mask maskHigh)
        (some ⟨false, false, base.setWidth 64, 2 ^ k⟩) ∧
      is64Bar (base ||| Bar.memoryFlags false prefetchable) = false := by
  obtain ⟨memory, narrow, kind, address⟩ := memory_kind false prefetchable ⟨bounds.1, by omega⟩ aligned
  refine ⟨?_, narrow⟩
  unfold classify
  rw [memory, narrow, if_neg Bool.false_ne_true, if_neg kind, if_neg Bool.false_ne_true, seen, address]
  exact ⟨tests_pass (by omega), rfl, rfl, rfl, toNat_size bounds.2⟩

theorem classify_memory64 {base : BitVec 64} (prefetchable : Bool) (bounds : 4 ≤ k ∧ k ≤ 63)
    (aligned : 2 ^ k ∣ base.toNat) (seen : mask &&& ~~~0xF = lowHalf (highBits 64 k)) :
    Matches (classify (lowHalf base ||| Bar.memoryFlags true prefetchable) (highHalf base) mask
        (highHalf (highBits 64 k))) (some ⟨false, true, base, 2 ^ k⟩) ∧
      is64Bar (lowHalf base ||| Bar.memoryFlags true prefetchable) = true := by
  have part : 2 ^ 4 ∣ (lowHalf base).toNat := by
    have whole : 2 ^ 4 ∣ base.toNat := (Nat.pow_dvd_pow 2 bounds.1).trans aligned
    rw [lowHalf, BitVec.toNat_setWidth]
    omega
  obtain ⟨memory, broad, kind, address⟩ := memory_kind true prefetchable ⟨le_rfl, by decide⟩ part
  have bits : ((highHalf (highBits 64 k)).setWidth 64 <<< 32) ||| (mask.setWidth 64 &&& ~~~0xF) =
      highBits 64 k := by
    rw [wide_mask, seen]
    exact join_halves (highBits 64 k)
  have place : ((highHalf base).setWidth 64 <<< 32) |||
      ((lowHalf base ||| Bar.memoryFlags true prefetchable).setWidth 64 &&& ~~~0xF) = base := by
    rw [wide_mask, address]
    exact join_halves base
  refine ⟨?_, broad⟩
  unfold classify
  rw [memory, broad, if_neg Bool.false_ne_true, if_neg kind, if_pos rfl, bits, place]
  refine ⟨tests_pass (by omega), rfl, rfl, rfl, ?_⟩
  dsimp only
  rw [not_highBits, BitVec.toNat_twoPow_of_lt (by omega)]

end

section
variable {ecam : Ecam} {slot : Slot} {n : Nat}

theorem barOffset_succ (n : Nat) : barOffset n + 4 = barOffset (n + 1) := by
  unfold barOffset
  omega

theorem barRecord_eq (last : lastBarWas64 ecam slot n = false) :
    ∃ maskHigh, barRecord ecam slot n = classify (ecam.read32 slot (barOffset n))
        (if is64Bar (ecam.read32 slot (barOffset n)) then ecam.read32 slot (barOffset (n + 1)) else 0)
        (probed ecam slot (barOffset n)) maskHigh ∧
      (is64Bar (ecam.read32 slot (barOffset n)) = true → maskHigh = probed ecam slot (barOffset (n + 1))) ∧
      lastBarWas64 ecam slot (n + 1) = is64Bar (ecam.read32 slot (barOffset n)) := by
  have behind : 8 ≤ barOffset n := by unfold barOffset; omega
  obtain ⟨low, high⟩ := sizeBar_mask ecam slot behind (is64Bar (ecam.read32 slot (barOffset n)))
  rw [barOffset_succ] at high
  refine ⟨_, ?_, high, ?_⟩
  · rw [barRecord, probeBar, last, if_neg Bool.false_ne_true]
    dsimp only
    rw [low, ← barOffset_succ]
    rfl
  · rw [lastBarWas64, probeBar, last, if_neg Bool.false_ne_true]

theorem barRecord_upper (last : lastBarWas64 ecam slot n = true) :
    Matches (barRecord ecam slot n) none ∧ lastBarWas64 ecam slot (n + 1) = false := by
  rw [barRecord, lastBarWas64, probeBar, last, if_pos rfl]
  exact ⟨rfl, rfl⟩

theorem Holds.head {register : Register} {rest : List Register} (holds : Holds ecam slot n (register :: rest)) :
    ecam.read32 slot (barOffset n) = register.value ∧ ecam.writable32 slot (barOffset n) = register.writable :=
  holds 0 register rfl

theorem Holds.append {first rest : List Register} (holds : Holds ecam slot n (first ++ rest)) :
    Holds ecam slot n first ∧ Holds ecam slot (n + first.length) rest := by
  constructor
  · intro i register found
    apply holds i register
    rw [List.getElem?_append_left (List.getElem?_eq_some_iff.mp found).1]
    exact found
  · intro i register found
    rw [Nat.add_assoc]
    apply holds
    rw [List.getElem?_append_right (Nat.le_add_right _ _), Nat.add_sub_cancel_left]
    exact found

theorem seen_of_exact {offset : Nat} {value writable : BitVec 32} (flags : BitVec 32)
    (held : ecam.read32 slot offset = value ∧ ecam.writable32 slot offset = writable)
    (clear : value &&& ~~~writable &&& ~~~flags = 0) :
    probed ecam slot offset &&& ~~~flags = writable &&& ~~~flags := by
  have exact_ : Exact ecam slot offset flags := by
    rw [exact_iff, held.1, held.2]
    exact clear
  rw [← held.2]
  exact exact_

theorem half_readOnly (half : BitVec 64 → BitVec 32) {base bits : BitVec 64}
    (and_half : ∀ x y, half x &&& half y = half (x &&& y)) (aligned : base &&& bits = base) :
    half base &&& ~~~half bits = 0 := by
  have part : half base &&& half bits = half base := by rw [and_half, aligned]
  rw [← part, BitVec.and_assoc, BitVec.and_not_self]
  exact BitVec.and_zero

theorem seen_memory64 {k : Nat} {base : BitVec 64} {prefetchable : Bool} (bounds : 4 ≤ k ∧ k ≤ 63)
    (aligned : 2 ^ k ∣ base.toNat) (holds : Holds ecam slot n (Bar.memory64 k base prefetchable bounds aligned).registers) :
    probed ecam slot (barOffset n) &&& ~~~0xF = lowHalf (highBits 64 k) ∧
      probed ecam slot (barOffset (n + 1)) = highHalf (highBits 64 k) := by
  have upper : ecam.read32 slot (barOffset (n + 1)) = highHalf base ∧
      ecam.writable32 slot (barOffset (n + 1)) = highHalf (highBits 64 k) :=
    (@Holds.append ecam slot n [_] [_] holds).2.head
  have inside : k < 64 := by omega
  have address := and_highBits inside aligned
  constructor
  · have low : lowHalf (highBits 64 k) &&& ~~~0xF = lowHalf (highBits 64 k) := by
      have four : ~~~(0xF : BitVec 32) = lowHalf (highBits 64 4) := by decide
      rw [four, lowHalf_and, highBits_and bounds.1 inside]
    have flags : Bar.memoryFlags true prefetchable &&& ~~~0xF = 0 := by cases prefetchable <;> decide
    have clear : (lowHalf base ||| Bar.memoryFlags true prefetchable) &&& ~~~lowHalf (highBits 64 k) &&&
        ~~~0xF = 0 := by
      rw [BitVec.and_or_distrib_right, half_readOnly lowHalf lowHalf_and address, BitVec.and_comm _ (~~~lowHalf _)]
      change (0#32 ||| _) &&& _ = 0
      rw [BitVec.zero_or, BitVec.and_assoc, flags]
      exact BitVec.and_zero
    exact (seen_of_exact 0xF holds.head clear).trans low
  · have clear : highHalf base &&& ~~~highHalf (highBits 64 k) &&& ~~~0 = 0 := by
      rw [half_readOnly highHalf highHalf_and address]
      exact BitVec.zero_and
    have ones : ~~~(0 : BitVec 32) = BitVec.allOnes 32 := by decide
    have seen := seen_of_exact 0 upper clear
    rw [ones, BitVec.and_allOnes, BitVec.and_allOnes] at seen
    exact seen

theorem single_recorded {value : BitVec 32} {right : Option Expected} (last : lastBarWas64 ecam slot n = false)
    (reads : ecam.read32 slot (barOffset n) = value) (narrow : is64Bar value = false)
    (same : ∀ high maskHigh, Matches (classify value high (probed ecam slot (barOffset n)) maskHigh) right) :
    List.Forall₂ (fun bar right => Matches (barRecord ecam slot bar) right) (List.range' n 1) [right] ∧
      lastBarWas64 ecam slot (n + 1) = false := by
  obtain ⟨maskHigh, record, _, next⟩ := barRecord_eq last
  rw [reads] at record next
  refine ⟨List.Forall₂.cons ?_ List.Forall₂.nil, next.trans narrow⟩
  rw [record]
  exact same _ _

/-- Every register is recorded as it is, and the dword behind it starts anew. -/
theorem bar_recorded (bar : Bar) (last : lastBarWas64 ecam slot n = false)
    (holds : Holds ecam slot n bar.registers) :
    List.Forall₂ (fun bar right => Matches (barRecord ecam slot bar) right)
        (List.range' n bar.registers.length) bar.expected ∧
      lastBarWas64 ecam slot (n + bar.registers.length) = false := by
  cases bar with
  | unimplemented =>
    have held := holds.head
    have seen : probed ecam slot (barOffset n) = 0 := by
      rw [probed, held.1, held.2]
      rfl
    apply single_recorded last held.1 rfl
    rw [seen]
    exact fun _ _ => classify_unimplemented _ _
  | io k base bounds aligned =>
    have held := holds.head
    have clear : (base ||| 1) &&& ~~~highBits 32 k &&& ~~~3 = 0 := by
      rw [io_flags]
      exact or_readOnly (by omega) aligned bounds.1 (by decide)
    have whole : highBits 32 k &&& ~~~3 = highBits 32 k := by
      rw [io_flags]
      exact highBits_and bounds.1 (by omega)
    have seen := (seen_of_exact 3 held clear).trans whole
    have right := fun high maskHigh => @classify_io _ high maskHigh k base bounds aligned seen
    exact single_recorded last held.1 (right 0 0).2 fun high maskHigh => (right high maskHigh).1
  | memory32 k base prefetchable bounds aligned =>
    have held := holds.head
    have clear : (base ||| Bar.memoryFlags false prefetchable) &&& ~~~highBits 32 k &&& ~~~0xF = 0 := by
      rw [memory_flags]
      exact or_readOnly (by omega) aligned bounds.1 (by cases prefetchable <;> decide)
    have whole : highBits 32 k &&& ~~~0xF = highBits 32 k := by
      rw [memory_flags]
      exact highBits_and bounds.1 (by omega)
    have seen := (seen_of_exact 0xF held clear).trans whole
    have right := fun high maskHigh => @classify_memory32 _ high maskHigh k base prefetchable bounds aligned seen
    exact single_recorded last held.1 (right 0 0).2 fun high maskHigh => (right high maskHigh).1
  | memory64 k base prefetchable bounds aligned =>
    obtain ⟨maskHigh, record, high, next⟩ := barRecord_eq last
    obtain ⟨seen, mask⟩ := seen_memory64 bounds aligned holds
    have upper := (@Holds.append ecam slot n [_] [_] holds).2.head.1
    rw [holds.head.1] at record next high
    obtain ⟨right, broad⟩ := classify_memory64 prefetchable bounds aligned seen
    rw [if_pos broad, high broad, mask] at record
    obtain ⟨invalid, after⟩ := barRecord_upper (next.trans broad)
    refine ⟨List.Forall₂.cons ?_ (List.Forall₂.cons invalid List.Forall₂.nil), after⟩
    rw [record]
    exact upper ▸ right

theorem bars_recorded (bars : List Bar) (last : lastBarWas64 ecam slot n = false)
    (holds : Holds ecam slot n (bars.flatMap Bar.registers)) :
    List.Forall₂ (fun bar right => Matches (barRecord ecam slot bar) right)
      (List.range' n (bars.flatMap Bar.registers).length) (bars.flatMap Bar.expected) := by
  induction bars generalizing n with
  | nil => exact List.Forall₂.nil
  | cons bar rest ih =>
    rw [List.flatMap_cons] at holds
    obtain ⟨first, others⟩ := holds.append
    obtain ⟨recorded, next⟩ := bar_recorded bar last first
    rw [List.flatMap_cons, List.flatMap_cons, List.length_append, List.range'_append_1.symm]
    exact List.rel_append recorded (ih next others)

end

def probeBars (fresh : Fresh) (slot : Slot) (start : Scan) : Scan :=
  ((List.finRange 6).foldl (probeStep fresh slot) (start, false)).1

def Scan.bars (scan : Scan) : List BarRecord := (List.finRange 6).map (scan.devices scan.devicesIdx).bar

theorem bars_probed (fresh : Fresh) {slot : Slot} {start : Scan} (bounded : start.devicesIdx ≤ start.devicesSize) :
    (probeBars fresh slot start).ecam = start.ecam ∧
      Scan.bars (probeBars fresh slot start) = (List.range' 0 6).map (barRecord start.ecam slot) := by
  obtain ⟨ecam, idx, _, _, _, _, bars⟩ := probed_all fresh slot bounded
  have list : List.range' 0 6 = (List.finRange 6).map Fin.val := by decide
  unfold Scan.bars probeBars
  refine ⟨ecam, ?_⟩
  rw [idx, list, List.map_map]
  exact List.map_congr_left fun bar _ => bars bar bar.isLt

/-- Wherever in a scan a function with a legal layout is met, the loop over its six dwords records each
register as it is, and leaves the configuration space, command register included, as it was. -/
theorem probing_exact (fresh : Fresh) (ecam : Ecam) (before : List Slot) (slot : Slot) (layout : Layout)
    (holds : Holds ecam slot 0 layout.registers) :
    (probeBars fresh slot (before.foldl (scanSlot fresh) ⟨ecam, 16, fresh 16, 0⟩)).ecam = ecam ∧
      List.Forall₂ Matches
        (Scan.bars (probeBars fresh slot (before.foldl (scanSlot fresh) ⟨ecam, 16, fresh 16, 0⟩)))
        (layout.bars.flatMap Bar.expected) := by
  have initial : Found ecam [] ⟨ecam, 16, fresh 16, 0⟩ := ⟨rfl, rfl, Nat.zero_le _, rfl⟩
  have found := found_foldl fresh initial before
  generalize before.foldl (scanSlot fresh) ⟨ecam, 16, fresh 16, 0⟩ = start at found
  obtain ⟨same, bars⟩ := @bars_probed fresh slot start found.room
  have recorded := bars_recorded layout.bars rfl holds
  rw [layout.six] at recorded
  refine ⟨same.trans found.ecam, ?_⟩
  rw [bars, found.ecam, List.forall₂_map_left_iff]
  exact recorded

def build (layout : Layout) (command : BitVec 32) : Ecam := fun _ => some
  { value := fun k => if k = 1 then command else ((layout.registers[k - 4]?).map Register.value).getD 0
    writable := fun k => if k = 1 then 0x7FF else ((layout.registers[k - 4]?).map Register.writable).getD 0 }

theorem holds_build (layout : Layout) (command : BitVec 32) (slot : Slot) :
    Holds (build layout command) slot 0 layout.registers := by
  intro i register found
  have index : barOffset (0 + i) / 4 = 4 + i := by
    unfold barOffset
    omega
  unfold build Ecam.read32 Ecam.writable32
  dsimp only
  rw [index, if_neg (by omega), if_neg (by omega), Nat.add_sub_cancel_left, found]
  exact ⟨rfl, rfl⟩

/-- Ports, a register without function, 8 GiB of memory above 4 GiB, and two pages. -/
def fourBars : Layout :=
  ⟨[.io 5 0xC000 (by decide) (by decide), .unimplemented, .memory64 33 0x600000000 true (by decide) (by decide),
    .memory32 12 0xFEB00000 false (by decide) (by decide), .memory32 31 0x80000000 true (by decide) (by decide)],
    by decide⟩

theorem probing_four_bars :
    (probeBars (fun _ _ => blank) ⟨⟨0xE0000000, 0, 0, 0, 0⟩, 0, 0, 0⟩
      ⟨build fourBars 7, 16, fun _ => blank, 0⟩).ecam = build fourBars 7 ∧
    List.Forall₂ Matches (Scan.bars (probeBars (fun _ _ => blank) ⟨⟨0xE0000000, 0, 0, 0, 0⟩, 0, 0, 0⟩
      ⟨build fourBars 7, 16, fun _ => blank, 0⟩)) (fourBars.bars.flatMap Bar.expected) :=
  probing_exact (fun _ _ => blank) (build fourBars 7) [] ⟨⟨0xE0000000, 0, 0, 0, 0⟩, 0, 0, 0⟩ fourBars
    (holds_build fourBars 7 _)

end Ketone.Pcie.BarLayout
