import Ketone.Library.AddressBits
import Ketone.Pcie.BarRanges

/-! What one remap leaves behind, whether it succeeds or not, and which addresses it lets through. -/

namespace Ketone.Pcie.RemapExact
open Library.AddressBits Library.Align Library.MaskedRegisters Config Probe Remap Assign BarRanges

def KindsApart (device : Device) : Prop :=
  ∀ bar, ¬ ((device.bar bar).isIo = true ∧ (device.bar bar).is64Bits = true)

/-- The configuration space after a register has been moved: its dwords read the new base with the flags they
had, and nothing else differs, command register included. -/
structure Programmed (ecam after : Ecam) (device : Device) (bar : Fin 6) (newBase : BitVec 64) : Prop where
  low : after.read32 device.slot (barOffset bar) =
    lowHalf newBase ||| (ecam.read32 device.slot (barOffset bar) &&& flagBits (device.bar bar).isIo)
  apart : lowHalf newBase &&& flagBits (device.bar bar).isIo = 0
  high : (device.bar bar).is64Bits = true → after.read32 device.slot (barOffset bar + 4) = highHalf newBase
  narrow : (device.bar bar).is64Bits = false → highHalf newBase = 0
  others : ∀ offset, offset / 4 ≠ barOffset bar / 4 →
    ((device.bar bar).is64Bits = true → offset / 4 ≠ (barOffset bar + 4) / 4) →
    after.read32 device.slot offset = ecam.read32 device.slot offset
  command : after.read16 device.slot 4 = ecam.read16 device.slot 4
  masks : ∀ slot offset, after.writable32 slot offset = ecam.writable32 slot offset
  functions : ∀ addr, addr ≠ device.slot.addr 0 → after addr = ecam addr

section
variable {ecam : Ecam} {slot : Slot} {offset : Nat} {record : BarRecord} {newBase : BitVec 64}

theorem actualBase_join (kinds : ¬ (record.isIo = true ∧ record.is64Bits = true)) :
    actualBase ecam slot offset record = join (if record.is64Bits then ecam.read32 slot (offset + 4) else 0)
      (ecam.read32 slot offset &&& ~~~flagBits record.isIo) := by
  have small (low : BitVec 32) : join 0 low = low.setWidth 64 := by
    have zero : (0 : BitVec 32).setWidth 64 <<< 32 = 0 := by decide
    rw [join, zero]
    exact BitVec.zero_or
  unfold actualBase
  dsimp only
  cases io : record.isIo with
  | true =>
    cases wide : record.is64Bits with
    | true => exact (kinds ⟨io, wide⟩).elim
    | false => exact (small _).symm
  | false =>
    cases wide : record.is64Bits with
    | true => rfl
    | false => exact (small _).symm

theorem program_writable (ecam : Ecam) (slot other : Slot) (offset offset' : Nat) (is64 : Bool)
    (high low : BitVec 32) :
    (program ecam slot offset is64 high low).writable32 other offset' = ecam.writable32 other offset' := by
  unfold program Ecam.write32
  cases is64 with
  | false => exact Ecam.writable32_store ecam other slot offset' offset _ _
  | true =>
    rw [if_pos rfl, Ecam.writable32_store]
    exact Ecam.writable32_store ecam other slot offset' (offset + 4) _ _

theorem program_elsewhere (ecam : Ecam) (slot : Slot) (offset : Nat) (is64 : Bool) (high low : BitVec 32)
    {addr : BitVec 64} (away : addr ≠ slot.addr 0) : program ecam slot offset is64 high low addr = ecam addr := by
  unfold program Ecam.write32 Ecam.store
  cases is64 with
  | false => exact if_neg away
  | true => exact (if_neg away).trans (if_neg away)

theorem split_flags (x flags : BitVec 32) : x = (x &&& ~~~flags) ||| (x &&& flags) := by
  ext i inside
  rw [BitVec.getElem_or, BitVec.getElem_and, BitVec.getElem_and, BitVec.getElem_not]
  cases flags[i] <;> simp

/-- What programming does where the base reads back. -/
theorem programmed {device : Device} {bar : Fin 6}
    (kinds : ¬ ((device.bar bar).isIo = true ∧ (device.bar bar).is64Bits = true))
    (reads : actualBase (moveBar ecam device bar (some newBase)) device.slot (barOffset bar) (device.bar bar) = newBase) :
    Programmed ecam (moveBar ecam device bar (some newBase)) device bar newBase := by
  have flags : (moveBar ecam device bar (some newBase)).read32 device.slot (barOffset bar) &&&
      flagBits (device.bar bar).isIo = ecam.read32 device.slot (barOffset bar) &&& flagBits (device.bar bar).isIo :=
    program_flags _ _ _ _ _
  have others : ∀ offset, offset / 4 ≠ barOffset bar / 4 →
      ((device.bar bar).is64Bits = true → offset / 4 ≠ (barOffset bar + 4) / 4) →
      (moveBar ecam device bar (some newBase)).read32 device.slot offset = ecam.read32 device.slot offset :=
    fun offset => program_other _ _ _ _ _
  have masks : ∀ slot offset,
      (moveBar ecam device bar (some newBase)).writable32 slot offset = ecam.writable32 slot offset :=
    fun slot offset => program_writable _ _ _ _ _ _ _ _
  have functions : ∀ addr, addr ≠ device.slot.addr 0 → moveBar ecam device bar (some newBase) addr = ecam addr :=
    fun addr => program_elsewhere _ _ _ _ _ _
  generalize moveBar ecam device bar (some newBase) = after at *
  rw [actualBase_join kinds] at reads
  obtain ⟨upper, lower⟩ := halves_join (if (device.bar bar).is64Bits then
    after.read32 device.slot (barOffset bar + 4) else 0)
    (after.read32 device.slot (barOffset bar) &&& ~~~flagBits (device.bar bar).isIo)
  rw [reads] at upper lower
  have command : after.read32 device.slot 4 = ecam.read32 device.slot 4 := by
    apply others
    · unfold barOffset
      omega
    · unfold barOffset
      omega
  refine ⟨?_, ?_, ?_, ?_, others, congrArg (fun word : BitVec 32 => (word >>> 0).setWidth 16) command, masks,
    functions⟩
  · rw [lower, ← flags]
    exact split_flags _ _
  · rw [lower, BitVec.and_assoc, BitVec.and_comm (~~~_), BitVec.and_not_self]
    exact BitVec.and_zero
  · intro wide
    rw [wide] at upper
    exact upper.symm
  · intro slim
    rw [slim] at upper
    exact upper

end

section
variable (ecam : Ecam) (device : Device) (newBase : BitVec 64)

theorem pcieRemapBar_index (barIdx : BitVec 8) :
    (∃ bar : Fin 6, barIdx.toNat = bar ∧
      pcieRemapBar ecam device barIdx newBase = pcieRemapBar ecam device (BitVec.ofNat 8 bar) newBase) ∨
    (6 ≤ barIdx.toNat ∧ pcieRemapBar ecam device barIdx newBase = ⟨ecam, device, some .noBar⟩) := by
  by_cases inside : barIdx.toNat < 6
  · refine Or.inl ⟨⟨barIdx.toNat, inside⟩, rfl, ?_⟩
    dsimp only
    rw [BitVec.ofNat_toNat, BitVec.setWidth_eq]
  · refine Or.inr ⟨by omega, ?_⟩
    unfold pcieRemapBar
    exact dif_neg inside

/-- For every record as the probe makes them, every index and every base: a call that fails leaves registers and
record as they were, and one that succeeds has moved its register and done nothing else. -/
theorem remap_all_or_nothing (kinds : KindsApart device) (barIdx : BitVec 8) :
    ((pcieRemapBar ecam device barIdx newBase).error ≠ none →
      (pcieRemapBar ecam device barIdx newBase).ecam = ecam ∧
        (pcieRemapBar ecam device barIdx newBase).device = device) ∧
    ((pcieRemapBar ecam device barIdx newBase).error = none → ∃ bar : Fin 6, barIdx.toNat = bar ∧
      (pcieRemapBar ecam device barIdx newBase).device = rebase device bar newBase ∧
      Programmed ecam (pcieRemapBar ecam device barIdx newBase).ecam device bar newBase) := by
  rcases pcieRemapBar_index ecam device newBase barIdx with ⟨bar, index, same⟩ | ⟨_, same⟩
  · rw [same]
    rcases pcieRemapBar_cases ecam device bar newBase with ⟨error, failed, _⟩ | ⟨_, _, reads, done⟩
    · rw [failed]
      exact ⟨fun _ => ⟨rfl, rfl⟩, fun none => (Option.some_ne_none error none).elim⟩
    · rw [done]
      exact ⟨fun some => (some rfl).elim, fun _ => ⟨bar, index, rfl, programmed (kinds bar) reads⟩⟩
  · rw [same]
    exact ⟨fun _ => ⟨rfl, rfl⟩, fun none => (Option.some_ne_none _ none).elim⟩

end

/-- The record of a function with a page of memory, and 8 GiB of it above 4 GiB. -/
def twoMemories : Device :=
  { blank with
    bar := fun b =>
      if b = 0 then ⟨true, false, false, false, 0xF0000000, 0x1000⟩
      else if b = 2 then ⟨true, true, false, true, 0x600000000, 0x200000000⟩
      else ⟨false, false, false, false, 0, 0⟩
    driverData := ⟨0xB0000000, 0, 0, 0, 0⟩ }

/-- A page of memory takes a new base, and loses none of the rest. -/
theorem remap_page_moved : (pcieRemapBar twoBars twoMemories 0 0x80000000).error = none ∧
    ∃ bar : Fin 6, (0 : BitVec 8).toNat = bar ∧
      (pcieRemapBar twoBars twoMemories 0 0x80000000).device = rebase twoMemories bar 0x80000000 ∧
      Programmed twoBars (pcieRemapBar twoBars twoMemories 0 0x80000000).ecam twoMemories bar 0x80000000 :=
  ⟨by decide, (remap_all_or_nothing twoBars twoMemories 0x80000000 (by unfold KindsApart; decide) 0).2 (by decide)⟩

/-- The call has passed its checks of the arguments: it succeeds, or it fails because a base that was written does
not read back. -/
def GoesOn (ecam : Ecam) (device : Device) (bar : Fin 6) (newBase : BitVec 64) : Prop :=
  (pcieRemapBar ecam device (BitVec.ofNat 8 bar) newBase).error = none ∨
    (pcieRemapBar ecam device (BitVec.ofNat 8 bar) newBase).error = some .notSet

/-- The last byte of the range is one that the register can decode. -/
def Addressable (record : BarRecord) (newBase : BitVec 64) : Prop :=
  newBase.toNat + record.barSize.toNat ≤ if record.is64Bits then 2 ^ 64 else 2 ^ 32

/-- The range of a register of 32 bits does not end at 4 GiB; that of one of 64 bits ends below 4 GiB, or
with the address space. -/
def RangeJudged (record : BarRecord) (newBase : BitVec 64) : Prop :=
  if record.is64Bits then
    newBase.toNat + record.barSize.toNat < 2 ^ 32 ∨ newBase.toNat + record.barSize.toNat = 2 ^ 64
  else newBase.toNat + record.barSize.toNat ≠ 2 ^ 32

section
variable {ecam : Ecam} {device : Device} {bar : Fin 6} {newBase : BitVec 64}

theorem refusal_ne_notSet {record : BarRecord} {newBase : BitVec 64} : refusal record newBase ≠ some .notSet := by
  unfold refusal
  split_ifs <;> simp

theorem goesOn_iff (valid : (device.bar bar).isValid = true) :
    GoesOn ecam device bar newBase ↔ refusal (device.bar bar) newBase = none := by
  have index : (⟨(BitVec.ofNat 8 bar.val).toNat, by rw [barIdx_eq]; exact bar.isLt⟩ : Fin 6) = bar :=
    Fin.ext (barIdx_eq bar)
  unfold GoesOn pcieRemapBar
  rw [dif_pos (by rw [barIdx_eq]; exact bar.isLt), index]
  dsimp only
  rw [if_neg (not_not.mpr valid)]
  cases refused : refusal (device.bar bar) newBase with
  | some error =>
    refine iff_of_false ?_ (Option.some_ne_none error)
    rintro (none | notSet)
    · exact Option.some_ne_none error none
    · exact refusal_ne_notSet (refused.trans notSet)
  | none =>
    refine iff_of_true ?_ rfl
    dsimp only
    split
    · exact Or.inl rfl
    · exact Or.inr rfl

theorem refusal_memory {record : BarRecord} {k : Nat} (memory : record.isIo = false)
    (power : record.barSize.toNat = 2 ^ k) (aligned : 2 ^ k ∣ newBase.toNat) :
    refusal record newBase = none ↔ (record.is64Bits = false → newBase.toNat < 2 ^ 32) ∧
      (newBase.toNat + record.barSize.toNat) % 2 ^ 64 < 2 ^ 32 := by
  have limit : Remap.UINT32_MAX.toNat = 2 ^ 32 - 1 := rfl
  have natural := (and_pred_eq_zero_iff power newBase).mpr aligned
  unfold refusal
  rw [memory, if_neg Bool.false_ne_true, if_neg (ne_zero_of_power power), if_neg (not_not.mpr natural)]
  have above (x : BitVec 64) : x > Remap.UINT32_MAX ↔ 2 ^ 32 ≤ x.toNat := by
    rw [gt_iff_lt, BitVec.lt_def, limit]
    omega
  by_cases large : (¬ record.is64Bits ∧ newBase > Remap.UINT32_MAX) ∨
      newBase + record.barSize > Remap.UINT32_MAX
  · rw [if_pos large]
    rw [above, above, BitVec.toNat_add] at large
    refine iff_of_false (Option.some_ne_none _) ?_
    rintro ⟨first, second⟩
    rcases large with ⟨narrow, far⟩ | far
    · have near := first (by simpa using narrow)
      omega
    · omega
  · rw [if_neg large]
    rw [above, above, BitVec.toNat_add, not_or, not_and, not_le, not_le] at large
    exact iff_of_true rfl ⟨fun narrow => large.1 (by simp [narrow]), large.2⟩

theorem range_le {k : Nat} {size : BitVec 64} (power : size.toNat = 2 ^ k) (aligned : 2 ^ k ∣ newBase.toNat) :
    newBase.toNat + size.toNat ≤ 2 ^ 64 := by
  have bound := newBase.isLt
  have wide := size.isLt
  rw [power] at wide ⊢
  have exponent := (Nat.pow_lt_pow_iff_right (show 1 < 2 by decide)).mp wide
  have whole : 2 ^ k ∣ 2 ^ 64 := Nat.pow_dvd_pow 2 exponent.le
  have gap := Nat.le_of_dvd (by omega) (Nat.dvd_sub whole aligned)
  omega

/-- For every valid memory register whose size is a power of two, and every base aligned to it: the range check
judges rightly exactly if the range stays clear of the limit as described. -/
theorem range_check_iff (ecam : Ecam) (device : Device) (bar : Fin 6) (newBase : BitVec 64) (k : Nat)
    (valid : (device.bar bar).isValid = true) (memory : (device.bar bar).isIo = false)
    (power : (device.bar bar).barSize.toNat = 2 ^ k) (aligned : 2 ^ k ∣ newBase.toNat) :
    (GoesOn ecam device bar newBase ↔ Addressable (device.bar bar) newBase) ↔
      RangeJudged (device.bar bar) newBase := by
  have whole := range_le power aligned
  have positive := Nat.two_pow_pos k
  have half := power_le power
  rw [goesOn_iff valid, refusal_memory memory power aligned]
  unfold Addressable RangeJudged
  rw [← power] at positive half
  cases (device.bar bar).is64Bits with
  | false =>
    rw [if_neg Bool.false_ne_true, if_neg Bool.false_ne_true]
    simp only [forall_const]
    omega
  | true =>
    rw [if_pos rfl, if_pos rfl]
    simp only [Bool.true_eq_false, false_imp_iff, true_and, iff_true_intro whole, iff_true]
    omega

end

/-- 8 GiB above 4 GiB that a register of 64 bits can decode are refused, and so is the last page below 4 GiB for
a register of 32 bits. -/
theorem addressable_ranges_refused :
    ((twoMemories.bar 2).Memory ∧ (twoMemories.bar 2).barSize = 0x200000000 ∧ 0x200000000 ∣ 0x800000000 ∧
        Addressable (twoMemories.bar 2) 0x800000000 ∧ ¬ GoesOn twoBars twoMemories 2 0x800000000) ∧
      (twoMemories.bar 0).Memory ∧ (twoMemories.bar 0).barSize = 0x1000 ∧ 0x1000 ∣ 0xFFFFF000 ∧
        Addressable (twoMemories.bar 0) 0xFFFFF000 ∧ ¬ GoesOn twoBars twoMemories 0 0xFFFFF000 := by
  unfold Addressable GoesOn
  decide

theorem range_check_page : (GoesOn twoBars twoMemories 0 0x80000000 ↔
    Addressable (twoMemories.bar 0) 0x80000000) :=
  (range_check_iff twoBars twoMemories 0 0x80000000 12 rfl rfl rfl (by decide)).mpr (by unfold RangeJudged; decide)

end Ketone.Pcie.RemapExact
