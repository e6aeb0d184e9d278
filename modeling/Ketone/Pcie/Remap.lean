import Ketone.Library.Align
import Ketone.Pcie.Probe

/-! Moving one base address register to a new address. -/

namespace Ketone.Pcie.Remap
open Library Library.MaskedRegisters Library.Align Config Probe

def UINT32_MAX : BitVec 64 := 0xFFFFFFFF

/-- The ways in which the source returns `false`. -/
inductive RemapError where
  | noBar
  | notValid
  | sizeZero
  | unaligned
  | tooLarge
  | notSet
deriving DecidableEq

def rebase (device : Device) (bar : Fin 6) (newBase : BitVec 64) : Device :=
  { device with bar := fun b => if b = bar then { device.bar b with base := newBase } else device.bar b }

/-- The checks of the new base against the record. -/
def refusal (record : BarRecord) (newBase : BitVec 64) : Option RemapError :=
  if record.isIo then
    if newBase > UINT32_MAX ∨ newBase &&& 3 ≠ 0 ∨ newBase + record.barSize > UINT32_MAX then some .tooLarge
    else none
  else if record.barSize = 0 then some .sizeZero
  else if newBase &&& (record.barSize - 1) ≠ 0 then some .unaligned
  else if (¬ record.is64Bits ∧ newBase > UINT32_MAX) ∨ newBase + record.barSize > UINT32_MAX then some .tooLarge
  else none

def flagBits (isIo : Bool) : BitVec 32 := if isIo then 3 else 0xF

def newLow (record : BarRecord) (barData : BitVec 32) (newBase : BitVec 64) : BitVec 32 :=
  (barData &&& flagBits record.isIo) ||| (newBase.setWidth 32 &&& ~~~flagBits record.isIo)

structure Remapped where
  ecam : Ecam
  device : Device
  error : Option RemapError

def program (ecam : Ecam) (slot : Slot) (offset : Nat) (is64 : Bool) (high low : BitVec 32) : Ecam :=
  Ecam.write32 (if is64 then ecam.write32 slot (offset + 4) high else ecam) slot offset low

def actualBase (ecam : Ecam) (slot : Slot) (offset : Nat) (record : BarRecord) : BitVec 64 :=
  let checkLow := ecam.read32 slot offset
  let checkHigh := if record.is64Bits then ecam.read32 slot (offset + 4) else 0
  if record.isIo then (checkLow &&& ~~~3).setWidth 64
  else if record.is64Bits then (checkHigh.setWidth 64 <<< 32) ||| (checkLow &&& ~~~0xF).setWidth 64
  else (checkLow &&& ~~~0xF).setWidth 64

def pcieRemapBar (ecam : Ecam) (device : Device) (barIdx : BitVec 8) (newBase : BitVec 64) : Remapped :=
  if inside : barIdx.toNat < 6 then
    let bar : Fin 6 := ⟨barIdx.toNat, inside⟩
    let record := device.bar bar
    let slot := device.slot
    let offset := barOffset bar
    if ¬ record.isValid then ⟨ecam, device, some .notValid⟩
    else
      let command := ecam.read16 slot 0x04
      let barData := ecam.read32 slot offset
      match refusal record newBase with
      | some error => ⟨ecam, device, some error⟩
      | none =>
          let ecam := ecam.write16 slot 0x04 (command &&& ~~~3)
          let barDataHigh := if record.is64Bits then ecam.read32 slot (offset + 4) else 0
          let ecam := program ecam slot offset record.is64Bits ((newBase >>> 32).setWidth 32)
            (newLow record barData newBase)
          if actualBase ecam slot offset record = newBase then
            ⟨ecam.write16 slot 0x04 command, rebase device bar newBase, none⟩
          else
            ⟨(program ecam slot offset record.is64Bits barDataHigh barData).write16 slot 0x04 command, device,
              some .notSet⟩
  else ⟨ecam, device, some .noBar⟩

section
variable (ecam : Ecam) (slot : Slot)

theorem program_other {offset other : Nat} (is64 : Bool) (high low : BitVec 32)
    (apart : other / 4 ≠ offset / 4) (apart' : is64 = true → other / 4 ≠ (offset + 4) / 4) :
    (program ecam slot offset is64 high low).read32 slot other = ecam.read32 slot other := by
  unfold program
  rw [Ecam.read32_write32_other _ slot apart]
  cases is64 with
  | false => rfl
  | true => exact Ecam.read32_write32_other _ slot (apart' rfl) _

theorem program_flags (offset : Nat) (record : BarRecord) (newBase : BitVec 64) {high : BitVec 32} :
    (program ecam slot offset record.is64Bits high
        (newLow record (ecam.read32 slot offset) newBase)).read32 slot offset &&& flagBits record.isIo =
      ecam.read32 slot offset &&& flagBits record.isIo := by
  have apart : offset / 4 ≠ (offset + 4) / 4 := by omega
  have old : (if record.is64Bits then ecam.write32 slot (offset + 4) high else ecam).read32 slot offset =
      ecam.read32 slot offset := by
    cases record.is64Bits with
    | false => rfl
    | true => exact Ecam.read32_write32_other ecam slot apart _
  unfold program newLow
  rw [Ecam.read32_write32_same, old]
  apply merge_flags

theorem program_write16 {offset : Nat} (behind : 8 ≤ offset) (is64 : Bool) (high low : BitVec 32)
    (command : BitVec 16) : program (ecam.write16 slot 4 command) slot offset is64 high low =
      (program ecam slot offset is64 high low).write16 slot 4 command := by
  have low' : 4 / 4 ≠ offset / 4 := by omega
  have high' : 4 / 4 ≠ (offset + 4) / 4 := by omega
  unfold program Ecam.write16 Ecam.write32
  cases is64 with
  | false =>
    simp only [Bool.false_eq_true, if_false]
    exact Ecam.store_comm _ slot low' _ _ _ _
  | true =>
    simp only [if_true]
    rw [Ecam.store_comm _ slot high', Ecam.store_comm _ slot low']

theorem program_back {offset : Nat} (is64 : Bool) (high low : BitVec 32) :
    program (program ecam slot offset is64 high low) slot offset is64
      (if is64 then ecam.read32 slot (offset + 4) else 0) (ecam.read32 slot offset) = ecam := by
  have apart : offset / 4 ≠ (offset + 4) / 4 := by omega
  unfold program
  cases is64 with
  | false =>
    simp only [Bool.false_eq_true, if_false]
    exact Ecam.write32_back ecam slot offset low
  | true =>
    simp only [if_true]
    have kept : ecam.read32 slot offset = (ecam.write32 slot (offset + 4) high).read32 slot offset :=
      (ecam.read32_write32_other slot apart high).symm
    have swap : ((ecam.write32 slot (offset + 4) high).write32 slot offset low).write32 slot (offset + 4)
        (ecam.read32 slot (offset + 4)) = ecam.write32 slot offset low := by
      unfold Ecam.write32
      rw [Ecam.store_comm _ slot (Ne.symm apart), Ecam.store_back]
      rw [ecam.read32_store_other slot (Ne.symm apart)]
    rw [swap]
    exact Ecam.write32_back ecam slot offset low

variable (device : Device) (bar : Fin 6) (newBase : BitVec 64)

theorem barIdx_eq : (BitVec.ofNat 8 bar.val).toNat = bar.val := by
  have := bar.isLt
  rw [BitVec.toNat_ofNat]
  omega

/-- Everything a call on one of the six registers can do: it leaves registers and record as
they were, or it programs the new base, which reads back. -/
theorem pcieRemapBar_cases :
    let record := device.bar bar
    let slot := device.slot
    let after := program ecam slot (barOffset bar) record.is64Bits ((newBase >>> 32).setWidth 32)
      (newLow record (ecam.read32 slot (barOffset bar)) newBase)
    (∃ error, pcieRemapBar ecam device (BitVec.ofNat 8 bar) newBase = ⟨ecam, device, some error⟩ ∧
      (record.isValid = false ∨ refusal record newBase = some error ∨
        actualBase after slot (barOffset bar) record ≠ newBase)) ∨
    (record.isValid = true ∧ refusal record newBase = none ∧
      actualBase after slot (barOffset bar) record = newBase ∧
      pcieRemapBar ecam device (BitVec.ofNat 8 bar) newBase =
        ⟨after, rebase device bar newBase, none⟩) := by
  have behind : 8 ≤ barOffset bar := by unfold barOffset; omega
  have apart : barOffset bar / 4 ≠ 4 / 4 := by omega
  have apart' : (barOffset bar + 4) / 4 ≠ 4 / 4 := by omega
  have index : (⟨(BitVec.ofNat 8 bar.val).toNat, by rw [barIdx_eq]; exact bar.isLt⟩ : Fin 6) = bar :=
    Fin.ext (barIdx_eq bar)
  unfold pcieRemapBar
  rw [dif_pos (by rw [barIdx_eq]; exact bar.isLt)]
  rw [index]
  dsimp only
  cases valid : (device.bar bar).isValid with
  | false => exact Or.inl ⟨.notValid, by simp, Or.inl rfl⟩
  | true =>
    simp only [not_true_eq_false, if_false]
    cases refused : refusal (device.bar bar) newBase with
    | some error => exact Or.inl ⟨error, rfl, Or.inr (Or.inl rfl)⟩
    | none =>
      dsimp only
      generalize slotEq : device.slot = slot
      rw [program_write16 _ slot behind]
      generalize afterEq : program ecam slot (barOffset bar) (device.bar bar).is64Bits
        ((newBase >>> 32).setWidth 32) (newLow (device.bar bar) (ecam.read32 slot (barOffset bar)) newBase) =
          after
      have reads : ∀ command, actualBase (after.write16 slot 4 command) slot (barOffset bar) (device.bar bar) =
          actualBase after slot (barOffset bar) (device.bar bar) := by
        intro command
        unfold actualBase
        rw [Ecam.read32_write16_other _ slot apart, Ecam.read32_write16_other _ slot apart']
      have command : ecam.read16 slot 4 = after.read16 slot 4 := by
        unfold Ecam.read16
        rw [← afterEq, program_other ecam slot _ _ _ (Ne.symm apart) fun _ => Ne.symm apart']
      rw [reads]
      by_cases same : actualBase after slot (barOffset bar) (device.bar bar) = newBase
      · rw [if_pos same]
        refine Or.inr ⟨trivial, rfl, same, ?_⟩
        rw [command, Ecam.write16_back]
      · rw [if_neg same]
        refine Or.inl ⟨.notSet, ?_, Or.inr (Or.inr same)⟩
        rw [ecam.read32_write16_other slot apart', program_write16 _ slot behind, ← afterEq, program_back,
          Ecam.write16_back]

end

end Ketone.Pcie.Remap
