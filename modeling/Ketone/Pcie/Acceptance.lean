import Ketone.MemManager.HoleCoverage
import Ketone.Pcie.BarRanges

/-! Why an address from the hole is always accepted: the hole ends below the firmware
flash, the bump heap aligns to the size, and the size is what the writable bits of the
register say. -/

namespace Ketone.Pcie.Acceptance
open Library Library.Align Library.Gap Library.MaskedRegisters Acpi.Mcfg MemManager.BumpAllocator
  MemManager.E820 MemManager.MmioHole MemManager.Manager MemManager.HoleCoverage Config Probe Remap
  Assign BarRanges

/-- What a register reads after all ones have been written to it. -/
def probed (ecam : Ecam) (slot : Slot) (offset : Nat) : BitVec 32 :=
  merge (ecam.read32 slot offset) (BitVec.allOnes 32) (ecam.writable32 slot offset)

/-- The bits of a register that the probe saw are exactly the writable ones, flags aside. -/
def Exact (ecam : Ecam) (slot : Slot) (offset : Nat) (flags : BitVec 32) : Prop :=
  probed ecam slot offset &&& ~~~flags = ecam.writable32 slot offset &&& ~~~flags

theorem exact_iff {ecam : Ecam} {slot : Slot} {offset : Nat} {flags : BitVec 32} :
    Exact ecam slot offset flags ↔
      ecam.read32 slot offset &&& ~~~ecam.writable32 slot offset &&& ~~~flags = 0 :=
  probe_exact_iff

/-- The register of a record, both halves of it, keeps the bits the probe saw. -/
structure KeepsProbed (ecam : Ecam) (slot : Slot) (bar : Fin 6) (record : BarRecord) : Prop where
  low : Exact ecam slot (barOffset bar) (flagBits record.isIo)
  high : record.is64Bits = true → Exact ecam slot (barOffset bar + 4) 0

/-- Stores have changed the values of some registers, but no read-only bit and no mask. -/
structure SameFixed (ecam later : Ecam) : Prop where
  writable : ∀ slot offset, later.writable32 slot offset = ecam.writable32 slot offset
  readOnly : ∀ slot offset, later.read32 slot offset &&& ~~~ecam.writable32 slot offset =
    ecam.read32 slot offset &&& ~~~ecam.writable32 slot offset

theorem SameFixed.refl (ecam : Ecam) : SameFixed ecam ecam := ⟨fun _ _ => rfl, fun _ _ => rfl⟩

theorem SameFixed.store {ecam later : Ecam} (same : SameFixed ecam later) (slot : Slot) (offset : Nat)
    (new enable : BitVec 32) : SameFixed ecam (later.store slot offset new enable) := by
  refine ⟨?_, ?_⟩
  · intro other offset'
    rw [Ecam.writable32_store, same.writable]
  · intro other offset'
    rw [← same.readOnly, ← same.writable, Ecam.readOnly_store]

theorem SameFixed.exact {ecam later : Ecam} (same : SameFixed ecam later) {slot : Slot} {offset : Nat}
    {flags : BitVec 32} (clear : Exact ecam slot offset flags) : Exact later slot offset flags := by
  rw [exact_iff] at clear ⊢
  rw [same.writable, same.readOnly]
  exact clear

theorem SameFixed.program {ecam later : Ecam} (same : SameFixed ecam later) (slot : Slot) (offset : Nat)
    (is64 : Bool) (high low : BitVec 32) : SameFixed ecam (program later slot offset is64 high low) := by
  unfold Remap.program Ecam.write32
  cases is64 with
  | false => exact same.store slot offset _ _
  | true => exact (same.store slot (offset + 4) _ _).store slot offset _ _

theorem SameFixed.moveBar {ecam later : Ecam} (same : SameFixed ecam later) (device : Device) (bar : Fin 6)
    (place : Option (BitVec 64)) : SameFixed ecam (moveBar later device bar place) := by
  cases place with
  | none => exact same
  | some newBase => exact same.program _ _ _ _ _

def addressMask (record : BarRecord) (low high : BitVec 32) : BitVec 64 :=
  (high.setWidth 64 <<< 32) ||| (low &&& ~~~flagBits record.isIo).setWidth 64

/-- How a valid record's size follows from the writable bits of its register. -/
def SizedBy (record : BarRecord) (low high : BitVec 32) : Prop :=
  if record.is64Bits then record.isIo = false ∧ record.barSize = ~~~addressMask record low high + 1
  else record.barSize = (~~~(low &&& ~~~flagBits record.isIo) + 1).setWidth 64

section
variable {ecam : Ecam} {slot : Slot}

theorem sizeBar_mask (ecam : Ecam) (slot : Slot) {offset : Nat} (behind : 8 ≤ offset) (is64 : Bool) :
    (sizeBar ecam slot offset (ecam.read32 slot offset) is64).mask =
      probed ecam slot offset ∧
    (is64 = true → (sizeBar ecam slot offset (ecam.read32 slot offset) is64).maskHigh =
      probed ecam slot (offset + 4)) := by
  have low : offset / 4 ≠ 4 / 4 := by omega
  have high : (offset + 4) / 4 ≠ 4 / 4 := by omega
  have apart : (offset + 4) / 4 ≠ offset / 4 := by omega
  have masks : ∀ off command, (ecam.write16 slot 4 command).writable32 slot off = ecam.writable32 slot off :=
    fun off command => Ecam.writable32_store ecam slot slot off 4 _ _
  have masks' : ∀ off new, ∀ before : Ecam, (before.write32 slot offset new).writable32 slot off =
      before.writable32 slot off := fun off new before => Ecam.writable32_store before slot slot off offset _ _
  have ones : (0xFFFFFFFF : BitVec 32) = BitVec.allOnes 32 := by decide
  unfold sizeBar probed
  dsimp only
  generalize ecam.read16 slot 4 &&& ~~~3 = off
  cases is64 with
  | false =>
    simp only [Bool.false_eq_true, if_false, false_imp_iff, and_true]
    rw [Ecam.read32_write32_same, ecam.read32_write16_other slot low, masks, ones]
  | true =>
    simp only [if_true, forall_const]
    rw [Ecam.read32_write32_other _ slot (Ne.symm apart), Ecam.read32_write32_same,
      ecam.read32_write16_other slot low, masks, ones, Ecam.read32_write32_same,
      Ecam.read32_write32_other _ slot apart, ecam.read32_write16_other slot high, masks', masks]
    exact ⟨rfl, rfl⟩

theorem classify_size {barData barDataHigh mask maskHigh : BitVec 32}
    (valid : (classify barData barDataHigh mask maskHigh).isValid = true) :
    (classify barData barDataHigh mask maskHigh).barSize ≠ 0 ∧
      (classify barData barDataHigh mask maskHigh).barSize =
        if is64Bar barData then ~~~((maskHigh.setWidth 64 <<< 32) ||| (mask.setWidth 64 &&& ~~~0xF)) + 1
        else (~~~(mask &&& ~~~flagBits (isIoBar barData)) + 1).setWidth 64 := by
  have nonzero : ∀ x : BitVec 32, x ≠ 0 → x.setWidth 64 ≠ 0 := by
    intro x some zero
    apply some
    have value := congrArg BitVec.toNat zero
    rw [BitVec.toNat_setWidth] at value
    have bound := x.isLt
    apply BitVec.eq_of_toNat_eq
    change _ = 0 at value
    change _ = 0
    omega
  unfold classify at valid ⊢
  cases io : isIoBar barData with
  | true =>
    have narrow : is64Bar barData = false := by
      cases wide : is64Bar barData with
      | false => rfl
      | true => rw [io_of_is64 wide] at io; simp at io
    simp only [io, if_true, Bool.not_eq_true', Bool.or_eq_false_iff, beq_eq_false_iff_ne] at valid
    simp only [if_true, narrow, Bool.false_eq_true, if_false]
    exact ⟨nonzero _ valid.2, rfl⟩
  | false =>
    simp only [io, Bool.false_eq_true, if_false] at valid ⊢
    split at valid
    · simp at valid
    next kind =>
    rw [if_neg kind]
    cases wide : is64Bar barData with
    | true =>
      simp only [wide, if_true, Bool.not_eq_true', Bool.or_eq_false_iff, beq_eq_false_iff_ne] at valid
      exact ⟨valid.2, rfl⟩
    | false =>
      simp only [wide, Bool.false_eq_true, if_false, Bool.not_eq_true', Bool.or_eq_false_iff,
        beq_eq_false_iff_ne] at valid
      simp only [Bool.false_eq_true, if_false]
      exact ⟨nonzero _ valid.2, rfl⟩

/-- The size of a valid record follows from what its probe saw. -/
theorem record_sized {bar : Fin 6} (valid : (barRecord ecam slot bar).isValid = true) :
    SizedBy (barRecord ecam slot bar) (probed ecam slot (barOffset bar)) (probed ecam slot (barOffset bar + 4)) ∧
      (barRecord ecam slot bar).barSize ≠ 0 := by
  have behind : 8 ≤ barOffset bar := by unfold barOffset; omega
  unfold barRecord probeBar at valid ⊢
  dsimp only at valid ⊢
  cases last : lastBarWas64 ecam slot bar with
  | true => simp [last] at valid
  | false =>
    simp only [last, Bool.false_eq_true, if_false] at valid ⊢
    generalize dataEq : ecam.read32 slot (barOffset bar) = data at *
    obtain ⟨mask, maskHigh⟩ := sizeBar_mask ecam slot behind (is64Bar data)
    rw [dataEq] at mask maskHigh
    obtain ⟨io, wide⟩ := classify_kind data (sizeBar ecam slot (barOffset bar) data (is64Bar data)).barDataHigh
      (sizeBar ecam slot (barOffset bar) data (is64Bar data)).mask
      (sizeBar ecam slot (barOffset bar) data (is64Bar data)).maskHigh
    obtain ⟨nonzero, size⟩ := classify_size valid
    refine ⟨?_, nonzero⟩
    unfold SizedBy addressMask
    rw [io, wide, size, mask]
    cases kind : is64Bar data with
    | false =>
      simp only [Bool.false_eq_true, if_false]
    | true =>
      have flags : flagBits (isIoBar data) = 0xF := by rw [io_of_is64 kind]; rfl
      rw [← kind, maskHigh kind, kind]
      simp only [if_true]
      rw [wide_mask, flags]
      exact ⟨io_of_is64 kind, rfl⟩

theorem sized_writable {bar : Fin 6} {record : BarRecord}
    (sized : SizedBy record (probed ecam slot (barOffset bar)) (probed ecam slot (barOffset bar + 4)))
    (keeps : KeepsProbed ecam slot bar record) :
    SizedBy record (ecam.writable32 slot (barOffset bar)) (ecam.writable32 slot (barOffset bar + 4)) := by
  have low := keeps.low
  unfold Exact at low
  unfold SizedBy addressMask at sized ⊢
  cases wide : record.is64Bits with
  | false =>
    rw [wide, if_neg Bool.false_ne_true, low] at sized
    rw [if_neg Bool.false_ne_true]
    exact sized
  | true =>
    have ones : ~~~(0 : BitVec 32) = BitVec.allOnes 32 := by decide
    have high := keeps.high wide
    unfold Exact at high
    rw [ones, BitVec.and_allOnes, BitVec.and_allOnes] at high
    rw [wide, if_pos rfl, low, high] at sized
    rw [if_pos rfl]
    exact sized

end

section
variable {record : BarRecord} {low high : BitVec 32} {k : Nat} {newBase : BitVec 64}

theorem address_writable (sized : SizedBy record low high) (power : record.barSize.toNat = 2 ^ k)
    (aligned : 2 ^ k ∣ newBase.toNat) (small : newBase.toNat < 2 ^ 32) :
    newBase.setWidth 32 &&& ~~~(low &&& ~~~flagBits record.isIo) = 0 := by
  unfold SizedBy at sized
  cases wide : record.is64Bits with
  | false =>
    rw [wide] at sized
    simp only [Bool.false_eq_true, if_false] at sized
    generalize low &&& ~~~flagBits record.isIo = mask at sized ⊢
    have size : (~~~mask + 1).toNat = 2 ^ k := by
      have bound := (~~~mask + 1).isLt
      rw [← power, sized, BitVec.toNat_setWidth, Nat.mod_eq_of_lt (by omega)]
    have value : (newBase.setWidth 32).toNat = newBase.toNat := by
      rw [BitVec.toNat_setWidth, Nat.mod_eq_of_lt small]
    have test := (and_pred_eq_zero_iff size (newBase.setWidth 32)).mpr (by rw [value]; exact aligned)
    rwa [BitVec.add_sub_cancel] at test
  | true =>
    rw [wide] at sized
    simp only [if_true] at sized
    have test := (and_pred_eq_zero_iff power newBase).mpr aligned
    rw [sized.2, BitVec.add_sub_cancel] at test
    ext i inside
    have bit := congrArg (fun x : BitVec 64 => x.getLsbD i) test
    have near : i < 64 := by omega
    simp only [addressMask, BitVec.getLsbD_eq_getElem near, BitVec.getElem_and, BitVec.getElem_not,
      BitVec.getElem_or, BitVec.getElem_shiftLeft, BitVec.getElem_setWidth, BitVec.getLsbD_and,
      BitVec.getLsbD_not, inside, decide_true, Bool.not_true, Bool.false_and, Bool.true_and,
      Bool.false_or] at bit
    simpa [inside, BitVec.getLsbD_eq_getElem near] using bit

theorem refusal_none (sized : SizedBy record low high) (power : record.barSize.toNat = 2 ^ k)
    (aligned : 2 ^ k ∣ newBase.toNat)
    (room : newBase.toNat + record.barSize.toNat ≤ 0xFFC00000) : refusal record newBase = none := by
  have limit : Remap.UINT32_MAX.toNat = 0xFFFFFFFF := rfl
  have sum : (newBase + record.barSize).toNat = newBase.toNat + record.barSize.toNat := by
    rw [BitVec.toNat_add, Nat.mod_eq_of_lt (by omega)]
  have base : ¬ newBase > Remap.UINT32_MAX := by
    rw [gt_iff_lt, BitVec.lt_def]
    omega
  have stop : ¬ newBase + record.barSize > Remap.UINT32_MAX := by
    rw [gt_iff_lt, BitVec.lt_def]
    omega
  have natural := (and_pred_eq_zero_iff power newBase).mpr aligned
  unfold refusal
  cases io : record.isIo with
  | true =>
    have bits := address_writable sized power aligned (by omega)
    have low2 : newBase &&& 3 = 0 := by
      have three : newBase.setWidth 32 &&& 3 = 0 := by
        have part : ~~~(low &&& ~~~flagBits record.isIo) &&& 3 = 3 := by
          rw [io]
          change ~~~(low &&& ~~~3) &&& 3 = 3
          rw [BitVec.not_and, BitVec.not_not, BitVec.and_comm]
          ext i inside
          simp only [BitVec.getElem_and, BitVec.getElem_or]
          cases (3 : BitVec 32)[i] <;> simp
        rw [← part, ← BitVec.and_assoc, bits]
        exact BitVec.zero_and
      have value := congrArg BitVec.toNat three
      rw [BitVec.toNat_and, BitVec.toNat_setWidth] at value
      change newBase.toNat % 2 ^ 32 &&& (2 ^ 2 - 1) = 0 at value
      rw [Nat.and_two_pow_sub_one_eq_mod] at value
      apply BitVec.eq_of_toNat_eq
      rw [BitVec.toNat_and]
      change newBase.toNat &&& (2 ^ 2 - 1) = 0
      rw [Nat.and_two_pow_sub_one_eq_mod]
      omega
    rw [if_pos rfl, if_neg]
    rintro (above | some | above)
    · exact base above
    · exact some low2
    · exact stop above
  | false =>
    rw [if_neg Bool.false_ne_true, if_neg (ne_zero_of_power power), if_neg (not_not.mpr natural), if_neg]
    rintro (⟨_, above⟩ | above)
    · exact base above
    · exact stop above

/-- The registers read back the address that was programmed. -/
theorem actualBase_program {later : Ecam} {slot : Slot} {bar : Fin 6}
    (keeps : KeepsProbed later slot bar record) (memory : record.is64Bits = true → record.isIo = false)
    (bits : newBase.setWidth 32 &&& ~~~(later.writable32 slot (barOffset bar) &&& ~~~flagBits record.isIo) = 0)
    (small : newBase.toNat < 2 ^ 32) :
    actualBase (program later slot (barOffset bar) record.is64Bits ((newBase >>> 32).setWidth 32)
      (newLow record (later.read32 slot (barOffset bar)) newBase)) slot (barOffset bar) record = newBase := by
  have apart : (barOffset bar + 4) / 4 ≠ barOffset bar / 4 := by omega
  have value : (newBase.setWidth 32).setWidth 64 = newBase := by
    apply BitVec.eq_of_toNat_eq
    rw [BitVec.toNat_setWidth, BitVec.toNat_setWidth, Nat.mod_eq_of_lt small, Nat.mod_eq_of_lt (by omega)]
  have upper : (newBase >>> 32).setWidth 32 = 0 := by
    apply BitVec.eq_of_toNat_eq
    rw [BitVec.toNat_setWidth, BitVec.toNat_ushiftRight, Nat.shiftRight_eq_div_pow, Nat.div_eq_of_lt small]
    rfl
  have settled := settle_exact (exact_iff.mp keeps.low) bits
  unfold actualBase program
  dsimp only
  cases wide : record.is64Bits with
  | false =>
    simp only [Bool.false_eq_true, if_false]
    rw [Ecam.read32_write32_same]
    cases io : record.isIo with
    | true =>
      rw [io] at settled
      rw [if_pos rfl]
      unfold newLow
      rw [io]
      exact (congrArg (BitVec.setWidth 64) settled).trans value
    | false =>
      rw [io] at settled
      rw [if_neg Bool.false_ne_true]
      unfold newLow
      rw [io]
      exact (congrArg (BitVec.setWidth 64) settled).trans value
  | true =>
    have io := memory wide
    rw [io] at settled
    simp only [if_true]
    rw [if_neg (by simp [io]), Ecam.read32_write32_same, Ecam.read32_write32_other _ slot apart,
      Ecam.read32_write32_same]
    rw [later.read32_write32_other slot (Ne.symm apart), Ecam.write32, Ecam.writable32_store]
    have ones : ~~~(0 : BitVec 32) = BitVec.allOnes 32 := by decide
    have high := settle_exact (exact_iff.mp (keeps.high wide)) (show (0 : BitVec 32) &&& _ = 0 from BitVec.zero_and)
    rw [ones, BitVec.and_allOnes, BitVec.and_allOnes] at high
    have none : ∀ x : BitVec 32, (x &&& 0 ||| 0) = 0 := by simp
    rw [none] at high
    rw [upper]
    unfold newLow
    rw [io]
    calc
      _ = ((0 : BitVec 32).setWidth 64 <<< 32) ||| (newBase.setWidth 32).setWidth 64 :=
        congrArg₂ (fun upper lower : BitVec 32 => (upper.setWidth 64 <<< 32) ||| lower.setWidth 64) high settled
      _ = newBase := by rw [value]; simp

end

theorem SizedBy.moved {record : BarRecord} {low high : BitVec 32} (sized : SizedBy record low high)
    (place : Option (BitVec 64)) : SizedBy (record.moved place) low high := by
  cases place <;> exact sized

theorem KeepsProbed.later {ecam later : Ecam} {slot : Slot} {bar : Fin 6} {record : BarRecord}
    (keeps : KeepsProbed ecam slot bar record) (same : SameFixed ecam later) (place : Option (BitVec 64)) :
    KeepsProbed later slot bar (record.moved place) := by
  cases place <;> exact ⟨same.exact keeps.low, fun wide => same.exact (keeps.high wide)⟩

structure Below (heap : BumpHeap) : Prop where
  within : heap.Within
  flash : heap.stop ≤ 0xFFC00000

theorem Below.bump {heap : BumpHeap} (below : Below heap) (size align : BitVec 64) :
    Below (bumpAllocAligned heap size align).heap := by
  obtain ⟨within, start, area, _⟩ := within_bump below.within size align
  refine ⟨within, ?_⟩
  unfold BumpHeap.stop
  rw [start, area]
  exact below.flash

theorem bump_natural {heap : BumpHeap} (below : Below heap) {size : BitVec 64} (nonzero : size ≠ 0)
    (some : (bumpAllocAligned heap size size).ptr ≠ 0) :
    ∃ k, size.toNat = 2 ^ k ∧ 2 ^ k ∣ (bumpAllocAligned heap size size).ptr.toNat ∧
      (bumpAllocAligned heap size size).ptr.toNat + size.toNat ≤ 0xFFC00000 := by
  have align : orOne size = size := if_neg nonzero
  rcases bumpAllocAligned_cases below.within size size with ⟨same, _⟩ | ⟨k, addr, power, _, place, room, same⟩
  · rw [same] at some
    exact absurd rfl some
  · rw [align] at power
    rw [same]
    refine ⟨k, power, ?_, room.trans below.flash⟩
    rw [place]
    exact dvd_roundUp

section
variable {ecam later : Ecam} {device : Device} {bar : Fin 6} {newBase : BitVec 64}

/-- On registers that keep what the probe saw the remap succeeds, and the new base reads back. -/
theorem pcieRemapBar_accepts {record : BarRecord} {k : Nat} (same : SameFixed ecam later)
    (keeps : KeepsProbed ecam device.slot bar record) (place : Option (BitVec 64))
    (held : device.bar bar = record.moved place) (valid : record.isValid = true)
    (sized : SizedBy record (probed ecam device.slot (barOffset bar)) (probed ecam device.slot (barOffset bar + 4)))
    (power : record.barSize.toNat = 2 ^ k) (aligned : 2 ^ k ∣ newBase.toNat)
    (room : newBase.toNat + record.barSize.toNat ≤ 0xFFC00000) :
    pcieRemapBar later device (BitVec.ofNat 8 bar) newBase =
        ⟨moveBar later device bar (some newBase), rebase device bar newBase, none⟩ ∧
      actualBase (moveBar later device bar (some newBase)) device.slot (barOffset bar) (device.bar bar) = newBase := by
  have sized' : SizedBy (device.bar bar) (ecam.writable32 device.slot (barOffset bar))
      (ecam.writable32 device.slot (barOffset bar + 4)) := by
    rw [held]
    exact (sized_writable sized keeps).moved place
  have keeps' : KeepsProbed later device.slot bar (device.bar bar) := by
    rw [held]
    exact keeps.later same place
  have fields : (device.bar bar).barSize = record.barSize ∧ (device.bar bar).isValid = true := by
    rw [held]
    cases place <;> exact ⟨rfl, valid⟩
  have power' : (device.bar bar).barSize.toNat = 2 ^ k := by rw [fields.1]; exact power
  have small : newBase.toNat < 2 ^ 32 := by omega
  have memory : (device.bar bar).is64Bits = true → (device.bar bar).isIo = false := by
    intro wide
    unfold SizedBy at sized'
    rw [wide, if_pos rfl] at sized'
    exact sized'.1
  have passes := refusal_none sized' power' aligned (by rw [fields.1]; exact room)
  have reads := actualBase_program keeps' memory
    (by rw [same.writable]; exact address_writable sized' power' aligned small) small
  rcases pcieRemapBar_cases later device bar newBase with ⟨error, _, why⟩ | ⟨_, _, _, done⟩
  · rcases why with invalid | refused | wrong
    · rw [fields.2] at invalid
      exact absurd invalid (by decide)
    · rw [passes] at refused
      exact absurd refused (by simp)
    · exact absurd reads wrong
  · exact ⟨done, reads⟩

end

/-- Between two turns: only stores have happened, and the records have been given places. -/
structure Ready (ecam : Ecam) (slot : Slot) (state : Assigning) : Prop where
  same : SameFixed ecam state.ecam
  below : Below state.bump
  here : state.device.slot = slot
  bars : ∀ bar, ∃ place, state.device.bar bar = (barRecord ecam slot bar).moved place

theorem assignBar_runs {ecam : Ecam} {slot : Slot}
    (keeps : ∀ bar : Fin 6, (barRecord ecam slot bar).isValid = true →
      KeepsProbed ecam slot bar (barRecord ecam slot bar)) (state : Assigning) (bar : Fin 6)
    (ready : Ready ecam slot state) :
    ∃ next, assignBar bumpAllocAligned state bar = .ok next ∧ Ready ecam slot next := by
  obtain ⟨same, below, here, bars⟩ := ready
  obtain ⟨place, held⟩ := bars bar
  unfold assignBar
  dsimp only
  by_cases skipped : ¬ (state.device.bar bar).isValid = true ∨ (state.device.bar bar).barSize = 0
  · rw [if_pos skipped]
    exact ⟨state, rfl, same, below, here, bars⟩
  rw [if_neg skipped]
  rw [not_or, not_not] at skipped
  obtain ⟨valid, nonzero⟩ := skipped
  have left := below.bump (state.device.bar bar).barSize (state.device.bar bar).barSize
  by_cases null : (bumpAllocAligned state.bump (state.device.bar bar).barSize (state.device.bar bar).barSize).ptr = 0
  · rw [if_pos null]
    exact ⟨_, rfl, same, left, here, bars⟩
  rw [if_neg null]
  obtain ⟨k, power, aligned, room⟩ := bump_natural below nonzero null
  generalize bumpAllocAligned state.bump (state.device.bar bar).barSize (state.device.bar bar).barSize = call at *
  have fields : (barRecord ecam slot bar).isValid = true ∧
      (barRecord ecam slot bar).barSize = (state.device.bar bar).barSize := by
    rw [held] at valid ⊢
    cases place <;> exact ⟨valid, rfl⟩
  have sized := (record_sized fields.1).1
  have keeps' := keeps bar fields.1
  rw [← here] at sized keeps' held
  obtain ⟨done, _⟩ := pcieRemapBar_accepts same keeps' place held (here ▸ fields.1) sized (here ▸ fields.2 ▸ power)
    aligned (here ▸ fields.2 ▸ room)
  rw [done]
  refine ⟨_, rfl, same.moveBar state.device bar (some call.ptr), left, here, ?_⟩
  intro b
  change ∃ place, (settle state.device bar (some call.ptr)).bar b = (barRecord ecam slot b).moved place
  rw [settle_bar]
  by_cases this : b = bar
  · subst this
    rw [if_pos rfl, held, here]
    refine ⟨some call.ptr, ?_⟩
    cases place <;> rfl
  · rw [if_neg this]
    exact bars b

theorem assignAll_runs {ecam : Ecam} {todo : List Slot}
    (keeps : ∀ slot ∈ todo, ∀ bar : Fin 6, (barRecord ecam slot bar).isValid = true →
      KeepsProbed ecam slot bar (barRecord ecam slot bar)) {later : Ecam} (same : SameFixed ecam later)
    {heap : BumpHeap} (below : Below heap) :
    ∃ result, assignAll bumpAllocAligned later heap (todo.map (deviceAt ecam)) = .ok result := by
  induction todo generalizing later heap with
  | nil => exact ⟨_, rfl⟩
  | cons slot rest ih =>
    have ready : Ready ecam slot ⟨later, deviceAt ecam slot, heap, []⟩ :=
      ⟨same, below, rfl, fun bar => ⟨none, rfl⟩⟩
    obtain ⟨first, done, after⟩ := Loop.foldlM_ok (Ready ecam slot)
      (assignBar_runs (keeps slot (List.mem_cons_self ..))) (List.finRange 6) ready
    obtain ⟨others, done'⟩ := ih (fun other member => keeps other (List.mem_cons_of_mem _ member)) after.same
      after.below
    rw [List.map_cons]
    unfold assignAll assignDevice
    rw [done]
    refine ⟨⟨others.ecam, first.device :: others.devices, others.bump, first.reported ++ others.reported⟩, ?_⟩
    simp only [bind, Except.bind, done', pure, Except.pure]

/-- The heap after requests of the given sizes and alignments. -/
def afterRequests (heap : BumpHeap) (requests : List (BitVec 64 × BitVec 64)) : BumpHeap :=
  requests.foldl (fun heap request => (bumpAllocAligned heap request.1 request.2).heap) heap

theorem Below.afterRequests {heap : BumpHeap} (below : Below heap) (requests : List (BitVec 64 × BitVec 64)) :
    Below (afterRequests heap requests) := by
  induction requests generalizing heap with
  | nil => exact below
  | cons request rest ih => exact ih (below.bump request.1 request.2)

/-- The address the heap gives for the size of a record. -/
def ptrFor (heap : BumpHeap) (record : BarRecord) : BitVec 64 :=
  (bumpAllocAligned heap record.barSize record.barSize).ptr

/-- The call returns true, and the registers and the record hold the new base. -/
structure Accepts (ecam : Ecam) (device : Device) (bar : Fin 6) (newBase : BitVec 64) : Prop where
  error : (pcieRemapBar ecam device (BitVec.ofNat 8 bar) newBase).error = none
  recorded : (pcieRemapBar ecam device (BitVec.ofNat 8 bar) newBase).device = rebase device bar newBase
  reads : actualBase (pcieRemapBar ecam device (BitVec.ofNat 8 bar) newBase).ecam device.slot (barOffset bar)
    (device.bar bar) = newBase

/-- For every memory map and every MCFG table: the hole ends below the firmware flash. After any
requests to the bump heap over it, an address for a valid record of the enumeration passes
every argument check, and on registers that keep what the probe saw the remap succeeds,
whatever has been stored since. With such registers throughout, the enumeration returns. -/
theorem hole_addresses_accepted (map : E820Map) (table : Table) (hole : Span)
    (found : findMmioHole map table = some hole) (fresh : Fresh) (ecam : Ecam) (entries : List McfgEntry) :
    hole.hi ≤ 0xFFC00000 ∧
    (∀ requests, ∀ device ∈ (enumerate fresh ecam entries).shrink, ∀ bar : Fin 6,
      (device.bar bar).isValid = true →
      (device.bar bar).barSize ≠ 0 ∧
      (ptrFor (afterRequests (bumpHeap hole) requests) (device.bar bar) ≠ 0 →
        refusal (device.bar bar) (ptrFor (afterRequests (bumpHeap hole) requests) (device.bar bar)) = none ∧
        (KeepsProbed ecam device.slot bar (device.bar bar) → ∀ later, SameFixed ecam later →
          Accepts later device bar (ptrFor (afterRequests (bumpHeap hole) requests) (device.bar bar))))) ∧
    ((∀ device ∈ (enumerate fresh ecam entries).shrink, ∀ bar : Fin 6, (device.bar bar).isValid = true →
        KeepsProbed ecam device.slot bar (device.bar bar)) →
      ∃ result, pcieGetDevices bumpAllocAligned fresh ecam entries (bumpHeap hole) = .ok result) := by
  have flash := hole_below_flash found
  have nonempty := (hole_largest found).free.nonempty
  have below : Below (bumpHeap hole) := by
    obtain ⟨within, _, _, stop⟩ := bumpHeap_within nonempty.le (show hole.hi ≤ 2 ^ 32 by omega)
    exact ⟨within, stop.trans_le flash⟩
  obtain ⟨restored, shrunk⟩ := enumerate_found fresh ecam entries
  rw [shrunk]
  refine ⟨flash, ?_, ?_⟩
  · intro requests device member bar valid
    obtain ⟨slot, _, rfl⟩ := List.mem_map.mp member
    obtain ⟨sized, nonzero⟩ := @record_sized ecam slot bar valid
    refine ⟨nonzero, ?_⟩
    intro some
    obtain ⟨k, power, aligned, room⟩ := bump_natural (below.afterRequests requests) nonzero some
    refine ⟨refusal_none sized power aligned room, ?_⟩
    intro keeps later same
    obtain ⟨done, reads⟩ := @pcieRemapBar_accepts ecam later (deviceAt ecam slot) bar _ _ k same keeps none rfl valid
      sized power aligned room
    have done' : pcieRemapBar later (deviceAt ecam slot) (BitVec.ofNat 8 bar)
        (ptrFor (afterRequests (bumpHeap hole) requests) ((deviceAt ecam slot).bar bar)) = _ := done
    constructor
    · rw [done']
    · rw [done']
      rfl
    · rw [done']
      exact reads
  · intro keeps
    unfold pcieGetDevices
    dsimp only
    rw [restored, shrunk]
    apply assignAll_runs _ (SameFixed.refl ecam) below
    intro slot member bar valid
    exact keeps (deviceAt ecam slot) (List.mem_map_of_mem member) bar valid

instance (ecam : Ecam) (slot : Slot) (offset : Nat) (flags : BitVec 32) :
    Decidable (Exact ecam slot offset flags) := by
  unfold Exact; infer_instance

instance (ecam : Ecam) (slot : Slot) (bar : Fin 6) (record : BarRecord) :
    Decidable (KeepsProbed ecam slot bar record) :=
  decidable_of_iff (Exact ecam slot (barOffset bar) (flagBits record.isIo) ∧
      (record.is64Bits = true → Exact ecam slot (barOffset bar + 4) 0))
    ⟨fun both => ⟨both.1, both.2⟩, fun keeps => ⟨keeps.low, keeps.high⟩⟩

/-- A map with two gigabytes of memory leaves the hole up to the I/O APIC. -/
theorem two_bars_accepted : ∃ result, pcieGetDevices bumpAllocAligned (fun _ _ => blank) twoBars oneBus
      (bumpHeap ⟨0x80000000, 0xFEC00000⟩) = .ok result :=
  (hole_addresses_accepted shortBoot.map emptyMcfg ⟨0x80000000, 0xFEC00000⟩ (by decide +kernel) (fun _ _ => blank)
    twoBars oneBus).2.2 (by decide +kernel)

end Ketone.Pcie.Acceptance
