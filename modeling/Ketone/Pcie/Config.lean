import Ketone.Acpi.Mcfg
import Ketone.Library.MaskedRegisters

/-! Configuration space as the driver reaches it: the functions of each bus answer
at their own address in the ECAM window, register by register. -/

namespace Ketone.Pcie.Config
open Library Library.MaskedRegisters Acpi.Mcfg

def pcieConfigAddr (base : BitVec 64) (bus device function : BitVec 8) (offset : BitVec 16) : BitVec 64 :=
  base + (bus.setWidth 64 <<< 20) + (device.setWidth 64 <<< 15) + (function.setWidth 64 <<< 12) +
    offset.setWidth 64

/-- The entries `PCIE_init` counts: the length less the header and the reserved bytes. -/
def pcieInit (table : Table) : List McfgEntry :=
  let entryCount : BitVec 32 := ((length table - 44).setWidth 64 / BitVec.ofNat 64 entrySize).setWidth 32
  entriesAt table 44 entryCount.toNat

structure Slot where
  entry : McfgEntry
  bus : BitVec 8
  device : BitVec 8
  function : BitVec 8
deriving DecidableEq

def Slot.addr (slot : Slot) (offset : BitVec 16) : BitVec 64 :=
  pcieConfigAddr slot.entry.baseAddress slot.bus slot.device slot.function offset

def busesOf (entry : McfgEntry) : List (BitVec 8) :=
  (List.range' entry.startBus.toNat (entry.endBus.toNat + 1 - entry.startBus.toNat)).map (BitVec.ofNat 8)

def slots (entries : List McfgEntry) : List Slot :=
  entries.flatMap fun entry => (busesOf entry).flatMap fun bus => (List.range 32).flatMap fun device =>
    (List.range 8).map fun function => ⟨entry, bus, BitVec.ofNat 8 device, BitVec.ofNat 8 function⟩

/-- The functions that respond, by their configuration address. -/
abbrev Ecam := BitVec 64 → Option (File 32)

namespace Ecam

/-- Where nothing responds all bits read as ones. -/
def read32 (ecam : Ecam) (slot : Slot) (offset : Nat) : BitVec 32 :=
  match ecam (slot.addr 0) with
  | some function => function.value (offset / 4)
  | none => BitVec.allOnes 32

def read16 (ecam : Ecam) (slot : Slot) (offset : Nat) : BitVec 16 :=
  (ecam.read32 slot offset >>> (8 * (offset % 4))).setWidth 16

def store (ecam : Ecam) (slot : Slot) (offset : Nat) (new enable : BitVec 32) : Ecam := fun addr =>
  if addr = slot.addr 0 then (ecam addr).map fun function => function.store (offset / 4) new enable
  else ecam addr

def write32 (ecam : Ecam) (slot : Slot) (offset : Nat) (new : BitVec 32) : Ecam :=
  ecam.store slot offset new (BitVec.allOnes 32)

def write16 (ecam : Ecam) (slot : Slot) (offset : Nat) (new : BitVec 16) : Ecam :=
  ecam.store slot offset (new.setWidth 32 <<< (8 * (offset % 4)))
    ((0xFFFF : BitVec 32) <<< (8 * (offset % 4)))

def writable32 (ecam : Ecam) (slot : Slot) (offset : Nat) : BitVec 32 :=
  match ecam (slot.addr 0) with
  | some function => function.writable (offset / 4)
  | none => 0

section
variable (ecam : Ecam) (slot : Slot)

theorem writable32_store (other : Slot) (offset offset' : Nat) (new enable : BitVec 32) :
    (ecam.store other offset' new enable).writable32 slot offset = ecam.writable32 slot offset := by
  unfold writable32 store
  by_cases here : slot.addr 0 = other.addr 0
  · rw [if_pos here]
    cases ecam (slot.addr 0) <;> rfl
  · rw [if_neg here]

theorem readOnly_store (other : Slot) (offset offset' : Nat) (new enable : BitVec 32) :
    (ecam.store other offset' new enable).read32 slot offset &&& ~~~ecam.writable32 slot offset =
      ecam.read32 slot offset &&& ~~~ecam.writable32 slot offset := by
  unfold read32 writable32 store
  by_cases here : slot.addr 0 = other.addr 0
  · rw [if_pos here]
    cases ecam (slot.addr 0) with
    | none => rfl
    | some function => exact store_readOnly function _ _ _ _
  · rw [if_neg here]

theorem read32_write32_same (offset : Nat) (new : BitVec 32) :
    (ecam.write32 slot offset new).read32 slot offset =
      merge (ecam.read32 slot offset) new (ecam.writable32 slot offset) := by
  unfold read32 writable32 write32 store
  rw [if_pos rfl]
  cases ecam (slot.addr 0) with
  | none => exact (merge_zero _ _).symm
  | some function =>
    dsimp only [Option.map_some]
    rw [store_same, BitVec.and_allOnes]

theorem read32_store_other {offset other : Nat} (different : other / 4 ≠ offset / 4) (new enable : BitVec 32) :
    (ecam.store slot offset new enable).read32 slot other = ecam.read32 slot other := by
  unfold read32 store
  rw [if_pos rfl]
  cases ecam (slot.addr 0) with
  | none => rfl
  | some function => exact store_other function different _ _

theorem store_comm {offset other : Nat} (different : offset / 4 ≠ other / 4)
    (new enable new' enable' : BitVec 32) :
    (ecam.store slot offset new enable).store slot other new' enable' =
      (ecam.store slot other new' enable').store slot offset new enable := by
  funext addr
  unfold store
  by_cases here : addr = slot.addr 0
  · simp only [if_pos here]
    cases ecam addr with
    | none => rfl
    | some function => exact congrArg some (MaskedRegisters.store_comm function different _ _ _ _)
  · simp only [if_neg here]

theorem store_back {offset : Nat} {back enable : BitVec 32} (new : BitVec 32)
    (agree : back &&& enable = ecam.read32 slot offset &&& enable) :
    (ecam.store slot offset new enable).store slot offset back enable = ecam := by
  funext addr
  unfold store
  by_cases here : addr = slot.addr 0
  · rw [if_pos here, if_pos here]
    unfold read32 at agree
    rw [← here] at agree
    cases present : ecam addr with
    | none => rfl
    | some function =>
      rw [present] at agree
      exact congrArg some (MaskedRegisters.store_back function new agree)
  · rw [if_neg here, if_neg here]

theorem write32_back (offset : Nat) (new : BitVec 32) :
    (ecam.write32 slot offset new).write32 slot offset (ecam.read32 slot offset) = ecam :=
  store_back ecam slot new rfl

theorem read32_write32_other {offset other : Nat} (different : other / 4 ≠ offset / 4) (new : BitVec 32) :
    (ecam.write32 slot offset new).read32 slot other = ecam.read32 slot other :=
  read32_store_other ecam slot different _ _

theorem read32_write16_other {offset other : Nat} (different : other / 4 ≠ offset / 4) (new : BitVec 16) :
    (ecam.write16 slot offset new).read32 slot other = ecam.read32 slot other :=
  read32_store_other ecam slot different _ _

theorem low_half (x : BitVec 32) : (x.setWidth 16).setWidth 32 &&& 0xFFFF = x &&& 0xFFFF := by
  apply BitVec.eq_of_toNat_eq
  simp only [BitVec.toNat_and, BitVec.toNat_setWidth]
  change x.toNat % 2 ^ 16 % 2 ^ 32 &&& (2 ^ 16 - 1) = x.toNat &&& (2 ^ 16 - 1)
  rw [Nat.and_two_pow_sub_one_eq_mod, Nat.and_two_pow_sub_one_eq_mod]
  omega

theorem write16_back (new : BitVec 16) :
    (ecam.write16 slot 4 new).write16 slot 4 (ecam.read16 slot 4) = ecam := by
  apply store_back ecam slot
  change ((ecam.read32 slot 4 >>> 0).setWidth 16).setWidth 32 <<< 0 &&& (0xFFFF : BitVec 32) <<< 0 =
    _ &&& (0xFFFF : BitVec 32) <<< 0
  rw [BitVec.ushiftRight_zero, BitVec.shiftLeft_zero, BitVec.shiftLeft_zero]
  exact low_half _

end

end Ecam

end Ketone.Pcie.Config
