import Ketone.Library.Align
import Ketone.Library.Gap
import Ketone.Pcie.Config
import Mathlib.Data.List.FinRange

/-! The enumeration: every function that responds is probed register by register
and recorded in a buffer that grows as devices are found. -/

namespace Ketone.Pcie.Probe
open Library.Align Library.Gap Acpi.Mcfg Config

structure BarRecord where
  isValid : Bool
  is64Bits : Bool
  isIo : Bool
  isPrefetchable : Bool
  base : BitVec 64
  barSize : BitVec 64
deriving DecidableEq

namespace BarRecord

/-- The record after it has been given a place, or none. -/
def moved (record : BarRecord) (place : Option (BitVec 64)) : BarRecord :=
  match place with
  | none => record
  | some newBase => { record with base := newBase }

/-- What a record asks the bump heap for; an invalid one asks for nothing. -/
def request (record : BarRecord) : Nat := if record.isValid then record.barSize.toNat else 0

def Memory (record : BarRecord) : Prop := record.isValid = true ∧ record.isIo = false

def Port (record : BarRecord) : Prop := record.isValid = true ∧ record.isIo = true

instance (record : BarRecord) : Decidable record.Memory := by
  unfold Memory; infer_instance

instance (record : BarRecord) : Decidable record.Port := by
  unfold Port; infer_instance

def range (record : BarRecord) : Span := ⟨record.base.toNat, record.base.toNat + record.barSize.toNat⟩

end BarRecord

structure Device where
  busType : BitVec 8
  bus : BitVec 8
  device : BitVec 8
  function : BitVec 8
  vendorId : BitVec 16
  deviceId : BitVec 16
  classCode : BitVec 8
  subclass : BitVec 8
  progIf : BitVec 8
  revision : BitVec 8
  bar : Fin 6 → BarRecord
  driverData : McfgEntry

def Device.slot (device : Device) : Slot :=
  ⟨device.driverData, device.bus, device.device, device.function⟩

def COMPONENT_DEVICE_TYPE_PCIE : BitVec 8 := 1

structure Sized where
  ecam : Ecam
  barDataHigh : BitVec 32
  mask : BitVec 32
  maskHigh : BitVec 32

/-- Write all ones, read the mask back, restore; decoding is off meanwhile. -/
def sizeBar (ecam : Ecam) (slot : Slot) (offset : Nat) (barData : BitVec 32) (is64 : Bool) : Sized :=
  let barDataHigh := if is64 then ecam.read32 slot (offset + 4) else 0
  let command := ecam.read16 slot 0x04
  let ecam := ecam.write16 slot 0x04 (command &&& ~~~3)
  let ecam := ecam.write32 slot offset 0xFFFFFFFF
  let ecam := if is64 then ecam.write32 slot (offset + 4) 0xFFFFFFFF else ecam
  let mask := ecam.read32 slot offset
  let maskHigh := if is64 then ecam.read32 slot (offset + 4) else 0
  let ecam := if is64 then ecam.write32 slot (offset + 4) barDataHigh else ecam
  let ecam := ecam.write32 slot offset barData
  let ecam := ecam.write16 slot 0x04 command
  ⟨ecam, barDataHigh, mask, maskHigh⟩

def isIoBar (barData : BitVec 32) : Bool := barData &&& 1 != 0

def is64Bar (barData : BitVec 32) : Bool := !isIoBar barData && (barData >>> 1) &&& 3 == 2

def isPrefetchableBar (barData : BitVec 32) : Bool := barData &&& 8 != 0

/-- Kind, base and size from the register and the masks. -/
def classify (barData barDataHigh mask maskHigh : BitVec 32) : BarRecord :=
  let record (isValid : Bool) (base size : BitVec 64) : BarRecord :=
    ⟨isValid, is64Bar barData, isIoBar barData, isPrefetchableBar barData, base, size⟩
  if isIoBar barData then
    let maskC := mask &&& ~~~3
    let size := ~~~maskC + 1
    record (!(maskC == 0 || size == 0)) ((barData &&& ~~~3).setWidth 64) (size.setWidth 64)
  else if (barData >>> 1) &&& 3 = 3 then record false 0 0
  else if is64Bar barData then
    let maskC := (maskHigh.setWidth 64 <<< 32) ||| (mask.setWidth 64 &&& ~~~0xF)
    let size := ~~~maskC + 1
    record (!(maskC == 0 || size == 0))
      ((barDataHigh.setWidth 64 <<< 32) ||| (barData.setWidth 64 &&& ~~~0xF)) size
  else
    let maskC := mask &&& ~~~0xF
    let size := ~~~maskC + 1
    record (!(maskC == 0 || size == 0)) ((barData &&& ~~~0xF).setWidth 64) (size.setWidth 64)

structure Probing where
  ecam : Ecam
  lastBarWas64 : Bool

def barOffset (bar : Nat) : Nat := 0x10 + bar * 4

def probeBar (slot : Slot) (bar : Nat) (p : Probing) : Probing × BarRecord :=
  let barData := p.ecam.read32 slot (barOffset bar)
  if p.lastBarWas64 then
    (⟨p.ecam, false⟩, ⟨false, false, isIoBar barData, isPrefetchableBar barData, 0, 0⟩)
  else
    let sized := sizeBar p.ecam slot (barOffset bar) barData (is64Bar barData)
    (⟨sized.ecam, is64Bar barData⟩, classify barData sized.barDataHigh sized.mask sized.maskHigh)

/-- `devices` is the memory of the buffer, of which `devicesSize` records are its own
and `devicesIdx` are complete. -/
structure Scan where
  ecam : Ecam
  devicesSize : Nat
  devices : Nat → Device
  devicesIdx : Nat

/-- What a fresh buffer of a given number of records happens to hold. -/
abbrev Fresh := Nat → Nat → Device

def Scan.grow (fresh : Fresh) (scan : Scan) : Scan :=
  if scan.devicesIdx ≥ scan.devicesSize then
    { scan with
      devicesSize := scan.devicesSize + 8
      devices := fun k =>
        if k < scan.devicesSize then scan.devices k else fresh (scan.devicesSize + 8) k }
  else scan

def Scan.modify (scan : Scan) (change : Device → Device) : Scan :=
  { scan with devices := fun k => if k = scan.devicesIdx then change (scan.devices k) else scan.devices k }

def probeStep (fresh : Fresh) (slot : Slot) (state : Scan × Bool) (bar : Fin 6) : Scan × Bool :=
  let probed := probeBar slot bar ⟨state.1.ecam, state.2⟩
  let scan := Scan.grow fresh { state.1 with ecam := probed.1.ecam }
  (scan.modify fun device =>
    { device with bar := fun b => if b = bar then probed.2 else device.bar b }, probed.1.lastBarWas64)

def scanSlot (fresh : Fresh) (scan : Scan) (slot : Slot) : Scan :=
  let id := scan.ecam.read32 slot 0
  let vendorId := id.setWidth 16
  if vendorId = 0xFFFF then scan
  else
    let scan := ((List.finRange 6).foldl (probeStep fresh slot) (scan, false)).1
    let classInfo := scan.ecam.read32 slot 0x08
    let scan := scan.modify fun device =>
      { bar := device.bar
        bus := slot.bus
        device := slot.device
        function := slot.function
        busType := COMPONENT_DEVICE_TYPE_PCIE
        classCode := (classInfo >>> 24).setWidth 8
        progIf := (classInfo >>> 8).setWidth 8
        revision := classInfo.setWidth 8
        subclass := (classInfo >>> 16).setWidth 8
        deviceId := (id >>> 16).setWidth 16
        vendorId := vendorId
        driverData := slot.entry }
    { scan with devicesIdx := scan.devicesIdx + 1 }

def enumerate (fresh : Fresh) (ecam : Ecam) (entries : List McfgEntry) : Scan :=
  (slots entries).foldl (scanSlot fresh) ⟨ecam, 16, fresh 16, 0⟩

/-- The buffer after it has been cut to the devices found. -/
def Scan.shrink (scan : Scan) : List Device :=
  let size := if scan.devicesIdx < scan.devicesSize then scan.devicesIdx else scan.devicesSize
  (List.range size).map scan.devices

theorem wide_mask (x : BitVec 32) : x.setWidth 64 &&& ~~~0xF = (x &&& ~~~0xF).setWidth 64 := by
  apply BitVec.eq_of_toNat_eq
  have power : (16 : BitVec 64).toNat = 2 ^ 4 := rfl
  have power' : (16 : BitVec 32).toNat = 2 ^ 4 := rfl
  have wide := toNat_and_not_pred power (x.setWidth 64)
  have narrow := toNat_and_not_pred power' x
  have bound := x.isLt
  change (x.setWidth 64 &&& ~~~((16 : BitVec 64) - 1)).toNat = ((x &&& ~~~((16 : BitVec 32) - 1)).setWidth 64).toNat
  rw [wide, BitVec.toNat_setWidth, BitVec.toNat_setWidth, narrow]
  omega

theorem io_of_is64 {barData : BitVec 32} (is64 : is64Bar barData = true) : isIoBar barData = false := by
  unfold is64Bar at is64
  cases kind : isIoBar barData with
  | false => rfl
  | true => simp [kind] at is64

theorem classify_kind (barData barDataHigh mask maskHigh : BitVec 32) :
    (classify barData barDataHigh mask maskHigh).isIo = isIoBar barData ∧
      (classify barData barDataHigh mask maskHigh).is64Bits = is64Bar barData := by
  unfold classify
  dsimp only
  split
  · exact ⟨rfl, rfl⟩
  · split
    · exact ⟨rfl, rfl⟩
    · split <;> exact ⟨rfl, rfl⟩

section
variable (ecam : Ecam) (slot : Slot)

theorem sizeBar_ecam {offset : Nat} (behind : 8 ≤ offset) (is64 : Bool) :
    (sizeBar ecam slot offset (ecam.read32 slot offset) is64).ecam = ecam := by
  have low : offset / 4 ≠ 1 := by omega
  have high : (offset + 4) / 4 ≠ 1 := by omega
  have apart : (offset + 4) / 4 ≠ offset / 4 := by omega
  unfold sizeBar
  dsimp only
  generalize ecam.read16 slot 4 &&& ~~~3 = off
  have data : ecam.read32 slot offset = (ecam.write16 slot 4 off).read32 slot offset :=
    (ecam.read32_write16_other slot low off).symm
  have upper : ecam.read32 slot (offset + 4) =
      ((ecam.write16 slot 4 off).write32 slot offset 0xFFFFFFFF).read32 slot (offset + 4) := by
    rw [Ecam.read32_write32_other _ slot apart, ecam.read32_write16_other slot high]
  cases is64 with
  | false =>
    simp only [Bool.false_eq_true, if_false]
    rw [data, Ecam.write32_back, Ecam.write16_back]
  | true =>
    simp only [if_true]
    rw [upper, Ecam.write32_back, data, Ecam.write32_back, Ecam.write16_back]

theorem probeBar_ecam (bar : Nat) (last : Bool) : (probeBar slot bar ⟨ecam, last⟩).1.ecam = ecam := by
  unfold probeBar
  cases last with
  | true => rfl
  | false => exact sizeBar_ecam ecam slot (by unfold barOffset; omega) _

end

section
variable (ecam : Ecam) (slot : Slot)

def lastBarWas64 : Nat → Bool
  | 0 => false
  | bar + 1 => (probeBar slot bar ⟨ecam, lastBarWas64 bar⟩).1.lastBarWas64

def barRecord (bar : Nat) : BarRecord := (probeBar slot bar ⟨ecam, lastBarWas64 ecam slot bar⟩).2

def responds : Bool := (ecam.read32 slot 0).setWidth 16 != 0xFFFF

/-- The record of a responding function, read off the registers as they are. -/
def deviceAt : Device where
  busType := COMPONENT_DEVICE_TYPE_PCIE
  bus := slot.bus
  device := slot.device
  function := slot.function
  vendorId := (ecam.read32 slot 0).setWidth 16
  deviceId := (ecam.read32 slot 0 >>> 16).setWidth 16
  classCode := (ecam.read32 slot 8 >>> 24).setWidth 8
  subclass := (ecam.read32 slot 8 >>> 16).setWidth 8
  progIf := (ecam.read32 slot 8 >>> 8).setWidth 8
  revision := (ecam.read32 slot 8).setWidth 8
  bar := fun b => barRecord ecam slot b
  driverData := slot.entry

end

section
variable {fresh : Fresh} {slot : Slot} {start : Scan}

/-- After `n` registers: the devices found before are kept, the first `n` records of the
next one are in place, and the configuration space is as it was. -/
structure Probed (slot : Slot) (start : Scan) (n : Nat) (state : Scan × Bool) : Prop where
  ecam : state.1.ecam = start.ecam
  idx : state.1.devicesIdx = start.devicesIdx
  last : state.2 = lastBarWas64 start.ecam slot n
  room : 0 < n → start.devicesIdx < state.1.devicesSize
  bounded : start.devicesIdx ≤ state.1.devicesSize
  kept : ∀ k, k < start.devicesIdx → state.1.devices k = start.devices k
  bars : ∀ b : Fin 6, b.val < n → (state.1.devices start.devicesIdx).bar b = barRecord start.ecam slot b

theorem probed_step (bar : Fin 6) {n : Nat} (turn : bar.val = n) {state : Scan × Bool}
    (probed : Probed slot start n state) : Probed slot start (n + 1) (probeStep fresh slot state bar) := by
  subst turn
  obtain ⟨ecam, idx, last, room, bounded, kept, bars⟩ := probed
  have record : probeBar slot bar ⟨state.1.ecam, state.2⟩ =
      probeBar slot bar ⟨start.ecam, lastBarWas64 start.ecam slot bar⟩ := by rw [ecam, last]
  unfold probeStep
  dsimp only
  rw [record, probeBar_ecam]
  generalize grown : Scan.grow fresh { state.1 with ecam := start.ecam } = scan
  have same : scan.ecam = start.ecam ∧ scan.devicesIdx = start.devicesIdx ∧
      start.devicesIdx < scan.devicesSize ∧
      (∀ k, k < start.devicesIdx → scan.devices k = start.devices k) ∧
      ∀ b : Fin 6, b.val < bar.val → (scan.devices start.devicesIdx).bar b = barRecord start.ecam slot b := by
    unfold Scan.grow at grown
    dsimp only at grown
    by_cases full : state.1.devicesIdx ≥ state.1.devicesSize
    · rw [if_pos full] at grown
      subst grown
      refine ⟨rfl, idx, by dsimp only; omega, ?_, ?_⟩
      · intro k below
        dsimp only
        rw [if_pos (by omega)]
        exact kept k below
      · intro b below
        have := room (by omega)
        omega
    · rw [if_neg full] at grown
      subst grown
      exact ⟨rfl, idx, by dsimp only; omega, kept, bars⟩
  obtain ⟨ecam', idx', room', kept', bars'⟩ := same
  refine ⟨ecam', idx', rfl, fun _ => room', room'.le, ?_, ?_⟩
  · intro k below
    simp only [Scan.modify, idx']
    rw [if_neg (by omega)]
    exact kept' k below
  · intro b below
    simp only [Scan.modify, idx', if_true]
    by_cases here : b = bar
    · rw [if_pos here, here]
      rfl
    · rw [if_neg here]
      have distinct : b.val ≠ bar.val := fun same => here (Fin.ext same)
      exact bars' b (by omega)

theorem probed_all (fresh : Fresh) (slot : Slot) (bounded : start.devicesIdx ≤ start.devicesSize) :
    Probed slot start 6 ((List.finRange 6).foldl (probeStep fresh slot) (start, false)) := by
  have initial : Probed slot start 0 (start, false) :=
    ⟨rfl, rfl, rfl, by omega, bounded, fun _ _ => rfl, by omega⟩
  have list : List.finRange 6 = [0, 1, 2, 3, 4, 5] := by decide
  rw [list]
  exact probed_step 5 rfl (probed_step 4 rfl (probed_step 3 rfl (probed_step 2 rfl (probed_step 1 rfl
    (probed_step 0 rfl initial)))))

/-- The devices found so far, in a buffer that holds them. -/
structure Found (ecam : Ecam) (devices : List Device) (scan : Scan) : Prop where
  ecam : scan.ecam = ecam
  idx : scan.devicesIdx = devices.length
  room : scan.devicesIdx ≤ scan.devicesSize
  held : (List.range devices.length).map scan.devices = devices

theorem scanSlot_silent {ecam : Ecam} {scan : Scan} (same : scan.ecam = ecam)
    (silent : responds ecam slot = false) : scanSlot fresh scan slot = scan := by
  have id : (scan.ecam.read32 slot 0).setWidth 16 = 0xFFFF := by
    rw [same]
    simpa [responds] using silent
  exact if_pos id

theorem found_scanSlot {ecam : Ecam} {devices : List Device} {scan : Scan} (found : Found ecam devices scan)
    (some : responds ecam slot = true) :
    Found ecam (devices ++ [deviceAt ecam slot]) (scanSlot fresh scan slot) := by
  obtain ⟨same, idx, room, held⟩ := found
  have id : (scan.ecam.read32 slot 0).setWidth 16 ≠ 0xFFFF := by
    rw [same]
    simpa [responds] using some
  unfold scanSlot
  dsimp only
  rw [if_neg id]
  obtain ⟨ecam', idx', _, room', _, kept, bars⟩ := probed_all fresh slot room
  generalize ((List.finRange 6).foldl (probeStep fresh slot) (scan, false)).1 = probed at *
  have room'' := room' (by decide)
  refine ⟨?_, ?_, ?_, ?_⟩
  · exact ecam'.trans same
  · simp only [Scan.modify, List.length_append, List.length_singleton]
    omega
  · simp only [Scan.modify]
    omega
  · rw [List.length_append, List.length_singleton, List.range_succ, List.map_append, List.map_singleton]
    congr 1
    · conv_rhs => rw [← held]
      apply List.map_congr_left
      intro k member
      have below := List.mem_range.mp member
      simp only [Scan.modify]
      rw [if_neg (by omega)]
      exact kept k (by omega)
    · simp only [Scan.modify, idx', idx, if_true]
      have records : (probed.devices devices.length).bar = fun b : Fin 6 => barRecord ecam slot b := by
        funext b
        rw [← idx, bars b b.isLt, same]
      rw [records, ecam', same]
      rfl

/-- The records the enumeration must return: one for each function that responds, in scan order. -/
def responding (ecam : Ecam) (entries : List McfgEntry) : List Slot :=
  (slots entries).filter (responds ecam)

theorem found_foldl (fresh : Fresh) {ecam : Ecam} {devices : List Device} {scan : Scan} (found : Found ecam devices scan)
    (all : List Slot) : Found ecam (devices ++ (all.filter (responds ecam)).map (deviceAt ecam))
      (all.foldl (scanSlot fresh) scan) := by
  induction all generalizing devices scan with
  | nil => simpa using found
  | cons slot rest ih =>
    rw [List.foldl_cons]
    cases answer : responds ecam slot with
    | false =>
      rw [scanSlot_silent found.ecam answer, List.filter_cons_of_neg (by simp [answer])]
      exact ih found
    | true =>
      rw [List.filter_cons_of_pos answer, List.map_cons, ← List.singleton_append, ← List.append_assoc]
      exact ih (found_scanSlot found answer)

end

/-- The enumeration leaves the configuration space as it found it, and its buffer holds one
record for each responding function, in the order of the scan. -/
theorem enumerate_found (fresh : Fresh) (ecam : Ecam) (entries : List McfgEntry) :
    (enumerate fresh ecam entries).ecam = ecam ∧
      (enumerate fresh ecam entries).shrink = (responding ecam entries).map (deviceAt ecam) := by
  have initial : Found ecam [] ⟨ecam, 16, fresh 16, 0⟩ := ⟨rfl, rfl, Nat.zero_le _, rfl⟩
  obtain ⟨same, idx, room, held⟩ : Found ecam _ (enumerate fresh ecam entries) :=
    found_foldl fresh initial (slots entries)
  refine ⟨same, ?_⟩
  have size : (if (enumerate fresh ecam entries).devicesIdx < (enumerate fresh ecam entries).devicesSize
      then (enumerate fresh ecam entries).devicesIdx else (enumerate fresh ecam entries).devicesSize) =
      (enumerate fresh ecam entries).devicesIdx := by
    split <;> omega
  unfold Scan.shrink
  dsimp only
  rw [size, idx, held, List.nil_append]
  rfl

end Ketone.Pcie.Probe
