import Ketone.Disk.Ata

/-! The model string of a drive, as each of the two drivers takes it from the block that identifies the drive. -/

namespace Ketone.Disk.ModelString
open Ata

/-- DISK_DEVICE_TYPE_e -/
inductive DiskType where
  | none
  | ata
  | sata
deriving DecidableEq

abbrev Name := Vector (BitVec 8) 41

/-- `disk_device_t`, with the data of the ATA driver behind it. -/
structure DiskDevice where
  name : Name
  type : DiskType
  channMain : BitVec 32
  channSub : BitVec 32
  size : BitVec 64
  hasLBA48 : Bool

def ataSwapWord (word : BitVec 16) : BitVec 8 × BitVec 8 := ((word >>> 8).setWidth 8, (word &&& 0xFF).setWidth 8)

/-- The loop of `ATA_identify` over the words of the model string. -/
structure Spelling where
  k : BitVec 16
  name : Name

def spellTurn (identify : Nat → BitVec 16) (s : Spelling) (i : Nat) : Spelling :=
  let (a, b) := ataSwapWord (identify i)
  ⟨s.k + 2, (s.name.setIfInBounds s.k.toNat a).setIfInBounds (s.k + 1).toNat b⟩

def ataName (identify : Nat → BitVec 16) (name : Name) : Name :=
  let s := (List.range' 27 (46 - 27)).foldl (spellTurn identify) ⟨0, name⟩
  s.name.setIfInBounds 40 0

def ataSize (identify : Nat → BitVec 16) (hasLBA48 : Bool) : BitVec 64 :=
  if hasLBA48 then ((identify 103).setWidth 64 <<< 48 ||| (identify 102).setWidth 64 <<< 32 |||
    (identify 101).setWidth 64 <<< 16 ||| (identify 100).setWidth 64) * 512
  else ((identify 61).setWidth 64 <<< 16 ||| (identify 60).setWidth 64) * 512

/-- The record comes from the heap with what it held `before`. -/
def ataIdentify (chann sub : BitVec 32) (answers : AtaAnswers) (before : DiskDevice) : DiskDevice :=
  let device := { before with channMain := chann, channSub := sub }
  let status := waitForData answers.status 1000000 0 0
  if status &&& 0x01 ≠ 0 then { device with type := .none }
  else if status &&& 0x08 = 0 then { device with type := .none }
  else
    let identify := answers.data
    let hasLBA48 := identify 83 &&& 0x0400 ≠ 0
    { device with
      type := .ata
      name := ataName identify device.name
      hasLBA48 := hasLBA48
      size := ataSize identify hasLBA48 }

def sataGetModel (identify : Nat → BitVec 16) (model : Name) : Name :=
  let model := (List.range 20).foldl (fun model i =>
    (model.setIfInBounds (i * 2) ((identify (27 + i) >>> 8).setWidth 8)).setIfInBounds (i * 2 + 1)
      ((identify (27 + i) &&& 0xFF).setWidth 8)) model
  model.setIfInBounds 40 0

def stringByte (identify : Nat → BitVec 16) (j : Nat) : BitVec 8 :=
  if j % 2 = 0 then (identify (27 + j / 2)).extractLsb' 8 8 else (identify (27 + j / 2)).extractLsb' 0 8

def modelString (identify : Nat → BitVec 16) : Name := Vector.ofFn fun j => if j.val < 40 then stringByte identify j else 0

def Alike (identify : Nat → BitVec 16) (ata sata : Name) : Prop :=
  ata = sata ∧ sata = modelString identify

section
variable {identify : Nat → BitVec 16}

theorem high_byte (word : BitVec 16) : (word >>> 8).setWidth 8 = word.extractLsb' 8 8 := rfl

theorem low_byte (word : BitVec 16) : (word &&& 0xFF).setWidth 8 = word.extractLsb' 0 8 := by
  apply BitVec.eq_of_toNat_eq
  rw [BitVec.toNat_setWidth, BitVec.toNat_and, BitVec.extractLsb'_toNat, Nat.shiftRight_zero]
  change (word.toNat &&& 2 ^ 8 - 1) % 2 ^ 8 = _
  rw [Nat.and_two_pow_sub_one_eq_mod, Nat.mod_mod]

/-- The string after some words, in front of what was there. -/
def spelled (identify : Nat → BitVec 16) (name : Name) (count : Nat) : Name :=
  (List.range count).foldl (fun model i =>
    (model.setIfInBounds (i * 2) ((identify (27 + i) >>> 8).setWidth 8)).setIfInBounds (i * 2 + 1)
      ((identify (27 + i) &&& 0xFF).setWidth 8)) name

theorem getElem_spelled (name : Name) (count : Nat) {j : Nat} (below : j < 41) :
    (spelled identify name count)[j] = if j < 2 * count then stringByte identify j else name[j] := by
  induction count with
  | zero => rfl
  | succ count ih =>
    unfold spelled at ih ⊢
    rw [List.range_succ, List.foldl_append, List.foldl_cons, List.foldl_nil, Vector.getElem_setIfInBounds,
      Vector.getElem_setIfInBounds, ih, high_byte, low_byte]
    by_cases second : count * 2 + 1 = j
    · rw [if_pos second, if_pos (by omega), stringByte, if_neg (by omega), show j / 2 = count by omega]
    · rw [if_neg second]
      by_cases first : count * 2 = j
      · rw [if_pos first, if_pos (by omega), stringByte, if_pos (by omega), show j / 2 = count by omega]
      · rw [if_neg first]
        by_cases before : j < 2 * count
        · rw [if_pos before, if_pos (by omega)]
        · rw [if_neg before, if_neg (by omega)]

theorem spell_eq (name : Name) {count : Nat} (small : count < 2 ^ 15) :
    (List.range' 27 count).foldl (spellTurn identify) ⟨0, name⟩ =
      ⟨BitVec.ofNat 16 (count * 2), spelled identify name count⟩ := by
  induction count with
  | zero => rfl
  | succ count ih =>
    have first : (BitVec.ofNat 16 (count * 2)).toNat = count * 2 := by
      rw [BitVec.toNat_ofNat]
      omega
    have second : (BitVec.ofNat 16 (count * 2) + 1).toNat = count * 2 + 1 := by
      rw [BitVec.toNat_add, first]
      change (_ + 1) % 2 ^ 16 = _
      omega
    have next : BitVec.ofNat 16 (count * 2) + 2 = BitVec.ofNat 16 ((count + 1) * 2) := by
      rw [Nat.succ_mul, BitVec.ofNat_add]
      rfl
    rw [List.range'_concat, List.foldl_append, ih (by omega), List.foldl_cons, List.foldl_nil, Nat.one_mul, spellTurn]
    dsimp only [ataSwapWord]
    rw [first, second, next, spelled, spelled, List.range_succ, List.foldl_append, List.foldl_cons, List.foldl_nil]

theorem getElem_ataName (name : Name) {j : Nat} (below : j < 41) :
    (ataName identify name)[j] = if j = 40 then 0 else if j < 38 then stringByte identify j else name[j] := by
  unfold ataName
  rw [spell_eq name (by decide)]
  dsimp only
  rw [Vector.getElem_setIfInBounds, getElem_spelled]
  by_cases stop : 40 = j
  · rw [if_pos stop, if_pos stop.symm]
  · rw [if_neg stop, if_neg (Ne.symm stop)]

theorem sataGetModel_eq (identify : Nat → BitVec 16) (model : Name) : sataGetModel identify model = modelString identify := by
  ext j below : 1
  have last : sataGetModel identify model = (spelled identify model 20).setIfInBounds 40 0 := rfl
  rw [last, Vector.getElem_setIfInBounds, getElem_spelled, modelString, Vector.getElem_ofFn]
  by_cases stop : 40 = j
  · rw [if_pos stop, if_neg (by dsimp only; omega)]
  · rw [if_neg stop, if_pos (by omega), if_pos (by dsimp only; omega)]

theorem ataName_eq_iff (name : Name) : ataName identify name = modelString identify ↔
    name[38] = (identify 46).extractLsb' 8 8 ∧ name[39] = (identify 46).extractLsb' 0 8 := by
  have spelling : ∀ {j : Nat} (below : j < 41), (modelString identify)[j] = if j < 40 then stringByte identify j else 0 :=
    fun below => Vector.getElem_ofFn below
  constructor
  · intro same
    have byte : ∀ j (below : j < 41), (ataName identify name)[j] = (modelString identify)[j] := by
      intro j below
      rw [same]
    have high := byte 38 (by decide)
    have low := byte 39 (by decide)
    rw [getElem_ataName, spelling] at high low
    exact ⟨high, low⟩
  · rintro ⟨high, low⟩
    ext j below : 1
    rw [getElem_ataName, spelling]
    by_cases stop : j = 40
    · rw [if_pos stop, if_neg (by omega)]
    · rw [if_neg stop, if_pos (show j < 40 by omega)]
      by_cases spelt : j < 38
      · rw [if_pos spelt]
      · rw [if_neg spelt]
        obtain rfl | rfl : j = 38 ∨ j = 39 := by omega
        · exact high
        · exact low

end

/-- The two drivers agree on a block, for whatever the SATA driver's buffer held, exactly if the record of the ATA
driver held word 46 where its loop does not come. -/
theorem model_strings_iff (chann sub : BitVec 32) (answers : AtaAnswers) (before : DiskDevice)
    (identified : (ataIdentify chann sub answers before).type = .ata) :
    (∀ buffer, Alike answers.data (ataIdentify chann sub answers before).name (sataGetModel answers.data buffer)) ↔
      before.name[38] = (answers.data 46).extractLsb' 8 8 ∧ before.name[39] = (answers.data 46).extractLsb' 0 8 := by
  have name : (ataIdentify chann sub answers before).name = ataName answers.data before.name := by
    unfold ataIdentify at identified ⊢
    dsimp only at identified ⊢
    split at identified
    next => cases identified
    next fine =>
      split at identified
      next => cases identified
      next data => rw [if_neg fine, if_neg data]
  rw [name, ← ataName_eq_iff]
  constructor
  · intro alike
    obtain ⟨same, spelt⟩ := alike before.name
    exact same.trans spelt
  · intro same buffer
    have spelt := sataGetModel_eq answers.data buffer
    exact ⟨same.trans spelt.symm, spelt⟩

/-- A drive that answers at once, with a letter in word 46. -/
def answering : AtaAnswers := ⟨fun _ => 0x08, fun i => if i = 46 then 0x5820 else 0⟩

def recordOf (byte : BitVec 8) : DiskDevice := ⟨Vector.replicate 41 byte, .none, 0, 0, 0, false⟩

theorem model_strings_iff_answering :
    (∀ buffer, Alike answering.data (ataIdentify CHANN_PRIMARY MASTER answering (recordOf 0)).name
      (sataGetModel answering.data buffer)) ↔
      (recordOf 0).name[38] = (answering.data 46).extractLsb' 8 8 ∧
        (recordOf 0).name[39] = (answering.data 46).extractLsb' 0 8 :=
  model_strings_iff CHANN_PRIMARY MASTER answering (recordOf 0) (by decide +kernel)

/-- The ATA driver loses the letter. -/
theorem letter_lost : ¬ Alike answering.data (ataIdentify CHANN_PRIMARY MASTER answering (recordOf 0)).name
    (sataGetModel answering.data (recordOf 0).name) := by
  rintro ⟨same, _⟩
  have byte := congrArg (fun name : Name => name[38]) same
  revert byte
  decide +kernel

end Ketone.Disk.ModelString
