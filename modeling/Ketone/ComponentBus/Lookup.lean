import Ketone.Library.Growable
import Ketone.Pcie.BarRanges

/-! The table of devices behind the component bus: what the enumeration puts into it, and what the two
lookups by class take out. -/

namespace Ketone.ComponentBus.Lookup
open Library Library.Growable Acpi.Mcfg MemManager.BumpAllocator MemManager.Manager Pcie.Config Pcie.Probe Pcie.Remap
  Pcie.Assign Pcie.BarRanges

/-- Both lookups copy the devices that pass a test into an array that grows by 16, and cut it to size. -/
def devicesMatching (fresh : Growable.Fresh Device) (keep : Device → Bool) (devices : List Device) :
    Growable Device :=
  (devices.foldl (fun ret device => if keep device then ret.push fresh 16 device else ret)
    (Growable.empty fresh 16)).shrink fresh

def componentBusGetDevices (fresh : Growable.Fresh Device) (devices : List Device) (classCode subclass : BitVec 8) :
    Growable Device :=
  devicesMatching fresh (fun device => device.classCode == classCode && device.subclass == subclass) devices

def componentBusGetDevicesEX (fresh : Growable.Fresh Device) (devices : List Device)
    (classCode subclass progIf : BitVec 8) : Growable Device :=
  devicesMatching fresh (fun device =>
    device.classCode == classCode && device.subclass == subclass && device.progIf == progIf) devices

theorem devicesMatching_filter (fresh : Growable.Fresh Device) (keep : Device → Bool) (devices : List Device) :
    (devicesMatching fresh keep devices).size = (devices.filter keep).length ∧
      (devicesMatching fresh keep devices).contents = devices.filter keep :=
  contents_shrink (holds_filter (by decide) keep devices (holds_empty fresh 16))

/-- A device whose registers may have been moved, and nothing else. -/
def Rebased (before after : Device) : Prop :=
  after = { before with bar := fun b => { before.bar b with base := (after.bar b).base } }

theorem Rebased.refl (device : Device) : Rebased device device := rfl

theorem Rebased.trans {first second third : Device} (left : Rebased first second) (right : Rebased second third) :
    Rebased first third := by
  unfold Rebased at left right ⊢
  rw [right, left]

theorem rebased_settle (device : Device) (bar : Fin 6) (place : Option (BitVec 64)) :
    Rebased device (settle device bar place) := by
  cases place with
  | none => exact Rebased.refl device
  | some newBase =>
    unfold Rebased settle rebase
    dsimp only
    congr 1
    funext b
    split <;> rfl

section
variable {kBump : KBumpAllocAligned} {ecam : Ecam} {bump : BumpHeap}

theorem assignDevice_rebased {state last : Assigning} (done : assignDevice kBump state = .ok last) :
    Rebased state.device last.device := by
  refine Loop.foldlM_keeps (fun later => Rebased state.device later.device) ?_ (Rebased.refl _) done
  intro middle bar next before turn
  obtain ⟨same, _⟩ := assignBar_ok turn
  rw [same]
  exact before.trans (rebased_settle _ _ _)

theorem assignBar_error {state : Assigning} {bar : Fin 6} {message : String}
    (failed : assignBar kBump state bar = .error message) : message = "BAR remap fail" := by
  unfold assignBar at failed
  dsimp only at failed
  split at failed
  · cases failed
  · split at failed
    · cases failed
    · split at failed
      · cases failed
      · exact (Except.error.inj failed).symm

theorem assignAll_rebased {devices : List Device} {result : Enumerated}
    (done : assignAll kBump ecam bump devices = .ok result) : List.Forall₂ Rebased devices result.devices := by
  induction devices generalizing ecam bump result with
  | nil =>
    obtain rfl := Except.ok.inj done
    exact List.Forall₂.nil
  | cons device rest ih =>
    obtain ⟨first, others, turn, later, rfl⟩ := assignAll_cons done
    exact List.Forall₂.cons (assignDevice_rebased turn) (ih later)

theorem assignAll_error {devices : List Device} {message : String}
    (failed : assignAll kBump ecam bump devices = .error message) : message = "BAR remap fail" := by
  induction devices generalizing ecam bump with
  | nil => cases failed
  | cons device rest ih =>
    rcases Loop.bind_error failed with turn | ⟨first, _, failed⟩
    · obtain ⟨state, bar, cause⟩ := Loop.foldlM_error turn
      exact assignBar_error cause
    · rcases Loop.bind_error failed with later | ⟨others, _, done⟩
      · exact ih later
      · cases done

end

/-- The bus is one of the entry's, and the device and the function are among those of a bus. -/
def InRange (slot : Slot) : Prop :=
  slot.entry.startBus.toNat ≤ slot.bus.toNat ∧ slot.bus.toNat ≤ slot.entry.endBus.toNat ∧
    slot.device.toNat < 32 ∧ slot.function.toNat < 8

instance (slot : Slot) : Decidable (InRange slot) := by
  unfold InRange; infer_instance

def entrySlots (entry : McfgEntry) : List Slot :=
  (busesOf entry).flatMap fun bus => (List.range 32).flatMap fun device =>
    (List.range 8).map fun function => ⟨entry, bus, BitVec.ofNat 8 device, BitVec.ofNat 8 function⟩

theorem nodup_flatMap_of_key {α β : Type} {items : List α} {each : α → List β} (key : β → α)
    (distinct : items.Nodup) (single : ∀ item ∈ items, (each item).Nodup)
    (keyed : ∀ item ∈ items, ∀ element ∈ each item, key element = item) : (items.flatMap each).Nodup := by
  refine List.nodup_flatMap.mpr ⟨single, List.Pairwise.imp_of_mem ?_ distinct⟩
  intro first second member member' different element left right
  exact different ((keyed first member element left).symm.trans (keyed second member' element right))

theorem toNat_small {n : Nat} (small : n < 256) : (BitVec.ofNat 8 n).toNat = n := Nat.mod_eq_of_lt small

theorem busesOf_nodup (entry : McfgEntry) : (busesOf entry).Nodup := by
  have last := entry.endBus.isLt
  refine List.Nodup.map_on ?_ List.nodup_range'
  intro first member second member' same
  rw [List.mem_range'_1] at member member'
  have values := congrArg BitVec.toNat same
  rwa [toNat_small (by omega), toNat_small (by omega)] at values

theorem entrySlots_nodup (entry : McfgEntry) : (entrySlots entry).Nodup := by
  refine nodup_flatMap_of_key Slot.bus (busesOf_nodup entry) ?_ ?_
  · intro bus _
    refine nodup_flatMap_of_key (fun slot => slot.device.toNat) List.nodup_range ?_ ?_
    · intro device _
      refine List.Nodup.map_on ?_ List.nodup_range
      intro first member second member' same
      rw [List.mem_range] at member member'
      have values := congrArg (fun slot => slot.function.toNat) same
      dsimp only at values
      rwa [toNat_small (by omega), toNat_small (by omega)] at values
    · intro device member slot made
      obtain ⟨function, _, rfl⟩ := List.mem_map.mp made
      exact toNat_small (by rw [List.mem_range] at member; omega)
  · intro bus _ slot made
    obtain ⟨device, _, made⟩ := List.mem_flatMap.mp made
    obtain ⟨function, _, rfl⟩ := List.mem_map.mp made
    rfl

theorem mem_entrySlots {entry : McfgEntry} {slot : Slot} :
    slot ∈ entrySlots entry ↔ slot.entry = entry ∧ InRange slot := by
  have last := entry.endBus.isLt
  simp only [entrySlots, busesOf, List.mem_flatMap, List.mem_map, List.mem_range, List.mem_range'_1]
  constructor
  · rintro ⟨_, ⟨bus, scanned, rfl⟩, device, below, function, below', rfl⟩
    unfold InRange
    dsimp only
    rw [toNat_small (by omega), toNat_small (by omega), toNat_small (by omega)]
    exact ⟨rfl, by omega, by omega, below, below'⟩
  · rintro ⟨rfl, low, high, device, function⟩
    refine ⟨slot.bus, ⟨slot.bus.toNat, ⟨low, by omega⟩, ?_⟩, slot.device.toNat, device, slot.function.toNat,
      function, ?_⟩
    · rw [BitVec.ofNat_toNat, BitVec.setWidth_eq]
    · rw [BitVec.ofNat_toNat, BitVec.setWidth_eq, BitVec.ofNat_toNat, BitVec.setWidth_eq]

theorem count_slots (entries : List McfgEntry) (slot : Slot) :
    (slots entries).count slot = if InRange slot then entries.count slot.entry else 0 := by
  induction entries with
  | nil => simp [slots]
  | cons entry rest ih =>
    have split : slots (entry :: rest) = entrySlots entry ++ slots rest := List.flatMap_cons
    have single : (entrySlots entry).count slot = if slot.entry = entry ∧ InRange slot then 1 else 0 := by
      rw [List.Nodup.count (entrySlots_nodup entry)]
      simp only [mem_entrySlots]
    rw [split, List.count_append, single, ih, List.count_cons]
    by_cases range : InRange slot
    · by_cases here : slot.entry = entry
      · simp [range, here, Nat.add_comm]
      · simp [range, here, Ne.symm here]
    · simp [range]

/-- For every list of entries and every set of functions that respond: the scan fills its table with one record
for each of them, in scan order; the remaps, if none of them halts the machine, change only bases; and for every
table the lookups return the devices of a class, in order, with their number. -/
theorem nothing_lost (kBump : KBumpAllocAligned) (fresh : Pcie.Probe.Fresh) (ecam : Ecam)
    (entries : List McfgEntry) (bump : BumpHeap) (fresh' : Growable.Fresh Device) (devices : List Device)
    (classCode subclass progIf : BitVec 8) :
    (∀ slot, (slots entries).count slot = if InRange slot then entries.count slot.entry else 0) ∧
    (enumerate fresh ecam entries).shrink =
      ((slots entries).filter (responds ecam)).map (deviceAt ecam) ∧
    (∀ message, pcieGetDevices kBump fresh ecam entries bump = .error message → message = "BAR remap fail") ∧
    (∀ result, pcieGetDevices kBump fresh ecam entries bump = .ok result →
      List.Forall₂ Rebased (((slots entries).filter (responds ecam)).map (deviceAt ecam)) result.devices) ∧
    (componentBusGetDevices fresh' devices classCode subclass).contents =
      devices.filter (fun device => device.classCode == classCode && device.subclass == subclass) ∧
    (componentBusGetDevices fresh' devices classCode subclass).size =
      (componentBusGetDevices fresh' devices classCode subclass).contents.length ∧
    (componentBusGetDevicesEX fresh' devices classCode subclass progIf).contents =
      (componentBusGetDevices fresh' devices classCode subclass).contents.filter (·.progIf == progIf) ∧
    (componentBusGetDevicesEX fresh' devices classCode subclass progIf).size =
      (componentBusGetDevicesEX fresh' devices classCode subclass progIf).contents.length := by
  obtain ⟨restored, shrunk⟩ := enumerate_found fresh ecam entries
  obtain ⟨size, contents⟩ := devicesMatching_filter fresh'
    (fun device => device.classCode == classCode && device.subclass == subclass) devices
  obtain ⟨sizeEX, contentsEX⟩ := devicesMatching_filter fresh'
    (fun device => device.classCode == classCode && device.subclass == subclass && device.progIf == progIf) devices
  refine ⟨count_slots entries, shrunk, ?_, ?_, contents, ?_, ?_, ?_⟩
  · exact fun message failed => assignAll_error failed
  · intro result done
    have table := assignAll_rebased done
    rw [shrunk] at table
    exact table
  · exact size.trans (congrArg List.length contents).symm
  · rw [componentBusGetDevices, componentBusGetDevicesEX, contents, contentsEX, List.filter_filter]
    exact List.filter_congr fun device _ => Bool.and_comm _ _
  · exact sizeEX.trans (congrArg List.length contentsEX).symm

/-- Seventeen AHCI controllers, one more than the table and the lists have room for at first. -/
def seventeenFunctions : Ecam := fun addr =>
  if 0xB0000000 ≤ addr ∧ addr < 0xB0011000 ∧ addr &&& 0xFFF = 0 then
    some ⟨fun k => if k = 0 then 0x12345678 else if k = 2 then 0x01060100 else 0, fun _ => 0⟩
  else none

def seventeenDevices : List Device := ((slots oneBus).filter (responds seventeenFunctions)).map (deviceAt seventeenFunctions)

/-- The table and the list of the lookup have grown. Of two registers both are moved in a hole of 2 MiB, and in the
last page below 4 GiB the first remap is refused. -/
theorem nothing_lost_seventeen_functions :
    (enumerate (fun _ _ => blank) seventeenFunctions oneBus).shrink = seventeenDevices ∧ seventeenDevices.length = 17 ∧
    (componentBusGetDevices (fun _ _ => blank) seventeenDevices 1 6).size = 17 ∧
    (componentBusGetDevices (fun _ _ => blank) seventeenDevices 1 6).contents.map (·.function) =
      [0, 1, 2, 3, 4, 5, 6, 7, 0, 1, 2, 3, 4, 5, 6, 7, 0] ∧
    (∃ result, pcieGetDevices bumpAllocAligned (fun _ _ => blank) twoBars oneBus
        (bumpHeap ⟨0xE0000000, 0xE0200000⟩) = .ok result ∧
      List.Forall₂ Rebased (((slots oneBus).filter (responds twoBars)).map (deviceAt twoBars)) result.devices) ∧
    ∃ message, pcieGetDevices bumpAllocAligned (fun _ _ => blank) twoBars oneBus
        (bumpHeap ⟨0xFFFFF000, 0x100000000⟩) = .error message ∧ message = "BAR remap fail" := by
  obtain ⟨_, found, _, _, listed, size, _⟩ := nothing_lost bumpAllocAligned (fun _ _ => blank) seventeenFunctions oneBus
    (bumpHeap ⟨0xE0000000, 0xE0200000⟩) (fun _ _ => blank) seventeenDevices 1 6 1
  refine ⟨found, by decide +kernel, ?_, ?_, ?_, ?_⟩
  · rw [size, listed]
    decide +kernel
  · rw [listed]
    decide +kernel
  · have returns : ReturnsWith (fun _ => True) (pcieGetDevices bumpAllocAligned (fun _ _ => blank) twoBars
        oneBus (bumpHeap ⟨0xE0000000, 0xE0200000⟩)) := by decide +kernel
    obtain ⟨result, done, _⟩ := returns.exists
    obtain ⟨_, _, _, table, _⟩ := nothing_lost bumpAllocAligned (fun _ _ => blank) twoBars oneBus
      (bumpHeap ⟨0xE0000000, 0xE0200000⟩) (fun _ _ => blank) [] 0 0 0
    exact ⟨result, done, table result done⟩
  · have halts : (pcieGetDevices bumpAllocAligned (fun _ _ => blank) twoBars oneBus
        (bumpHeap ⟨0xFFFFF000, 0x100000000⟩)).isOk = false := by decide +kernel
    obtain ⟨_, _, failure, _⟩ := nothing_lost bumpAllocAligned (fun _ _ => blank) twoBars oneBus
      (bumpHeap ⟨0xFFFFF000, 0x100000000⟩) (fun _ _ => blank) [] 0 0 0
    cases outcome : pcieGetDevices bumpAllocAligned (fun _ _ => blank) twoBars oneBus
        (bumpHeap ⟨0xFFFFF000, 0x100000000⟩) with
    | ok result => simp [outcome, Except.isOk, Except.toBool] at halts
    | error message => exact ⟨message, rfl, failure message outcome⟩

end Ketone.ComponentBus.Lookup
