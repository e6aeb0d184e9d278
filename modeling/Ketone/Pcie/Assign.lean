import Ketone.Library.Loop
import Ketone.Library.Packing
import Ketone.MemManager.BumpAllocator
import Ketone.Pcie.Remap

/-! The second half of the enumeration: every valid base address register is offered
room from the bump heap and moved there. -/

namespace Ketone.Pcie.Assign
open Library.Align Library.Loop Library.Packing Acpi.Mcfg MemManager.BumpAllocator Config Probe Remap

/-- What a caller of `k_bump_alloc_aligned` gets, and the heap it leaves. -/
abbrev KBumpAllocAligned := BumpHeap → BitVec 64 → BitVec 64 → BumpCall

/-- A successful remap, as it is reported on the serial line. -/
structure Moved where
  record : BarRecord
  newBase : BitVec 64

structure Assigning where
  ecam : Ecam
  device : Device
  bump : BumpHeap
  reported : List Moved

/-- A remap that fails halts the machine. -/
def assignBar (kBump : KBumpAllocAligned) (state : Assigning) (bar : Fin 6) : Except String Assigning :=
  let record := state.device.bar bar
  if ¬ record.isValid ∨ record.barSize = 0 then .ok state
  else
    let call := kBump state.bump record.barSize record.barSize
    if call.ptr = 0 then .ok { state with bump := call.heap }
    else
      let remapped := pcieRemapBar state.ecam state.device (BitVec.ofNat 8 bar) call.ptr
      match remapped.error with
      | none => .ok ⟨remapped.ecam, remapped.device, call.heap, state.reported ++ [⟨record, call.ptr⟩]⟩
      | some _ => .error "BAR remap fail"

def assignDevice (kBump : KBumpAllocAligned) (state : Assigning) : Except String Assigning :=
  (List.finRange 6).foldlM (assignBar kBump) state

structure Enumerated where
  ecam : Ecam
  devices : List Device
  bump : BumpHeap
  reported : List Moved

def assignAll (kBump : KBumpAllocAligned) : Ecam → BumpHeap → List Device → Except String Enumerated
  | ecam, bump, [] => .ok ⟨ecam, [], bump, []⟩
  | ecam, bump, device :: rest => do
      let first ← assignDevice kBump ⟨ecam, device, bump, []⟩
      let others ← assignAll kBump first.ecam first.bump rest
      return ⟨others.ecam, first.device :: others.devices, others.bump, first.reported ++ others.reported⟩

def pcieGetDevices (kBump : KBumpAllocAligned) (fresh : Fresh) (ecam : Ecam) (entries : List McfgEntry)
    (bump : BumpHeap) : Except String Enumerated :=
  let scan := enumerate fresh ecam entries
  assignAll kBump scan.ecam bump scan.shrink

/-! The registers play no part in which address a register is offered: the records alone
decide, in the order of the scan. -/

/-- The address one record is offered, if any, and the heap left. -/
def offer (kBump : KBumpAllocAligned) (heap : BumpHeap) (record : BarRecord) : Option (BitVec 64) × BumpHeap :=
  if ¬ record.isValid ∨ record.barSize = 0 then (none, heap)
  else
    let call := kBump heap record.barSize record.barSize
    (if call.ptr = 0 then none else some call.ptr, call.heap)

def plan (kBump : KBumpAllocAligned) : BumpHeap → List BarRecord → List (Option (BitVec 64)) × BumpHeap
  | heap, [] => ([], heap)
  | heap, record :: rest =>
      let first := offer kBump heap record
      let others := plan kBump first.2 rest
      (first.1 :: others.1, others.2)

def moves (all : List BarRecord) (places : List (Option (BitVec 64))) : List Moved :=
  (all.zip places).filterMap fun planned => planned.2.map (⟨planned.1, ·⟩)

def records (devices : List Device) : List BarRecord :=
  devices.flatMap fun device => (List.finRange 6).map device.bar

section
variable {kBump : KBumpAllocAligned}

theorem plan_length (heap : BumpHeap) (all : List BarRecord) : (plan kBump heap all).1.length = all.length := by
  induction all generalizing heap with
  | nil => rfl
  | cons record rest ih => simp [plan, ih]

theorem plan_append (heap : BumpHeap) (first second : List BarRecord) :
    plan kBump heap (first ++ second) =
      ((plan kBump heap first).1 ++ (plan kBump (plan kBump heap first).2 second).1,
        (plan kBump (plan kBump heap first).2 second).2) := by
  induction first generalizing heap with
  | nil => rfl
  | cons record rest ih => simp only [List.cons_append, plan, ih]

def moveBar (ecam : Ecam) (device : Device) (bar : Fin 6) (place : Option (BitVec 64)) : Ecam :=
  match place with
  | none => ecam
  | some newBase => program ecam device.slot (barOffset bar) (device.bar bar).is64Bits
      ((newBase >>> 32).setWidth 32)
      (newLow (device.bar bar) (ecam.read32 device.slot (barOffset bar)) newBase)

def settle (device : Device) (bar : Fin 6) (place : Option (BitVec 64)) : Device :=
  match place with
  | none => device
  | some newBase => rebase device bar newBase

theorem settle_bar (device : Device) (bar b : Fin 6) (place : Option (BitVec 64)) :
    (settle device bar place).bar b =
      if b = bar then (device.bar bar).moved place else device.bar b := by
  cases place with
  | none =>
    change device.bar b = if b = bar then device.bar bar else device.bar b
    by_cases same : b = bar
    · rw [if_pos same, same]
    · rw [if_neg same]
  | some newBase =>
    change (if b = bar then { device.bar b with base := newBase } else device.bar b) =
      if b = bar then { device.bar bar with base := newBase } else device.bar b
    by_cases same : b = bar
    · rw [if_pos same, if_pos same, same]
    · rw [if_neg same, if_neg same]

theorem settle_slot (device : Device) (bar : Fin 6) (place : Option (BitVec 64)) :
    (settle device bar place).slot = device.slot := by
  cases place <;> rfl

/-- What one turn of the loop does, if it does not halt. -/
theorem assignBar_ok {state next : Assigning} {bar : Fin 6} (done : assignBar kBump state bar = .ok next) :
    let given := offer kBump state.bump (state.device.bar bar)
    next = ⟨moveBar state.ecam state.device bar given.1, settle state.device bar given.1, given.2,
        state.reported ++ moves [state.device.bar bar] [given.1]⟩ ∧
      ∀ newBase, given.1 = some newBase →
        actualBase (moveBar state.ecam state.device bar given.1) state.device.slot (barOffset bar)
          (state.device.bar bar) = newBase := by
  unfold assignBar at done
  dsimp only at done
  unfold offer
  split at done
  next skipped =>
    obtain rfl := Except.ok.inj done
    rw [if_pos skipped]
    exact ⟨by simp [moves, moveBar, settle], by simp⟩
  next valid =>
    rw [if_neg valid]
    dsimp only
    split at done
    next null =>
      obtain rfl := Except.ok.inj done
      rw [if_pos null]
      exact ⟨by simp [moves, moveBar, settle], by simp⟩
    next placed =>
      rw [if_neg placed]
      rcases pcieRemapBar_cases state.ecam state.device bar
        (kBump state.bump (state.device.bar bar).barSize (state.device.bar bar).barSize).ptr with
        ⟨error, same, _⟩ | ⟨_, _, reads, same⟩
      · rw [same] at done
        simp at done
      · rw [same] at done
        refine ⟨(Except.ok.inj done).symm, ?_⟩
        intro newBase given
        obtain rfl := Option.some.inj given
        exact reads

/-- The registers of one device, or any part of them, follow the plan. -/
theorem foldlM_records {todo : List (Fin 6)} (distinct : todo.Nodup) {state last : Assigning}
    (done : todo.foldlM (assignBar kBump) state = .ok last) :
    todo.map last.device.bar = List.zipWith BarRecord.moved (todo.map state.device.bar)
        (plan kBump state.bump (todo.map state.device.bar)).1 ∧
      last.reported = state.reported ++
        moves (todo.map state.device.bar) (plan kBump state.bump (todo.map state.device.bar)).1 ∧
      last.bump = (plan kBump state.bump (todo.map state.device.bar)).2 ∧
      last.device.slot = state.device.slot ∧
      ∀ b, b ∉ todo → last.device.bar b = state.device.bar b := by
  induction todo generalizing state with
  | nil =>
    obtain rfl : state = last := Except.ok.inj done
    exact ⟨rfl, (List.append_nil _).symm, rfl, rfl, fun _ _ => rfl⟩
  | cons bar rest ih =>
    rw [List.foldlM_cons] at done
    obtain ⟨next, turn, done⟩ := bind_ok done
    have fresh := List.nodup_cons.mp distinct
    obtain ⟨moved, reported, heap, slot, kept⟩ := ih fresh.2 done
    obtain ⟨same, _⟩ := assignBar_ok turn
    have bars : ∀ b, next.device.bar b =
        if b = bar then (state.device.bar bar).moved (offer kBump state.bump (state.device.bar bar)).1
        else state.device.bar b := by
      intro b
      rw [same]
      exact settle_bar _ _ _ _
    have others : rest.map next.device.bar = rest.map state.device.bar := by
      apply List.map_congr_left
      intro b member
      have away : b ≠ bar := fun here => fresh.1 (here ▸ member)
      rw [bars, if_neg away]
    have left : next.bump = (offer kBump state.bump (state.device.bar bar)).2 := by rw [same]
    have log : next.reported = state.reported ++
        moves [state.device.bar bar] [(offer kBump state.bump (state.device.bar bar)).1] := by rw [same]
    rw [others, left] at moved reported heap
    refine ⟨?_, ?_, heap, ?_, ?_⟩
    · simp only [List.map_cons, plan, List.zipWith_cons_cons]
      rw [moved, kept bar fresh.1, bars, if_pos rfl]
    · rw [reported, log, List.append_assoc]
      simp only [moves, List.map_cons, plan, List.zip_cons_cons, List.zip_nil_right, ← List.filterMap_append,
        List.singleton_append]
    · rw [slot, same]
      exact settle_slot _ _ _
    · intro b missing
      rw [List.mem_cons, not_or] at missing
      rw [kept b missing.2, bars, if_neg missing.1]

theorem assignAll_cons {ecam : Ecam} {bump : BumpHeap} {device : Device} {rest : List Device} {result : Enumerated}
    (done : assignAll kBump ecam bump (device :: rest) = .ok result) :
    ∃ first others, assignDevice kBump ⟨ecam, device, bump, []⟩ = .ok first ∧
      assignAll kBump first.ecam first.bump rest = .ok others ∧
      result = ⟨others.ecam, first.device :: others.devices, others.bump, first.reported ++ others.reported⟩ := by
  obtain ⟨first, turn, done⟩ := bind_ok done
  obtain ⟨others, later, done⟩ := bind_ok done
  exact ⟨first, others, turn, later, (Except.ok.inj done).symm⟩

/-- The records of all devices follow one plan. -/
theorem assignAll_records {ecam : Ecam} {bump : BumpHeap} {devices : List Device} {result : Enumerated}
    (done : assignAll kBump ecam bump devices = .ok result) :
    records result.devices =
        List.zipWith BarRecord.moved (records devices) (plan kBump bump (records devices)).1 ∧
      result.reported = moves (records devices) (plan kBump bump (records devices)).1 ∧
      result.bump = (plan kBump bump (records devices)).2 := by
  induction devices generalizing ecam bump result with
  | nil =>
    obtain rfl := Except.ok.inj done
    exact ⟨rfl, rfl, rfl⟩
  | cons device rest ih =>
    obtain ⟨first, others, turn, later, rfl⟩ := assignAll_cons done
    obtain ⟨moved, reported, heap, _, _⟩ := foldlM_records (List.nodup_finRange 6) turn
    obtain ⟨moved', reported', heap'⟩ := ih later
    simp only [records, List.flatMap_cons] at moved' reported' heap' ⊢
    rw [plan_append, List.zipWith_append (by rw [plan_length]), ← heap, ← moved, ← moved']
    refine ⟨rfl, ?_, heap'⟩
    rw [reported, reported', List.nil_append, heap, moves, moves, moves, ← List.filterMap_append,
      List.zip_append (by rw [plan_length])]

end

/-- An address of zero is taken for no address. -/
def nonnull (place : Option Nat) : Option Nat := place.filter (· ≠ 0)

/-- One offer is one step of the layout. -/
theorem offer_layOut {heap : BumpHeap} (within : heap.Within) (record : BarRecord) :
    let offered := offer bumpAllocAligned heap record
    offered.2.Within ∧ offered.2.stop = heap.stop ∧
      if Fits heap.stop heap.next.toNat record.request then
        offered.1.map BitVec.toNat = nonnull (some (roundUp record.request heap.next.toNat)) ∧
          offered.2.next.toNat = roundUp record.request heap.next.toNat + record.request
      else offered = (none, heap) := by
  dsimp only
  unfold offer
  by_cases skipped : ¬ record.isValid ∨ record.barSize = 0
  · have zero : record.request = 0 := by
      unfold BarRecord.request
      rcases skipped with invalid | empty
      · exact if_neg invalid
      · rw [empty]
        exact ite_self _
    have none : ¬ Fits heap.stop heap.next.toNat record.request := by
      intro fits
      have positive := fits.1.pos
      omega
    rw [if_pos skipped, if_neg none]
    exact ⟨within, rfl, rfl⟩
  · rw [if_neg skipped]
    rw [not_or, not_not] at skipped
    have size : record.request = record.barSize.toNat := if_pos skipped.1
    have align : orOne record.barSize = record.barSize := if_neg skipped.2
    obtain ⟨inside, start, area, _⟩ := within_bump within record.barSize record.barSize
    refine ⟨inside, ?_, ?_⟩
    · unfold BumpHeap.stop
      dsimp only
      rw [start, area]
    rw [size]
    rcases bumpAllocAligned_cases within record.barSize record.barSize with
      ⟨same, why⟩ | ⟨k, addr, power, _, place, room, same⟩
    · have none : ¬ Fits heap.stop heap.next.toNat record.barSize.toNat := by
        rintro ⟨power, room⟩
        rw [align] at why
        rcases why with zero | odd | full
        · exact skipped.2 zero
        · exact odd (powerOfTwo_iff.mp power)
        · omega
      rw [if_neg none, same]
      rfl
    · rw [align] at power
      rw [← power] at place
      have fits : Fits heap.stop heap.next.toNat record.barSize.toNat := by
        refine ⟨powerOfTwo_iff.mpr ⟨k, power⟩, ?_⟩
        rw [← place]
        exact room
      have sum := toNat_next within room
      rw [if_pos fits, same, ← place]
      refine ⟨?_, sum⟩
      dsimp only
      by_cases zero : addr = 0
      · rw [if_pos zero, zero]
        rfl
      · have positive : addr.toNat ≠ 0 := fun null => zero (BitVec.eq_of_toNat_eq (by simpa using null))
        rw [if_neg zero]
        simp [nonnull, Option.filter, positive]

/-- With the result of `bump_alloc_aligned` in hand, the plan lays the requests out in the hole. -/
theorem plan_layOut {heap : BumpHeap} (within : heap.Within) (all : List BarRecord) :
    (plan bumpAllocAligned heap all).1.map (Option.map BitVec.toNat) =
      (layOut heap.stop heap.next.toNat (all.map BarRecord.request)).map nonnull := by
  induction all generalizing heap with
  | nil => rfl
  | cons record rest ih =>
    obtain ⟨inside, stop, step⟩ := offer_layOut within record
    simp only [plan, List.map_cons, layOut]
    by_cases fits : Fits heap.stop heap.next.toNat record.request
    · rw [if_pos fits] at step ⊢
      rw [ih inside, stop, step.1, step.2]
      rfl
    · rw [if_neg fits] at step ⊢
      rw [step, ih within]
      rfl

end Ketone.Pcie.Assign
