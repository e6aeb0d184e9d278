import Ketone.Disk.SataSteps

/-! `SATA_read` in single steps, on ports that share the low heap. -/

namespace Ketone.Disk.SharedBuffers
open Library.Loop Library.Ram MemManager.Allocator Sata SataSetUp SataSteps

/-- The arguments of a call, and where its frame keeps the command. -/
structure ReadCall where
  disk : Nat
  lba : BitVec 64
  buff : BitVec 64
  fis : BitVec 64

inductive Phase where
  | idle
  | allocate
  | clear (dmaBuffer : BitVec 64)
  | prepare (dmaBuffer : BitVec 64)
  | command (dmaBuffer : BitVec 64) (pc : Pc)
  | copy (dmaBuffer : BitVec 64) (issued : Option Nat)
  | free (dmaBuffer : BitVec 64) (issued : Option Nat) (success : Bool)
  | returned (success : Bool)
deriving DecidableEq

structure System where
  low : Heap
  memory : Memory
  ports : Nat → HbaPort
  call : ReadCall
  phase : Phase

def storeFis (memory : Memory) (fis lba : BitVec 64) : Memory :=
  [(0, 0x27), (1, 0x80), (2, CMD_SATA_READ_DMA_EXT), (4, lba.setWidth 8), (5, (lba >>> 8).setWidth 8),
    (6, (lba >>> 16).setWidth 8), (8, (lba >>> 24).setWidth 8), (9, (lba >>> 32).setWidth 8),
    (10, (lba >>> 40).setWidth 8), (7, 0x40), (12, 1), (13, 0)].foldl
    (fun memory (field : Nat × BitVec 8) => store memory (fis + BitVec.ofNat 64 field.1) field.2) memory

def System.machine (s : System) (dmaBuffer : BitVec 64) (pc : Pc) : Machine :=
  ⟨s.memory, s.ports s.call.disk, ⟨s.call.fis, dmaBuffer, 512, false⟩, pc⟩

def readStep (routines : Routines) (data : Nat → PortData) (s : System) : Option System :=
  match s.phase with
  | .idle | .returned _ => none
  | .allocate =>
      if s.call.buff = 0 then some { s with phase := .returned false }
      else do
        let call ← allocAligned s.low 512 512
        if call.ptr = 0 then return { s with low := call.heap, phase := .returned false }
        else return { s with low := call.heap, phase := .clear call.ptr }
  | .clear dmaBuffer =>
      some { s with memory := routines.memset s.memory dmaBuffer 0 512, phase := .prepare dmaBuffer }
  | .prepare dmaBuffer =>
      let memory := routines.memset s.memory s.call.fis 0 sizeofFis
      some { s with memory := storeFis memory s.call.fis s.call.lba, phase := .command dmaBuffer .called }
  | .command dmaBuffer (.returned issued success) =>
      if success then some { s with phase := .copy dmaBuffer issued }
      else some { s with phase := .free dmaBuffer issued false }
  | .command dmaBuffer pc => do
      let next ← driverStep routines (data s.call.disk) (s.machine dmaBuffer pc)
      let ports := Function.update s.ports s.call.disk next.port
      return { s with memory := next.memory, ports := ports, phase := .command dmaBuffer next.pc }
  | .copy dmaBuffer issued =>
      some { s with memory := routines.memcpy s.memory dmaBuffer s.call.buff 512, phase := .free dmaBuffer issued true }
  | .free dmaBuffer _ success => some { s with low := free s.low dmaBuffer, phase := .returned success }

/-- A new call, a step of the driver, or whatever the controllers do to their registers and to memory. -/
inductive Event where
  | call (call : ReadCall)
  | driver
  | moved (ports : Nat → HbaPort) (dma : Memory → Memory)

def Phase.between : Phase → Bool
  | .idle | .returned _ => true
  | _ => false

def step (routines : Routines) (data : Nat → PortData) (s : System) : Event → Option System
  | .call call => if s.phase.between then some { s with call := call, phase := .allocate } else none
  | .driver => readStep routines data s
  | .moved ports dma => some { s with ports := ports, memory := dma s.memory }

/-- Runs in which every step is allowed. -/
inductive Run (routines : Routines) (data : Nat → PortData) (allowed : System → Event → Prop) (start : System) :
    System → Prop where
  | start : Run routines data allowed start start
  | step {s next : System} {event : Event} (run : Run routines data allowed start s) (allows : allowed s event)
      (done : step routines data s event = some next) : Run routines data allowed start next

/-- The command of the slot has been issued on the port and is not done. -/
def UnderWay (s : System) (disk slot : Nat) : Prop := (s.ports disk).ci.getLsbD slot = true

/-- The next step of the driver returns from a command that is not done. -/
def GivesUp (s : System) : Prop :=
  ∃ dmaBuffer slot timeout, s.phase = .command dmaBuffer (.pollIs slot timeout) ∧
    ((s.ports s.call.disk).is &&& 0x40000000 ≠ 0 ∨ timeout = 0) ∧ UnderWay s s.call.disk slot

/-- The driver gives up on no command that is not done, and no controller sets a bit of `ci` by itself. -/
def Patient (s : System) : Event → Prop
  | .call _ => True
  | .driver => ¬ GivesUp s
  | .moved ports _ => ∀ disk, Clears (s.ports disk).ci (ports disk).ci

def dba (data : Nat → PortData) (s : System) (disk slot : Nat) : BitVec 32 :=
  loadWord 32 s.memory ((data disk).table s.memory slot + 128)

def SameBlock (low : Heap) (first second : BitVec 32) : Prop :=
  ∃ block < low.total, (⟨low.blockAddr block, low.blockBytes.toNat⟩ : Area).Has (first.setWidth 64) ∧
    (⟨low.blockAddr block, low.blockBytes.toNat⟩ : Area).Has (second.setWidth 64)

instance (s : System) (disk slot : Nat) : Decidable (UnderWay s disk slot) := by
  unfold UnderWay; infer_instance

instance (low : Heap) (first second : BitVec 32) : Decidable (SameBlock low first second) := by
  unfold SameBlock; infer_instance

def waiting : Pc → Option Nat
  | .pollCi slot _ | .pollIs slot _ => some slot
  | _ => none

section
variable {routines : Routines}

theorem slotBit_only {slot i : Nat} (set : (slotBit slot).getLsbD i = true) : i = slot := by
  unfold slotBit at set
  rw [BitVec.getLsbD_ofNat, Nat.one_shiftLeft, Nat.testBit_two_pow] at set
  simp at set
  exact set.2.symm

theorem clear_of_and {word : BitVec 32} {slot : Nat} (clear : word &&& slotBit slot = 0) :
    word.getLsbD slot = false := by
  by_cases few : slot < 32
  · exact (slotBit_clear word few).mp clear
  · exact BitVec.getLsbD_of_ge word slot (by omega)

/-- What a step of a command does to `ci`: a bit that is set then was set before, and has not been waited for any
less, or it is the one that is waited for now. -/
def Waits (m next : Machine) : Prop := ∀ i, next.port.ci.getLsbD i = true →
  m.port.ci.getLsbD i = true ∧ (waiting m.pc = some i → waiting next.pc = some i) ∨ waiting next.pc = some i

theorem waits_before {m next : Machine} (port : next.port.ci = m.port.ci) (before : waiting m.pc = none) :
    Waits m next := by
  intro i set
  rw [port] at set
  refine Or.inl ⟨set, fun some => ?_⟩
  rw [before] at some
  simp at some

theorem driverStep_waits {data : PortData} {m next : Machine} (step : driverStep routines data m = some next)
    (patient : ∀ slot timeout, m.pc = .pollIs slot timeout →
      (m.port.is &&& 0x40000000 ≠ 0 ∨ timeout = 0) → m.port.ci.getLsbD slot = false) : Waits m next := by
  have driven := driverStep_driven step
  obtain ⟨memory, port, command, pc⟩ := m
  -- a bit that is known to be clear is not among those set
  have cleared : ∀ {slot : Nat} {pc after : Pc}, waiting pc = some slot → port.ci.getLsbD slot = false →
      Waits ⟨memory, port, command, pc⟩ ⟨memory, port, command, after⟩ := by
    intro slot pc after waits clear i set
    refine Or.inl ⟨set, fun same => ?_⟩
    obtain rfl := Option.some.inj (waits.symm.trans same)
    dsimp only at set
    rw [clear] at set
    simp at set
  cases driven with
  | reads reads =>
    cases reads with
    | done clear => exact cleared rfl (clear_of_and clear)
    | @givesUp slot timeout why => exact cleared rfl (patient slot timeout rfl why)
    | notDone => exact fun i set => Or.inl ⟨set, id⟩
    | again => exact fun i set => Or.inl ⟨set, id⟩
    | _ => exact waits_before rfl rfl
  | issue at_ =>
    subst at_
    intro i set
    rw [BitVec.getLsbD_or, Bool.or_eq_true] at set
    rcases set with old | new
    · exact Or.inl ⟨old, nofun⟩
    · rw [slotBit_only new]
      exact Or.inr rfl
  | clearTable at_ => exact waits_before rfl (congrArg waiting at_)
  | copyFis at_ => exact waits_before rfl (congrArg waiting at_)
  | writeHeader at_ => exact waits_before rfl (congrArg waiting at_)
  | writePrdt at_ => exact waits_before rfl (congrArg waiting at_)
  | clearStatus at_ => exact waits_before rfl (congrArg waiting at_)

end

/-- Every command under way is the present call's, which waits for it. -/
def Awaited (s : System) : Prop := ∀ disk slot, UnderWay s disk slot →
  disk = s.call.disk ∧ ∃ dmaBuffer pc, s.phase = .command dmaBuffer pc ∧ waiting pc = some slot

section
variable {routines : Routines} {data : Nat → PortData} {s next : System}

theorem none_underWay (awaited : Awaited s)
    (elsewhere : ∀ dmaBuffer pc, s.phase = .command dmaBuffer pc → waiting pc = none) (disk slot : Nat) :
    ¬ UnderWay s disk slot := by
  intro underWay
  obtain ⟨_, dmaBuffer, pc, at_, some⟩ := awaited disk slot underWay
  rw [elsewhere dmaBuffer pc at_] at some
  simp at some

theorem awaited_elsewhere (awaited : Awaited s)
    (elsewhere : ∀ dmaBuffer pc, s.phase = .command dmaBuffer pc → waiting pc = none) (ports : next.ports = s.ports) :
    Awaited next := by
  intro disk slot underWay
  unfold UnderWay at underWay
  rw [ports] at underWay
  exact (none_underWay awaited elsewhere disk slot underWay).elim

theorem awaited_command (awaited : Awaited s) {dmaBuffer : BitVec 64} {pc : Pc} (at_ : s.phase = .command dmaBuffer pc)
    {memory : Memory} {m : Machine} (waits : Waits (s.machine dmaBuffer pc) m) :
    Awaited { s with memory := memory, ports := Function.update s.ports s.call.disk m.port, phase := .command dmaBuffer m.pc } := by
  intro disk slot underWay
  unfold UnderWay at underWay
  dsimp only at underWay ⊢
  by_cases own : disk = s.call.disk
  · subst own
    rw [Function.update_self] at underWay
    refine ⟨rfl, dmaBuffer, m.pc, rfl, ?_⟩
    rcases waits slot underWay with ⟨old, still⟩ | now
    · obtain ⟨_, dmaBuffer', pc', at', some⟩ := awaited s.call.disk slot old
      obtain ⟨_, rfl⟩ := Phase.command.inj (at_.symm.trans at')
      exact still some
    · exact now
  · rw [Function.update_of_ne own] at underWay
    exact (own (awaited disk slot underWay).1).elim

theorem awaited_driver (awaited : Awaited s) (patient : ¬ GivesUp s) (done : readStep routines data s = some next) :
    Awaited next := by
  obtain ⟨low, memory, ports, call, phase⟩ := s
  cases phase with
  | idle => simp [readStep] at done
  | returned success => simp [readStep] at done
  | allocate =>
    simp only [readStep] at done
    split at done
    · obtain rfl := Option.some.inj done
      exact awaited_elsewhere awaited nofun rfl
    · obtain ⟨granted, _, done⟩ := Option.bind_eq_some_iff.mp done
      split at done
      · obtain rfl := Option.some.inj done
        exact awaited_elsewhere awaited nofun rfl
      · obtain rfl := Option.some.inj done
        exact awaited_elsewhere awaited nofun rfl
  | clear dmaBuffer =>
    obtain rfl := Option.some.inj done
    exact awaited_elsewhere awaited nofun rfl
  | prepare dmaBuffer =>
    obtain rfl := Option.some.inj done
    exact awaited_elsewhere awaited nofun rfl
  | command dmaBuffer pc =>
    by_cases ended : ∃ issued success, pc = .returned issued success
    · obtain ⟨issued, success, rfl⟩ := ended
      have elsewhere : ∀ dmaBuffer' pc', Phase.command dmaBuffer (.returned issued success) = .command dmaBuffer' pc' →
          waiting pc' = none := by
        intro dmaBuffer' pc' same
        rw [← (Phase.command.inj same).2]
        rfl
      simp only [readStep] at done
      split at done
      · obtain rfl := Option.some.inj done
        exact awaited_elsewhere awaited elsewhere rfl
      · obtain rfl := Option.some.inj done
        exact awaited_elsewhere awaited elsewhere rfl
    · have going : readStep routines data ⟨low, memory, ports, call, .command dmaBuffer pc⟩ =
          (driverStep routines (data call.disk) ⟨memory, ports call.disk, ⟨call.fis, dmaBuffer, 512, false⟩, pc⟩).bind
            fun next => some ⟨low, next.memory, Function.update ports call.disk next.port, call,
              .command dmaBuffer next.pc⟩ := by
        cases pc with
        | returned issued success => exact (ended ⟨issued, success, rfl⟩).elim
        | _ => rfl
      rw [going] at done
      obtain ⟨m, moved, done⟩ := Option.bind_eq_some_iff.mp done
      obtain rfl := Option.some.inj done
      refine awaited_command awaited rfl (driverStep_waits moved ?_)
      intro slot timeout at_ up
      by_contra set
      exact patient ⟨dmaBuffer, slot, timeout, congrArg (Phase.command dmaBuffer) at_, up, Bool.not_eq_false _ |>.mp set⟩
  | copy dmaBuffer issued =>
    obtain rfl := Option.some.inj done
    exact awaited_elsewhere awaited nofun rfl
  | free dmaBuffer issued success =>
    obtain rfl := Option.some.inj done
    exact awaited_elsewhere awaited nofun rfl

theorem awaited_step (awaited : Awaited s) {event : Event} (patient : Patient s event)
    (done : step routines data s event = some next) : Awaited next := by
  cases event with
  | call call =>
    simp only [step] at done
    split at done
    next between =>
      obtain rfl := Option.some.inj done
      refine awaited_elsewhere awaited ?_ rfl
      intro dmaBuffer pc at_
      rw [at_] at between
      simp [Phase.between] at between
    · simp at done
  | driver => exact awaited_driver awaited patient done
  | moved ports dma =>
    obtain rfl := Option.some.inj done
    exact fun disk slot underWay => awaited disk slot (patient disk slot underWay)

theorem awaited_run {start : System} (awaited : Awaited start) (run : Run routines data Patient start s) : Awaited s := by
  induction run with
  | start => exact awaited
  | step _ patient done ih => exact awaited_step ih patient done

end

/-- In every run in which the driver gives up on no command that is not done, and no controller sets a bit of
`ci` by itself: when a buffer is freed the slot issued has its bit clear, and no two commands under way name
stretches of memory in one block of the low heap. -/
theorem buffers_not_recycled (routines : Routines) (data : Nat → PortData) {start s : System}
    (none_ : ∀ disk, (start.ports disk).ci = 0)
    (run : Run routines data Patient start s) :
    (∀ dmaBuffer issued success, s.phase = .free dmaBuffer issued success → ∀ slot, issued = some slot →
      ¬ UnderWay s s.call.disk slot) ∧
      ∀ disk slot disk' slot', UnderWay s disk slot → UnderWay s disk' slot' → (disk, slot) ≠ (disk', slot') →
        ¬ SameBlock s.low (dba data s disk slot) (dba data s disk' slot') := by
  have initial : Awaited start := by
    intro disk slot underWay
    unfold UnderWay at underWay
    rw [none_ disk] at underWay
    simp at underWay
  have awaited := awaited_run initial run
  constructor
  · intro dmaBuffer issued success frees slot _
    apply none_underWay awaited
    rw [frees]
    exact nofun
  · intro disk slot disk' slot' first second different
    obtain ⟨own, _, pc, at_, waits⟩ := awaited disk slot first
    obtain ⟨own', _, pc', at', waits'⟩ := awaited disk' slot' second
    obtain ⟨_, rfl⟩ := Phase.command.inj (at_.symm.trans at')
    exact (different (Prod.ext (own.trans own'.symm) (Option.some.inj (waits.symm.trans waits')))).elim

/-- A step of the driver that does not look for an error. -/
def quietStep (routines : Routines) (data : Nat → PortData) (s : System) : Option System :=
  match s.phase with
  | .command _ (.pollIs _ _) => none
  | _ => readStep routines data s

theorem quiet_run {routines : Routines} {data : Nat → PortData} {start s last : System} {k : Nat}
    (run : Run routines data Patient start s) (passed : nth (quietStep routines data) k s = some last) :
    Run routines data Patient start last := by
  induction k generalizing s with
  | zero =>
    obtain rfl := Option.some.inj passed
    exact run
  | succ k ih =>
    obtain ⟨next, quiet, rest⟩ := Option.bind_eq_some_iff.mp passed
    unfold quietStep at quiet
    split at quiet
    · simp at quiet
    next elsewhere =>
      have driven : step routines data s .driver = some next := quiet
      refine ih (.step run ?_ driven) rest
      rintro ⟨dmaBuffer, slot, timeout, at_, _⟩
      exact elsewhere dmaBuffer slot timeout at_

def twoSlots : Option PortSetUp := portConfigure builtRoutines (fun _ => 0) (fun _ => 0) eightBlocks (fun _ => 0) 2

def atStart (setUp : PortSetUp) : System := ⟨setUp.low, setUp.memory, fun _ => ⟨0, 0, 0, 0, 0⟩, ⟨0, 0, 0, 0⟩, .idle⟩

/-- A command that is done at the first poll has its bit clear when the buffer is freed. -/
theorem buffers_not_recycled_two_slots : ∃ setUp s, twoSlots = some setUp ∧
    Run builtRoutines (fun _ => setUp.data) Patient (atStart setUp) s ∧
    s.phase = .free 0x200C00 (some 0) true ∧ ¬ UnderWay s s.call.disk 0 := by
  let call : Event := .call ⟨0, 7, 0x300000, 0x90000⟩
  let done_ : Event := .moved (fun _ => ⟨0, 0, 0, 0, 0⟩) id
  have whole : (twoSlots.bind fun setUp =>
      (step builtRoutines (fun _ => setUp.data) (atStart setUp) call).bind fun first =>
      (nth (quietStep builtRoutines fun _ => setUp.data) 13 first).bind fun issued =>
      (step builtRoutines (fun _ => setUp.data) issued done_).bind fun cleared =>
      (nth (quietStep builtRoutines fun _ => setUp.data) 5 cleared).map (·.phase)) =
      some (.free 0x200C00 (some 0) true) := by
    decide +kernel
  obtain ⟨setUp, configured, whole⟩ := Option.bind_eq_some_iff.mp whole
  obtain ⟨first, called, whole⟩ := Option.bind_eq_some_iff.mp whole
  obtain ⟨issued, passed, whole⟩ := Option.bind_eq_some_iff.mp whole
  obtain ⟨cleared, moved, whole⟩ := Option.bind_eq_some_iff.mp whole
  obtain ⟨s, passed', frees⟩ := Option.map_eq_some_iff.mp whole
  have run : Run builtRoutines (fun _ => setUp.data) Patient (atStart setUp) issued :=
    quiet_run (.step .start (show Patient _ call from trivial) called) passed
  have clears : Patient issued done_ := by
    intro disk i set
    simp at set
  have run' := quiet_run (.step run clears moved) passed'
  have safe := buffers_not_recycled builtRoutines (fun _ => setUp.data) (fun _ => rfl) run'
  exact ⟨setUp, s, configured, run', frees, safe.1 _ _ _ frees 0 rfl⟩

def play (routines : Routines) (data : Nat → PortData) : System → List Event → Option System
  | s, [] => some s
  | s, event :: rest => (step routines data s event).bind (play routines data · rest)

theorem play_run {routines : Routines} {data : Nat → PortData} {allowed : System → Event → Prop} {start s last : System}
    {events : List Event} (allows : ∀ s, ∀ event ∈ events, allowed s event) (run : Run routines data allowed start s)
    (played : play routines data s events = some last) : Run routines data allowed start last := by
  induction events generalizing s with
  | nil =>
    obtain rfl := Option.some.inj played
    exact run
  | cons event rest ih =>
    obtain ⟨next, done, played⟩ := Option.bind_eq_some_iff.mp played
    exact ih (fun s event later => allows s event (List.mem_cons_of_mem _ later))
      (.step run (allows s event (List.mem_cons_self ..)) done) played

def issuedRead (lba : BitVec 64) : List Event := .call ⟨0, lba, 0x300000, 0x90000⟩ :: List.replicate 13 .driver

def failedRead : List Event :=
  issuedRead 7 ++ .moved (fun _ => ⟨1, 0, 0, 0x40000000, 0⟩) id :: List.replicate 3 .driver

/-- The buffer of a command that has failed is freed under the command, and the next call names the same block
to a second one. -/
theorem freed_under_way : ∃ setUp, twoSlots = some setUp ∧
    (∃ s, Run builtRoutines (fun _ => setUp.data) (fun _ _ => True) (atStart setUp) s ∧
      s.phase = .free 0x200C00 (some 0) false ∧ UnderWay s 0 0) ∧
    ∃ s, Run builtRoutines (fun _ => setUp.data) (fun _ _ => True) (atStart setUp) s ∧
      UnderWay s 0 0 ∧ UnderWay s 0 1 ∧
      SameBlock s.low (dba (fun _ => setUp.data) s 0 0) (dba (fun _ => setUp.data) s 0 1) := by
  have whole : (twoSlots.bind fun setUp => (play builtRoutines (fun _ => setUp.data) (atStart setUp) failedRead).bind
      fun s => (play builtRoutines (fun _ => setUp.data) s (.driver :: issuedRead 8)).map fun t =>
        decide ((s.phase = .free 0x200C00 (some 0) false ∧ UnderWay s 0 0) ∧ UnderWay t 0 0 ∧ UnderWay t 0 1 ∧
          SameBlock t.low (dba (fun _ => setUp.data) t 0 0) (dba (fun _ => setUp.data) t 0 1))) = some true := by
    decide +kernel
  obtain ⟨setUp, done, whole⟩ := Option.bind_eq_some_iff.mp whole
  obtain ⟨s, played, whole⟩ := Option.bind_eq_some_iff.mp whole
  obtain ⟨t, played', holds⟩ := Option.map_eq_some_iff.mp whole
  obtain ⟨failed, again⟩ := of_decide_eq_true holds
  have run : Run builtRoutines (fun _ => setUp.data) (fun _ _ => True) (atStart setUp) s :=
    play_run (fun _ _ _ => trivial) .start played
  exact ⟨setUp, done, ⟨s, run, failed⟩, ⟨t, play_run (fun _ _ _ => trivial) run played', again⟩⟩

end Ketone.Disk.SharedBuffers
