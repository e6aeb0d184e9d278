import Ketone.Pcie.BarRanges

/-! What the enumeration writes outside the base address registers that a function
implements. The scan reads six registers of every function, and the header type, which
says how many of them are base addresses, is never read. -/

namespace Ketone.Pcie.Frame
open Library Library.Align Library.Gap Library.MaskedRegisters Library.Packing Acpi.Mcfg
  MemManager.BumpAllocator MemManager.Manager Config Probe Remap Assign BarRanges

/-- How many base address registers a function has: endpoints six, bridges two, CardBus bridges one. -/
def barCount (ecam : Ecam) (slot : Slot) : Nat :=
  match ((ecam.read32 slot 0x0C >>> 16) &&& 0x7F).toNat with
  | 0 => 6
  | 1 => 2
  | 2 => 1
  | _ => 0

def ImplementedBar (ecam : Ecam) (slot : Slot) (k : Nat) : Prop := 4 ≤ k ∧ k < 4 + barCount ecam slot

/-- Every other register of every function holds what it held. -/
def FrameKept (ecam later : Ecam) : Prop :=
  ∀ slot k, ¬ ImplementedBar ecam slot k → later.read32 slot (4 * k) = ecam.read32 slot (4 * k)

section
variable {ecam : Ecam} {slot other : Slot}

theorem read32_congr (same : slot.addr 0 = other.addr 0) (ecam : Ecam) (offset : Nat) :
    ecam.read32 slot offset = ecam.read32 other offset := by
  unfold Ecam.read32
  rw [same]

theorem store_congr (same : slot.addr 0 = other.addr 0) (ecam : Ecam) (offset : Nat) (new enable : BitVec 32) :
    ecam.store slot offset new enable = ecam.store other offset new enable := by
  unfold Ecam.store
  rw [same]

theorem probeBar_congr (same : slot.addr 0 = other.addr 0) (bar : Nat) (p : Probing) :
    probeBar slot bar p = probeBar other bar p := by
  have sizes : ∀ offset barData is64, sizeBar p.ecam slot offset barData is64 =
      sizeBar p.ecam other offset barData is64 := by
    intro offset barData is64
    unfold sizeBar Ecam.read16 Ecam.write16 Ecam.write32
    simp only [read32_congr same, store_congr same]
  unfold probeBar
  dsimp only
  rw [read32_congr same, sizes]

theorem barRecord_congr (same : slot.addr 0 = other.addr 0) (ecam : Ecam) (bar : Nat) :
    barRecord ecam slot bar = barRecord ecam other bar := by
  have last : ∀ bar, lastBarWas64 ecam slot bar = lastBarWas64 ecam other bar := by
    intro bar
    induction bar with
    | zero => rfl
    | succ bar ih =>
      unfold lastBarWas64
      rw [ih, probeBar_congr same]
  unfold barRecord
  rw [last, probeBar_congr same]

theorem barCount_congr (same : slot.addr 0 = other.addr 0) (ecam : Ecam) :
    barCount ecam slot = barCount ecam other := by
  unfold barCount
  rw [read32_congr same]

theorem read32_store_away (away : slot.addr 0 ≠ other.addr 0) (ecam : Ecam) (offset offset' : Nat)
    (new enable : BitVec 32) :
    (ecam.store other offset' new enable).read32 slot offset = ecam.read32 slot offset := by
  unfold Ecam.read32 Ecam.store
  rw [if_neg away]

end

def Covers (record : BarRecord) (bar : Fin 6) (k : Nat) : Prop :=
  k = 4 + bar.val ∨ record.is64Bits = true ∧ k = 5 + bar.val

theorem barOffset_eq (bar : Nat) : barOffset bar = 4 * (4 + bar) := by
  unfold barOffset
  omega

theorem barOffset_high (bar : Nat) : barOffset bar + 4 = 4 * (5 + bar) := by
  unfold barOffset
  omega

section
variable {ecam later : Ecam} {slot : Slot} {bar : Fin 6}

theorem barRecord_valid {bar : Nat} (valid : (barRecord ecam slot bar).isValid = true) :
    lastBarWas64 ecam slot bar = false ∧
      (barRecord ecam slot bar).is64Bits = is64Bar (ecam.read32 slot (barOffset bar)) ∧
      (barRecord ecam slot bar).isIo = isIoBar (ecam.read32 slot (barOffset bar)) ∧
      lastBarWas64 ecam slot (bar + 1) = (barRecord ecam slot bar).is64Bits := by
  cases last : lastBarWas64 ecam slot bar with
  | true =>
    unfold barRecord probeBar at valid
    simp [last] at valid
  | false =>
    have kind := classify_kind (ecam.read32 slot (barOffset bar))
      (sizeBar ecam slot (barOffset bar) (ecam.read32 slot (barOffset bar))
        (is64Bar (ecam.read32 slot (barOffset bar)))).barDataHigh
      (sizeBar ecam slot (barOffset bar) (ecam.read32 slot (barOffset bar))
        (is64Bar (ecam.read32 slot (barOffset bar)))).mask
      (sizeBar ecam slot (barOffset bar) (ecam.read32 slot (barOffset bar))
        (is64Bar (ecam.read32 slot (barOffset bar)))).maskHigh
    have record : barRecord ecam slot bar = (probeBar slot bar ⟨ecam, false⟩).2 := by
      unfold barRecord
      rw [last]
    have next : lastBarWas64 ecam slot (bar + 1) = (probeBar slot bar ⟨ecam, false⟩).1.lastBarWas64 := by
      rw [lastBarWas64, last]
    rw [record, next]
    unfold probeBar
    simp only [Bool.false_eq_true, if_false]
    exact ⟨trivial, kind.2, kind.1, kind.2.symm⟩

theorem memory_of_wide (valid : (barRecord ecam slot bar).isValid = true)
    (wide : (barRecord ecam slot bar).is64Bits = true) : (barRecord ecam slot bar).isIo = false := by
  obtain ⟨_, kind, io, _⟩ := barRecord_valid valid
  rw [kind] at wide
  rw [io]
  exact io_of_is64 wide

theorem covers_apart {first second : Fin 6} (different : first ≠ second)
    (valid : (barRecord ecam slot first).isValid = true) (valid' : (barRecord ecam slot second).isValid = true)
    {k : Nat} (covers : Covers (barRecord ecam slot first) first k) :
    ¬ Covers (barRecord ecam slot second) second k := by
  have distinct : first.val ≠ second.val := fun same => different (Fin.ext same)
  have behind : ∀ a b : Fin 6, (barRecord ecam slot a).isValid = true → (barRecord ecam slot b).isValid = true →
      (barRecord ecam slot a).is64Bits = true → b.val ≠ a.val + 1 := by
    intro a b here there wide next
    obtain ⟨_, _, _, last⟩ := barRecord_valid here
    obtain ⟨clear, _⟩ := barRecord_valid there
    rw [← next, clear, wide] at last
    exact absurd last (by decide)
  rintro (low | ⟨wide, high⟩)
  · rcases covers with low' | ⟨wide', high'⟩
    · omega
    · exact behind first second valid valid' wide' (by omega)
  · rcases covers with low' | ⟨_, high'⟩
    · exact behind second first valid' valid wide (by omega)
    · omega

theorem program_untouched {other : Slot} {record : BarRecord} {k : Nat} (high low : BitVec 32)
    (away : slot.addr 0 = other.addr 0 → ¬ Covers record bar k) :
    (program later other (barOffset bar) record.is64Bits high low).read32 slot (4 * k) =
      later.read32 slot (4 * k) := by
  have offset := barOffset_eq bar
  by_cases here : slot.addr 0 = other.addr 0
  · have clear := away here
    unfold Covers at clear
    rw [read32_congr here, read32_congr here]
    rw [not_or, not_and] at clear
    apply program_other
    · omega
    · intro wide
      have := clear.2 wide
      omega
  · unfold program Ecam.write32
    rw [read32_store_away here]
    cases record.is64Bits with
    | false => rfl
    | true => exact read32_store_away here ..

theorem actualBase_congr {record : BarRecord}
    (same : ∀ k, Covers record bar k → later.read32 slot (4 * k) = ecam.read32 slot (4 * k)) :
    actualBase later slot (barOffset bar) record = actualBase ecam slot (barOffset bar) record := by
  have low : later.read32 slot (barOffset bar) = ecam.read32 slot (barOffset bar) := by
    rw [barOffset_eq]
    exact same _ (Or.inl rfl)
  have high : record.is64Bits = true →
      later.read32 slot (barOffset bar + 4) = ecam.read32 slot (barOffset bar + 4) := by
    intro wide
    rw [barOffset_high]
    exact same _ (Or.inr ⟨wide, rfl⟩)
  unfold actualBase
  rw [low]
  cases wide : record.is64Bits with
  | false => rfl
  | true => simp only [if_true, high wide]

theorem base_eq (valid : (barRecord ecam slot bar).isValid = true) :
    (barRecord ecam slot bar).base = actualBase ecam slot (barOffset bar) (barRecord ecam slot bar) := by
  obtain ⟨last, wide, io, _⟩ := barRecord_valid valid
  unfold actualBase
  rw [wide, io]
  unfold barRecord probeBar at valid ⊢
  rw [last] at valid ⊢
  simp only [Bool.false_eq_true, if_false] at valid ⊢
  generalize dataEq : ecam.read32 slot (barOffset bar) = data at *
  generalize sizedEq : sizeBar ecam slot (barOffset bar) data (is64Bar data) = sized at *
  have upper : sized.barDataHigh = if is64Bar data then ecam.read32 slot (barOffset bar + 4) else 0 := by
    rw [← sizedEq]
    rfl
  unfold classify at valid ⊢
  cases kind : isIoBar data with
  | true =>
    simp only [if_true]
  | false =>
    simp only [kind, Bool.false_eq_true, if_false] at valid ⊢
    split at valid
    · simp at valid
    next other =>
    rw [if_neg other]
    cases wide : is64Bar data with
    | false => simp only [Bool.false_eq_true, if_false]
    | true =>
      rw [wide] at upper
      simp only [if_true] at upper ⊢
      rw [upper, wide_mask]

end

def slotBars (todo : List Slot) : List (Slot × Fin 6) :=
  todo.flatMap fun slot => (List.finRange 6).map (Prod.mk slot)

/-- The last place given to a register; a function that two entries of the table reach is served twice. -/
def lastPlace {α : Type} (given : List ((Slot × Fin 6) × Option α)) (addr : BitVec 64) (bar : Fin 6) : Option α :=
  given.reverse.findSome? fun item => if item.1.1.addr 0 = addr ∧ item.1.2 = bar then item.2 else none

section
variable {α : Type} {given : List ((Slot × Fin 6) × Option α)}

theorem lastPlace_append (item : (Slot × Fin 6) × Option α) (addr : BitVec 64) (bar : Fin 6) :
    lastPlace (given ++ [item]) addr bar =
      (if item.1.1.addr 0 = addr ∧ item.1.2 = bar then item.2 else none).or (lastPlace given addr bar) := by
  unfold lastPlace
  rw [List.reverse_append, List.reverse_singleton, List.findSome?_append, List.findSome?_singleton]

theorem lastPlace_map {β : Type} (change : α → β) (addr : BitVec 64) (bar : Fin 6) :
    lastPlace (given.map (Prod.map id (Option.map change))) addr bar = (lastPlace given addr bar).map change := by
  unfold lastPlace
  rw [← List.map_reverse]
  induction given.reverse with
  | nil => rfl
  | cons item rest ih =>
    rw [List.map_cons, List.findSome?_cons, List.findSome?_cons, ih]
    by_cases here : item.1.1.addr 0 = addr ∧ item.1.2 = bar
    · simp only [Prod.map, id, if_pos here]
      cases item.2 <;> rfl
    · simp only [Prod.map, id, if_neg here]

theorem lastPlace_mem {addr : BitVec 64} {bar : Fin 6} {place : α} (held : lastPlace given addr bar = some place) :
    ∃ item ∈ given, item.1.1.addr 0 = addr := by
  obtain ⟨item, member, here⟩ := List.exists_of_findSome?_eq_some held
  refine ⟨item, List.mem_reverse.mp member, ?_⟩
  split at here
  next same => exact same.1
  · simp at here

end

/-- The registers after some places have been given: those read back, their flags and all other
registers hold what they held. -/
structure Placed (ecam later : Ecam) (given : List ((Slot × Fin 6) × Option (BitVec 64))) : Prop where
  valid : ∀ slot bar place, lastPlace given (slot.addr 0) bar = some place →
    (barRecord ecam slot bar).isValid = true
  reads : ∀ slot bar place, lastPlace given (slot.addr 0) bar = some place →
    actualBase later slot (barOffset bar) (barRecord ecam slot bar) = place
  flags : ∀ slot, ∀ bar : Fin 6, (barRecord ecam slot bar).isValid = true →
    later.read32 slot (barOffset bar) &&& flagBits (barRecord ecam slot bar).isIo =
      ecam.read32 slot (barOffset bar) &&& flagBits (barRecord ecam slot bar).isIo
  rest : ∀ slot k, (∀ bar place, lastPlace given (slot.addr 0) bar = some place →
      ¬ Covers (barRecord ecam slot bar) bar k) →
    later.read32 slot (4 * k) = ecam.read32 slot (4 * k)

theorem Placed.restored {ecam later : Ecam} {given : List ((Slot × Fin 6) × Option (BitVec 64))} {slot : Slot}
    {k : Nat} (placed : Placed ecam later given)
    (same : ∀ bar newBase, lastPlace given (slot.addr 0) bar = some newBase →
      Covers (barRecord ecam slot bar) bar k → later.read32 slot (4 * k) = ecam.read32 slot (4 * k)) :
    later.read32 slot (4 * k) = ecam.read32 slot (4 * k) := by
  by_cases covered : ∃ bar newBase, lastPlace given (slot.addr 0) bar = some newBase ∧
      Covers (barRecord ecam slot bar) bar k
  · obtain ⟨bar, newBase, last, covers⟩ := covered
    exact same bar newBase last covers
  · apply placed.rest slot k
    intro bar newBase last covers
    exact covered ⟨bar, newBase, last, covers⟩

theorem placed_nil (ecam : Ecam) : Placed ecam ecam [] :=
  ⟨by simp [lastPlace], by simp [lastPlace], fun _ _ _ => rfl, fun _ _ _ => rfl⟩

section
variable {ecam later : Ecam} {given : List ((Slot × Fin 6) × Option (BitVec 64))} {slot : Slot} {bar : Fin 6}

theorem placed_none (placed : Placed ecam later given) : Placed ecam later (given ++ [((slot, bar), none)]) := by
  have same : ∀ addr b, lastPlace (given ++ [((slot, bar), none)]) addr b = lastPlace given addr b := by
    intro addr b
    rw [lastPlace_append, ite_self, Option.none_or]
  obtain ⟨valid, reads, flags, rest⟩ := placed
  refine ⟨?_, ?_, flags, ?_⟩
  · intro s b place
    rw [same]
    exact valid s b place
  · intro s b place
    rw [same]
    exact reads s b place
  · intro s k
    simp only [same]
    exact rest s k

/-- A remap that reads back gives the register its place and disturbs nothing else. -/
theorem placed_some (placed : Placed ecam later given) (valid : (barRecord ecam slot bar).isValid = true)
    (newBase : BitVec 64) {after : Ecam}
    (stored : after = program later slot (barOffset bar) (barRecord ecam slot bar).is64Bits
      ((newBase >>> 32).setWidth 32)
      (newLow (barRecord ecam slot bar) (later.read32 slot (barOffset bar)) newBase))
    (reads : actualBase after slot (barOffset bar) (barRecord ecam slot bar) = newBase) :
    Placed ecam after (given ++ [((slot, bar), some newBase)]) := by
  have last : ∀ s : Slot, ∀ b : Fin 6, slot.addr 0 = s.addr 0 → bar = b →
      lastPlace (given ++ [((slot, bar), some newBase)]) (s.addr 0) b = some newBase := by
    intro s b here this
    rw [lastPlace_append, if_pos ⟨here, this⟩, Option.some_or]
  have before : ∀ s : Slot, ∀ b : Fin 6, ¬ (slot.addr 0 = s.addr 0 ∧ bar = b) →
      lastPlace (given ++ [((slot, bar), some newBase)]) (s.addr 0) b = lastPlace given (s.addr 0) b := by
    intro s b away
    rw [lastPlace_append, if_neg away, Option.none_or]
  have untouched : ∀ s : Slot, ∀ k, (slot.addr 0 = s.addr 0 → ¬ Covers (barRecord ecam slot bar) bar k) →
      after.read32 s (4 * k) = later.read32 s (4 * k) := by
    intro s k away
    rw [stored]
    exact program_untouched _ _ fun here => away here.symm
  -- the registers of another valid record keep out of the way
  have others : ∀ s : Slot, ∀ b : Fin 6, (barRecord ecam s b).isValid = true → ¬ (slot.addr 0 = s.addr 0 ∧ bar = b) →
      ∀ k, Covers (barRecord ecam s b) b k → after.read32 s (4 * k) = later.read32 s (4 * k) := by
    intro s b valid' away k covers
    apply untouched
    intro here
    rw [barRecord_congr here]
    rw [barRecord_congr here] at valid
    exact covers_apart (fun this => away ⟨here, this.symm⟩) valid' valid covers
  refine ⟨?_, ?_, ?_, ?_⟩
  · intro s b place held
    by_cases this : slot.addr 0 = s.addr 0 ∧ bar = b
    · rw [← this.2, ← barRecord_congr this.1]
      exact valid
    · rw [before s b this] at held
      exact placed.valid s b place held
  · intro s b place held
    by_cases this : slot.addr 0 = s.addr 0 ∧ bar = b
    · rw [last s b this.1 this.2] at held
      obtain rfl := Option.some.inj held
      rw [← this.2, ← barRecord_congr this.1]
      unfold actualBase at reads ⊢
      rw [← read32_congr this.1, ← read32_congr this.1]
      exact reads
    · rw [before s b this] at held
      rw [actualBase_congr (others s b (placed.valid s b place held) this)]
      exact placed.reads s b place held
  · intro s b valid'
    rw [← placed.flags s b valid']
    by_cases this : slot.addr 0 = s.addr 0 ∧ bar = b
    · rw [← this.2, ← barRecord_congr this.1, ← read32_congr this.1, ← read32_congr this.1, stored]
      exact program_flags later slot _ (barRecord ecam slot bar) newBase
    · rw [barOffset_eq, others s b valid' this _ (Or.inl rfl)]
  · intro s k clear
    rw [untouched s k, placed.rest s k]
    · intro b place held covers
      by_cases this : slot.addr 0 = s.addr 0 ∧ bar = b
      · exact clear b newBase (last s b this.1 this.2) covers
      · exact clear b place (by rw [before s b this]; exact held) covers
    · intro here covers
      rw [barRecord_congr here] at covers
      exact clear bar newBase (last s bar here rfl) covers

theorem placed_assignBar {kBump : KBumpAllocAligned} {state next : Assigning} (here : state.device.slot = slot)
    (record : state.device.bar bar = barRecord ecam slot bar) (placed : Placed ecam state.ecam given)
    (turn : assignBar kBump state bar = .ok next) :
    Placed ecam next.ecam
      (given ++ [((slot, bar), (offer kBump state.bump (barRecord ecam slot bar)).1)]) := by
  obtain ⟨same, reads⟩ := assignBar_ok turn
  rw [record, here] at reads
  rw [same, record]
  dsimp only
  cases place : (offer kBump state.bump (barRecord ecam slot bar)).1 with
  | none => exact placed_none placed
  | some newBase =>
    have valid : (barRecord ecam slot bar).isValid = true := by
      unfold offer at place
      split at place
      · simp at place
      next kept => exact not_not.mp (not_or.mp kept).1
    rw [place] at reads
    apply placed_some placed valid newBase _ (reads newBase rfl)
    unfold moveBar
    dsimp only
    rw [record, here]

theorem placed_foldlM {kBump : KBumpAllocAligned} {todo : List (Fin 6)} (distinct : todo.Nodup)
    {state last : Assigning} (here : state.device.slot = slot)
    (bars : ∀ b ∈ todo, state.device.bar b = barRecord ecam slot b) (placed : Placed ecam state.ecam given)
    (done : todo.foldlM (assignBar kBump) state = .ok last) :
    Placed ecam last.ecam (given ++ (todo.map (Prod.mk slot)).zip
      (plan kBump state.bump (todo.map fun b : Fin 6 => barRecord ecam slot b)).1) := by
  induction todo generalizing state given with
  | nil =>
    obtain rfl : state = last := Except.ok.inj done
    simpa [plan] using placed
  | cons bar rest ih =>
    rw [List.foldlM_cons] at done
    obtain ⟨next, turn, done⟩ := Loop.bind_ok done
    have fresh := List.nodup_cons.mp distinct
    have record := bars bar (List.mem_cons_self ..)
    have step := placed_assignBar here record placed turn
    obtain ⟨same, _⟩ := assignBar_ok turn
    rw [record] at same
    have left : next.bump = (offer kBump state.bump (barRecord ecam slot bar)).2 := by rw [same]
    have stays : next.device.slot = slot := by
      rw [same]
      exact (settle_slot _ _ _).trans here
    have others : ∀ b ∈ rest, next.device.bar b = barRecord ecam slot b := by
      intro b member
      have away : b ≠ bar := fun this => fresh.1 (this ▸ member)
      rw [same]
      dsimp only
      rw [settle_bar, if_neg away]
      exact bars b (List.mem_cons_of_mem _ member)
    have later := ih fresh.2 stays others step done
    rw [left, List.append_assoc] at later
    simpa only [List.map_cons, plan, List.zip_cons_cons, List.singleton_append] using later

theorem placed_assignAll {kBump : KBumpAllocAligned} {todo : List Slot} {heap : BumpHeap} {result : Enumerated}
    (placed : Placed ecam later given)
    (done : assignAll kBump later heap (todo.map (deviceAt ecam)) = .ok result) :
    Placed ecam result.ecam (given ++ (slotBars todo).zip
      (plan kBump heap (records (todo.map (deviceAt ecam)))).1) := by
  induction todo generalizing later heap given result with
  | nil =>
    obtain rfl := Except.ok.inj done
    simpa [slotBars, records, plan] using placed
  | cons slot rest ih =>
    rw [List.map_cons] at done
    obtain ⟨first, others, turn, rests, rfl⟩ := assignAll_cons done
    obtain ⟨_, _, left, _, _⟩ := foldlM_records (List.nodup_finRange 6) turn
    have held : ∀ b ∈ List.finRange 6, (deviceAt ecam slot).bar b = barRecord ecam slot b := fun _ _ => rfl
    have step := placed_foldlM (List.nodup_finRange 6) rfl held placed turn
    have whole := ih step rests
    rw [left, List.append_assoc] at whole
    have bars : (List.finRange 6).map (deviceAt ecam slot).bar =
        (List.finRange 6).map fun b : Fin 6 => barRecord ecam slot b := rfl
    simp only [slotBars, records, List.flatMap_cons, List.map_cons] at whole ⊢
    rw [plan_append, List.zip_append (by simp [plan_length]), bars]
    rw [bars] at whole
    exact whole

end

section
variable {ecam later : Ecam} {slot : Slot} {offset : Nat} {record : BarRecord}

theorem actualBase_low (memory : record.is64Bits = true → record.isIo = false) :
    (actualBase ecam slot offset record).setWidth 32 = ecam.read32 slot offset &&& ~~~flagBits record.isIo := by
  have narrow : ∀ x : BitVec 32, (x.setWidth 64).setWidth 32 = x := by
    intro x
    ext i inside
    simp
  unfold actualBase flagBits
  cases wide : record.is64Bits with
  | false =>
    cases record.isIo with
    | false => exact narrow _
    | true => exact narrow _
  | true =>
    rw [memory wide]
    ext i inside
    simp

theorem actualBase_high (wide : record.is64Bits = true) (memory : record.isIo = false) :
    (actualBase ecam slot offset record).toNat / 2 ^ 32 = (ecam.read32 slot (offset + 4)).toNat := by
  unfold actualBase
  rw [wide, memory]
  simp only [if_true, Bool.false_eq_true, if_false]
  generalize ecam.read32 slot (offset + 4) = high
  generalize ecam.read32 slot offset &&& ~~~15 = low
  have bound := high.isLt
  have bound' := low.isLt
  rw [BitVec.toNat_or, BitVec.toNat_shiftLeft, BitVec.toNat_setWidth, BitVec.toNat_setWidth,
    Nat.mod_eq_of_lt (show high.toNat < 2 ^ 64 by omega), Nat.mod_eq_of_lt (show low.toNat < 2 ^ 64 by omega),
    Nat.shiftLeft_eq, Nat.mod_eq_of_lt (by omega), Nat.mul_comm, ← Nat.two_pow_add_eq_or_of_lt bound']
  omega

theorem low_eq (memory : record.is64Bits = true → record.isIo = false)
    (flags : later.read32 slot offset &&& flagBits record.isIo = ecam.read32 slot offset &&& flagBits record.isIo)
    (base : actualBase later slot offset record = actualBase ecam slot offset record) :
    later.read32 slot offset = ecam.read32 slot offset := by
  apply eq_of_masked flags
  rw [← actualBase_low memory, ← actualBase_low memory, base]

end

/-- Each register that the scan reads, with its place when the requests of all records are laid
out in the hole. -/
def laidOutBars (hole : Span) (ecam : Ecam) (entries : List McfgEntry) : List ((Slot × Fin 6) × Option Nat) :=
  (slotBars (responding ecam entries)).zip
    ((layOut hole.hi hole.lo ((firmware ecam entries).map BarRecord.request)).map nonnull)

/-- What is taken for a base address outside the implemented ones finds no room, or is where it
would be moved to; so is the upper half of the last one. -/
def OutsideStays (hole : Span) (ecam : Ecam) (entries : List McfgEntry) : Prop :=
  ∀ slot ∈ responding ecam entries, ∀ bar : Fin 6,
    ∀ place ∈ lastPlace (laidOutBars hole ecam entries) (slot.addr 0) bar,
      (barCount ecam slot ≤ bar.val → (barRecord ecam slot bar).base.toNat = place) ∧
      ((barRecord ecam slot bar).is64Bits = true → barCount ecam slot ≤ bar.val + 1 →
        (barRecord ecam slot bar).base.toNat / 2 ^ 32 = place / 2 ^ 32)

section
variable {ecam later : Ecam} {given : List ((Slot × Fin 6) × Option (BitVec 64))} {slot : Slot} {bar : Fin 6}
  {newBase : BitVec 64}

theorem base_of_kept (placed : Placed ecam later given) (kept : FrameKept ecam later)
    (last : lastPlace given (slot.addr 0) bar = some newBase) (outside : barCount ecam slot ≤ bar.val) :
    actualBase ecam slot (barOffset bar) (barRecord ecam slot bar) = newBase := by
  rw [← placed.reads slot bar newBase last]
  symm
  apply actualBase_congr
  intro k covers
  apply kept slot k
  unfold ImplementedBar
  rcases covers with low | ⟨_, high⟩ <;> omega

theorem upper_of_kept (placed : Placed ecam later given) (kept : FrameKept ecam later)
    (last : lastPlace given (slot.addr 0) bar = some newBase)
    (wide : (barRecord ecam slot bar).is64Bits = true) (outside : barCount ecam slot ≤ bar.val + 1) :
    (actualBase ecam slot (barOffset bar) (barRecord ecam slot bar)).toNat / 2 ^ 32 = newBase.toNat / 2 ^ 32 := by
  have io := memory_of_wide (placed.valid slot bar newBase last) wide
  have same : later.read32 slot (barOffset bar + 4) = ecam.read32 slot (barOffset bar + 4) := by
    rw [barOffset_high]
    apply kept slot
    unfold ImplementedBar
    omega
  rw [← placed.reads slot bar newBase last, actualBase_high wide io, actualBase_high wide io, same]

theorem kept_of_base (placed : Placed ecam later given)
    (last : lastPlace given (slot.addr 0) bar = some newBase)
    (base : (barRecord ecam slot bar).base.toNat = newBase.toNat) :
    later.read32 slot (barOffset bar) = ecam.read32 slot (barOffset bar) := by
  have valid := placed.valid slot bar newBase last
  apply low_eq (memory_of_wide valid) (placed.flags slot bar valid)
  rw [placed.reads slot bar newBase last, ← base_eq valid]
  exact (BitVec.eq_of_toNat_eq base).symm

theorem kept_of_upper (placed : Placed ecam later given)
    (last : lastPlace given (slot.addr 0) bar = some newBase)
    (wide : (barRecord ecam slot bar).is64Bits = true)
    (upper : (barRecord ecam slot bar).base.toNat / 2 ^ 32 = newBase.toNat / 2 ^ 32) :
    later.read32 slot (barOffset bar + 4) = ecam.read32 slot (barOffset bar + 4) := by
  have valid := placed.valid slot bar newBase last
  have io := memory_of_wide valid wide
  apply BitVec.eq_of_toNat_eq
  calc
    _ = newBase.toNat / 2 ^ 32 := by
      rw [← placed.reads slot bar newBase last, actualBase_high wide io]
    _ = (barRecord ecam slot bar).base.toNat / 2 ^ 32 := upper.symm
    _ = _ := by rw [base_eq valid, actualBase_high wide io]

end

section
variable {hole : Span} {fresh : Fresh} {ecam : Ecam} {entries : List McfgEntry} {result : Enumerated}

/-- The registers that the enumeration leaves, in terms of the layout. -/
theorem placed_result (le : hole.lo ≤ hole.hi) (below : hole.hi ≤ 2 ^ 32)
    (done : pcieGetDevices bumpAllocAligned fresh ecam entries (bumpHeap hole) = .ok result) :
    ∃ given, Placed ecam result.ecam given ∧
      (∀ item ∈ given, item.1.1 ∈ responding ecam entries) ∧
      ∀ addr bar, lastPlace (laidOutBars hole ecam entries) addr bar = (lastPlace given addr bar).map BitVec.toNat := by
  obtain ⟨restored, shrunk⟩ := enumerate_found fresh ecam entries
  unfold pcieGetDevices at done
  dsimp only at done
  rw [restored, shrunk] at done
  refine ⟨_, placed_assignAll (placed_nil ecam) done, ?_, ?_⟩
  · intro item member
    rw [List.nil_append] at member
    have key := (List.of_mem_zip member).1
    obtain ⟨slot, listed, pair⟩ := List.mem_flatMap.mp key
    obtain ⟨bar, _, same⟩ := List.mem_map.mp pair
    rw [← same]
    exact listed
  · intro addr bar
    obtain ⟨within, next, _, stop⟩ := bumpHeap_within le below
    have same := plan_layOut within (firmware ecam entries)
    rw [stop, next] at same
    rw [← lastPlace_map, laidOutBars, ← same, List.zip_map_right, List.nil_append, firmware]

end

/-- For every hole and every set of functions of any header type: when the enumeration returns,
all registers but the implemented base addresses are as they were exactly when nothing outside
those was moved. -/
theorem frame_kept_iff (hole : Span) (le : hole.lo ≤ hole.hi) (below : hole.hi ≤ 2 ^ 32) (fresh : Fresh)
    (ecam : Ecam) (entries : List McfgEntry) (result : Enumerated)
    (done : pcieGetDevices bumpAllocAligned fresh ecam entries (bumpHeap hole) = .ok result) :
    FrameKept ecam result.ecam ↔ OutsideStays hole ecam entries := by
  obtain ⟨given, placed, scanned, layout⟩ := placed_result le below done
  constructor
  · intro kept slot _ bar place held
    rw [Option.mem_def, layout] at held
    obtain ⟨newBase, last, rfl⟩ := Option.map_eq_some_iff.mp held
    rw [base_eq (placed.valid slot bar newBase last)]
    constructor
    · intro outside
      rw [base_of_kept placed kept last outside]
    · intro wide outside
      exact upper_of_kept placed kept last wide outside
  · intro stays slot k outside
    unfold ImplementedBar at outside
    apply placed.restored
    intro bar newBase last covers
    obtain ⟨item, member, here⟩ := lastPlace_mem last
    have held : newBase.toNat ∈ lastPlace (laidOutBars hole ecam entries) (item.1.1.addr 0) bar := by
      rw [Option.mem_def, layout, here, last]
      rfl
    have stay := stays item.1.1 (scanned item member) bar newBase.toNat held
    rw [barRecord_congr here, barCount_congr here] at stay
    rcases covers with rfl | ⟨wide, rfl⟩
    · rw [← barOffset_eq]
      apply kept_of_base placed last
      apply stay.1
      omega
    · rw [← barOffset_high]
      apply kept_of_upper placed last wide
      apply stay.2 wide
      omega

/-- A bridge of header type 1 from bus 0 to bus 1; `writable` is the write mask of its bus numbers
and secondary latency timer. -/
def bridge (writable : BitVec 32) : Ecam := oneFunction
  (fun k => if k = 0 then 0x12345678 else if k = 3 then 0x10000 else if k = 6 then 0x10100 else 0)
  (fun k => if k = 1 then 0xFFFF else if k = 6 then writable else 0)

def bridgeSlot : Slot := ⟨⟨0xB0000000, 0, 0, 0, 0⟩, 0, 0, 0⟩

/-- With a latency timer that can be written the bus numbers pass for a base address of 16 bytes,
and are overwritten. -/
theorem bus_numbers_overwritten : ∃ result, pcieGetDevices bumpAllocAligned (fun _ _ => blank)
      (bridge 0xFFFFFFFF) oneBus (bumpHeap ⟨0xE0000000, 0xE0100000⟩) = .ok result ∧
      ¬ FrameKept (bridge 0xFFFFFFFF) result.ecam := by
  have returns : ReturnsWith (fun result => result.ecam.read32 bridgeSlot 24 ≠
      (bridge 0xFFFFFFFF).read32 bridgeSlot 24) (pcieGetDevices bumpAllocAligned (fun _ _ => blank)
        (bridge 0xFFFFFFFF) oneBus (bumpHeap ⟨0xE0000000, 0xE0100000⟩)) := by decide +kernel
  obtain ⟨result, done, moved⟩ := returns.exists
  refine ⟨result, done, ?_⟩
  intro kept
  apply moved
  apply kept bridgeSlot 6
  unfold ImplementedBar
  decide +kernel

instance (hole : Span) (ecam : Ecam) (entries : List McfgEntry) : Decidable (OutsideStays hole ecam entries) := by
  unfold OutsideStays; infer_instance

/-- With the timer wired to zero the size is no power of two, and nothing is moved. -/
theorem frame_kept_bridge : ∃ result, pcieGetDevices bumpAllocAligned (fun _ _ => blank)
      (bridge 0xFFFFFF) oneBus (bumpHeap ⟨0xE0000000, 0xE0100000⟩) = .ok result ∧
      FrameKept (bridge 0xFFFFFF) result.ecam := by
  have returns : ReturnsWith (fun _ => True) (pcieGetDevices bumpAllocAligned (fun _ _ => blank)
      (bridge 0xFFFFFF) oneBus (bumpHeap ⟨0xE0000000, 0xE0100000⟩)) := by decide +kernel
  obtain ⟨result, done, _⟩ := returns.exists
  exact ⟨result, done, (frame_kept_iff ⟨0xE0000000, 0xE0100000⟩ (by decide) (by decide) _ (bridge 0xFFFFFF) oneBus
    result done).mpr (by decide +kernel)⟩

end Ketone.Pcie.Frame
