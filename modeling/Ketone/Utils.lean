import Ketone.Library.Loop
import Ketone.Library.Ram

/-! The routines for memory that the drivers share. -/

namespace Ketone.Utils
open Library.Loop Library.Ram

def memcmp (a b : Nat → BitVec 8) (n : Nat) : Int :=
  match (List.range n).find? fun i => a i ≠ b i with
  | some i => ((a i).toNat : Int) - (b i).toNat
  | none => 0

/-- The source comes first. Byte `n` is copied after those in front of it. -/
def memcpy (memory : Memory) (src dest : BitVec 64) : Nat → Memory
  | 0 => memory
  | n + 1 =>
      let memory := memcpy memory src dest n
      store memory (dest + BitVec.ofNat 64 n) (memory (src + BitVec.ofNat 64 n))

structure Filling where
  i : BitVec 64
  memory : Memory

/-- The counter runs over the addresses, and indexes from the pointer on all the same. -/
def memsetTurn (ptr stop : BitVec 64) (c : BitVec 8) (s : Filling) : Turn Filling Memory :=
  if s.i < stop then .again ⟨s.i + 1, store s.memory (ptr + s.i) c⟩ else .leave s.memory

def memset (memory : Memory) (ptr : BitVec 64) (c : BitVec 8) (n : BitVec 64) : Option Memory :=
  run (memsetTurn ptr (ptr + n) c) (n.toNat + 1) ⟨ptr, memory⟩

theorem memcmp_eq_zero_iff (a b : Nat → BitVec 8) (n : Nat) : memcmp a b n = 0 ↔ ∀ i < n, a i = b i := by
  unfold memcmp
  cases found : (List.range n).find? fun i => a i ≠ b i with
  | none =>
    apply iff_of_true rfl
    intro i below
    have same := List.find?_eq_none.mp found i (List.mem_range.mpr below)
    simpa using same
  | some i =>
    have differ := List.find?_some found
    have below := List.mem_range.mp (List.mem_of_find?_eq_some found)
    have apart : a i ≠ b i := of_decide_eq_true differ
    apply iff_of_false
    · intro zero
      apply apart
      apply BitVec.eq_of_toNat_eq
      dsimp only at zero
      omega
    · exact fun same => apart (same i below)

theorem memcpy_same (memory : Memory) (src : BitVec 64) {dest : BitVec 64} {n : Nat} (small : n ≤ 2 ^ 64)
    {area : Area} (apart : Area.Apart area ⟨dest, n⟩) : area.Same memory (memcpy memory src dest n) := by
  induction n with
  | zero => exact Area.Same.refl area memory
  | succ n ih =>
    have shorter : Area.Within ⟨dest, n⟩ ⟨dest, n + 1⟩ := fun addr has => show _ < _ from Nat.lt_succ_of_lt has
    refine (ih (by omega) (apart.mono (Area.Within.refl _) shorter)).trans ?_
    intro addr has
    have last : (⟨dest, n + 1⟩ : Area).Has (dest + BitVec.ofNat 64 n) :=
      Area.has_offset ⟨dest, n + 1⟩ (Nat.lt_succ_self n) small
    refine if_neg ?_
    rintro rfl
    exact apart _ has last

/-- What is copied is what the source held. -/
theorem memcpy_copied (memory : Memory) {src dest : BitVec 64} {n : Nat} (small : n ≤ 2 ^ 64)
    (apart : Area.Apart ⟨src, n⟩ ⟨dest, n⟩) {k : Nat} (below : k < n) :
    memcpy memory src dest n (dest + BitVec.ofNat 64 k) = memory (src + BitVec.ofNat 64 k) := by
  induction n with
  | zero => exact absurd below (Nat.not_lt_zero k)
  | succ n ih =>
    have shorter : ∀ base, Area.Within ⟨base, n⟩ ⟨base, n + 1⟩ := fun base addr has => show _ < _ from Nat.lt_succ_of_lt has
    have apart' := apart.mono (shorter src) (shorter dest)
    unfold memcpy
    dsimp only
    by_cases last : k = n
    · subst last
      have old : memcpy memory src dest k (src + BitVec.ofNat 64 k) = memory (src + BitVec.ofNat 64 k) :=
        memcpy_same memory src (by omega) (apart.mono (Area.Within.refl _) (shorter dest)) _
          (Area.has_offset ⟨src, k + 1⟩ (Nat.lt_succ_self k) small)
      rw [store, if_pos rfl, old]
    · have other : dest + BitVec.ofNat 64 k ≠ dest + BitVec.ofNat 64 n := by
        intro same
        have offsets := congrArg BitVec.toNat ((BitVec.add_right_inj _).mp same)
        rw [BitVec.toNat_ofNat, BitVec.toNat_ofNat, Nat.mod_eq_of_lt (by omega), Nat.mod_eq_of_lt (by omega)] at offsets
        exact last offsets
      rw [store, if_neg other]
      exact ih (by omega) apart' (by omega)

def meant (ptr n : BitVec 64) : Area := ⟨ptr, n.toNat⟩

/-- The bytes that are written: as far behind the pointer as the pointer is behind 0. -/
def written (ptr n : BitVec 64) : Area := ⟨ptr + ptr, n.toNat⟩

/-- After the call the bytes meant have the value, and every other byte is as it was. -/
def Fills (memory : Memory) (ptr : BitVec 64) (c : BitVec 8) (n : BitVec 64) : Prop :=
  ∃ after, memset memory ptr c n = some after ∧ after = fill memory (meant ptr n) c

section
variable {memory : Memory} {ptr n : BitVec 64} {c : BitVec 8}

/-- From any turn on, `todo` bytes are still to be written. -/
theorem memset_run (stop : BitVec 64) {todo : Nat} {s : Filling} (left : s.i.toNat + todo = stop.toNat) :
    run (memsetTurn ptr stop c) (todo + 1) s = some (fill s.memory ⟨ptr + s.i, todo⟩ c) := by
  have bound := stop.isLt
  induction todo generalizing s with
  | zero =>
    have past : ¬ s.i < stop := by
      rw [BitVec.lt_def]
      omega
    rw [run_leave 0 (show memsetTurn ptr stop c s = .leave s.memory from if_neg past)]
    rfl
  | succ todo ih =>
    have below : s.i < stop := by
      rw [BitVec.lt_def]
      omega
    have next : (s.i + 1).toNat = s.i.toNat + 1 := by
      rw [BitVec.toNat_add]
      change (_ + 1) % 2 ^ 64 = _
      omega
    rw [run_again _ (show memsetTurn ptr stop c s = .again ⟨s.i + 1, store s.memory (ptr + s.i) c⟩ from if_pos below),
      ih (by dsimp only; omega), Option.some.injEq, ← BitVec.add_assoc]
    funext addr
    unfold fill store
    dsimp only
    have parts : (⟨ptr + s.i, todo + 1⟩ : Area).Has addr ↔ addr = ptr + s.i ∨ (⟨ptr + s.i + 1, todo⟩ : Area).Has addr :=
      Area.has_cons (by omega)
    by_cases rest : (⟨ptr + s.i + 1, todo⟩ : Area).Has addr
    · rw [if_pos rest, if_pos (parts.mpr (Or.inr rest))]
    · rw [if_neg rest]
      by_cases first : addr = ptr + s.i
      · rw [if_pos first, if_pos (parts.mpr (Or.inl first))]
      · rw [if_neg first, if_neg (by rw [parts]; tauto)]

theorem memset_eq (noWrap : ptr.toNat + n.toNat < 2 ^ 64) :
    memset memory ptr c n = some (fill memory (written ptr n) c) := by
  apply memset_run
  dsimp only
  rw [BitVec.toNat_add, Nat.mod_eq_of_lt noWrap]

theorem fill_eq_iff (first second : Area) : fill memory first c = fill memory second c ↔
    ∀ addr, ¬ (first.Has addr ↔ second.Has addr) → memory addr = c := by
  constructor
  · intro same addr alone
    have byte := congrFun same addr
    unfold fill at byte
    by_cases left : first.Has addr
    · have right : ¬ second.Has addr := fun right => alone (iff_of_true left right)
      rw [if_pos left, if_neg right] at byte
      exact byte.symm
    · have right : second.Has addr := by
        by_contra right
        exact alone (iff_of_false left right)
      rw [if_neg left, if_pos right] at byte
      exact byte
  · intro value
    funext addr
    unfold fill
    by_cases left : first.Has addr
    · by_cases right : second.Has addr
      · rw [if_pos left, if_pos right]
      · rw [if_pos left, if_neg right]
        exact (value addr fun both => right (both.mp left)).symm
    · by_cases right : second.Has addr
      · rw [if_neg left, if_pos right]
        exact value addr fun both => left (both.mpr right)
      · rw [if_neg left, if_neg right]

theorem meant_apart_written (noWrap : ptr.toNat + n.toNat < 2 ^ 64) (short : n.toNat ≤ ptr.toNat) :
    Area.Apart (meant ptr n) (written ptr n) := by
  intro addr inside reached
  have bound := addr.isLt
  unfold meant Area.Has at inside
  unfold written Area.Has at reached
  dsimp only at inside reached
  rw [BitVec.toNat_sub] at inside reached
  rw [BitVec.toNat_add] at reached
  omega

theorem first_unwritten (noWrap : ptr.toNat + n.toNat < 2 ^ 64) (nonnull : ptr ≠ 0) : ¬ (written ptr n).Has ptr := by
  have positive : 0 < ptr.toNat := BitVec.toNat_pos_of_ne_zero nonnull
  unfold written Area.Has
  dsimp only
  rw [BitVec.toNat_sub, BitVec.toNat_add]
  omega

theorem fills_iff (noWrap : ptr.toNat + n.toNat < 2 ^ 64) : Fills memory ptr c n ↔
    ∀ addr, ¬ ((written ptr n).Has addr ↔ (meant ptr n).Has addr) → memory addr = c := by
  unfold Fills
  rw [memset_eq noWrap, ← fill_eq_iff]
  constructor
  · intro filled
    obtain ⟨after, done, same⟩ := filled
    rw [Option.some.inj done]
    exact same
  · exact fun same => ⟨_, rfl, same⟩

theorem fills_every_iff (noWrap : ptr.toNat + n.toNat < 2 ^ 64) :
    (∀ memory, Fills memory ptr c n) ↔ ptr = 0 ∨ n = 0 := by
  constructor
  · intro every
    by_contra neither
    rw [not_or] at neither
    have positive : 0 < n.toNat := BitVec.toNat_pos_of_ne_zero neither.2
    have first : (meant ptr n).Has ptr := by
      unfold meant Area.Has
      dsimp only
      rw [BitVec.sub_self]
      exact positive
    -- a memory that holds another value everywhere
    have other := (fills_iff noWrap).mp (every fun _ => c + 1) ptr
      fun both => first_unwritten noWrap neither.1 (both.mpr first)
    have differ : c + 1 ≠ c := by
      intro same
      have number := congrArg BitVec.toNat same
      rw [BitVec.toNat_add] at number
      change (c.toNat + 1) % 2 ^ 8 = c.toNat at number
      omega
    exact differ other
  · intro either memory
    rw [fills_iff noWrap]
    intro addr alone
    exfalso
    apply alone
    rcases either with rfl | rfl
    · rfl
    · exact iff_of_false (Nat.not_lt_zero _) (Nat.not_lt_zero _)

theorem memset_keeps (noWrap : ptr.toNat + n.toNat < 2 ^ 64) (short : n.toNat ≤ ptr.toNat) :
    ∃ after, memset memory ptr c n = some after ∧ (meant ptr n).Same memory after :=
  ⟨_, memset_eq noWrap, fill_same memory c (meant_apart_written noWrap short)⟩

end

/-- When the bytes meant have the value after the call and no other byte has changed: for one memory, and for
every memory. Above the length the bytes meant are all as they were. -/
theorem memset_fills_iff (memory : Memory) (ptr n : BitVec 64) (c : BitVec 8)
    (noWrap : ptr.toNat + n.toNat < 2 ^ 64) :
    (Fills memory ptr c n ↔ ∀ addr, ¬ ((written ptr n).Has addr ↔ (meant ptr n).Has addr) → memory addr = c) ∧
      ((∀ memory, Fills memory ptr c n) ↔ ptr = 0 ∨ n = 0) ∧
      (n.toNat ≤ ptr.toNat → ∃ after, memset memory ptr c n = some after ∧ (meant ptr n).Same memory after) :=
  ⟨fills_iff noWrap, fills_every_iff noWrap, memset_keeps noWrap⟩

/-- A sector's buffer in the low heap. -/
theorem memset_fills_iff_buffer :
    (∀ memory, Fills memory 0x200000 0 512) ↔ (0x200000 : BitVec 64) = 0 ∨ (512 : BitVec 64) = 0 :=
  (memset_fills_iff (fun _ => 0) 0x200000 512 0 (by decide)).2.1

/-- A sector's buffer that holds old bytes is not cleared. -/
theorem buffer_not_cleared : ¬ Fills (fun _ => 0xFF) 0x200000 0 512 := by
  rw [fills_iff (by decide)]
  intro every
  have first := every 0x200000 (by decide)
  exact absurd first (by decide)

end Ketone.Utils
