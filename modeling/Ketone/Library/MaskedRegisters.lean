import Mathlib.Data.Nat.Basic

/-! A file of registers in which a store changes only the bits that are writable
and that the access enables. -/

namespace Ketone.Library.MaskedRegisters

/-- The bits of `new` where the mask is set, those of `old` elsewhere. -/
def merge {w : Nat} (old new mask : BitVec w) : BitVec w := (old &&& ~~~mask) ||| (new &&& mask)

@[ext] structure File (w : Nat) where
  value : Nat → BitVec w
  writable : Nat → BitVec w

def File.store {w : Nat} (file : File w) (index : Nat) (new enable : BitVec w) : File w :=
  { file with value := fun k =>
      if k = index then merge (file.value k) new (file.writable k &&& enable) else file.value k }

section
variable {w : Nat}

theorem getElem_merge (old new mask : BitVec w) (i : Nat) (inside : i < w) :
    (merge old new mask)[i] = if mask[i] then new[i] else old[i] := by
  simp only [merge, BitVec.getElem_or, BitVec.getElem_and, BitVec.getElem_not]
  cases mask[i] <;> simp

theorem merge_back {old back mask : BitVec w} (new : BitVec w) (agree : back &&& mask = old &&& mask) :
    merge (merge old new mask) back mask = old := by
  ext i inside
  have bit := congrArg (fun x : BitVec w => x.getLsbD i) agree
  simp only [BitVec.getLsbD_eq_getElem inside, BitVec.getElem_and] at bit
  rw [getElem_merge, getElem_merge]
  cases set : mask[i] with
  | false => simp
  | true => simpa [set] using bit

variable (file : File w)

@[simp] theorem store_writable (index : Nat) (new enable : BitVec w) :
    (file.store index new enable).writable = file.writable := rfl

theorem store_same (index : Nat) (new enable : BitVec w) : (file.store index new enable).value index =
    merge (file.value index) new (file.writable index &&& enable) := if_pos rfl

theorem store_other {index k : Nat} (different : k ≠ index) (new enable : BitVec w) :
    (file.store index new enable).value k = file.value k := if_neg different

/-- Stores to different registers commute. -/
theorem store_comm {index other : Nat} (different : index ≠ other) (new enable new' enable' : BitVec w) :
    (file.store index new enable).store other new' enable' =
      (file.store other new' enable').store index new enable := by
  ext1
  · funext k
    by_cases here : k = other
    · subst here
      rw [store_same, store_other _ (Ne.symm different), store_other _ (Ne.symm different), store_same]
      rfl
    · rw [store_other _ here]
      by_cases there : k = index
      · subst there
        rw [store_same, store_same, store_other _ here]
        rfl
      · rw [store_other _ there, store_other _ there, store_other _ here]
  · rfl

theorem store_back {index : Nat} {back enable : BitVec w} (new : BitVec w)
    (agree : back &&& enable = file.value index &&& enable) :
    (file.store index new enable).store index back enable = file := by
  ext1
  · funext k
    by_cases same : k = index
    · subst same
      have agree' : back &&& (file.writable k &&& enable) = file.value k &&& (file.writable k &&& enable) := by
        rw [BitVec.and_comm (file.writable k), ← BitVec.and_assoc, ← BitVec.and_assoc, agree]
      rw [store_same, store_same, store_writable]
      exact merge_back new agree'
    · rw [store_other _ same, store_other _ same]
  · rfl

theorem store_readOnly (index k : Nat) (new enable : BitVec w) :
    (file.store index new enable).value k &&& ~~~file.writable k = file.value k &&& ~~~file.writable k := by
  by_cases same : k = index
  · subst same
    rw [store_same]
    ext i inside
    rw [BitVec.getElem_and, BitVec.getElem_and, getElem_merge, BitVec.getElem_and, BitVec.getElem_not]
    cases (file.writable k)[i] <;> simp
  · rw [store_other _ same]

theorem merge_zero (old new : BitVec w) : merge old new 0 = old := by
  simp [merge]

end

section
variable {w : Nat}

theorem probe_exact_iff {value writable flags : BitVec w} :
    merge value (BitVec.allOnes w) writable &&& ~~~flags = writable &&& ~~~flags ↔
      value &&& ~~~writable &&& ~~~flags = 0 := by
  constructor
  all_goals
    intro agree
    ext i inside
    have bit := congrArg (fun x : BitVec w => x.getLsbD i) agree
    simp only [BitVec.getLsbD_eq_getElem inside, BitVec.getElem_and, BitVec.getElem_not, getElem_merge] at bit ⊢
    cases set : writable[i] <;> simp [set] at bit ⊢
    exact bit

theorem merge_flags (old addr flags mask : BitVec w) :
    merge old ((old &&& flags) ||| (addr &&& ~~~flags)) mask &&& flags = old &&& flags := by
  ext i inside
  rw [BitVec.getElem_and, BitVec.getElem_and, getElem_merge, BitVec.getElem_or, BitVec.getElem_and,
    BitVec.getElem_and, BitVec.getElem_not]
  cases mask[i] <;> cases flags[i] <;> simp

theorem eq_of_masked {a b mask : BitVec w} (on : a &&& mask = b &&& mask)
    (off : a &&& ~~~mask = b &&& ~~~mask) : a = b := by
  ext i inside
  have bit := congrArg (fun x : BitVec w => x.getLsbD i) on
  have bit' := congrArg (fun x : BitVec w => x.getLsbD i) off
  simp only [BitVec.getLsbD_eq_getElem inside, BitVec.getElem_and, BitVec.getElem_not] at bit bit'
  cases set : mask[i] <;> simp [set] at bit bit'
  · exact bit'
  · exact bit

/-- A register that is probed exactly takes an address of the bits seen, and keeps its flags out of it. -/
theorem settle_exact {value writable flags addr : BitVec w} (clear : value &&& ~~~writable &&& ~~~flags = 0)
    (seen : addr &&& ~~~(writable &&& ~~~flags) = 0) :
    merge value ((value &&& flags) ||| (addr &&& ~~~flags)) writable &&& ~~~flags = addr := by
  ext i inside
  have bit := congrArg (fun x : BitVec w => x.getLsbD i) clear
  have bit' := congrArg (fun x : BitVec w => x.getLsbD i) seen
  simp only [BitVec.getLsbD_eq_getElem inside, BitVec.getElem_and, BitVec.getElem_not] at bit bit'
  rw [BitVec.getElem_and, getElem_merge, BitVec.getElem_or, BitVec.getElem_and, BitVec.getElem_and,
    BitVec.getElem_not]
  cases set : writable[i] <;> cases flag : flags[i] <;> simp [set, flag] at bit bit' ⊢
  · simp [bit, bit']
  · simp [bit']
  · simp [bit']

end

end Ketone.Library.MaskedRegisters
