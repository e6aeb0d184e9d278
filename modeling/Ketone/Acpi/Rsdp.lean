import Ketone.Acpi.Mcfg
import Ketone.Utils

/-! The search for the root table. A structure in the area of the BIOS holds a pointer to it. -/

namespace Ketone.Acpi.Rsdp
open Library.Bytes Library.Ram Utils

def bytesAt (memory : Memory) (addr : BitVec 64) (k : Nat) : BitVec 8 := memory (addr + BitVec.ofNat 64 k)

/-- "RSD PTR " -/
def rsdpSignature : List (BitVec 8) := [0x52, 0x53, 0x44, 0x20, 0x50, 0x54, 0x52, 0x20]

/-- "RSDT" -/
def rsdtSignature : List (BitVec 8) := [0x52, 0x53, 0x44, 0x54]

def acpiChecksum (memory : Memory) (data : BitVec 64) (length : BitVec 8) : Bool :=
  (List.range length.toNat).foldl (fun sum i => sum + bytesAt memory data i) 0 = (0 : BitVec 8)

/-- `rsdt_address` of the packed `rsdp_t`, as wide as the pointers of the target. -/
def rsdtAddress (memory : Memory) (rsdp : BitVec 64) : BitVec 64 := field 64 (bytesAt memory rsdp) 16

/-- The table found, and the tables examined, each with the place of the structure that led to it. -/
structure Search where
  rsdt : Option (BitVec 64)
  examined : List (Nat × BitVec 64)

/-- Only the low byte of the table's length comes to the checksum. -/
def isRsdt (memory : Memory) (table : BitVec 64) : Bool :=
  memcmp (bytesAt memory table) (rsdtSignature.getD · 0) 4 = 0 &&
    acpiChecksum memory table ((Mcfg.length (bytesAt memory table)).setWidth 8)

def search (memory : Memory) : List Nat → Search
  | [] => ⟨none, []⟩
  | i :: rest =>
      let sig := BitVec.ofNat 64 i
      if memcmp (bytesAt memory sig) (rsdpSignature.getD · 0) 8 = 0 && acpiChecksum memory sig 20 then
        let table := rsdtAddress memory sig
        if isRsdt memory table then ⟨some table, [(i, table)]⟩
        else
          let later := search memory rest
          ⟨later.rsdt, (i, table) :: later.examined⟩
      else search memory rest

/-- No table found stands for the result `false`. -/
def acpiInit (memory : Memory) : Search := search memory (List.range' 0xE0000 (0xFFFFF - 0xE0000))

def HasBytes (memory : Memory) (addr : BitVec 64) (bytes : List (BitVec 8)) : Prop :=
  ∀ i < bytes.length, bytesAt memory addr i = bytes.getD i 0

def SumsToZero (memory : Memory) (addr : BitVec 64) (count : Nat) : Prop :=
  ((List.range count).map fun i => (bytesAt memory addr i).toNat).sum % 256 = 0

def Candidate (memory : Memory) (i : Nat) : Prop :=
  HasBytes memory (BitVec.ofNat 64 i) rsdpSignature ∧ SumsToZero memory (BitVec.ofNat 64 i) 20

def pointer32 (memory : Memory) (i : Nat) : BitVec 64 :=
  (field 32 (bytesAt memory (BitVec.ofNat 64 i)) 16).setWidth 64

/-- Bytes 20 to 23, which the first version does not have. -/
def following (memory : Memory) (i : Nat) : BitVec 32 := field 32 (bytesAt memory (BitVec.ofNat 64 i)) 20

def ShortRsdt (memory : Memory) (table : BitVec 64) : Prop :=
  HasBytes memory table rsdtSignature ∧ (Mcfg.length (bytesAt memory table)).toNat < 256 ∧
    SumsToZero memory table (Mcfg.length (bytesAt memory table)).toNat

/-- Every table examined is the one that the 32-bit pointer leads to, and a root table that some structure leads
to is found. -/
def FollowsPointer (memory : Memory) : Prop :=
  (∀ e ∈ (acpiInit memory).examined, e.2 = pointer32 memory e.1) ∧
    ((∃ i, 0xE0000 ≤ i ∧ i < 0xFFFFF ∧ Candidate memory i ∧ ShortRsdt memory (pointer32 memory i)) →
      (acpiInit memory).rsdt.isSome = true)

/-- Of `count` places from `first` on: the bytes that follow a structure are zero, unless a structure before
it leads to a root table. -/
def PaddingClear (memory : Memory) (first count : Nat) : Prop :=
  ∀ i, first ≤ i → i < first + count → Candidate memory i →
    (∀ j, first ≤ j → j < i → Candidate memory j → ¬ isRsdt memory (pointer32 memory j)) → following memory i = 0

section
variable (memory : Memory)

theorem memcmp_hasBytes (addr : BitVec 64) (bytes : List (BitVec 8)) :
    memcmp (bytesAt memory addr) (bytes.getD · 0) bytes.length = 0 ↔ HasBytes memory addr bytes :=
  memcmp_eq_zero_iff _ _ _

theorem toNat_running (addr : BitVec 64) (count : Nat) :
    ((List.range count).foldl (fun sum i => sum + bytesAt memory addr i) (0 : BitVec 8)).toNat =
      ((List.range count).map fun i => (bytesAt memory addr i).toNat).sum % 256 := by
  induction count with
  | zero => rfl
  | succ count ih =>
    rw [List.range_succ, List.foldl_append, List.foldl_cons, List.foldl_nil, BitVec.toNat_add, ih, List.map_append,
      List.sum_append, List.map_singleton, List.sum_singleton]
    exact Nat.mod_add_mod _ _ _

theorem acpiChecksum_iff (data : BitVec 64) (length : BitVec 8) :
    acpiChecksum memory data length = true ↔ SumsToZero memory data length.toNat := by
  unfold acpiChecksum SumsToZero
  rw [decide_eq_true_eq, ← BitVec.toNat_inj, toNat_running]
  rfl

theorem candidate_iff (i : Nat) :
    (memcmp (bytesAt memory (BitVec.ofNat 64 i)) (rsdpSignature.getD · 0) 8 = 0 &&
      acpiChecksum memory (BitVec.ofNat 64 i) 20) = true ↔ Candidate memory i := by
  rw [Bool.and_eq_true, decide_eq_true_eq, acpiChecksum_iff]
  exact and_congr (memcmp_hasBytes memory (BitVec.ofNat 64 i) rsdpSignature) Iff.rfl

theorem isRsdt_of_short {table : BitVec 64} (short : ShortRsdt memory table) : isRsdt memory table = true := by
  obtain ⟨signature, few, sums⟩ := short
  have length : ((Mcfg.length (bytesAt memory table)).setWidth 8).toNat = (Mcfg.length (bytesAt memory table)).toNat := by
    rw [BitVec.toNat_setWidth, Nat.mod_eq_of_lt few]
  unfold isRsdt
  rw [Bool.and_eq_true, decide_eq_true_eq, acpiChecksum_iff, length]
  exact ⟨(memcmp_hasBytes memory table rsdtSignature).mpr signature, sums⟩

theorem rsdtAddress_eq_iff (i : Nat) :
    rsdtAddress memory (BitVec.ofNat 64 i) = pointer32 memory i ↔ following memory i = 0 := by
  have low := littleEndian_lt (bytesAt memory (BitVec.ofNat 64 i)) 16 4
  have split := littleEndian_add (bytesAt memory (BitVec.ofNat 64 i)) 16 4 4
  rw [← BitVec.toNat_inj, ← BitVec.toNat_inj]
  unfold rsdtAddress pointer32 following
  rw [BitVec.toNat_setWidth, toNat_field _ _ _ rfl, toNat_field _ _ _ rfl, toNat_field _ _ _ rfl]
  change littleEndian _ 16 (4 + 4) = littleEndian _ 16 4 % 2 ^ 64 ↔ littleEndian _ 20 4 = 0
  rw [split]
  change _ + 256 ^ 4 * littleEndian _ 20 4 = _ ↔ _
  omega

end

section
variable {memory : Memory}

theorem paddingClear_succ (first count : Nat) : PaddingClear memory first (count + 1) ↔
    (Candidate memory first → following memory first = 0) ∧
      (¬ (Candidate memory first ∧ isRsdt memory (pointer32 memory first) = true) →
        PaddingClear memory (first + 1) count) := by
  constructor
  · intro clear
    constructor
    · intro candidate
      exact clear first le_rfl (by omega) candidate fun j low high => by omega
    · intro goes i low high candidate before
      refine clear i (by omega) (by omega) candidate fun j low' high' candidate' found => ?_
      by_cases own : j = first
      · subst own
        exact goes ⟨candidate', found⟩
      · exact before j (by omega) high' candidate' found
  · rintro ⟨own, rest⟩ i low high candidate before
    by_cases here : i = first
    · subst here
      exact own candidate
    · have goes : ¬ (Candidate memory first ∧ isRsdt memory (pointer32 memory first) = true) :=
        fun found => before first le_rfl (by omega) found.1 found.2
      exact rest goes i (by omega) (by omega) candidate fun j low' high' => before j (by omega) high'

/-- The tables examined are those of the 32-bit pointers exactly if the bytes behind the pointers are zero. -/
theorem examined_iff (first count : Nat) :
    (∀ e ∈ (search memory (List.range' first count)).examined, e.2 = pointer32 memory e.1) ↔
      PaddingClear memory first count := by
  induction count generalizing first with
  | zero => exact iff_of_true (by simp [search]) fun i low high => by omega
  | succ count ih =>
    rw [paddingClear_succ, List.range'_succ, search]
    by_cases candidate : Candidate memory first
    · rw [if_pos ((candidate_iff memory first).mpr candidate)]
      have pointer := rsdtAddress_eq_iff memory first
      by_cases found : isRsdt memory (rsdtAddress memory (BitVec.ofNat 64 first)) = true
      · rw [if_pos found]
        constructor
        · intro own
          have same : rsdtAddress memory (BitVec.ofNat 64 first) = pointer32 memory first :=
            own (first, _) (List.mem_singleton.mpr rfl)
          exact ⟨fun _ => pointer.mp same, fun goes => (goes ⟨candidate, same ▸ found⟩).elim⟩
        · rintro ⟨own, _⟩ e member
          rw [List.mem_singleton.mp member]
          exact pointer.mpr (own candidate)
      · rw [if_neg found, List.forall_mem_cons, ih]
        constructor
        · rintro ⟨own, rest⟩
          exact ⟨fun _ => pointer.mp own, fun _ => rest⟩
        · rintro ⟨own, rest⟩
          have same := pointer.mpr (own candidate)
          exact ⟨same, rest fun both => found (same ▸ both.2)⟩
    · rw [if_neg (fun test => candidate ((candidate_iff memory first).mp test)), ih]
      constructor
      · exact fun rest => ⟨fun some => (candidate some).elim, fun _ => rest⟩
      · exact fun both => both.2 fun some => candidate some.1

theorem found_of_clear {first count : Nat} (clear : PaddingClear memory first count)
    (leads : ∃ i, first ≤ i ∧ i < first + count ∧ Candidate memory i ∧ ShortRsdt memory (pointer32 memory i)) :
    (search memory (List.range' first count)).rsdt.isSome = true := by
  induction count generalizing first with
  | zero =>
    obtain ⟨i, low, high, _⟩ := leads
    omega
  | succ count ih =>
    obtain ⟨own, rest⟩ := (paddingClear_succ first count).mp clear
    obtain ⟨i, low, high, there, short⟩ := leads
    have later : i ≠ first → ∃ i, first + 1 ≤ i ∧ i < first + 1 + count ∧ Candidate memory i ∧
        ShortRsdt memory (pointer32 memory i) := fun other => ⟨i, by omega, by omega, there, short⟩
    rw [List.range'_succ, search]
    by_cases candidate : Candidate memory first
    · rw [if_pos ((candidate_iff memory first).mpr candidate)]
      have same := (rsdtAddress_eq_iff memory first).mpr (own candidate)
      dsimp only
      rw [same]
      by_cases found : isRsdt memory (pointer32 memory first) = true
      · rw [if_pos found]
        rfl
      · rw [if_neg found]
        refine ih (rest fun both => found both.2) (later ?_)
        rintro rfl
        exact found (isRsdt_of_short memory short)
    · rw [if_neg (fun test => candidate ((candidate_iff memory first).mp test))]
      refine ih (rest fun both => candidate both.1) (later ?_)
      rintro rfl
      exact candidate there

theorem followsPointer_iff (memory : Memory) :
    FollowsPointer memory ↔ PaddingClear memory 0xE0000 (0xFFFFF - 0xE0000) := by
  unfold FollowsPointer acpiInit
  rw [examined_iff]
  exact and_iff_left_of_imp fun clear leads => found_of_clear clear leads

end

/-- The search keeps to the 32-bit pointers exactly if, up to the first structure whose 32-bit pointer leads to
a root table, the four bytes behind every structure's pointer are zero. -/
theorem search_follows_iff (memory : Memory) : FollowsPointer memory ↔
    ∀ i, 0xE0000 ≤ i → i < 0xFFFFF → Candidate memory i →
      (∀ j, 0xE0000 ≤ j → j < i → Candidate memory j → ¬ isRsdt memory (pointer32 memory j)) →
      following memory i = 0 :=
  followsPointer_iff memory

/-- A structure of the second version, 36 bytes long, whose 32-bit pointer leads to a root table at 0x7000. -/
def secondVersion : Memory :=
  storeBytes (storeBytes (fun _ => 0) 0xE0000
    (rsdpSignature ++ [0x6F, 0, 0, 0, 0, 0, 0, 2, 0x00, 0x70, 0, 0, 36, 0, 0, 0])) 0x7000
    (rsdtSignature ++ [36, 0, 0, 0, 0, 159])

instance (memory : Memory) (addr : BitVec 64) (bytes : List (BitVec 8)) : Decidable (HasBytes memory addr bytes) := by
  unfold HasBytes; infer_instance

instance (memory : Memory) (addr : BitVec 64) (count : Nat) : Decidable (SumsToZero memory addr count) := by
  unfold SumsToZero; infer_instance

/-- The length of the structure is taken for the upper half of the pointer. -/
theorem second_version_not_followed : Candidate secondVersion 0xE0000 ∧ pointer32 secondVersion 0xE0000 = 0x7000 ∧
    ShortRsdt secondVersion 0x7000 ∧ ¬ FollowsPointer secondVersion := by
  have candidate : Candidate secondVersion 0xE0000 := by
    unfold Candidate
    decide +kernel
  have table : ShortRsdt secondVersion 0x7000 := by
    unfold ShortRsdt
    decide +kernel
  refine ⟨candidate, by decide +kernel, table, ?_⟩
  rw [followsPointer_iff]
  intro clear
  have zero := clear 0xE0000 le_rfl (by decide) candidate fun j low high => by omega
  revert zero
  decide +kernel

end Ketone.Acpi.Rsdp
