import Ketone.Acpi.TableChecksum
import Ketone.Exfat.PathResolution

/-! The entries of the accepted root table: which of them a lookup of a table reads. -/

namespace Ketone.Acpi.GetTable
open Library Library.Bytes Library.Ram Rsdp TableChecksum Exfat.OpenFile Exfat.Lookup Exfat.PathResolution

def sizeofRsdtHeader : BitVec 64 := 36

/-- The table returned, null if there is none, and the indices of the entries read. -/
structure Answer where
  table : BitVec 64
  read : List Nat

/-- `RSD_T` after the search, null as long as no root table has been found. -/
def rsdT (s : Search) : BitVec 64 := s.rsdt.getD 0

section
variable (memory : Memory)

/-- `entries[i]`, a 32-bit pointer behind the header. -/
def entry (rsdt : BitVec 64) (i : Nat) : BitVec 64 :=
  (field 32 (bytesAt memory (rsdt + sizeofRsdtHeader)) (4 * i)).setWidth 64

def signature (table : BitVec 64) : Str := (List.range 4).map (bytesAt memory table)

/-- The header is subtracted in 64 bits, and the quotient cut to 32. -/
def entryCount (rsdt : BitVec 64) : BitVec 32 :=
  (((Mcfg.length (bytesAt memory rsdt)).setWidth 64 - sizeofRsdtHeader) / 4).setWidth 32

def lookThrough (rsdt : BitVec 64) (name : Str) : Nat → Nat → Answer
  | 0, _ => ⟨0, []⟩
  | todo + 1, i =>
      if strcmp (signature memory (entry memory rsdt i)) name = 0 then ⟨entry memory rsdt i, [i]⟩
      else
        let later := lookThrough rsdt name todo (i + 1)
        ⟨later.table, i :: later.read⟩

def acpiGetTable (rsdt : BitVec 64) (name : Str) : Answer :=
  if rsdt = 0 then ⟨0, []⟩ else lookThrough memory rsdt name (entryCount memory rsdt).toNat 0

/-- The entries that lie wholly in the bytes from 36 up to the length. -/
def entriesInside (rsdt : BitVec 64) : List Nat := List.range ((tableLength memory rsdt - 36) / 4)

def Named (name : Str) (rsdt : BitVec 64) (i : Nat) : Prop := signature memory (entry memory rsdt i) = name

instance (name : Str) (rsdt : BitVec 64) (i : Nat) : Decidable (Named memory name rsdt i) := by
  unfold Named; infer_instance

/-- The table that the first entry of the name leads to, null if there is none. -/
def firstNamed (rsdt : BitVec 64) (name : Str) : BitVec 64 :=
  (((entriesInside memory rsdt).find? fun i => Named memory name rsdt i).map (entry memory rsdt)).getD 0

/-- Every entry read is one of the table's, and the answer is the first one of the name. -/
structure StaysInside (rsdt : BitVec 64) (name : Str) : Prop where
  read : ∀ i ∈ (acpiGetTable memory rsdt name).read, 36 ≤ 36 + 4 * i ∧ 36 + 4 * i + 4 ≤ tableLength memory rsdt
  table : (acpiGetTable memory rsdt name).table = firstNamed memory rsdt name

end

section
variable (memory : Memory) (rsdt : BitVec 64) {name : Str}

theorem length_signature (table : BitVec 64) : (signature memory table).length = 4 := by
  rw [signature, List.length_map, List.length_range]

theorem strcmp_same_length {first second : Str} (whole : 0 ∉ second) (long : first.length = second.length) :
    strcmp first second = 0 ↔ first = second := by
  rw [strcmp_eq_zero_iff, cstr_of_mem whole]
  constructor
  · intro same
    have parts : cstr first ++ first.dropWhile (· ≠ 0) = first := List.takeWhile_append_dropWhile
    have lengths := congrArg List.length parts
    rw [List.length_append, same] at lengths
    have none : first.dropWhile (· ≠ 0) = [] := List.eq_nil_of_length_eq_zero (by omega)
    rw [same, none, List.append_nil] at parts
    exact parts.symm
  · rintro rfl
    exact cstr_of_mem whole

variable (whole : 0 ∉ name) (four : name.length = 4)
include whole four

theorem named_iff (i : Nat) : strcmp (signature memory (entry memory rsdt i)) name = 0 ↔ Named memory name rsdt i :=
  strcmp_same_length whole ((length_signature memory _).trans four.symm)

/-- From entry `i` on, the first entry of the name is returned, and no entry behind the last is read. -/
theorem lookThrough_spec (todo i : Nat) :
    (lookThrough memory rsdt name todo i).table =
        (((List.range' i todo).find? fun i => Named memory name rsdt i).map (entry memory rsdt)).getD 0 ∧
      ∀ j ∈ (lookThrough memory rsdt name todo i).read, i ≤ j ∧ j < i + todo := by
  induction todo generalizing i with
  | zero => exact ⟨rfl, fun j member => by cases member⟩
  | succ todo ih =>
    obtain ⟨table, read⟩ := ih (i + 1)
    have named := named_iff memory rsdt whole four i
    rw [List.range'_succ, lookThrough]
    by_cases here : Named memory name rsdt i
    · rw [if_pos (named.mpr here), List.find?_cons_of_pos (by simpa using here)]
      refine ⟨rfl, ?_⟩
      intro j member
      rw [List.mem_singleton.mp member]
      omega
    · rw [if_neg (fun same => here (named.mp same)), List.find?_cons_of_neg (by simpa using here)]
      refine ⟨table, ?_⟩
      intro j member
      rcases List.mem_cons.mp member with rfl | later
      · omega
      · have bounds := read j later
        omega

omit whole four in
theorem lookThrough_first {todo : Nat} (some : 0 < todo) (i : Nat) :
    i ∈ (lookThrough memory rsdt name todo i).read := by
  obtain ⟨rest, rfl⟩ : ∃ rest, todo = rest + 1 := ⟨todo - 1, by omega⟩
  rw [lookThrough]
  by_cases here : strcmp (signature memory (entry memory rsdt i)) name = 0
  · rw [if_pos here]
    exact List.mem_singleton.mpr rfl
  · rw [if_neg here]
    exact List.mem_cons_self ..

end

section
variable {memory : Memory} {rsdt : BitVec 64}

theorem toNat_entryCount : (entryCount memory rsdt).toNat =
    (2 ^ 64 - 36 + tableLength memory rsdt) % 2 ^ 64 / 4 % 2 ^ 32 := by
  have word := (Mcfg.length (bytesAt memory rsdt)).isLt
  have header : (BitVec.toNat sizeofRsdtHeader) = 36 := rfl
  unfold entryCount tableLength
  rw [BitVec.toNat_setWidth, BitVec.toNat_udiv, BitVec.toNat_sub, BitVec.toNat_setWidth_of_le (by decide), header]
  rfl

theorem entryCount_long (long : 36 ≤ tableLength memory rsdt) :
    (entryCount memory rsdt).toNat = (tableLength memory rsdt - 36) / 4 := by
  have word : tableLength memory rsdt < 2 ^ 32 := (Mcfg.length (bytesAt memory rsdt)).isLt
  rw [toNat_entryCount]
  omega

theorem entryCount_short (short : tableLength memory rsdt < 36) : 2 ^ 32 - 9 ≤ (entryCount memory rsdt).toNat := by
  rw [toNat_entryCount]
  omega

theorem staysInside_iff {name : Str} (whole : 0 ∉ name) (four : name.length = 4) : StaysInside memory rsdt name ↔
    (rsdt ≠ 0 ∧ 36 ≤ tableLength memory rsdt) ∨ (rsdt = 0 ∧ firstNamed memory rsdt name = 0) := by
  by_cases null : rsdt = 0
  · have nothing : acpiGetTable memory rsdt name = ⟨0, []⟩ := if_pos null
    constructor
    · intro inside
      have same := inside.table
      rw [nothing] at same
      exact Or.inr ⟨null, same.symm⟩
    · intro either
      rcases either with ⟨nonnull, _⟩ | ⟨_, none⟩
      · exact (nonnull null).elim
      · apply StaysInside.mk
        · rw [nothing]
          intro i member
          cases member
        · rw [nothing, none]
  · have looks : acpiGetTable memory rsdt name = lookThrough memory rsdt name (entryCount memory rsdt).toNat 0 :=
      if_neg null
    by_cases long : 36 ≤ tableLength memory rsdt
    · refine iff_of_true ?_ (Or.inl ⟨null, long⟩)
      obtain ⟨table, read⟩ := lookThrough_spec memory rsdt whole four
        (entryCount memory rsdt).toNat 0
      rw [entryCount_long long] at table read looks
      apply StaysInside.mk
      · rw [looks]
        intro i member
        have bounds := read i member
        omega
      · rw [looks, table, firstNamed, entriesInside, List.range_eq_range']
    · -- the first entry is read already, and the table has none
      have count := entryCount_short (not_le.mp long)
      have first : 0 ∈ (acpiGetTable memory rsdt name).read := by
        rw [looks]
        exact lookThrough_first memory rsdt (by omega) 0
      apply iff_of_false
      · intro inside
        have bounds := inside.read 0 first
        omega
      · rintro (⟨_, enough⟩ | ⟨zero, _⟩)
        · exact long enough
        · exact null zero

end

/-- After a search that has found a root table, a lookup of a name of four characters keeps to the entries of this
table and gives the first one of the name exactly if the table is not at the null address and is as long as its
header, or is there and nothing would have to be given. -/
theorem get_table_inside_iff (memory : Memory) (name : CString) (four : name.bytes.length = 4) (rsdt : BitVec 64)
    (found : (acpiInit memory).rsdt = some rsdt) : StaysInside memory (rsdT (acpiInit memory)) name.bytes ↔
    (rsdt ≠ 0 ∧ 36 ≤ tableLength memory rsdt) ∨ (rsdt = 0 ∧ firstNamed memory rsdt name.bytes = 0) := by
  have same : rsdT (acpiInit memory) = rsdt := by
    rw [rsdT, found]
    rfl
  rw [same]
  exact staysInside_iff name.whole four

theorem found_first {memory : Memory} {table : BitVec 64} (candidate : Candidate memory 0xE0000)
    (leads : rsdtAddress memory 0xE0000 = table) (accepted : isRsdt memory table = true) :
    (acpiInit memory).rsdt = some table := by
  have address : rsdtAddress memory (BitVec.ofNat 64 0xE0000) = table := leads
  rw [acpiInit, show 0xFFFFF - 0xE0000 = 131070 + 1 by decide, List.range'_succ, search]
  rw [if_pos ((candidate_iff memory 0xE0000).mpr candidate)]
  dsimp only
  rw [address, if_pos accepted]

/-- "MCFG" -/
def mcfgName : CString := ⟨[0x4D, 0x43, 0x46, 0x47], by decide⟩

def leadingTo (table : List (BitVec 8)) : Memory :=
  storeBytes (storeBytes (fun _ => 0) 0xE0000 (rsdpSignature ++ [0x71, 0, 0, 0, 0, 0, 0, 0, 0x00, 0x70])) 0x7000
    (rsdtSignature ++ table)

/-- A root table of 40 bytes with one entry, which leads to an MCFG table at 0x8000. -/
def oneEntry : Memory :=
  storeBytes (leadingTo ([40, 0, 0, 0, 0, 27] ++ List.replicate 26 0 ++ [0x00, 0x80])) 0x8000 mcfgName.bytes

theorem get_table_inside_iff_one : StaysInside oneEntry (rsdT (acpiInit oneEntry)) mcfgName.bytes ↔
    ((0x7000 : BitVec 64) ≠ 0 ∧ 36 ≤ tableLength oneEntry 0x7000) ∨
      ((0x7000 : BitVec 64) = 0 ∧ firstNamed oneEntry 0x7000 mcfgName.bytes = 0) := by
  have candidate : Candidate oneEntry 0xE0000 := by
    unfold Candidate
    decide +kernel
  exact get_table_inside_iff oneEntry mcfgName rfl 0x7000
    (found_first candidate (by decide +kernel) (by decide +kernel))

/-- A root table whose length is 0 is accepted, as nothing is summed, and a lookup reads entries behind it. -/
theorem empty_table_read : (acpiInit (leadingTo [])).rsdt = some 0x7000 ∧ tableLength (leadingTo []) 0x7000 = 0 ∧
    ¬ StaysInside (leadingTo []) (rsdT (acpiInit (leadingTo []))) mcfgName.bytes := by
  have candidate : Candidate (leadingTo []) 0xE0000 := by
    unfold Candidate
    decide +kernel
  have found : (acpiInit (leadingTo [])).rsdt = some 0x7000 :=
    found_first candidate (by decide +kernel) (by decide +kernel)
  have empty : tableLength (leadingTo []) 0x7000 = 0 := by decide +kernel
  have same : rsdT (acpiInit (leadingTo [])) = 0x7000 := by
    rw [rsdT, found]
    rfl
  refine ⟨found, empty, ?_⟩
  rw [same, staysInside_iff mcfgName.whole rfl, empty]
  decide

end Ketone.Acpi.GetTable
