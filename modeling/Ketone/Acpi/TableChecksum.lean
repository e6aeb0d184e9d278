import Ketone.Acpi.Rsdp

/-! What the checksum says of a whole root table. Its length comes to the checksum as one byte. -/

namespace Ketone.Acpi.TableChecksum
open Library.Bytes Library.Ram Rsdp

section
variable (memory : Memory) (table : BitVec 64)

def tableLength : Nat := (Mcfg.length (bytesAt memory table)).toNat

/-- The search accepts the table exactly if all of its bytes sum to 0 modulo 256. -/
def CoversTable : Prop := isRsdt memory table = true ↔ SumsToZero memory table (tableLength memory table)

def covered : Nat := tableLength memory table % 256

def RestSumsToZero : Prop :=
  SumsToZero memory (table + BitVec.ofNat 64 (covered memory table)) (tableLength memory table - covered memory table)

end

section
variable {memory after : Memory} {table : BitVec 64}

def byteSum (memory : Memory) (addr : BitVec 64) (count : Nat) : Nat :=
  ((List.range count).map fun i => (bytesAt memory addr i).toNat).sum

theorem byteSum_succ (count : Nat) :
    byteSum memory table (count + 1) = byteSum memory table count + (bytesAt memory table count).toNat := by
  unfold byteSum
  rw [List.range_succ, List.map_append, List.sum_append, List.map_singleton, List.sum_singleton]

theorem bytesAt_add (first i : Nat) :
    bytesAt memory (table + BitVec.ofNat 64 first) i = bytesAt memory table (first + i) := by
  unfold bytesAt
  rw [BitVec.add_assoc, ← BitVec.ofNat_add]

theorem byteSum_add (first count : Nat) : byteSum memory table (first + count) =
    byteSum memory table first + byteSum memory (table + BitVec.ofNat 64 first) count := by
  induction count with
  | zero => rfl
  | succ count ih => rw [← Nat.add_assoc, byteSum_succ, byteSum_succ, ih, bytesAt_add, Nat.add_assoc]

theorem byteSum_congr {count : Nat} (same : ∀ i < count, bytesAt after table i = bytesAt memory table i) :
    byteSum after table count = byteSum memory table count := by
  unfold byteSum
  congr 1
  apply List.map_congr_left
  intro i member
  rw [same i (List.mem_range.mp member)]

theorem isRsdt_iff (signature : HasBytes memory table rsdtSignature) :
    isRsdt memory table = true ↔ SumsToZero memory table (covered memory table) := by
  have named := (memcmp_hasBytes memory table rsdtSignature).mpr signature
  have low : ((Mcfg.length (bytesAt memory table)).setWidth 8).toNat = covered memory table := BitVec.toNat_setWidth ..
  unfold isRsdt
  rw [Bool.and_eq_true, decide_eq_true_eq, acpiChecksum_iff, low]
  exact and_iff_right named

theorem byteSum_table : byteSum memory table (tableLength memory table) =
    byteSum memory table (covered memory table) + byteSum memory (table + BitVec.ofNat 64 (covered memory table))
      (tableLength memory table - covered memory table) := by
  have part : covered memory table ≤ tableLength memory table := Nat.mod_le _ _
  rw [← byteSum_add, Nat.add_sub_cancel' part]

theorem coversTable_iff (signature : HasBytes memory table rsdtSignature) : CoversTable memory table ↔
    RestSumsToZero memory table ∨ ¬ SumsToZero memory table (covered memory table) ∧
      ¬ SumsToZero memory table (tableLength memory table) := by
  have parts : byteSum memory table _ = _ + _ := byteSum_table
  unfold CoversTable RestSumsToZero
  rw [isRsdt_iff signature]
  unfold SumsToZero
  change (byteSum _ _ _ % 256 = 0 ↔ byteSum _ _ _ % 256 = 0) ↔
    byteSum _ _ _ % 256 = 0 ∨ ¬ byteSum _ _ _ % 256 = 0 ∧ ¬ byteSum _ _ _ % 256 = 0
  omega

end

section
variable (table : BitVec 64) (length : BitVec 32) (last : BitVec 8)

def tableEnding : Memory := fun addr =>
  let k := (addr - table).toNat
  if k < 4 then rsdtSignature.getD k 0
  else if k < 8 then (length >>> (8 * (k - 4))).setWidth 8
  else if k + 1 = length.toNat then last
  else 0

variable {table length last}

theorem bytesAt_tableEnding {k : Nat} (small : k < 2 ^ 64) : bytesAt (tableEnding table length last) table k =
    if k < 4 then rsdtSignature.getD k 0
    else if k < 8 then (length >>> (8 * (k - 4))).setWidth 8
    else if k + 1 = length.toNat then last
    else 0 := by
  have offset : (table + BitVec.ofNat 64 k - table).toNat = k := by
    rw [BitVec.add_comm, BitVec.add_sub_cancel, BitVec.toNat_ofNat, Nat.mod_eq_of_lt small]
  unfold bytesAt tableEnding
  rw [offset]

theorem tableEnding_signature : HasBytes (tableEnding table length last) table rsdtSignature := by
  intro i below
  have four : rsdtSignature.length = 4 := rfl
  rw [bytesAt_tableEnding (by omega), if_pos (by omega)]

theorem tableEnding_length : Mcfg.length (bytesAt (tableEnding table length last) table) = length := by
  apply BitVec.eq_of_toNat_eq
  have bytes : littleEndian (bytesAt (tableEnding table length last) table) 4 4 =
      littleEndian (fun k => (length >>> (8 * k)).setWidth 8) 0 4 := by
    apply littleEndian_congr
    intro k below
    rw [bytesAt_tableEnding (by omega), if_neg (by omega), if_pos (by omega), Nat.add_sub_cancel_left, Nat.zero_add]
  have word := length.isLt
  rw [Mcfg.length, toNat_field _ _ _ rfl]
  change littleEndian _ 4 4 = _
  rw [bytes, littleEndian_word, pow_zero, Nat.div_one]
  exact Nat.mod_eq_of_lt word

theorem byteSum_tableEnding (table : BitVec 64) (last other : BitVec 8) {count : Nat}
    (before : count < length.toNat) : byteSum (tableEnding table length last) table count =
      byteSum (tableEnding table length other) table count := by
  have word := length.isLt
  apply byteSum_congr
  intro i below
  have inside : ¬ i + 1 = length.toNat := by omega
  rw [bytesAt_tableEnding (by omega), bytesAt_tableEnding (by omega), if_neg inside, if_neg inside]

theorem sums_tableEnding (long : 256 ≤ length.toNat) :
    SumsToZero (tableEnding table length last) table length.toNat ↔
      (byteSum (tableEnding table length 0) table (length.toNat - 1) + last.toNat) % 256 = 0 := by
  have word := length.isLt
  have split : byteSum (tableEnding table length last) table (length.toNat - 1 + 1) = _ + _ := byteSum_succ _
  have before := byteSum_tableEnding table last 0 (show length.toNat - 1 < length.toNat by omega)
  rw [bytesAt_tableEnding (by omega), if_neg (by omega), if_neg (by omega), if_pos (by omega), before,
    Nat.sub_add_cancel (by omega)] at split
  rw [← split]
  rfl

/-- A length of 256 or more leaves the last byte out, so that it can be what it likes. -/
theorem covers_every_iff (table : BitVec 64) (length : BitVec 32) :
    (∀ memory, HasBytes memory table rsdtSignature → Mcfg.length (bytesAt memory table) = length →
      CoversTable memory table) ↔ length.toNat < 256 := by
  constructor
  · intro every
    by_contra long
    have word := length.isLt
    have accepted : ∀ last : BitVec 8, SumsToZero (tableEnding table length last) table length.toNat ↔
        SumsToZero (tableEnding table length 0) table (length.toNat % 256) := by
      intro last
      have covers := every (tableEnding table length last) tableEnding_signature tableEnding_length
      have before := byteSum_tableEnding table last 0 (show length.toNat % 256 < length.toNat by omega)
      unfold CoversTable tableLength at covers
      rw [isRsdt_iff tableEnding_signature, covered, tableLength, tableEnding_length] at covers
      refine covers.symm.trans ?_
      unfold SumsToZero
      change byteSum _ _ _ % 256 = 0 ↔ byteSum _ _ _ % 256 = 0
      rw [before]
    -- one last byte completes the sum and its successor does not
    let sum := byteSum (tableEnding table length 0) table (length.toNat - 1)
    have completes := (accepted (BitVec.ofNat 8 (256 - sum % 256))).trans
      (accepted (BitVec.ofNat 8 (257 - sum % 256))).symm
    rw [sums_tableEnding (by omega), sums_tableEnding (by omega), BitVec.toNat_ofNat, BitVec.toNat_ofNat] at completes
    change (sum + _) % 256 = 0 ↔ (sum + _) % 256 = 0 at completes
    omega
  · intro short memory signature own
    have all : covered memory table = tableLength memory table := by
      unfold covered tableLength
      rw [own, Nat.mod_eq_of_lt short]
    unfold CoversTable
    rw [isRsdt_iff signature, all]

end

/-- When the checksum speaks for the whole root table: whatever the table holds, for the lengths below 256 and no
others; and for one table, if the bytes that are left out sum to 0, or if neither the bytes that are summed nor all
of them do. -/
theorem checksum_covers_iff (memory : Memory) (table : BitVec 64) (signature : HasBytes memory table rsdtSignature) :
    (∀ length : BitVec 32, (∀ memory, HasBytes memory table rsdtSignature →
      Mcfg.length (bytesAt memory table) = length → CoversTable memory table) ↔ length.toNat < 256) ∧
    (CoversTable memory table ↔ RestSumsToZero memory table ∨ ¬ SumsToZero memory table (covered memory table) ∧
      ¬ SumsToZero memory table (tableLength memory table)) :=
  ⟨covers_every_iff table, coversTable_iff signature⟩

/-- A table of 256 bytes: not one of them is summed. -/
def longTable : Memory := storeBytes (fun _ => 0) 0x7000 (rsdtSignature ++ [0x00, 0x01, 0x00, 0x00])

theorem checksum_covers_iff_long : CoversTable longTable 0x7000 ↔ RestSumsToZero longTable 0x7000 ∨
    ¬ SumsToZero longTable 0x7000 (covered longTable 0x7000) ∧
      ¬ SumsToZero longTable 0x7000 (tableLength longTable 0x7000) := by
  have signature : HasBytes longTable 0x7000 rsdtSignature := by decide +kernel
  exact (checksum_covers_iff longTable 0x7000 signature).2

/-- It is accepted, though its bytes sum to 62. -/
theorem long_table_accepted : isRsdt longTable 0x7000 = true ∧ tableLength longTable 0x7000 = 256 ∧
    ¬ SumsToZero longTable 0x7000 (tableLength longTable 0x7000) ∧ ¬ CoversTable longTable 0x7000 := by
  have accepted : isRsdt longTable 0x7000 = true := by decide +kernel
  have sum : ¬ SumsToZero longTable 0x7000 (tableLength longTable 0x7000) := by decide +kernel
  exact ⟨accepted, by decide +kernel, sum, fun covers => sum (covers.mp accepted)⟩

end Ketone.Acpi.TableChecksum
