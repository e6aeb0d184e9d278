import Ketone.Exfat.Lookup
import Mathlib.Tactic.IntervalCases

/-! Volumes that do not change: what a cluster shows, and which cluster the table names behind it,
are the same whenever they are read. -/

namespace Ketone.Exfat.SteadyVolume
open Volume OpenFile Lookup

def fatValue (machine : Machine) (fs : ExfatInstance) (cluster : BitVec 32) : BitVec 32 :=
  (chain machine fs [] cluster).1

/-- What a buffer with the given old contents shows of a cluster that can be read. -/
def clusterPage (machine : Machine) (fs : ExfatInstance) (stale : Buffer) (cluster : BitVec 32) : Option Buffer :=
  (showCluster machine fs stale [] cluster).1

structure Steady (machine : Machine) (fs : ExfatInstance) : Prop where
  drive : ∀ reads, machine.drive reads = machine.drive []
  table : ∀ reads cluster, (chain machine fs reads cluster).1 = fatValue machine fs cluster

section
variable {machine : Machine} {fs : ExfatInstance}

theorem readSectors_steady (drive : ∀ reads, machine.drive reads = machine.drive []) (lba : BitVec 64)
    (todo s : Nat) (buffer : Buffer) (trace trace' : Trace) :
    (readSectors fs machine lba todo s buffer trace).1 = (readSectors fs machine lba todo s buffer trace').1 := by
  induction todo generalizing s buffer trace trace' with
  | zero => rfl
  | succ todo ih =>
    unfold readSectors readDisk
    rw [drive trace.reads, drive trace'.reads]
    cases machine.drive [] ((lba + BitVec.ofNat 64 s).setWidth 32) with
    | none => rfl
    | some sector => exact ih _ _ _ _

theorem Steady.page (steady : Steady machine fs) (stale : Buffer) (reads : List (BitVec 64)) (cluster : BitVec 32) :
    (showCluster machine fs stale reads cluster).1 = clusterPage machine fs stale cluster :=
  readSectors_steady steady.drive ..

theorem fatPlace_lt (cluster : BitVec 32) (small : fs.bytesPerSectorShift.toNat % 64 ≤ 9) :
    fatPlace fs cluster + 3 < SECTOR_SIZE := by
  have bound := cluster.isLt
  have entry : (cluster.setWidth 64 * 4).toNat = cluster.toNat * 4 := by
    rw [BitVec.toNat_mul, BitVec.toNat_setWidth_of_le (by decide)]
    exact Nat.mod_eq_of_lt (by simp; omega)
  unfold fatPlace SECTOR_SIZE
  rw [BitVec.toNat_umod, entry, toNat_bytesPerSector]
  generalize fs.bytesPerSectorShift.toNat % 64 = shift at small
  interval_cases shift <;> omega

theorem fill_sector (stale sector : Buffer) {p : Nat} (below : p < SECTOR_SIZE) : fill stale 0 sector p = sector p := by
  unfold fill
  rw [if_pos ⟨Nat.zero_le p, by omega⟩, Nat.sub_zero]

theorem readU32Le_sector (stale sector : Buffer) (cluster : BitVec 32)
    (small : fs.bytesPerSectorShift.toNat % 64 ≤ 9) :
    readU32Le (fill stale 0 sector) (fatPlace fs cluster) = readU32Le sector (fatPlace fs cluster) := by
  have place := fatPlace_lt cluster small
  unfold readU32Le
  rw [fill_sector, fill_sector, fill_sector, fill_sector] <;> omega

theorem steady_of_drive (drive : ∀ reads, machine.drive reads = machine.drive [])
    (small : fs.bytesPerSectorShift.toNat % 64 ≤ 9) : Steady machine fs := by
  refine ⟨drive, ?_⟩
  intro reads cluster
  unfold fatValue chain
  simp only [getFatEntry_eq]
  rw [drive reads]
  cases machine.drive [] ((fatLba fs cluster).setWidth 32) with
  | none => rfl
  | some sector => exact (readU32Le_sector _ sector cluster small).trans (readU32Le_sector _ sector cluster small).symm

end

end Ketone.Exfat.SteadyVolume
