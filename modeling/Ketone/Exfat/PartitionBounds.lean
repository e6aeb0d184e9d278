import Ketone.Exfat.ReadErrors

/-! Where the sectors that are asked for lie: the cluster numbers that lead to them come from the
volume, and nothing checks them. -/

namespace Ketone.Exfat.PartitionBounds
open Library Library.Loop Library.Components Volume OpenFile ReadFile Lookup FileClusters PathResolution Descent Asked
  ReadErrors

section
variable (fs : ExfatInstance)

def Inside (lba : BitVec 64) : Prop := lba - fs.sectorOnDiskLBA < fs.volumeLength

/-- The table and the cluster heap lie in the volume. -/
structure FitsVolume : Prop where
  table : fs.fatOffset.toNat + fs.fatLength.toNat ≤ fs.volumeLength.toNat
  heap : fs.clusterHeapOffset.toNat + fs.clusterCount.toNat * (sectorsPerCluster fs).toNat ≤ fs.volumeLength.toNat

def InHeap (cluster : BitVec 32) : Prop := 2 ≤ cluster.toNat ∧ cluster.toNat < fs.clusterCount.toNat + 2

instance (cluster : BitVec 32) : Decidable (InHeap fs cluster) := by
  unfold InHeap; infer_instance

end

section
variable (machine : Machine) (fs : ExfatInstance) (path : CString) (file : FileEntry) (trace : Trace)

end

section
variable {fs : ExfatInstance} {cluster : BitVec 32}

theorem inside_iff (room : fs.sectorOnDiskLBA.toNat + fs.volumeLength.toNat ≤ 2 ^ 64) (lba : BitVec 64) :
    Inside fs lba ↔ fs.sectorOnDiskLBA.toNat ≤ lba.toNat ∧
      lba.toNat < fs.sectorOnDiskLBA.toNat + fs.volumeLength.toNat := by
  have bound := lba.isLt
  have bound' := fs.sectorOnDiskLBA.isLt
  unfold Inside
  rw [BitVec.lt_def, BitVec.toNat_sub]
  omega

theorem inside_of_offset {offset : BitVec 64} (below : offset.toNat < fs.volumeLength.toNat) :
    Inside fs (fs.sectorOnDiskLBA + offset) := by
  unfold Inside
  rw [BitVec.add_comm, BitVec.add_sub_cancel, BitVec.lt_def]
  exact below

/-- The sectors of a cluster of the heap. -/
theorem sector_inside (fits : FitsVolume fs) (valid : InHeap fs cluster) {k : Nat}
    (below : k < (sectorsPerCluster fs).toNat) : Inside fs (clusterToLba fs cluster + BitVec.ofNat 64 k) := by
  obtain ⟨low, high⟩ := valid
  have room := fits.heap
  have length := fs.volumeLength.isLt
  have index : (cluster - 2).toNat = cluster.toNat - 2 := BitVec.toNat_sub_of_le low
  have smaller : 2 ^ (fs.sectorsPerClusterShift.toNat % 32) ≤ (sectorsPerCluster fs).toNat := by
    rw [toNat_sectorsPerCluster]
    exact Nat.pow_le_pow_right (by decide) (by omega)
  have offset : fs.clusterHeapOffset.toNat + (cluster.toNat - 2) * 2 ^ (fs.sectorsPerClusterShift.toNat % 32) + k <
      fs.volumeLength.toNat := by
    calc
      _ < fs.clusterHeapOffset.toNat + (cluster.toNat - 2) * (sectorsPerCluster fs).toNat +
          (sectorsPerCluster fs).toNat :=
        Nat.add_lt_add_of_le_of_lt (Nat.add_le_add_left (Nat.mul_le_mul_left _ smaller) _) below
      _ = fs.clusterHeapOffset.toNat + (cluster.toNat - 2 + 1) * (sectorsPerCluster fs).toNat := by
        rw [Nat.add_assoc, Nat.succ_mul]
      _ ≤ fs.clusterHeapOffset.toNat + fs.clusterCount.toNat * (sectorsPerCluster fs).toNat :=
        Nat.add_le_add_left (Nat.mul_le_mul_right _ (by omega)) _
      _ ≤ _ := room
  rw [clusterToLba_eq, BitVec.add_assoc, ← BitVec.ofNat_add, index]
  apply inside_of_offset
  rw [BitVec.toNat_ofNat, Nat.mod_eq_of_lt (by omega)]
  exact offset

variable {machine : Machine} {path : CString} {file : FileEntry} {trace : Trace}

end

end Ketone.Exfat.PartitionBounds
