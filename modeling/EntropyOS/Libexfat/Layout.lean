import EntropyOS.Libexfat.View

/-!
# Where the FAT and the clusters lie

The offsets that the code computes do not wrap on a volume whose super block is
sane.  The FAT is then seen as a function from clusters to clusters.
-/

namespace EntropyOS.Libexfat

open EntropyOS.Foundation

namespace SuperBlock

variable (sb : SuperBlock)

def fatStart : Nat := sb.fatSectorStart * sb.sectorSize

def heapStart : Nat := sb.clusterSectorStart * sb.sectorSize

def clusterOffset (cluster : Nat) : Nat :=
  sb.heapStart + (cluster - firstDataCluster) * sb.clusterSize

def Valid (cluster : Nat) : Prop :=
  firstDataCluster ≤ cluster ∧ cluster < sb.clusterCount + firstDataCluster

instance (cluster : Nat) : Decidable (sb.Valid cluster) :=
  inferInstanceAs (Decidable (_ ∧ _))

@[simp] theorem clusterInvalid_iff {cluster : Nat} :
    sb.ClusterInvalid cluster ↔ ¬ sb.Valid cluster := by
  simp only [ClusterInvalid, Valid, firstDataCluster]
  omega

/-- The sizes are those of the specification, and the FAT ends below the heap. -/
structure Sane : Prop where
  bits_le : sb.sectorBits + sb.spcBits ≤ 25
  count_le : sb.clusterCount ≤ 0xfffffff5
  fat_le : sb.fatStart + (sb.clusterCount + firstDataCluster) * 4 ≤ sb.heapStart

variable {sb}

theorem sectorSize_mul : sb.sectorSize * 2 ^ sb.spcBits = sb.clusterSize :=
  (pow_add ..).symm

namespace Sane

variable (hsb : sb.Sane) {cluster : Nat}

include hsb

theorem clusterSize_le : sb.clusterSize ≤ 2 ^ 25 :=
  Nat.pow_le_pow_right (by omega) hsb.bits_le

theorem sectorSize_le : sb.sectorSize ≤ 2 ^ 25 :=
  Nat.pow_le_pow_right (by omega) (by have := hsb.bits_le; omega)

theorem start_le {start : Nat} (h : start < 256 ^ 4) :
    start * sb.sectorSize ≤ 2 ^ 57 :=
  (Nat.mul_le_mul h.le hsb.sectorSize_le).trans (by norm_num)

theorem fatStart_le : sb.fatStart ≤ 2 ^ 57 := hsb.start_le (readLe_lt ..)

theorem heapStart_le : sb.heapStart ≤ 2 ^ 57 := hsb.start_le (readLe_lt ..)

theorem cluster_lt (h : sb.Valid cluster) : cluster < 0xfffffff7 := by
  have hcount := hsb.count_le
  have hlt := h.2
  simp only [firstDataCluster] at hlt
  omega

theorem clusterEnd_not_valid : ¬ sb.Valid clusterEnd := by
  intro h
  have hlt := hsb.cluster_lt h
  simp [clusterEnd] at hlt

theorem s2o_fat : sb.s2o sb.fatSectorStart = sb.fatStart := by
  have hstart := hsb.fatStart_le
  exact Nat.mod_eq_of_lt (by simp only [fatStart] at hstart; omega)

theorem fatOffset_eq (h : sb.Valid cluster) :
    sb.fatOffset cluster = sb.fatStart + cluster * 4 := by
  have hstart := hsb.fatStart_le
  have hlt := hsb.cluster_lt h
  rw [fatOffset, hsb.s2o_fat]
  exact Nat.mod_eq_of_lt (by omega)

theorem fatOffset_lt (h : sb.Valid cluster) :
    sb.fatStart + cluster * 4 + 4 < 2 ^ 63 := by
  have hstart := hsb.fatStart_le
  have hlt := hsb.cluster_lt h
  omega

theorem cluster_mul_le (h : sb.Valid cluster) :
    (cluster - firstDataCluster) * sb.clusterSize ≤ 2 ^ 57 := by
  have hlt := hsb.cluster_lt h
  have hle : cluster - firstDataCluster ≤ 2 ^ 32 := by omega
  exact (Nat.mul_le_mul hle hsb.clusterSize_le).trans (by norm_num)

theorem clusterOffset_le (h : sb.Valid cluster) :
    sb.clusterOffset cluster + sb.clusterSize ≤ 2 ^ 60 := by
  have hstart := hsb.heapStart_le
  have hmul := hsb.cluster_mul_le h
  have hsize := hsb.clusterSize_le
  rw [clusterOffset]
  omega

theorem c2s_eq (h : sb.Valid cluster) :
    sb.c2s cluster = sb.clusterSectorStart +
      (cluster - firstDataCluster) * 2 ^ sb.spcBits := by
  have hlt := hsb.cluster_lt h
  have hle : cluster - firstDataCluster ≤ 2 ^ 32 := by omega
  have hspc : 2 ^ sb.spcBits ≤ 2 ^ 25 :=
    Nat.pow_le_pow_right (by omega) (by have := hsb.bits_le; omega)
  have hmul : (cluster - firstDataCluster) * 2 ^ sb.spcBits ≤ 2 ^ 57 :=
    (Nat.mul_le_mul hle hspc).trans (by norm_num)
  have hstart : sb.clusterSectorStart < 256 ^ 4 := readLe_lt ..
  exact Nat.mod_eq_of_lt (by omega)

theorem s2o_c2s (h : sb.Valid cluster) :
    sb.s2o (sb.c2s cluster) = sb.clusterOffset cluster := by
  have heq : sb.c2s cluster * sb.sectorSize = sb.clusterOffset cluster := by
    rw [hsb.c2s_eq h, clusterOffset, heapStart, ← sectorSize_mul]
    ring
  have hle := hsb.clusterOffset_le h
  rw [s2o, heq]
  exact Nat.mod_eq_of_lt (by omega)

theorem link_le_heap (h : sb.Valid cluster) :
    sb.fatStart + cluster * 4 + 4 ≤ sb.heapStart := by
  have hfat := hsb.fat_le
  have hlt := h.2
  omega

end Sane

theorem clusterOffset_apart {a b : Nat} (ha : firstDataCluster ≤ a) (hlt : a < b) :
    sb.clusterOffset a + sb.clusterSize ≤ sb.clusterOffset b := by
  have hle : a - firstDataCluster + 1 ≤ b - firstDataCluster := by omega
  have hmul := Nat.mul_le_mul_right sb.clusterSize hle
  rw [Nat.succ_mul] at hmul
  simp only [clusterOffset]
  omega

end SuperBlock

/-! ## The links -/

namespace VolumeOn

variable (v : View)

def link (cluster : Nat) : Nat := readLe v.dev (v.sb.fatStart + cluster * 4) 4

def withLink (cluster next : Nat) : View :=
  v.store (v.sb.fatStart + cluster * 4) 4 (storeLe (fun _ => 0) 0 4 next)

def next (node cluster : Nat) : Nat :=
  if (v.nodes node).isContiguous then cluster + 1 else v.link cluster

/-- The view after `set_next_cluster`. -/
def relink (contiguous : Bool) (current next : Nat) : View :=
  if contiguous then v else v.withLink current next

def point (node index cluster : Nat) : View :=
  v.setNode node { v.nodes node with fptrIndex := index, fptrCluster := cluster }

variable {v} {c d target : Nat}

@[simp] theorem withLink_sb : (v.withLink c target).sb = v.sb := rfl

@[simp] theorem withLink_nodes : (v.withLink c target).nodes = v.nodes := rfl

@[simp] theorem withLink_cmap : (v.withLink c target).cmap = v.cmap := rfl

@[simp] theorem relink_sb (contiguous : Bool) :
    (v.relink contiguous c target).sb = v.sb := by
  cases contiguous <;> rfl

@[simp] theorem relink_nodes (contiguous : Bool) :
    (v.relink contiguous c target).nodes = v.nodes := by
  cases contiguous <;> rfl

@[simp] theorem relink_cmap (contiguous : Bool) :
    (v.relink contiguous c target).cmap = v.cmap := by
  cases contiguous <;> rfl

theorem link_withLink_self (htarget : target < 4294967296) :
    (v.withLink c target).link c = target := by
  rw [link, withLink_sb, withLink, store_dev]
  have hstored : readLe (v.dev.overlay (v.sb.fatStart + c * 4) 4
      (storeLe (fun _ => 0) 0 4 target)) (v.sb.fatStart + c * 4) 4 =
        readLe (storeLe (fun _ => 0) 0 4 target) 0 4 :=
    readLe_congr fun i hi => by simp [Buf.overlay, hi]
  rw [hstored, readLe_storeLe_same]
  exact Nat.mod_eq_of_lt htarget

theorem withLink_dev_of_ne {k : Nat}
    (h : ¬ (v.sb.fatStart + c * 4 ≤ k ∧ k < v.sb.fatStart + c * 4 + 4)) :
    (v.withLink c target).dev k = v.dev k :=
  if_neg h

end VolumeOn

section Rules

variable {v : View} (node : Nat) {c : Nat} (hsb : v.sb.Sane) (hc : v.sb.Valid c)

include hsb hc

theorem nextCluster_runs : Runs Shows v (nextCluster node c) (v.next node c) v := by
  refine Runs.bind (unlessBug_runs hc.1) (get_runs fun d => ?_)
  have hlt := hsb.cluster_lt hc
  by_cases hcontiguous : (v.nodes node).isContiguous = true
  · refine Runs.if_pos hcontiguous ?_
    rw [VolumeOn.next, if_pos hcontiguous, u32_of_lt (by omega)]
    exact Runs.pure v _
  · refine Runs.if_neg hcontiguous ?_
    refine Runs.bind (pread_runs (fun _ => 0) ?_) ?_
    · rw [hsb.fatOffset_eq hc]
      exact hsb.fatOffset_lt hc
    refine Runs.if_neg (by simp) ?_
    have hread : readLe (Buf.overlay (fun _ => 0) 0 4
        fun k => v.dev (v.sb.fatOffset c + k)) 0 4 = v.next node c := by
      rw [VolumeOn.next, if_neg hcontiguous, VolumeOn.link, hsb.fatOffset_eq hc]
      exact readLe_congr fun i hi => by simp [Buf.overlay, hi]
    rw [← hread]
    exact Runs.pure v _

theorem setNextCluster_runs (contiguous : Bool) (next : Nat) :
    Runs Shows v (setNextCluster contiguous c next) true
      (v.relink contiguous c next) := by
  cases contiguous with
  | true => exact Runs.if_pos rfl (Runs.pure v _)
  | false =>
      refine Runs.if_neg (by simp) (get_runs fun d => ?_)
      refine Runs.bind (pwrite_runs _ ?_) ?_
      · rw [hsb.fatOffset_eq hc]
        exact hsb.fatOffset_lt hc
      refine Runs.if_neg (by simp) ?_
      rw [hsb.fatOffset_eq hc]
      exact Runs.pure _ _

theorem c2o_runs : Runs Shows v (c2o c) (v.sb.clusterOffset c) v := by
  refine Runs.bind (unlessBug_runs hc.1) (get_runs fun d => ?_)
  rw [← hsb.s2o_c2s hc]
  exact Runs.pure v _

end Rules

end EntropyOS.Libexfat
