import EntropyOS.Libexfat.Chains

/-!
# Taking and releasing clusters

`allocate_cluster` searches the bitmap from the hint on and then from the start.
-/

namespace EntropyOS.Libexfat

open EntropyOS.Foundation

structure Mounted (v : View) : Prop where
  sane : v.sb.Sane
  size_eq : v.cmap.size = v.sb.clusterCount
  chunkSize_eq : v.cmap.chunkSize = v.sb.clusterCount
  zeroCluster_eq : ∀ k < v.sb.clusterSize, v.zeroCluster k = 0

namespace VolumeOn

def free (v : View) : Finset Nat :=
  (Finset.Ico firstDataCluster (v.sb.clusterCount + firstDataCluster)).filter
    fun c => v.cmap.chunk.bit (c - firstDataCluster) = false

def take (v : View) (cluster : Nat) : View :=
  v.setChunk (v.cmap.chunk.set (cluster - firstDataCluster))

def release (v : View) (cluster : Nat) : View :=
  v.setChunk (v.cmap.chunk.clear (cluster - firstDataCluster))

section Free

variable {v : View} {c d : Nat}

@[simp] theorem take_nodes : (v.take c).nodes = v.nodes := rfl

@[simp] theorem take_sb : (v.take c).sb = v.sb := rfl

@[simp] theorem release_nodes : (v.release c).nodes = v.nodes := rfl

@[simp] theorem release_sb : (v.release c).sb = v.sb := rfl

theorem mem_free : c ∈ v.free ↔
    v.sb.Valid c ∧ v.cmap.chunk.bit (c - firstDataCluster) = false := by
  rw [free, Finset.mem_filter, Finset.mem_Ico]
  rfl

theorem valid_of_mem_free (h : c ∈ v.free) : v.sb.Valid c := (mem_free.mp h).1

theorem sub_ne (hc : v.sb.Valid c) (hd : v.sb.Valid d) (hne : d ≠ c) :
    d - firstDataCluster ≠ c - firstDataCluster := by
  have hc := hc.1
  have hd := hd.1
  omega

theorem take_free (hc : v.sb.Valid c) : (v.take c).free = v.free.erase c := by
  ext d
  simp only [Finset.mem_erase, mem_free, take, setChunk_sb, setChunk_chunk]
  by_cases hd : d = c
  · simp [hd]
  · constructor
    · rintro ⟨hvalid, hbit⟩
      rw [Bitmap.bit_set_ne (by omega) _ _ (sub_ne hc hvalid hd)] at hbit
      exact ⟨hd, hvalid, hbit⟩
    · rintro ⟨-, hvalid, hbit⟩
      rw [Bitmap.bit_set_ne (by omega) _ _ (sub_ne hc hvalid hd)]
      exact ⟨hvalid, hbit⟩

theorem release_free (hc : v.sb.Valid c) : (v.release c).free = insert c v.free := by
  ext d
  simp only [Finset.mem_insert, mem_free, release, setChunk_sb, setChunk_chunk]
  by_cases hd : d = c
  · simp [hd, hc]
  · constructor
    · rintro ⟨hvalid, hbit⟩
      rw [Bitmap.bit_clear_ne (by omega) _ _ (sub_ne hc hvalid hd)] at hbit
      exact .inr ⟨hvalid, hbit⟩
    · rintro (rfl | ⟨hvalid, hbit⟩)
      · exact absurd rfl hd
      · rw [Bitmap.bit_clear_ne (by omega) _ _ (sub_ne hc hvalid hd)]
        exact ⟨hvalid, hbit⟩

theorem free_congr {v' : View} (hsb : v'.sb = v.sb)
    (hchunk : v'.cmap.chunk = v.cmap.chunk) : v'.free = v.free := by
  simp [free, hsb, hchunk]

end Free

end VolumeOn

/-! ## The search from a hint -/

/--
`found` is the first clear bit from the hint on, or the first one from the start
on if none follows the hint.
-/
def NextFree (bitmap : Bitmap 64) (hint count : Nat) (found : Option Nat) : Prop :=
  ∃ later, bitmap.FirstClear hint count later ∧
    ∃ earlier, bitmap.FirstClear 0 hint earlier ∧ found = later.or earlier

namespace NextFree

variable {bitmap : Bitmap 64} {hint count i : Nat}

theorem bit_of_some (h : NextFree bitmap hint count (some i)) (hhint : hint ≤ count) :
    i < count ∧ bitmap.bit i = false := by
  obtain ⟨later, hlater, earlier, hearlier, heq⟩ := h
  cases later with
  | some c =>
      cases heq
      exact ⟨hlater.2.1, hlater.2.2.1⟩
  | none =>
      rw [Option.none_or] at heq
      subst heq
      exact ⟨by have := hearlier.2.1; omega, hearlier.2.2.1⟩

theorem bit_of_none (h : NextFree bitmap hint count none) (hi : i < count) :
    bitmap.bit i = true := by
  obtain ⟨later, hlater, earlier, hearlier, heq⟩ := h
  cases later with
  | some c => cases heq
  | none =>
      rw [Option.none_or] at heq
      subst heq
      by_cases hbelow : i < hint
      · exact hearlier i (Nat.zero_le i) hbelow
      · exact hlater i (by omega) hi

end NextFree

theorem hintIndex_le (count hint : Nat) : hintIndex count hint ≤ count := by
  rw [hintIndex]
  split
  · exact Nat.zero_le _
  · omega

section Search

variable {bitmap : Bitmap 64} {hint start last count : Nat}

theorem findBitAndSet_eq (bitmap : Bitmap 64) (start : Nat) (hlast : last ≤ 0xfffffff5) :
    (∃ i, bitmap.FirstClear start last (some i) ∧ findBitAndSet bitmap start last =
      (i + firstDataCluster, bitmap.set i)) ∨
    (bitmap.FirstClear start last none ∧
      findBitAndSet bitmap start last = (clusterEnd, bitmap)) := by
  have hfirst := Bitmap.find_firstClear (by omega) bitmap start last
  rw [findBitAndSet]
  cases hfind : bitmap.find start last with
  | none =>
      rw [hfind] at hfirst
      exact .inr ⟨hfirst, rfl⟩
  | some i =>
      rw [hfind] at hfirst
      have hlt := hfirst.2.1
      refine .inl ⟨i, hfirst, ?_⟩
      simp only [firstDataCluster]
      rw [u32_of_lt (by omega)]

theorem ne_clusterEnd {i : Nat} (hi : i < 0xfffffff5) :
    i + firstDataCluster ≠ clusterEnd := by
  simp only [firstDataCluster, clusterEnd]
  omega

theorem findFrom_eq (bitmap : Bitmap 64) (hcount : count ≤ 0xfffffff5) (hhint : hint ≤ count) :
    (∃ i, NextFree bitmap hint count (some i) ∧
      findFrom bitmap hint count = (i + firstDataCluster, bitmap.set i)) ∨
    (NextFree bitmap hint count none ∧
      findFrom bitmap hint count = (clusterEnd, bitmap)) := by
  rw [findFrom]
  obtain ⟨i, hlater, heq⟩ | ⟨hlater, heq⟩ :=
    findBitAndSet_eq bitmap hint hcount
  · have hne := ne_clusterEnd (hlater.2.1.trans_le hcount)
    simp only [heq, if_neg hne]
    have hbefore := Bitmap.find_firstClear (by omega) bitmap 0 hint
    exact .inl ⟨i, ⟨_, hlater, _, hbefore, rfl⟩, rfl⟩
  · simp only [heq, if_true]
    obtain ⟨i, hearlier, heq'⟩ | ⟨hearlier, heq'⟩ :=
      findBitAndSet_eq bitmap 0 (hhint.trans hcount)
    · exact .inl ⟨i, ⟨_, hlater, _, hearlier, rfl⟩, heq'⟩
    · exact .inr ⟨⟨_, hlater, _, hearlier, rfl⟩, heq'⟩

end Search

section Rules

variable {v : View} (hv : Mounted v)

include hv

/--
A cluster is found unless there is none, and it is the first free one from the
hint on, in a circle.
-/
theorem allocateCluster_runs (hint : Nat) :
    (∃ i, NextFree v.cmap.chunk (hintIndex v.sb.clusterCount hint) v.sb.clusterCount
        (some i) ∧ i + firstDataCluster ∈ v.free ∧
      Runs Shows v (allocateCluster hint) (i + firstDataCluster)
        (v.take (i + firstDataCluster))) ∨
    (v.free = ∅ ∧ Runs Shows v (allocateCluster hint) clusterEnd v.countError) := by
  have hcount := hv.sane.count_le
  have hhint := hintIndex_le v.sb.clusterCount hint
  rcases findFrom_eq v.cmap.chunk hcount hhint with
    ⟨i, hfree, heq⟩ | ⟨hnone, heq⟩
  · obtain ⟨hlt, hbit⟩ := hfree.bit_of_some hhint
    refine .inl ⟨i, hfree, ?_, get_runs fun d => ?_⟩
    · refine VolumeOn.mem_free.mpr ⟨⟨by omega, by omega⟩, ?_⟩
      simpa using hbit
    · simp only [hv.chunkSize_eq, heq]
      refine Runs.if_neg (ne_clusterEnd (hlt.trans_le hcount)) ?_
      refine Runs.bind (?_ : Runs Shows v _ () (v.take (i + firstDataCluster)))
        (Runs.pure _ _)
      refine modify_runs (fun d => ?_) rfl
      simp [VolumeOn.take, VolumeOn.setChunk]
  · refine .inr ⟨?_, get_runs fun d => ?_⟩
    · refine Finset.eq_empty_of_forall_notMem fun c hc => ?_
      obtain ⟨hvalid, hbit⟩ := VolumeOn.mem_free.mp hc
      rw [hnone.bit_of_none (by have := hvalid.1; have := hvalid.2; omega)] at hbit
      cases hbit
    · simp only [hv.chunkSize_eq, heq]
      exact Runs.if_pos trivial (Runs.bind (exfatError_runs _) (Runs.pure _ _))

theorem freeCluster_runs {c : Nat} (hc : v.sb.Valid c) :
    Runs Shows v (freeCluster c) () (v.release c) := by
  have hlt := hv.sane.cluster_lt hc
  refine get_runs fun d => Runs.bind (unlessBug_runs ?_) (modify_runs (fun d => ?_) rfl)
  · have hlow := hc.1
    have hhigh := hc.2
    simp only [firstDataCluster] at hlow hhigh
    simp only [hv.size_eq, firstDataCluster, u32]
    omega
  · rfl

end Rules

end EntropyOS.Libexfat
