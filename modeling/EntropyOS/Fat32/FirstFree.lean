import EntropyOS.Fat32.Cells

/-!
# Taking the first free cluster

`fat32_allocate_cluster` looks at the clusters one after the other and takes the
first whose entry is free.  The numbers it computes have 32 bits: from 2^30
clusters on two clusters share an entry, and a backup sector may wrap into the
first FAT.
-/

namespace EntropyOS.Fat32

open EntropyOS.Foundation

/-- The members of `fat32_fs_t` that are used here are 32-bit numbers. -/
structure Fs.Words (fs : Fs) : Prop where
  fatSize : fs.fatSize < 4294967296
  totalClusters : fs.totalClusters < 4294967296

/-! ## The search -/

theorem modifyFat32_withLink (s : System) (cluster next : Nat)
    (f : Statics → Statics) :
    modifyFat32 f (withLink s cluster next) =
      some ((), { withLink s cluster next with fat32 := f s.fat32 }) := by
  rw [← withLink_fat32 s cluster next]
  rfl

/-- A new count of free clusters leaves the volume where it is. -/
theorem recounted_fixed (statics : Statics) (p : Prop) [Decidable p] (count : Nat) :
    let recounted := if p then { statics with freeClusters := count } else statics
    recounted.fs = statics.fs ∧ recounted.partitionOffset = statics.partitionOffset := by
  dsimp only
  split
  · exact ⟨rfl, rfl⟩
  · exact ⟨rfl, rfl⟩

theorem fatWord_withStatics {s : System} {cluster next : Nat} {statics : Statics}
    (hfs : statics.fs = s.fat32.fs)
    (hoffset : statics.partitionOffset = s.fat32.partitionOffset) (d : Nat) :
    fatWord { withLink s cluster next with fat32 := statics } d =
      fatWord (withLink s cluster next) d := by
  apply fatWord_congr
  · rw [withLink_fat32, hfs]
  · rw [withLink_fat32, hoffset]
  · rfl

def taken (s : System) (cluster : Nat) : System :=
  { withLink s cluster eoc with fat32 :=
    if s.fat32.freeClusters ≠ unknownCount ∧ s.fat32.freeClusters > 0 then
      { s.fat32 with freeClusters := s.fat32.freeClusters - 1 }
    else s.fat32 }

section Search

variable {s : System} (hs : s.device.FaultFree)

theorem fatWord_taken (s : System) (cluster d : Nat) :
    fatWord (taken s cluster) d = fatWord (withLink s cluster eoc) d := by
  obtain ⟨hfs, hoffset⟩ := recounted_fixed s.fat32
    (s.fat32.freeClusters ≠ unknownCount ∧ s.fat32.freeClusters > 0)
    (s.fat32.freeClusters - 1)
  exact fatWord_withStatics hfs hoffset d

include hs

theorem allocateFrom_full (count first : Nat)
    (hused : ∀ d, first ≤ d → d < first + count → linkOf s d ≠ free) :
    allocateFrom count first s = some (0, s) := by
  induction count generalizing first with
  | zero => rfl
  | succ count ih =>
      rw [allocateFrom, Program.bind_of_some (getNextCluster_faultFree hs first),
        if_neg (hused first le_rfl (by omega))]
      exact ih (first + 1) fun d hlow hhigh => hused d (by omega) (by omega)

theorem allocateFrom_first (count : Nat) {first cluster : Nat}
    (hlow : first ≤ cluster) (hhigh : cluster < first + count)
    (hfree : linkOf s cluster = free)
    (hused : ∀ d, first ≤ d → d < cluster → linkOf s d ≠ free) :
    allocateFrom count first s = some (cluster, taken s cluster) := by
  induction count generalizing first with
  | zero => omega
  | succ count ih =>
      rw [allocateFrom, Program.bind_of_some (getNextCluster_faultFree hs first)]
      by_cases hhere : first = cluster
      · rw [hhere, if_pos hfree,
          Program.bind_of_some (setNextCluster_faultFree cluster eoc hs), if_pos rfl]
        rw [Program.bind_of_some (modifyFat32_withLink s cluster eoc _)]
        rfl
      · rw [if_neg (hused first le_rfl (by omega))]
        exact ih (by omega) (by omega) fun d hfrom => hused d (by omega)

end Search

/-! ## Exactness -/

/-- The state `s'` is `s` with `cluster`, the first free one, taken. -/
structure TookFirst (s : System) (cluster : Nat) (s' : System) : Prop where
  inRange : s.fat32.fs.InRange cluster
  wasFree : fatEntry s cluster = free
  first : ∀ d, s.fat32.fs.InRange d → fatEntry s d = free → cluster ≤ d
  ended : fatEntry s' cluster = eoc
  others : ∀ d < 128 * s.fat32.fs.fatSize, d ≠ cluster → fatWord s' d = fatWord s d
  count : s.fat32.freeClusters ≠ unknownCount → 0 < s.fat32.freeClusters →
    s'.fat32.freeClusters = s.fat32.freeClusters - 1

/-- The call returns 0 where no cluster is free, and else takes the first. -/
def AllocatesExactly (s : System) : Prop :=
  ∃ cluster s', allocateCluster s = some (cluster, s') ∧
    (cluster = 0 ↔ ∀ d, s.fat32.fs.InRange d → fatEntry s d ≠ free) ∧
    (cluster = 0 → s'.device.sectors = s.device.sectors) ∧
    (cluster ≠ 0 → TookFirst s cluster s')

/-- Every cluster has an entry of its own, and the backups lie behind the FAT. -/
structure Fs.Addressed (fs : Fs) : Prop where
  clusters : fs.totalClusters + 2 ≤ 1073741824
  backup : fs.BackupFits (fs.totalClusters + 1)

section Exact

variable {s : System} (hs : s.device.FaultFree)
  (hclusters : s.fat32.fs.totalClusters + 2 ≤ 1073741824)

include hs hclusters

theorem allocateCluster_noneFree
    (hnone : ∀ d, s.fat32.fs.InRange d → fatEntry s d ≠ free) :
    allocateCluster s = some (0, s) := by
  rw [allocateCluster, Program.bind_of_some (getFs_apply s), u32_of_lt (by omega),
    Nat.add_sub_cancel]
  refine allocateFrom_full hs _ 2 fun d hlow hhigh => ?_
  rw [linkOf_eq_fatEntry s (by omega)]
  exact hnone d ⟨hlow, by omega⟩

theorem allocateCluster_first {c : Nat} (hrange : s.fat32.fs.InRange c)
    (hfree : fatEntry s c = free)
    (hfirst : ∀ d, s.fat32.fs.InRange d → fatEntry s d = free → c ≤ d) :
    allocateCluster s = some (c, taken s c) := by
  obtain ⟨hlow, hhigh⟩ := hrange
  rw [allocateCluster, Program.bind_of_some (getFs_apply s), u32_of_lt (by omega),
    Nat.add_sub_cancel]
  refine allocateFrom_first hs _ hlow (by omega) ?_ fun d hfrom hto hdfree => ?_
  · rw [linkOf_eq_fatEntry s (by omega), hfree]
  · rw [linkOf_eq_fatEntry s (by omega)] at hdfree
    have hle := hfirst d ⟨hfrom, by omega⟩ hdfree
    omega

omit hs in
theorem tookFirst_taken (hwords : s.fat32.fs.Words)
    (hlarge : s.fat32.fs.totalClusters + 2 ≤ 128 * s.fat32.fs.fatSize)
    (hbackup : s.fat32.fs.BackupFits (s.fat32.fs.totalClusters + 1)) {c : Nat}
    (hrange : s.fat32.fs.InRange c) (hfree : fatEntry s c = free)
    (hfirst : ∀ d, s.fat32.fs.InRange d → fatEntry s d = free → c ≤ d) :
    TookFirst s c (taken s c) := by
  have hhigh := hrange.2
  have hword : ∀ d < 128 * s.fat32.fs.fatSize, fatWord (taken s c) d =
      if d = c then linkedWord (fatWord s c) eoc else fatWord s d := by
    intro d hd
    rw [fatWord_taken]
    exact fatWord_withLink (by omega) hd hwords.fatSize (hbackup.mono (by omega))
  constructor
  case inRange => exact hrange
  case wasFree => exact hfree
  case first => exact hfirst
  case ended =>
    rw [fatEntry, hword c (by omega), if_pos rfl, linkedWord_mod]
    rfl
  case others =>
    intro d hd hne
    rw [hword d hd, if_neg hne]
  case count =>
    intro hknown hpositive
    unfold taken
    dsimp only
    rw [if_pos ⟨hknown, hpositive⟩]

end Exact

theorem allocates_exactly {s : System} (hs : s.device.FaultFree)
    (hwords : s.fat32.fs.Words)
    (hlarge : s.fat32.fs.totalClusters + 2 ≤ 128 * s.fat32.fs.fatSize)
    (haddressed : s.fat32.fs.Addressed) : AllocatesExactly s := by
  obtain ⟨hclusters, hbackup⟩ := haddressed
  by_cases hany : ∃ d, s.fat32.fs.InRange d ∧ fatEntry s d = free
  · classical
    obtain ⟨hrange, hfree⟩ := Nat.find_spec hany
    have hfirst : ∀ d, s.fat32.fs.InRange d → fatEntry s d = free →
        Nat.find hany ≤ d := fun d hd hdfree => Nat.find_min' hany ⟨hd, hdfree⟩
    generalize Nat.find hany = c at hrange hfree hfirst
    have hne : c ≠ 0 := by
      have hlow := hrange.1
      omega
    refine ⟨c, taken s c, allocateCluster_first hs hclusters hrange hfree hfirst, ?_,
      fun hzero => absurd hzero hne, fun _ => ?_⟩
    · exact ⟨fun hzero => absurd hzero hne, fun hnone => absurd hfree (hnone c hrange)⟩
    · exact tookFirst_taken hclusters hwords hlarge hbackup hrange hfree hfirst
  · have hnone : ∀ d, s.fat32.fs.InRange d → fatEntry s d ≠ free :=
      fun d hd hfree => hany ⟨d, hd, hfree⟩
    exact ⟨0, s, allocateCluster_noneFree hs hclusters hnone, iff_of_true rfl hnone,
      fun _ => rfl, fun hne => absurd rfl hne⟩

/-! ## Where it goes wrong -/

section Failures

variable {s : System} (hs : s.device.FaultFree)

include hs

/-- From cluster 2^30 on, the entries of the first clusters are looked at again. -/
theorem not_exact_of_shared_entries {fs : Fs} (hfs : s.fat32.fs = fs)
    (hmany : 1073741824 < fs.totalClusters + 2)
    (hused : ∀ d < 1073741824, fatEntry s d ≠ free)
    (hfree : fatEntry s 1073741824 = free) : ¬ AllocatesExactly s := by
  subst hfs
  rintro ⟨c, s', hrun, hzero, -, -⟩
  have hlink : ∀ d, linkOf s d ≠ free := by
    intro d
    have hsame : linkOf s d = linkOf s (d % 1073741824) := by
      rw [linkOf, linkOf, Fs.fatSector, Fs.fatSector, entryOffset, entryOffset,
        show u32 (d * 4) = u32 (d % 1073741824 * 4) by unfold u32; omega]
    have hlt : d % 1073741824 < 1073741824 := Nat.mod_lt _ (by decide)
    rw [hsame, linkOf_eq_fatEntry s hlt]
    exact hused _ hlt
  have hfull := allocateFrom_full hs (u32 (s.fat32.fs.totalClusters + 2) - 2) 2
    fun d _ _ => hlink d
  rw [allocateCluster, Program.bind_of_some (getFs_apply s), hfull] at hrun
  cases hrun
  exact hzero.mp rfl 1073741824 ⟨by omega, by omega⟩ hfree

/-- Taking the last cluster marks another entry of the first FAT as well. -/
theorem not_exact_of_wrapped_backup {fs : Fs} (hfs : s.fat32.fs = fs) {c d : Nat}
    (hc : c = fs.totalClusters + 1) (hsmall : c < 1073741824) (hlow : 2 ≤ c)
    (hcopies : fs.numFats > 1) (hd : d < 128 * fs.fatSize)
    (hwrap : d + 549755813888 = c + 128 * fs.fatSize) (hne : d ≠ c)
    (hused : ∀ e, 2 ≤ e → e < c → fatEntry s e ≠ free) (hfree : fatEntry s c = free)
    (hother : fatWord s d = 0xFFFFFFFF) : ¬ AllocatesExactly s := by
  subst hfs
  rintro ⟨e, s', hrun, hzero, -, htook⟩
  have hrange : s.fat32.fs.InRange c := ⟨hlow, by omega⟩
  have hfirst : ∀ e, s.fat32.fs.InRange e → fatEntry s e = free → c ≤ e := by
    intro e he hefree
    by_contra hlt
    exact hused e he.1 (not_le.mp hlt) hefree
  rw [allocateCluster_first hs (by omega) hrange hfree hfirst] at hrun
  cases hrun
  have hsame := (htook (by omega)).others d hd hne
  rw [fatWord_taken, fatWord_withLink_wrapped hsmall hcopies hwrap, hother] at hsame
  have hlast := linkedWord_mod (fatWord s c) eoc
  rw [hsame] at hlast
  exact absurd hlast (by decide)

end Failures

/-- The first 2^30 entries end a chain, and those behind them are free. -/
def sharedDisk (fs : Fs) (lba : Nat) : Sector :=
  if u32 (lba + (4294967296 - u32 fs.fatBeginLba)) < 8388608 then endMarks
  else Sector.zero

theorem fatWord_sharedDisk (fs : Fs) {d : Nat} (hd : d < 549755813888) :
    fatWord (mountedOn fs (sharedDisk fs)) d =
      if d < 1073741824 then 0xFFFFFFFF else 0 := by
  have hplace : u32 (u32 (fs.fatBeginLba + d / 128) +
      (4294967296 - u32 fs.fatBeginLba)) = d / 128 := by
    unfold u32
    omega
  rw [fatWord_mountedOn, sharedDisk, hplace]
  by_cases hfirst : d < 1073741824
  · rw [if_pos (by omega), if_pos hfirst, endMarks_word (by omega)]
  · rw [if_neg (by omega), if_neg hfirst]
    refine (readLe_of_bytes (n := 0) fun i hi => ?_).trans (Nat.zero_mod _)
    rw [Sector.toBuf, dif_pos (by omega), byteOf_zero_left]
    rfl

/-- Every entry ends a chain, but for a free one. -/
def oneFreeDisk (fs : Fs) (cluster lba : Nat) : Sector :=
  if lba = u32 (fs.fatBeginLba + cluster / 128) then linkedSector endMarks cluster free
  else endMarks

theorem fatWord_oneFreeDisk (fs : Fs) {c d : Nat} (hc : c < 1073741824)
    (hd : d < 549755813888) :
    fatWord (mountedOn fs (oneFreeDisk fs c)) d =
      if d = c then 0xF0000000 else 0xFFFFFFFF := by
  have hmark := endMarks_word (show d % 128 < 128 by omega)
  rw [fatWord_mountedOn, oneFreeDisk]
  by_cases hsector : d / 128 = c / 128
  · rw [hsector, if_pos rfl, linkedSector_word _ _ (by omega), hmark]
    by_cases hsame : d = c
    · rw [if_pos (by rw [hsame]), if_pos hsame]
      rfl
    · rw [if_neg (by omega), if_neg hsame]
  · rw [if_neg (by unfold u32; omega), if_neg (fun h => hsector (by rw [h])), hmark]

/--
Allocation is exact, whatever the FAT holds, on the volumes whose clusters have
entries of their own and whose backups do not wrap, and on no others.
-/
theorem allocates_exactly_iff {fs : Fs} (hwords : fs.Words)
    (hlarge : fs.totalClusters + 2 ≤ 128 * fs.fatSize) :
    (∀ s : System, s.device.FaultFree → s.fat32.fs = fs → AllocatesExactly s) ↔
      fs.Addressed := by
  have hsize := hwords.fatSize
  constructor
  · intro hexact
    have hclusters : fs.totalClusters + 2 ≤ 1073741824 := by
      by_contra hmany
      refine not_exact_of_shared_entries (mountedOn_faultFree fs (sharedDisk fs))
        (mountedOn_fs fs _) (not_le.mp hmany) ?_ ?_
        (hexact _ (mountedOn_faultFree fs _) rfl)
      · intro d hd
        rw [fatEntry, fatWord_sharedDisk fs (by omega), if_pos hd]
        decide
      · rw [fatEntry, fatWord_sharedDisk fs (by omega), if_neg (by omega)]
        rfl
    refine ⟨hclusters, ?_⟩
    by_contra hwraps
    obtain ⟨hcopies, hwrap⟩ := not_or.mp hwraps
    -- `d` is the entry of the first FAT that the backup of the last cluster hits
    obtain ⟨c, hc⟩ : ∃ c, c = fs.totalClusters + 1 := ⟨_, rfl⟩
    obtain ⟨d, hd⟩ : ∃ d, d + 549755813888 = c + 128 * fs.fatSize :=
      ⟨c + 128 * fs.fatSize - 549755813888, by omega⟩
    have hword := fun e (he : e < 549755813888) =>
      fatWord_oneFreeDisk fs (show c < 1073741824 by omega) he
    refine not_exact_of_wrapped_backup (mountedOn_faultFree fs (oneFreeDisk fs c))
      (mountedOn_fs fs _) hc (by omega) (by omega) (not_le.mp hcopies) (by omega) hd
      (by omega) ?_ ?_ ?_ (hexact _ (mountedOn_faultFree fs _) rfl)
    · intro e _ he
      rw [fatEntry, hword e (by omega), if_neg (by omega)]
      decide
    · rw [fatEntry, hword c (by omega), if_pos rfl]
      rfl
    · rw [hword d (by omega), if_neg (by omega)]
  · intro haddressed s hs hfs
    subst hfs
    exact allocates_exactly hs hwords hlarge haddressed

theorem allocates_exactly_of_hundred :
    AllocatesExactly (mountedOn smallFs fun _ => Sector.zero) := by
  have hwords : smallFs.Words := ⟨by decide, by decide⟩
  exact (allocates_exactly_iff hwords (by decide)).mpr ⟨by decide, by decide⟩ _
    (mountedOn_faultFree _ _) rfl

/-- A volume of 2^31 sectors and one sector to a cluster. -/
def wideFs : Fs := Fs.ofBoot (geometryBoot 1 32 1 2147483648 16777216).toBuf

theorem wideFs_eq : wideFs = ⟨32, 16777248, 1, 2, 16777216, 1, 2130706400, true⟩ := by
  decide +kernel

/-- With the first 2^30 entries in use, the free clusters behind them are not found. -/
theorem free_clusters_not_found :
    let s := mountedOn wideFs (sharedDisk wideFs)
    ¬ (s.device.FaultFree →
      s.fat32.fs.totalClusters + 2 ≤ 128 * s.fat32.fs.fatSize →
      AllocatesExactly s) := by
  intro s hclaim
  have hfs : s.fat32.fs = wideFs := rfl
  rw [wideFs_eq] at hfs
  refine not_exact_of_shared_entries (mountedOn_faultFree _ _) hfs (by decide) ?_ ?_
    (hclaim (mountedOn_faultFree _ _) (by rw [hfs]; decide))
  · intro d hd
    rw [fatEntry, fatWord_sharedDisk _ (by omega), if_pos hd]
    decide
  · rw [fatEntry, fatWord_sharedDisk _ (by omega), if_neg (by omega)]
    rfl

end EntropyOS.Fat32
