import EntropyOS.Fat32.Format
import EntropyOS.Fat32.Listing
import Mathlib.Data.Set.Card

/-!
# What a new volume looks like

`fat32_init` reads back the layout that `fat32_format` computed, for every size
the 32-bit arithmetic of the two can hold.  The FAT may then lack the entries
of its last two clusters; they are read from the first sector of the second
copy, which is all zero.
-/

namespace EntropyOS.Fat32

open EntropyOS.Foundation

/-! ## The entries of the FAT -/

section Links

variable {fatSize clusters : Nat} (part : Partition) (boot info : Sector)
  (count : Nat)

/-- The link of a cluster, with the sector it is really read from. -/
theorem Partition.mounted_link (hpos : 1 ≤ fatSize) {c : Nat} (hlow : 2 ≤ c)
    (hhigh : c < 128 * fatSize + 2) :
    readLe ((part.mounted boot info fatSize clusters count).sectors
      (32 + c / 128)).toBuf (4 * (c % 128)) 4 % 268435456 =
        if c = 2 then 0x0FFFFFFF else free := by
  change readLe ((part.formatted boot info fatSize count).sectors
    (32 + c / 128)).toBuf (4 * (c % 128)) 4 % 268435456 = _
  by_cases hin : c / 128 < fatSize
  · rw [part.formatted_first boot info count hpos hin]
    by_cases hzero : c / 128 = 0
    · rw [if_pos hzero, show c % 128 = c by omega]
      exact firstFat_link hlow (by omega)
    · rw [if_neg hzero, if_neg (by omega)]
      exact zero_link _
  · have hsector : 32 + c / 128 = 32 + fatSize + 0 := by omega
    rw [hsector, part.formatted_second boot info count hpos hpos,
      if_neg (by omega)]
    exact zero_link _

theorem getNextCluster_mounted (hpos : 1 ≤ fatSize) {c : Nat} (hlow : 2 ≤ c)
    (hhigh : c < 128 * fatSize + 2) (hfit : fatSize < 4194304) :
    Moves (part.mounted boot info fatSize clusters count) (getNextCluster c)
      (if c = 2 then 0x0FFFFFFF else free)
      (part.mounted boot info fatSize clusters count) := by
  have hsector : (newFs fatSize clusters).fatSector c = 32 + c / 128 := by
    simp only [Fs.fatSector, newFs, u32]
    omega
  refine Runs.bind (getFs_moves _) ?_
  change Moves _ (readSector ((newFs fatSize clusters).fatSector c) >>= _) _ _
  rw [hsector]
  refine Runs.bind (readSector_moves _ (by omega)) ?_
  simp only [entryOffset_eq]
  rw [← part.mounted_link boot info count hpos hlow hhigh]
  exact Runs.pure _ _

end Links

/-! ## The root directory -/

theorem listIn_of_end {buf : Buf} {count i : Nat} (listed : List Listed)
    (hend : (entryAt buf i).IsEnd) (hcount : 0 < count) :
    listIn buf count i listed = .stop listed := by
  obtain ⟨count, rfl⟩ := Nat.exists_eq_succ_of_ne_zero hcount.ne'
  rw [listIn]
  simp only [if_pos hend]

theorem listFiles_mounted (part : Partition) (boot info : Sector)
    {fatSize clusters : Nat} (count : Nat) (hfit : fatSize < 4194304) :
    Moves (part.mounted boot info fatSize clusters count) (listFiles true) (0, [])
      (part.mounted boot info fatSize clusters count) := by
  have hlba : (newFs fatSize clusters).clusterToLba 2 = 32 + 2 * fatSize := by
    simp only [Fs.clusterToLba, newFs, u32]
    omega
  have hroot : ∀ j < 8, (part.mounted boot info fatSize clusters count).sectors
      (32 + 2 * fatSize + j) = Sector.zero := fun j hj =>
    part.formatted_root boot info count hj
  have hsectors := readSectors_moves
    (part.mounted boot info fatSize clusters count) (32 + 2 * fatSize) 8 0
    (fun _ => 0) (by omega)
  rw [← hlba] at hsectors
  have hread : Moves _ (readCluster 2) _ _ :=
    Runs.bind (getFs_moves (part.mounted boot info fatSize clusters count)) hsectors
  refine Runs.bind (getFs_moves _) (Runs.if_neg (by simp [Partition.mounted,
    Partition.withStatics, newFs]) ?_)
  change Moves _ (listFrom 2 []) _ _
  rw [listFrom]
  refine Runs.if_pos (by decide) (Runs.bind hread (Runs.bind (getFs_moves _) ?_))
  rw [listIn_of_end]
  · exact Runs.pure _ _
  · change (if 512 * 0 ≤ 32 * 0 + 0 ∧ 32 * 0 + 0 < 512 * (0 + 8) then
      ((part.mounted boot info fatSize clusters count).sectors
        ((newFs fatSize clusters).clusterToLba 2 + (32 * 0 + 0) / 512)).toBuf
          ((32 * 0 + 0) % 512)
      else 0) = 0
    rw [if_pos (by decide), hlba, hroot _ (by decide)]
    exact zero_toBuf _
  · exact (by decide : 0 < 8 * 512 / 32)

/-! ## The mounted state -/

/-- `fat32_get_next_cluster` says the cluster is free. -/
def ReportsFree (s : System) (cluster : Nat) : Prop :=
  Returns (getNextCluster cluster) s free

/-- What the driver holds and finds of an empty volume of this size. -/
structure NewVolume (s : System) (total : Nat) : Prop where
  fatBeginLba : s.fat32.fs.fatBeginLba = 32
  numFats : s.fat32.fs.numFats = 2
  sectorsPerCluster : s.fat32.fs.sectorsPerCluster = 8
  rootDirCluster : s.fat32.fs.rootDirCluster = 2
  fatSize : s.fat32.fs.fatSize = formatFatSize total
  clusterBeginLba : s.fat32.fs.clusterBeginLba = 32 + 2 * formatFatSize total
  totalClusters : s.fat32.fs.totalClusters =
    (total - (32 + 2 * formatFatSize total)) / 8
  rootEnds : ∃ next, eoc ≤ next ∧ Returns (getNextCluster 2) s next
  rootEmpty : Returns (listFiles true) s (0, [])
  freeClusters : s.fat32.freeClusters = s.fat32.fs.totalClusters - 1
  freeCount : s.fat32.freeClusters =
    Set.ncard {c | 2 ≤ c ∧ c ≤ s.fat32.fs.totalClusters + 1 ∧ ReportsFree s c}

theorem Fits.fatSize_le {total : Nat} (h : Fits total) :
    formatFatSize total < 4194304 := by
  have hlt := h.lt
  rw [h.fatSize_eq]
  omega

/-- The formula for the size falls short by two entries at most. -/
theorem Fits.clusters_le_entries {total : Nat} (h : Fits total) :
    formatClusters total ≤ 128 * formatFatSize total := by
  have hreserved := h.reserved
  have hdata := h.data
  simp only [formatClusters, h.dataSectors_eq, h.fatSize_eq] at hdata ⊢
  omega

/-- On every size the driver can compute with, mounting undoes formatting. -/
theorem init_undoes_format {s : System} (hs : s.device.FaultFree)
    {total : UInt64} (hlow : 42 ≤ total.toNat) (hhigh : total.toNat ≤ 4294966302)
    (label : Option (List UInt8)) :
    ∃ formatted mounted, format total label s = some (0, formatted) ∧
      init formatted = some (0, mounted) ∧ NewVolume mounted total.toNat := by
  have h := fits_of_le hlow hhigh
  have hpos := h.fatSize_pos
  have hroot := h.root
  have hsmall := h.fatSize_le
  have hentries := h.clusters_le_entries
  have hclusters := h.clusters_le
  have hlt := h.lt
  have hcount : u32 (formatClusters total.toNat + 4294967295) =
      formatClusters total.toNat - 1 := by
    unfold u32
    omega
  obtain ⟨s', hformat, hs'⟩ := format_moves (partitionOf s) label h s
    ⟨hs, rfl, fun _ _ => rfl⟩
  obtain ⟨s'', hinit, hs''⟩ := init_moves _ h.lt label
    (Partition.formatted_boot _ _ _ _)
    (Partition.formatted_info _ _ _ _) s' hs'
  have hmounted : Shows s'' ((partitionOf s).mounted
      (bootSector total.toNat label) (newInfoSector total.toNat)
      (formatFatSize total.toNat) (formatClusters total.toNat)
      (u32 (formatClusters total.toNat + 4294967295))) := hs''
  have hlink : ∀ c, 2 ≤ c → c ≤ formatClusters total.toNat + 1 →
      Returns (getNextCluster c) s'' (if c = 2 then 0x0FFFFFFF else free) := by
    intro c hc hc'
    exact (getNextCluster_mounted _ _ _ _ hpos hc (by omega) hsmall).returns
      hmounted
  have hfree : {c | 2 ≤ c ∧ c ≤ formatClusters total.toNat + 1 ∧
      ReportsFree s'' c} = Set.Icc 3 (formatClusters total.toNat + 1) := by
    ext c
    simp only [Set.mem_ofPred_eq, Set.mem_Icc]
    constructor
    · rintro ⟨hc, hc', hreports⟩
      refine ⟨?_, hc'⟩
      by_contra htwo
      have heq := hreports.unique (hlink c hc hc')
      rw [if_pos (by omega)] at heq
      exact absurd heq (by decide)
    · rintro ⟨hc, hc'⟩
      have hreports := hlink c (by omega) hc'
      rw [if_neg (by omega)] at hreports
      exact ⟨by omega, hc', hreports⟩
  have hfs : s''.fat32.fs = formattedFs total.toNat := by
    rw [hmounted.statics]
    rfl
  have hfreeClusters : s''.fat32.freeClusters =
      formatClusters total.toNat - 1 := by
    rw [hmounted.statics]
    exact hcount
  refine ⟨s', s'', hformat, hinit, ?_⟩
  constructor
  case fatBeginLba | numFats | sectorsPerCluster | rootDirCluster | fatSize |
      clusterBeginLba =>
    rw [hfs]
    rfl
  case totalClusters =>
    rw [hfs]
    simp only [formattedFs, newFs, formatClusters, h.dataSectors_eq]
  case rootEnds =>
    exact ⟨0x0FFFFFFF, by decide, hlink 2 le_rfl (by omega)⟩
  case rootEmpty =>
    exact (listFiles_mounted _ _ _ _ hsmall).returns hmounted
  case freeClusters =>
    rw [hfreeClusters, hfs]
    rfl
  case freeCount =>
    rw [hfreeClusters, hfs]
    change _ = Set.ncard {c | 2 ≤ c ∧ c ≤ formatClusters total.toNat + 1 ∧
      ReportsFree s'' c}
    rw [hfree, Set.ncard_eq_toFinset_card']
    simp

theorem new_volume_of_small_fat :
    ∃ formatted mounted,
      format 1058 none (.startup fun _ => Sector.zero) = some (0, formatted) ∧
      init formatted = some (0, mounted) ∧
      NewVolume mounted (1058 : UInt64).toNat :=
  init_undoes_format (System.startup_faultFree _) (by decide) (by decide) none

end EntropyOS.Fat32
