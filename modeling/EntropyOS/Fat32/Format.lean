import EntropyOS.Fat32.Invariant

/-!
# A new volume

What `fat32_format` leaves on the partition, copy of the FAT by copy, and that
`fat32_init` mounts a volume with an empty root directory and nothing else.
-/

namespace EntropyOS.Fat32

open EntropyOS.Foundation

/-- No step of the layout computation wraps, and the FAT covers every cluster. -/
structure Formattable (total : Nat) : Prop where
  reserved : 32 ≤ total
  rounding : total - 32 + 1025 < 4294967296
  data : 32 + 2 * formatFatSize total ≤ total
  root : 1 ≤ formatClusters total
  fat : formatClusters total + 2 ≤ 128 * formatFatSize total

instance (total : Nat) : Decidable (Formattable total) :=
  decidable_of_iff
    (32 ≤ total ∧ total - 32 + 1025 < 4294967296 ∧
      32 + 2 * formatFatSize total ≤ total ∧ 1 ≤ formatClusters total ∧
      formatClusters total + 2 ≤ 128 * formatFatSize total)
    ⟨fun ⟨h, h', h'', h''', h''''⟩ => ⟨h, h', h'', h''', h''''⟩,
      fun h => ⟨h.reserved, h.rounding, h.data, h.root, h.fat⟩⟩

/-- No step of the layout computation wraps, and there is a cluster. -/
structure Fits (total : Nat) : Prop where
  reserved : 32 ≤ total
  rounding : total - 32 + 1025 < 4294967296
  data : 32 + 2 * formatFatSize total ≤ total
  root : 1 ≤ formatClusters total

theorem Formattable.fits {total : Nat} (h : Formattable total) : Fits total :=
  ⟨h.reserved, h.rounding, h.data, h.root⟩

section Layout

variable {total : Nat} (h : Fits total)

include h

theorem Fits.lt : total < 4294967296 := by
  have := h.rounding
  omega

theorem Fits.fatSize_eq : formatFatSize total = (total - 32 + 1025) / 1026 := by
  have hreserved := h.reserved
  have hrounding := h.rounding
  simp only [formatFatSize, u32]
  omega

theorem Fits.dataSectors_eq :
    formatDataSectors total = total - (32 + 2 * formatFatSize total) := by
  have hdata := h.data
  have hlt := h.lt
  simp only [formatDataSectors, u32]
  omega

theorem Fits.clusters_le :
    32 + 2 * formatFatSize total + 8 * formatClusters total ≤ total := by
  have hdata := h.data
  have heq := h.dataSectors_eq
  simp only [formatClusters]
  omega

theorem Fits.fatSize_pos : 1 ≤ formatFatSize total := by
  have hclusters := h.clusters_le
  have hroot := h.root
  rw [h.fatSize_eq]
  omega

end Layout

theorem Formattable.lt {total : Nat} (h : Formattable total) :
    total < 4294967296 := h.fits.lt

theorem Formattable.clusters_le {total : Nat} (h : Formattable total) :
    32 + 2 * formatFatSize total + 8 * formatClusters total ≤ total :=
  h.fits.clusters_le

/-- Between these sizes the layout computation never wraps. -/
theorem fits_of_le {total : Nat} (hlow : 42 ≤ total)
    (hhigh : total ≤ 4294966302) : Fits total := by
  have hsize : formatFatSize total = (total - 32 + 1025) / 1026 := by
    simp only [formatFatSize, u32]
    omega
  have hdata : formatDataSectors total = total - (32 + 2 * formatFatSize total) := by
    simp only [formatDataSectors, u32]
    omega
  refine ⟨by omega, by omega, by omega, ?_⟩
  simp only [formatClusters, hdata]
  omega

theorem formattable_of_le {total : Nat} (hlow : 42 ≤ total)
    (hhigh : total ≤ 4294966302)
    (hfat : formatClusters total + 2 ≤ 128 * formatFatSize total) :
    Formattable total :=
  have h := fits_of_le hlow hhigh
  ⟨h.reserved, h.rounding, h.data, h.root, hfat⟩

/-! ## `fat32_format` -/

def Partition.formatted (part : Partition) (boot info : Sector)
    (fatSize freeClusters : Nat) : Partition :=
  let reserved := (((part.put 0 boot).put 6 boot).put 1 info).put 7 info
  let first := (reserved.put 32 firstFatSector).putAll 33 (fatSize - 1)
    fun _ => Sector.zero
  let second := (first.put (32 + fatSize) Sector.zero).putAll (32 + fatSize + 1)
    (fatSize - 1) fun _ => Sector.zero
  (second.putAll (32 + 2 * fatSize) 8 fun _ => Sector.zero).withStatics
    fun st => { st with freeClusters := freeClusters }

/-- One copy of the FAT; the copies after it get the cleared buffer. -/
private theorem writeFats_copy {part part' : Partition} {fatSize count i : Nat}
    {buffer : Sector} {result : Int} (hfit : 32 + (i + 1) * fatSize ≤ 4294967295)
    (hrest : Moves ((part.put (32 + i * fatSize) buffer).putAll
        (32 + i * fatSize + 1) (fatSize - 1) fun _ => Sector.zero)
      (writeFats fatSize count (i + 1) Sector.zero) result part') :
    Moves part (writeFats fatSize (count + 1) i buffer) result part' := by
  rw [Nat.add_mul, Nat.one_mul] at hfit
  have hstart : u32 (32 + i * fatSize) = 32 + i * fatSize := u32_of_lt (by omega)
  rw [writeFats]
  simp only [hstart]
  refine Runs.bind (writeSector_moves part _ (by omega))
    (Runs.if_neg (by decide) ?_)
  refine Runs.bind (clearSectors_moves _ _ _ _ _ (by omega))
    (Runs.if_neg (by decide) ?_)
  exact hrest

private theorem writeFats_moves (part : Partition) {fatSize : Nat}
    (hfit : 32 + 2 * fatSize ≤ 4294967295) :
    Moves part (writeFats fatSize 2 0 firstFatSector) 0
      ((((part.put 32 firstFatSector).putAll 33 (fatSize - 1)
        fun _ => Sector.zero).put (32 + fatSize) Sector.zero).putAll
          (32 + fatSize + 1) (fatSize - 1) fun _ => Sector.zero) := by
  refine writeFats_copy (by omega) (writeFats_copy (by omega) ?_)
  simp only [Nat.zero_mul, Nat.zero_add, Nat.one_mul, Nat.add_zero]
  exact Runs.pure _ _

theorem writeFormat_moves (part : Partition) (boot info : Sector)
    {fatSize : Nat} (count : Nat) (hfit : 32 + 2 * fatSize + 8 ≤ 4294967296) :
    Moves part (writeFormat boot info fatSize count) 0
      (part.formatted boot info fatSize count) := by
  have hroot : u32 (32 + 2 * fatSize) = 32 + 2 * fatSize := u32_of_lt (by omega)
  have hclear := fun part => clearSectors_moves part
    "FAT32: Failed to write root dir\n" (32 + 2 * fatSize) 8 0 (by omega)
  simp only [Nat.add_zero] at hclear
  refine Runs.bind (writeSector_moves _ _ (by decide))
    (Runs.if_neg (by decide) ?_)
  refine Runs.bind (writeSector_moves _ _ (by decide))
    (Runs.if_neg (by decide) ?_)
  refine Runs.bind (writeSector_moves _ _ (by decide))
    (Runs.if_neg (by decide) ?_)
  refine Runs.bind (writeSector_moves _ _ (by decide)) ?_
  refine Runs.bind (writeFats_moves _ (by omega))
    (Runs.if_neg (by decide) ?_)
  rw [hroot]
  refine Runs.bind (hclear _) (Runs.if_neg (by decide) ?_)
  refine Runs.bind (modifyFat32_moves _ rfl) ?_
  refine Runs.bind (flushIfSata_moves _ _) ?_
  exact Runs.bind (text_moves _ _) (Runs.pure _ _)

/-- Whatever the size, the writes have sector numbers that do not wrap. -/
theorem formatFatSize_le (total : Nat) : formatFatSize total ≤ 4186127 := by
  unfold formatFatSize u32
  omega

theorem format_moves_any (part : Partition) (total : UInt64)
    (label : Option (List UInt8)) :
    Moves part (format total label) 0
      (part.formatted (bootSector (u32 total.toNat) label)
        (newInfoSector (u32 total.toNat)) (formatFatSize (u32 total.toNat))
        (u32 (formatClusters (u32 total.toNat) + 4294967295))) := by
  have hfat := formatFatSize_le (u32 total.toNat)
  refine Runs.bind (blockIsPresent_moves part) (Runs.if_pos rfl ?_)
  refine Runs.bind (text_moves part _) ?_
  exact writeFormat_moves part _ _ _ (by omega)

theorem format_moves (part : Partition) {total : UInt64}
    (label : Option (List UInt8)) (h : Fits total.toNat) :
    Moves part (format total label) 0
      (part.formatted (bootSector total.toNat label) (newInfoSector total.toNat)
        (formatFatSize total.toNat)
        (u32 (formatClusters total.toNat + 4294967295))) := by
  have hany := format_moves_any part total label
  rwa [u32_of_lt h.lt] at hany

section Sectors

variable (part : Partition) (boot info : Sector) {fatSize : Nat} (count : Nat)

theorem Partition.formatted_root {j : Nat} (hj : j < 8) :
    (part.formatted boot info fatSize count).sectors (32 + 2 * fatSize + j) =
      Sector.zero := by
  simp only [Partition.formatted, Partition.withStatics, Partition.putAll]
  rw [if_pos (by omega)]

theorem Partition.formatted_boot :
    (part.formatted boot info fatSize count).sectors 0 = boot := by
  simp only [Partition.formatted, Partition.withStatics, Partition.putAll,
    Partition.put]
  rw [if_neg (by omega), if_neg (by omega), Function.update_of_ne (by omega),
    if_neg (by omega)]
  simp

theorem Partition.formatted_info :
    (part.formatted boot info fatSize count).sectors 1 = info := by
  simp only [Partition.formatted, Partition.withStatics, Partition.putAll,
    Partition.put]
  rw [if_neg (by omega), if_neg (by omega), Function.update_of_ne (by omega),
    if_neg (by omega)]
  simp

variable (hpos : 1 ≤ fatSize)

include hpos

theorem Partition.formatted_first {k : Nat} (hk : k < fatSize) :
    (part.formatted boot info fatSize count).sectors (32 + k) =
      if k = 0 then firstFatSector else Sector.zero := by
  simp only [Partition.formatted, Partition.withStatics, Partition.putAll,
    Partition.put]
  rw [if_neg (by omega), if_neg (by omega), Function.update_of_ne (by omega)]
  by_cases hzero : k = 0
  · rw [if_neg (by omega), if_pos hzero, hzero, Function.update_self]
  · rw [if_pos (by omega), if_neg hzero]

theorem Partition.formatted_second {k : Nat} (hk : k < fatSize) :
    (part.formatted boot info fatSize count).sectors (32 + fatSize + k) =
      Sector.zero := by
  simp only [Partition.formatted, Partition.withStatics, Partition.putAll,
    Partition.put]
  rw [if_neg (by omega)]
  by_cases hzero : k = 0
  · rw [if_neg (by omega), hzero, Nat.add_zero, Function.update_self]
  · rw [if_pos (by omega)]

end Sectors

/-! ## `fat32_init` -/

def newFs (fatSize clusters : Nat) : Fs where
  fatBeginLba := 32
  clusterBeginLba := 32 + 2 * fatSize
  sectorsPerCluster := 8
  rootDirCluster := 2
  fatSize := fatSize
  numFats := 2
  totalClusters := clusters
  initialized := true

def formattedFs (total : Nat) : Fs :=
  newFs (formatFatSize total) (formatClusters total)

theorem newFs_layout {fatSize clusters : Nat}
    (hend : 32 + 2 * fatSize + 8 * clusters ≤ 4294967296)
    (hfat : clusters + 2 ≤ 128 * fatSize) : (newFs fatSize clusters).Layout := by
  constructor
  case initialized | sectorsPerCluster => rfl
  all_goals
    simp only [newFs]
    omega

theorem formattedFs_layout {total : Nat} (h : Formattable total) :
    (formattedFs total).Layout :=
  newFs_layout (h.clusters_le.trans h.lt.le) h.fat

section Boot

variable (total : Nat) (label : Option (List UInt8))

private theorem boot_reserved :
    readLe (bootSector total label).toBuf 14 2 = 32 :=
  readLe_of_bytes (n := 32) fun i hi => by
    interval_cases i <;> rfl

private theorem boot_root : readLe (bootSector total label).toBuf 44 4 = 2 :=
  readLe_of_bytes (n := 2) fun i hi => by
    interval_cases i <;> rfl

theorem boot_total :
    readLe (bootSector total label).toBuf 32 4 = u32 total % 256 ^ 4 :=
  readLe_of_bytes fun i hi => by
    interval_cases i <;> rfl

theorem boot_fatSize :
    readLe (bootSector total label).toBuf 36 4 =
      formatFatSize total % 256 ^ 4 :=
  readLe_of_bytes fun i hi => by
    interval_cases i <;> rfl

theorem ofBoot_bootSector {total : Nat} (hlt : total < 4294967296) :
    Fs.ofBoot (bootSector total label).toBuf = formattedFs total := by
  have hfat := formatFatSize_le total
  have hcopies : ((bootSector total label).toBuf 16).toNat = 2 := rfl
  have hcluster : ((bootSector total label).toBuf 13).toNat = 8 := rfl
  have hsize : readLe (bootSector total label).toBuf 36 4 =
      formatFatSize total := by
    rw [boot_fatSize]
    omega
  have htotal : readLe (bootSector total label).toBuf 32 4 = total := by
    rw [boot_total, u32_of_lt hlt]
    omega
  have hbegin : u32 (32 + 2 * formatFatSize total) =
      32 + 2 * formatFatSize total := u32_of_lt (by omega)
  simp only [Fs.ofBoot, formattedFs, newFs, boot_reserved, boot_root, hcopies, hcluster,
    hsize, htotal, hbegin, formatClusters, formatDataSectors]

end Boot

private theorem readLe_newInfoSector (total : Nat) :
    readLe (newInfoSector total).toBuf 488 4 =
      u32 (formatClusters total + 4294967295) := by
  have hbytes : readLe (newInfoSector total).toBuf 488 4 =
      u32 (formatClusters total + 4294967295) % 256 ^ 4 :=
    readLe_of_bytes fun i hi => by
      interval_cases i <;> rfl
  rw [hbytes]
  exact Nat.mod_eq_of_lt (u32_lt _)

theorem newInfoSector_hint (total : Nat) :
    readLe (newInfoSector total).toBuf 492 4 = 3 := by
  have hbytes : readLe (newInfoSector total).toBuf 492 4 = 3 % 256 ^ 4 :=
    readLe_of_bytes fun i hi => by
      interval_cases i <;> rfl
  exact hbytes.trans (by norm_num)

private theorem newInfoSector_signature (total : Nat) :
    signatureAt (newInfoSector total) := ⟨rfl, rfl, rfl, rfl⟩

theorem init_moves (part : Partition) {total : Nat} (h : total < 4294967296)
    (label : Option (List UInt8))
    (hboot : part.sectors 0 = bootSector total label)
    (hinfo : part.sectors 1 = newInfoSector total) :
    Moves part init 0 (part.withStatics fun st =>
      { st with
        fs := formattedFs total
        freeClusters := u32 (formatClusters total + 4294967295) }) := by
  have hcount := readLe_newInfoSector total
  have hsignature := newInfoSector_signature total
  refine Runs.bind (blockIsPresent_moves part) (Runs.if_pos rfl ?_)
  refine Runs.bind (readSector_moves part (by decide)) ?_
  rw [hboot]
  refine Runs.if_neg (fun hor => hor.elim (fun hne => hne rfl) fun hne => hne rfl) ?_
  have hcluster : ((bootSector total label).toBuf 13) ≠ 0 := by
    intro hzero
    have : (8 : UInt8) = 0 := hzero
    exact absurd this (by decide)
  refine Runs.if_neg hcluster ?_
  rw [ofBoot_bootSector label h]
  refine Runs.bind (modifyFat32_moves part rfl) ?_
  refine Runs.bind (readSector_moves _ (by decide)) ?_
  simp only [Partition.withStatics, hinfo, if_pos hsignature, hcount]
  refine Runs.bind (Runs.pure _ _) (Runs.bind (modifyFat32_moves _ rfl) ?_)
  exact Runs.bind (text_moves _ _) (Runs.pure _ _)

/-! ## The new volume -/

/-- An empty root directory in cluster 2, and every other cluster free. -/
structure Volume.Fresh (v : Volume) (fatSize clusters : Nat) : Prop where
  fs : v.fs = newFs fatSize clusters
  link : ∀ c, v.fs.InRange c → v.link c = if c = 2 then 0x0FFFFFFF else free
  root : ∀ k, v.data 2 k = 0
  count : v.freeClusters = clusters - 1
  signature : signatureAt v.info
  stored : readLe v.info.toBuf 488 4 = clusters - 1

theorem firstFat_link {c : Nat} (hlow : 2 ≤ c) (hhigh : c < 128) :
    readLe firstFatSector.toBuf (4 * c) 4 % 268435456 =
      if c = 2 then 0x0FFFFFFF else free := by
  split
  · next htwo =>
      subst htwo
      rfl
  · next hne =>
      have hzero : readLe firstFatSector.toBuf (4 * c) 4 = 0 % 256 ^ 4 := by
        apply readLe_of_bytes
        intro i hi
        rw [firstFatSector, Sector.toBuf_ofBuf _ (by omega), if_neg (by omega),
          if_neg (by omega), if_neg (by omega)]
        simp
      rw [hzero]
      rfl

theorem zero_toBuf (k : Nat) : Sector.zero.toBuf k = 0 := by
  simp [Sector.toBuf, Sector.zero]

theorem zero_link (offset : Nat) :
    readLe Sector.zero.toBuf offset 4 % 268435456 = free := by
  have hzero : readLe Sector.zero.toBuf offset 4 = 0 % 256 ^ 4 := by
    apply readLe_of_bytes
    intro i _
    rw [zero_toBuf, byteOf_zero_left]
  rw [hzero]
  rfl

def Partition.mounted (part : Partition) (boot info : Sector)
    (fatSize clusters count : Nat) : Partition :=
  (part.formatted boot info fatSize count).withStatics fun st =>
    { st with fs := newFs fatSize clusters, freeClusters := count }

theorem Partition.mounted_fresh (part : Partition) (boot : Sector)
    {info : Sector} {fatSize clusters count : Nat} (hroot : 1 ≤ clusters)
    (hfat : clusters + 2 ≤ 128 * fatSize) (hcount : count = clusters - 1)
    (hsignature : signatureAt info) (hstored : readLe info.toBuf 488 4 = count) :
    (part.mounted boot info fatSize clusters count).volume.Fresh fatSize
      clusters := by
  have hpos : 1 ≤ fatSize := by omega
  have hinfo : (part.mounted boot info fatSize clusters count).volume.info = info :=
    part.formatted_info boot info count
  constructor
  case fs => rfl
  case link =>
    intro c hc
    obtain ⟨hlow, hhigh⟩ := hc
    change c < clusters + 2 at hhigh
    have hsector := part.formatted_first boot info count hpos
      (show c / 128 < fatSize by omega)
    have hlink : (part.mounted boot info fatSize clusters count).volume.link c =
        if c < clusters + 2 then
          readLe ((part.formatted boot info fatSize count).sectors
            (32 + c / 128)).toBuf (4 * (c % 128)) 4 % 268435456
        else free := rfl
    rw [hlink, if_pos hhigh, hsector]
    by_cases hzero : c / 128 = 0
    · rw [if_pos hzero, show c % 128 = c by omega]
      exact firstFat_link hlow (by omega)
    · rw [if_neg hzero, if_neg (by omega)]
      exact zero_link _
  case root =>
    intro k
    have hrange : (newFs fatSize clusters).InRange 2 := by
      simp only [Fs.InRange, newFs]
      omega
    have hdata : (part.mounted boot info fatSize clusters count).volume.data 2 =
        if (newFs fatSize clusters).InRange 2 then
          (part.mounted boot info fatSize clusters count).data 2
        else fun _ => 0 := rfl
    rw [hdata, if_pos hrange, Partition.data]
    split
    · next hk =>
        have hsector : (part.formatted boot info fatSize count).sectors
            (32 + 2 * fatSize + k / 512) = Sector.zero :=
          part.formatted_root boot info count (by omega)
        exact (congrArg (fun sector : Sector => sector.toBuf (k % 512)) hsector).trans
          (zero_toBuf _)
    · rfl
  case count => exact hcount
  case signature =>
    rw [hinfo]
    exact hsignature
  case stored => rw [hinfo, hstored, hcount]

theorem mount_executes {s : System} (hs : s.device.FaultFree) {total : UInt64}
    (h : Formattable total.toNat) (label : Option (List UInt8)) :
    ∃ formatted mounted, format total label s = some (0, formatted) ∧
      init formatted = some (0, mounted) ∧
      Represents mounted (volumeOf mounted) ∧
      (volumeOf mounted).Fresh (formatFatSize total.toNat)
        (formatClusters total.toNat) := by
  obtain ⟨s', hformat, hs'⟩ := format_moves (partitionOf s) label h.fits s
    ⟨hs, rfl, fun _ _ => rfl⟩
  obtain ⟨s'', hinit, hs''⟩ := init_moves _ h.fits.lt label
    (Partition.formatted_boot _ _ _ _)
    (Partition.formatted_info _ _ _ _) s' hs'
  have hvolume := Shows.volume_eq hs'' (formattedFs_layout h)
  refine ⟨s', s'', hformat, hinit, ?_, ?_⟩
  · rw [represents_iff]
    refine ⟨hs''.faultFree, ?_, rfl⟩
    rw [hs''.statics]
    exact formattedFs_layout h
  · rw [← hvolume]
    refine (partitionOf s).mounted_fresh _ h.root h.fat ?_
      (newInfoSector_signature _) (readLe_newInfoSector _)
    have hroot := h.root
    have hclusters := h.clusters_le
    have hlt := h.lt
    simp only [u32]
    omega

/-! ## The size of the FAT -/

/-- Every cluster the volume counts has its entry in the first FAT. -/
structure Fs.CoversClusters (fs : Fs) : Prop where
  entries : fs.totalClusters + 2 ≤ fs.fatSize * 128
  sectors : ∀ c, 2 ≤ c → c ≤ fs.totalClusters + 1 →
    fs.fatBeginLba ≤ fs.fatSector c ∧
      fs.fatSector c < fs.fatBeginLba + fs.fatSize

theorem newFs_coversClusters_iff {fatSize clusters : Nat}
    (hend : 32 + 2 * fatSize + 8 * clusters < 4294967296) :
    (newFs fatSize clusters).CoversClusters ↔ clusters + 2 ≤ fatSize * 128 := by
  constructor
  · intro h
    exact h.entries
  · intro hentries
    refine ⟨hentries, fun c hlow hhigh => ?_⟩
    simp only [newFs] at hhigh
    simp only [newFs, Fs.fatSector, u32]
    omega

/-- The two reserved entries are left out of the formula for the size. -/
theorem Fits.covers_iff {total : Nat} (h : Fits total) :
    formatClusters total + 2 ≤ formatFatSize total * 128 ↔
      1 ≤ (total - 32) % 1026 ∧ (total - 32) % 1026 ≤ 1017 := by
  have hreserved := h.reserved
  have hroot := h.root
  have hdata := h.data
  simp only [formatClusters, h.dataSectors_eq, h.fatSize_eq] at hroot hdata ⊢
  omega

/-- The geometry that is mounted, whether or not the FAT is large enough. -/
theorem exists_mounted {s : System} (hs : s.device.FaultFree) {total : UInt64}
    (h : Fits total.toNat) (label : Option (List UInt8)) :
    ∃ formatted mounted, format total label s = some (0, formatted) ∧
      init formatted = some (0, mounted) ∧
      mounted.fat32.fs = formattedFs total.toNat := by
  obtain ⟨s', hformat, hs'⟩ := format_moves (partitionOf s) label h s
    ⟨hs, rfl, fun _ _ => rfl⟩
  obtain ⟨s'', hinit, hs''⟩ := init_moves _ h.lt label
    (Partition.formatted_boot _ _ _ _)
    (Partition.formatted_info _ _ _ _) s' hs'
  refine ⟨s', s'', hformat, hinit, ?_⟩
  rw [hs''.statics]
  rfl

/--
What `fat32_init` mounts after `fat32_format` has a large enough FAT unless the
sectors behind the reserved ones divide by 1026 with a remainder of 0 or of
more than 1017.
-/
theorem format_covers_clusters_iff {s : System} (hs : s.device.FaultFree)
    {total : UInt64} (hlow : 42 ≤ total.toNat)
    (hhigh : total.toNat ≤ 4294966302) (label : Option (List UInt8)) :
    ∃ formatted mounted, format total label s = some (0, formatted) ∧
      init formatted = some (0, mounted) ∧
      mounted.fat32.fs.totalClusters =
        (total.toNat - 32 - 2 * mounted.fat32.fs.fatSize) / 8 ∧
      (mounted.fat32.fs.CoversClusters ↔
        1 ≤ (total.toNat - 32) % 1026 ∧ (total.toNat - 32) % 1026 ≤ 1017) := by
  have h := fits_of_le hlow hhigh
  obtain ⟨s', s'', hformat, hinit, hfs⟩ := exists_mounted hs h label
  have hclusters := h.clusters_le
  have hlt := h.lt
  refine ⟨s', s'', hformat, hinit, ?_, ?_⟩
  · have hdata := h.dataSectors_eq
    rw [hfs]
    simp only [formattedFs, newFs, formatClusters]
    omega
  · rw [hfs, ← h.covers_iff, formattedFs,
      newFs_coversClusters_iff (lt_of_le_of_lt hclusters hlt)]

theorem format_covers_clusters_of_hundred_sectors :
    ∃ formatted mounted,
      format 100 none (.startup fun _ => Sector.zero) = some (0, formatted) ∧
      init formatted = some (0, mounted) ∧
      mounted.fat32.fs.totalClusters =
        ((100 : UInt64).toNat - 32 - 2 * mounted.fat32.fs.fatSize) / 8 ∧
      (mounted.fat32.fs.CoversClusters ↔
        1 ≤ ((100 : UInt64).toNat - 32) % 1026 ∧
          ((100 : UInt64).toNat - 32) % 1026 ≤ 1017) :=
  format_covers_clusters_iff (System.startup_faultFree _) (by decide) (by decide)
    none

/-- On 1058 sectors there are 128 clusters, and one sector of the FAT. -/
theorem fat_too_small_after_format :
    ¬ ∀ (s formatted mounted : System) (total : UInt64)
      (label : Option (List UInt8)), s.device.FaultFree →
      42 ≤ total.toNat → total.toNat ≤ 4294966302 →
      format total label s = some (0, formatted) →
      init formatted = some (0, mounted) →
      mounted.fat32.fs.CoversClusters := by
  intro hclaim
  have h : Fits (1058 : UInt64).toNat := fits_of_le (by decide) (by decide)
  have hs := System.startup_faultFree fun _ => Sector.zero
  obtain ⟨s', s'', hformat, hinit, hfs⟩ := exists_mounted hs h none
  have hcovers := hclaim _ s' s'' 1058 none hs (by decide) (by decide) hformat
    hinit
  have hentries := hcovers.entries
  rw [hfs] at hentries
  have hsmall : ¬ formatClusters (1058 : UInt64).toNat + 2 ≤
      formatFatSize (1058 : UInt64).toNat * 128 := by decide
  exact hsmall hentries

/-! ## The copies of the FAT -/

/-- Sector `k` of the first FAT and of the second one. -/
def FatsAgree (s : System) (fatSize k : Nat) : Prop :=
  volumeSector s (32 + k) = volumeSector s (32 + fatSize + k)

private theorem firstFatSector_ne_zero : firstFatSector ≠ Sector.zero := by
  intro heq
  have hbyte : firstFatSector 0 = Sector.zero 0 := by rw [heq]
  exact absurd hbyte (by decide)

private theorem format_copies {s : System} (hs : s.device.FaultFree)
    {total : UInt64} (h : Formattable total.toNat)
    (label : Option (List UInt8)) :
    ∃ s', format total label s = some (0, s') ∧
      ∀ k < formatFatSize total.toNat,
        FatsAgree s' (formatFatSize total.toNat) k ↔ k ≠ 0 := by
  have hpos := h.fits.fatSize_pos
  have hfit : 32 + 2 * formatFatSize total.toNat ≤ 4294967296 :=
    h.data.trans h.lt.le
  obtain ⟨s', hformat, hs'⟩ := format_moves (partitionOf s) label h.fits s
    ⟨hs, rfl, fun _ _ => rfl⟩
  refine ⟨s', hformat, fun k hk => ?_⟩
  rw [FatsAgree, hs'.sectors _ (by omega), hs'.sectors _ (by omega),
    Partition.formatted_first _ _ _ _ hpos hk,
    Partition.formatted_second _ _ _ _ hpos hk]
  by_cases hzero : k = 0
  · simp [hzero, firstFatSector_ne_zero]
  · simp [hzero]

/--
After `fat32_format` the copies agree everywhere but in their first sector:
the buffer was cleared before the second copy was written.
-/
theorem format_copies_agree_iff {s : System} (hs : s.device.FaultFree)
    {total : UInt64} (hlow : 42 ≤ total.toNat) (hhigh : total.toNat ≤ 4294966302)
    (hfat : formatClusters total.toNat + 2 ≤ 128 * formatFatSize total.toNat)
    (label : Option (List UInt8)) :
    ∃ s', format total label s = some (0, s') ∧
      (∀ k < formatFatSize total.toNat,
        FatsAgree s' (formatFatSize total.toNat) k ↔ k ≠ 0) ∧
      ¬ ∀ k < formatFatSize total.toNat,
        FatsAgree s' (formatFatSize total.toNat) k := by
  obtain ⟨s', hformat, hagree⟩ :=
    format_copies hs (formattable_of_le hlow hhigh hfat) label
  have hpos : 0 < formatFatSize total.toNat := by omega
  exact ⟨s', hformat, hagree, fun hall => (hagree 0 hpos).mp (hall 0 hpos) rfl⟩

theorem format_copies_on_hundred_sectors :
    ∃ s', format 100 none (.startup fun _ => Sector.zero) = some (0, s') ∧
      (∀ k < formatFatSize (100 : UInt64).toNat,
        FatsAgree s' (formatFatSize (100 : UInt64).toNat) k ↔ k ≠ 0) ∧
      ¬ ∀ k < formatFatSize (100 : UInt64).toNat,
        FatsAgree s' (formatFatSize (100 : UInt64).toNat) k :=
  format_copies_agree_iff (System.startup_faultFree _) (by decide) (by decide)
    (by decide) none

/-- The copies differ on a volume of 100 sectors that was just formatted. -/
theorem fat_copies_differ_after_format :
    ¬ ∀ (s s' : System) (total : UInt64) (label : Option (List UInt8)),
      s.device.FaultFree → 42 ≤ total.toNat → total.toNat ≤ 4294966302 →
      formatClusters total.toNat + 2 ≤ 128 * formatFatSize total.toNat →
      format total label s = some (0, s') →
      ∀ k < formatFatSize total.toNat,
        FatsAgree s' (formatFatSize total.toNat) k := by
  intro hclaim
  have h : Formattable (100 : UInt64).toNat := by decide
  have hstart := System.startup_faultFree fun _ => Sector.zero
  obtain ⟨s', hformat, hagree⟩ := format_copies hstart h none
  have hzero := hclaim _ s' 100 none hstart (by decide) (by decide) (by decide)
    hformat 0 (by decide)
  exact (hagree 0 (by decide)).mp hzero rfl

end EntropyOS.Fat32
