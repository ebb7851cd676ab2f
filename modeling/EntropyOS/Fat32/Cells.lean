import EntropyOS.Fat32.Walking

/-!
# The entries of the FAT as cells

An entry is the 32-bit word at its place in the first FAT, whichever cluster
numbers the driver can reach it by.  Storing a link changes one word, unless the
sector number of the backup wraps and lands in the first FAT.
-/

namespace EntropyOS.Fat32

open EntropyOS.Foundation

def fatWord (s : System) (d : Nat) : Nat :=
  readLe (volumeSector s (u32 (s.fat32.fs.fatBeginLba + d / 128))).toBuf
    (4 * (d % 128)) 4

/-- The link in entry `d`: the low 28 bits of its word. -/
def fatEntry (s : System) (d : Nat) : Nat := fatWord s d % 268435456

/-- The sector number of the backup of this entry does not wrap. -/
def Fs.BackupFits (fs : Fs) (cluster : Nat) : Prop :=
  fs.numFats ≤ 1 ∨ cluster / 128 + fs.fatSize < 4294967296

instance (fs : Fs) (cluster : Nat) : Decidable (fs.BackupFits cluster) :=
  inferInstanceAs (Decidable (_ ∨ _))

theorem Fs.BackupFits.mono {fs : Fs} {c d : Nat} (h : fs.BackupFits d) (hle : c ≤ d) :
    fs.BackupFits c :=
  h.imp id fun hfits => by omega

section Words

variable {s : System} {c d next : Nat}

theorem fatSector_eq (fs : Fs) (hc : c < 1073741824) :
    fs.fatSector c = u32 (fs.fatBeginLba + c / 128) := by
  rw [Fs.fatSector, u32_of_lt (n := c * 4) (by omega)]
  congr 2
  omega

theorem linkOf_eq_fatEntry (s : System) (hc : c < 1073741824) :
    linkOf s c = fatEntry s c := by
  rw [linkOf, fatEntry, fatWord, fatSector_eq _ hc, entryOffset_eq]

theorem fatWord_congr {s' : System} (hstatics : s'.fat32.fs = s.fat32.fs)
    (hoffset : s'.fat32.partitionOffset = s.fat32.partitionOffset)
    (hsectors : s'.device.sectors = s.device.sectors) (d : Nat) :
    fatWord s' d = fatWord s d := by
  simp only [fatWord, volumeSector, hstatics, hoffset, hsectors]

/-- The word that `fat32_set_next_cluster` stores. -/
def linkedWord (word next : Nat) : Nat :=
  word / 268435456 * 268435456 + next % 268435456

theorem linkedWord_mod (word next : Nat) :
    linkedWord word next % 268435456 = next % 268435456 := by
  rw [linkedWord]
  omega

theorem linkedWord_linkedWord (word next next' : Nat) :
    linkedWord (linkedWord word next) next' = linkedWord word next' := by
  simp only [linkedWord]
  omega

theorem linkedWord_div (word next : Nat) :
    linkedWord word next / 268435456 = word / 268435456 := by
  rw [linkedWord]
  omega

variable (hc : c < 1073741824)

include hc

theorem fatWord_withLink (hd : d < 128 * s.fat32.fs.fatSize)
    (hsize : s.fat32.fs.fatSize < 4294967296)
    (hfits : s.fat32.fs.BackupFits c) :
    fatWord (withLink s c next) d =
      if d = c then linkedWord (fatWord s c) next else fatWord s d := by
  have hplace := fatSector_eq s.fat32.fs hc
  have hbackup : s.fat32.fs.numFats > 1 → c / 128 + s.fat32.fs.fatSize < 4294967296 :=
    hfits.resolve_left ∘ not_le.mpr
  rw [fatWord, withLink_fat32, volumeSector_withLink _ _ _ (u32_lt _), hplace]
  by_cases hsector : d / 128 = c / 128
  · rw [hsector, if_pos (.inl rfl), linkedSector_word _ _ (by omega)]
    by_cases hsame : d = c
    · rw [if_pos (by rw [hsame]), if_pos hsame, hsame]
      rfl
    · rw [if_neg (by omega), if_neg hsame, fatWord, hsector]
  · rw [if_neg, if_neg (fun heq => hsector (by rw [heq]))]
    · rfl
    · unfold u32
      omega

/-- A backup sector whose number wraps is a sector of the first FAT. -/
theorem fatWord_withLink_wrapped (hcopies : s.fat32.fs.numFats > 1)
    (hwrap : d + 549755813888 = c + 128 * s.fat32.fs.fatSize) :
    fatWord (withLink s c next) d = linkedWord (fatWord s c) next := by
  have hplace := fatSector_eq s.fat32.fs hc
  have hbackup : u32 (s.fat32.fs.fatBeginLba + d / 128) =
      u32 (u32 (s.fat32.fs.fatBeginLba + c / 128) + s.fat32.fs.fatSize) := by
    unfold u32
    omega
  rw [fatWord, withLink_fat32, volumeSector_withLink _ _ _ (u32_lt _), hplace,
    if_pos (.inr ⟨hcopies, hbackup⟩), linkedSector_word _ _ (by omega),
    if_pos (by omega), show d % 128 = c % 128 by omega]
  rfl

end Words

/--
With two FATs in a layout where no number wraps, storing a link changes the link
of one cluster, in both FATs, and no other sector.
-/
theorem fat_entries_independent {s : System} (hs : s.device.FaultFree)
    (hcopies : s.fat32.fs.numFats = 2)
    (hlayout : s.fat32.fs.fatBeginLba + 2 * s.fat32.fs.fatSize ≤ 4294967296)
    {c : Nat} (v : Nat) (hc : c < min (128 * s.fat32.fs.fatSize) 268435456) :
    ∃ s', setNextCluster c v s = some (0, s') ∧
      getNextCluster c s' = some (v % 268435456, s') ∧
      fatWord s' c / 268435456 = fatWord s c / 268435456 ∧
      (∀ d < min (128 * s.fat32.fs.fatSize) 268435456, d ≠ c →
        ∃ next, getNextCluster d s = some (next, s) ∧
          getNextCluster d s' = some (next, s')) ∧
      volumeSector s' (s.fat32.fs.fatBeginLba + c / 128 + s.fat32.fs.fatSize) =
        volumeSector s' (s.fat32.fs.fatBeginLba + c / 128) ∧
      ∀ lba, lba ≠ u64 (s.fat32.partitionOffset +
          (s.fat32.fs.fatBeginLba + c / 128)) →
        lba ≠ u64 (s.fat32.partitionOffset +
          (s.fat32.fs.fatBeginLba + c / 128 + s.fat32.fs.fatSize)) →
        s'.device.sectors lba = s.device.sectors lba := by
  obtain ⟨hin, hsmall⟩ := lt_min_iff.mp hc
  have hs' := withLink_faultFree c v hs
  have hsector : s.fat32.fs.fatSector c = s.fat32.fs.fatBeginLba + c / 128 := by
    rw [fatSector_eq _ (by omega), u32_of_lt (by omega)]
  have hbackup : u32 (s.fat32.fs.fatBeginLba + c / 128 + s.fat32.fs.fatSize) =
      s.fat32.fs.fatBeginLba + c / 128 + s.fat32.fs.fatSize := u32_of_lt (by omega)
  have hword : ∀ d < 128 * s.fat32.fs.fatSize, fatWord (withLink s c v) d =
      if d = c then linkedWord (fatWord s c) v else fatWord s d := fun d hd =>
    fatWord_withLink (by omega) hd (by omega) (.inr (by omega))
  refine ⟨withLink s c v, setNextCluster_faultFree c v hs, ?_, ?_, ?_, ?_, ?_⟩
  · rw [getNextCluster_faultFree hs', linkOf_eq_fatEntry _ (by omega), fatEntry,
      hword c hin, if_pos rfl, linkedWord_mod]
  · rw [hword c hin, if_pos rfl, linkedWord_div]
  · intro d hd hne
    obtain ⟨hdin, hdsmall⟩ := lt_min_iff.mp hd
    refine ⟨linkOf s d, getNextCluster_faultFree hs d, ?_⟩
    rw [getNextCluster_faultFree hs', linkOf_eq_fatEntry _ (by omega),
      linkOf_eq_fatEntry _ (by omega), fatEntry, hword d hdin, if_neg hne, fatEntry]
  · have hsecond := volumeSector_withLink s c v
      (show s.fat32.fs.fatBeginLba + c / 128 + s.fat32.fs.fatSize < 4294967296 by omega)
    have hfirst := volumeSector_withLink s c v
      (show s.fat32.fs.fatBeginLba + c / 128 < 4294967296 by omega)
    rw [hsector, hbackup] at hsecond hfirst
    rw [hsecond, hfirst, if_pos (.inr ⟨by omega, rfl⟩), if_pos (.inl rfl)]
  · intro lba hfirst hsecond
    apply withLink_sectors
    · rwa [hsector]
    · intro _
      rwa [hsector, hbackup]

/-! ## Disks with a given geometry -/

/-- A machine that just mounted a volume at the start of its disk. -/
def mountedOn (fs : Fs) (sectors : Nat → Sector) : System :=
  { System.startup sectors with fat32 := { Statics.startup with fs := fs } }

/-- A boot sector with what `fat32_init` reads. -/
def geometryBoot (sectorsPerCluster reserved numFats totalSectors fatSize : Nat) :
    Sector :=
  let buf := storeLe (fun _ => 0) 13 1 sectorsPerCluster
  let buf := storeLe buf 14 2 reserved
  let buf := storeLe buf 16 1 numFats
  let buf := storeLe buf 32 4 totalSectors
  let buf := storeLe buf 36 4 fatSize
  let buf := storeLe buf 44 4 2
  Sector.ofBuf (storeLe buf 510 2 0xAA55)

theorem mountedOn_fs (fs : Fs) (sectors : Nat → Sector) :
    (mountedOn fs sectors).fat32.fs = fs := rfl

theorem mountedOn_faultFree (fs : Fs) (sectors : Nat → Sector) :
    (mountedOn fs sectors).device.FaultFree := ⟨rfl, rfl⟩

theorem fatWord_mountedOn (fs : Fs) (sectors : Nat → Sector) (d : Nat) :
    fatWord (mountedOn fs sectors) d =
      readLe (sectors (u32 (fs.fatBeginLba + d / 128))).toBuf (4 * (d % 128)) 4 := by
  have hlba : u64 (0 + u32 (fs.fatBeginLba + d / 128)) =
      u32 (fs.fatBeginLba + d / 128) := by
    unfold u64 u32
    omega
  rw [← congrArg sectors hlba]
  rfl

/-- A hundred clusters, and two FATs of eight sectors. -/
def smallFs : Fs := ⟨32, 48, 8, 2, 8, 2, 100, true⟩

theorem fat_entries_independent_at_end :
    let s := mountedOn smallFs fun _ => Sector.zero
    ∃ s', setNextCluster 1023 0xFFFFFFF8 s = some (0, s') ∧
      getNextCluster 1023 s' = some (0x0FFFFFF8, s') := by
  intro s
  obtain ⟨s', hset, hget, -⟩ := fat_entries_independent (s := s)
    (mountedOn_faultFree _ _) rfl (by decide) 0xFFFFFFF8 (c := 1023) (by decide)
  exact ⟨s', hset, hget⟩

def endMarks : Sector := fun _ => 0xFF

theorem endMarks_word {k : Nat} (hk : k < 128) :
    readLe endMarks.toBuf (4 * k) 4 = 0xFFFFFFFF := by
  have hbytes : ∀ i < 4, endMarks.toBuf (4 * k + i) = byteOf 0xFFFFFFFF i := by
    intro i hi
    rw [Sector.toBuf, dif_pos (by omega)]
    interval_cases i <;> rfl
  rw [readLe_of_bytes hbytes]
  rfl

end EntropyOS.Fat32
