import EntropyOS.Gpt.Foreign

/-!
# Tables and the size of the disk

`gpt_create_table` takes the size of the disk as it is told and subtracts from
it.  The disk here is as large as it says, and a transfer behind its end fails.
-/

namespace EntropyOS.Gpt

open EntropyOS.Foundation

/-! ## A disk of a given size -/

section Sized

variable {total : Nat}

/-- The image of a system whose disk has `total` sectors. -/
def Bounded (total : Nat) (s : System) (image : Image) : Prop :=
  s.device.Sized total ∧ s.gpt = image.statics ∧ s.device.sectors = image.disk

theorem bounded_backs : Backs (Bounded total) (· < total) where
  isPresent := fun _ => Runs.of_reads fun _ hs => blockIsPresent_present hs.1.present
  get := fun image => Runs.of_reads fun s hs => by
    change some (s.gpt, s) = _
    rw [hs.2.1]
  modify := fun image f s hs => by
    refine ⟨{ s with gpt := f s.gpt }, rfl, hs.1, ?_, hs.2.2⟩
    simp only [hs.2.1]
    rfl
  write := fun image lba sector hlba s hs => by
    refine ⟨_, blockWriteSector_sized hs.1 hlba sector, hs.1.put lba sector,
      hs.2.1, ?_⟩
    rw [System.put_sectors, hs.2.2]
    rfl

theorem blockWriteSector_fails {lba : Nat} (hlba : total ≤ lba) (image : Image)
    (sector : Sector) :
    Runs (Bounded total) image (blockWriteSector lba sector) (-1) image := by
  intro s hs
  exact ⟨_, blockWriteSector_beyond hs.1 hlba sector,
    ⟨hs.1.present, hs.1.faults⟩, hs.2⟩

theorem storeArray_fails {count i : Nat} (hlow : 2 + i ≤ total)
    (hhigh : total < 2 + i + count) (image : Image) :
    ∃ image', Runs (Bounded total) image (storeArray count i) (-1) image' := by
  induction count generalizing i image with
  | zero => omega
  | succ count ih =>
      by_cases hfirst : total ≤ 2 + i
      · exact ⟨_, Runs.bind (bounded_backs.get image) (Runs.bind
          (blockWriteSector_fails hfirst image _) (Runs.pure _ _))⟩
      · obtain ⟨image', hrest⟩ := ih (i := i + 1) (by omega) (by omega)
          (image.put (2 + i) (image.statics.arraySector i))
        exact ⟨image', Runs.bind (bounded_backs.get image) (Runs.bind
          (bounded_backs.write image _ _ (by omega)) hrest)⟩

theorem storeTable_fails (hlow : 1 ≤ total) (hhigh : total < 34) (image : Image) :
    ∃ image', Runs (Bounded total) image storeTable (-1) image' := by
  by_cases hone : total ≤ 1
  · exact ⟨_, Runs.bind (bounded_backs.modify image _) (Runs.bind
      (bounded_backs.get _) (Runs.bind (blockWriteSector_fails hone _ _)
        (Runs.pure _ _)))⟩
  · obtain ⟨image', hrest⟩ := storeArray_fails (i := 0) (show 2 + 0 ≤ total by omega)
      (show total < 2 + 0 + 32 by omega)
      ((image.withStatics Statics.sealTable).put 1
        (image.withStatics Statics.sealTable).statics.headerSector)
    exact ⟨image', Runs.bind (bounded_backs.modify image _) (Runs.bind
      (bounded_backs.get _) (Runs.bind
        (bounded_backs.write _ _ _ (by omega)) hrest))⟩

/-- A failed write is all that stops a table on a disk that cannot hold it. -/
theorem gptCreateTable_fails (hsmall : total < 34) (totalSectors : UInt64)
    (diskGuid : Option Guid) (image : Image) :
    ∃ image', Runs (Bounded total) image (gptCreateTable totalSectors diskGuid)
      (-1) image' := by
  by_cases hzero : total ≤ 0
  · exact ⟨_, Runs.bind (bounded_backs.isPresent image) (Runs.if_pos rfl
      (Runs.bind (blockWriteSector_fails hzero _ _) (Runs.pure _ _)))⟩
  · obtain ⟨image', hstore⟩ := storeTable_fails (by omega) hsmall
      ((image.put 0 (protectiveMbr totalSectors)).withStatics
        (Statics.startTable totalSectors diskGuid))
    exact ⟨image', Runs.bind (bounded_backs.isPresent image) (Runs.if_pos rfl
      (Runs.bind (bounded_backs.write _ _ _ (by omega)) (Runs.bind
        (bounded_backs.modify _ _) (Runs.bind hstore (Runs.pure _ _)))))⟩

end Sized

/-! ## What a new table claims -/

def BackupSector (totalSectors : UInt64) (lba : Nat) : Prop :=
  lba = (totalSectors - 1).toNat ∨
    ∃ i < 32, lba = (totalSectors - 33).toNat + i

/-- A primary copy that is intact, with room behind it for data and backup. -/
structure SoundLayout (totalSectors : UInt64) (disk : Nat → Sector) : Prop where
  usable : (primaryHeader disk).firstUsableLba ≤ (primaryHeader disk).lastUsableLba ∧
    (primaryHeader disk).lastUsableLba < totalSectors
  backup : ∀ lba, BackupSector totalSectors lba →
    34 ≤ lba ∧ lba < totalSectors.toNat ∧
    ¬ ((primaryHeader disk).firstUsableLba.toNat ≤ lba ∧
      lba ≤ (primaryHeader disk).lastUsableLba.toNat)
  headerCrc : (primaryHeader disk).headerCrc32 =
    crc32 ((primaryHeader disk).withCrc 0).toBytes 92
  arrayCrc : (primaryHeader disk).partitionArrayCrc32 =
    crc32 (arrayBytes disk 2) (128 * 128)

/-- If the call returns 0, the table is one that fits. -/
def CreatesSoundly (totalSectors : UInt64) (diskGuid : Option Guid)
    (s : System) : Prop :=
  ∀ s', gptCreateTable totalSectors diskGuid s = some (0, s') →
    SoundLayout totalSectors s'.device.sectors

section Create

variable (totalSectors : UInt64) (diskGuid : Option Guid) (image : Image)

/-- The backup header leaves sector 1 alone if it goes elsewhere. -/
theorem Image.create_primaryHeader (hlast : (totalSectors - 1).toNat ≠ 1) :
    primaryHeader (image.create totalSectors diskGuid).disk =
      (tableHeader totalSectors (newDiskGuid diskGuid image.statics)
        emptyArrayCrc).sealCrc := by
  rw [← Image.createPrimary_header, primaryHeader]
  have hsector : (image.create totalSectors diskGuid).disk 1 =
      (image.createPrimary totalSectors diskGuid).disk 1 :=
    Function.update_of_ne (Ne.symm hlast) _ _
  rw [hsector, Image.createPrimary, Image.store_disk_header,
    Statics.ofBytes_headerSector, Image.store_statics]

theorem Table.entryAt_eq {totalSectors : UInt64} {guid : Guid}
    {old : Nat → Sector} {image : Image}
    (h : Table totalSectors guid old image) :
    ∀ i < 128, entryAt image.disk 2 i =
      image.statics.partitions (Fin.ofNat 128 i) := by
  intro i hi
  have hsector : u64 (2 + i / 4) = 2 + i / 4 := Nat.mod_eq_of_lt (by omega)
  rw [entryAt_eq_sector, hsector, h.diskArray _ (by omega),
    image.statics.ofBytes_arraySector hi]

end Create

private theorem sub_toNat {totalSectors count : UInt64}
    (h : count.toNat ≤ totalSectors.toNat) :
    (totalSectors - count).toNat = totalSectors.toNat - count.toNat :=
  UInt64.toNat_sub_of_le _ _ (by rwa [UInt64.le_iff_toNat_le])

theorem Table.soundLayout {totalSectors : UInt64} {guid : Guid}
    {old : Nat → Sector} {image : Image}
    (h : Table totalSectors guid old image) (hsize : 68 ≤ totalSectors.toNat) :
    SoundLayout totalSectors image.disk := by
  have hheader : Gpt.primaryHeader image.disk =
      (tableHeader totalSectors guid image.statics.arrayCrc).sealCrc :=
    h.primaryHeader
  have hone := @sub_toNat totalSectors 1 (show 1 ≤ totalSectors.toNat by omega)
  have harray := @sub_toNat totalSectors 33 (show 33 ≤ totalSectors.toNat by omega)
  have hlast := @sub_toNat totalSectors 34 (show 34 ≤ totalSectors.toNat by omega)
  have hfirst : (Gpt.primaryHeader image.disk).firstUsableLba = 34 := by
    rw [hheader]
    rfl
  have husable : (Gpt.primaryHeader image.disk).lastUsableLba = totalSectors - 34 := by
    rw [hheader]
    rfl
  change _ = _ - 1 at hone
  change _ = _ - 33 at harray
  change _ = _ - 34 at hlast
  constructor
  case usable =>
    rw [hfirst, husable, UInt64.le_iff_toNat_le, UInt64.lt_iff_toNat_lt, hlast]
    change 34 ≤ _ ∧ _
    omega
  case backup =>
    intro lba hlba
    rw [hfirst, husable, hlast]
    change 34 ≤ lba ∧ lba < _ ∧ ¬ (34 ≤ lba ∧ _)
    rcases hlba with rfl | ⟨i, hi, rfl⟩
    · omega
    · omega
  case headerCrc =>
    rw [hheader]
    exact Header.sealCrc_headerCrc32 _
  case arrayCrc =>
    rw [crc32_arrayBytes _ _ h.entryAt_eq, hheader]
    rfl

theorem exists_create_sized {s : System} {totalSectors : UInt64}
    (hs : s.device.Sized totalSectors.toNat) (hsize : 34 ≤ totalSectors.toNat)
    (diskGuid : Option Guid) :
    ∃ s', gptCreateTable totalSectors diskGuid s = some (0, s') ∧
      s'.device.sectors =
        ((System.image s).create totalSectors diskGuid).disk := by
  have hone := @sub_toNat totalSectors 1 (show 1 ≤ totalSectors.toNat by omega)
  have hcreate := (@bounded_backs totalSectors.toNat).gptCreateTable
    totalSectors diskGuid (System.image s) (fun _ _ => by omega)
    (by rw [hone]; change _ - 1 < _; omega)
  obtain ⟨s', hrun, -, -, hdisk⟩ := hcreate s ⟨hs, rfl, rfl⟩
  exact ⟨s', hrun, hdisk⟩

/--
A table that is created is laid out soundly on disks with 68 sectors or more;
on those with less than 34 none is created.
-/
theorem createsSoundly_iff {s : System} {totalSectors : UInt64}
    (diskGuid : Option Guid) (hs : s.device.Sized totalSectors.toNat) :
    CreatesSoundly totalSectors diskGuid s ↔
      totalSectors.toNat < 34 ∨ 68 ≤ totalSectors.toNat := by
  by_cases hsmall : totalSectors.toNat < 34
  · refine iff_of_true (fun s' hrun => ?_) (.inl hsmall)
    obtain ⟨image', hfails⟩ := gptCreateTable_fails hsmall totalSectors diskGuid
      (System.image s)
    have hstatus := (hfails.deterministic ⟨hs, rfl, rfl⟩ hrun).1
    exact absurd hstatus (by decide)
  obtain ⟨s', hrun, hdisk⟩ :=
    exists_create_sized hs (Nat.not_lt.mp hsmall) diskGuid
  constructor
  · intro hsound
    refine .inr (Nat.not_lt.mp fun hlarge => ?_)
    have hone := @sub_toNat totalSectors 1 (show 1 ≤ totalSectors.toNat by omega)
    have hlast := @sub_toNat totalSectors 34 (show 34 ≤ totalSectors.toNat by omega)
    change _ = _ - 1 at hone
    change _ = _ - 34 at hlast
    have husable := (hsound s' hrun).usable.1
    rw [hdisk, Image.create_primaryHeader _ _ _ (by omega)] at husable
    change (34 : UInt64) ≤ totalSectors - 34 at husable
    rw [UInt64.le_iff_toNat_le, hlast] at husable
    change 34 ≤ _ at husable
    omega
  · rintro (hless | hsize) s'' hrun'
    · exact absurd hless hsmall
    · rw [hrun] at hrun'
      cases hrun'
      rw [hdisk]
      exact (Image.create_table totalSectors diskGuid (System.image s)
        (Table.last_ge hsize)).soundLayout hsize

def blankSystem (total : Nat) : System :=
  { System.startup fun _ => Sector.zero with
    device := { (System.startup fun _ => Sector.zero).device with
      faults := fun _ lba => decide (total ≤ lba) } }

/-- On 34 sectors, the last usable sector is sector 0. -/
theorem table_created_without_room :
    (blankSystem 34).device.Sized (34 : UInt64).toNat ∧
      ¬ CreatesSoundly 34 none (blankSystem 34) := by
  have hs : (blankSystem 34).device.Sized (34 : UInt64).toNat := ⟨rfl, rfl⟩
  refine ⟨hs, fun hsound => ?_⟩
  obtain ⟨s', hrun, hdisk⟩ := exists_create_sized hs (by decide) none
  have husable := (hsound s' hrun).usable.1
  rw [hdisk, Image.create_primaryHeader _ _ _ (by decide)] at husable
  exact absurd husable (by decide)

theorem table_created_with_room : CreatesSoundly 100 none (blankSystem 100) :=
  (createsSoundly_iff none (show (blankSystem 100).device.Sized
    (100 : UInt64).toNat from ⟨rfl, rfl⟩)).mpr (.inr (by decide))

end EntropyOS.Gpt
