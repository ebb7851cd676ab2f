import EntropyOS.Gpt.Ranges
import EntropyOS.Gpt.Sizes

/-!
# Partitioning a disk

The installer and the bootloader lay a disk out the same way: a new table, a
boot partition of 300 MB from sector 2048 on, and a data partition on the rest.
Nothing asks beforehand whether the disk is large enough.
-/

namespace EntropyOS.Boot

open EntropyOS.Foundation EntropyOS.Gpt

def bootName : List UInt8 := [0x42, 0x4F, 0x4F, 0x54]

def dataName : List UInt8 := [0x44, 0x41, 0x54, 0x41]

def fatStart : UInt64 := 2048

def fatEnd : UInt64 := fatStart + 300 * 1024 * 1024 / 512 - 1

def exfatStart : UInt64 := fatEnd + 1

def exfatEnd (totalSectors : UInt64) : UInt64 := totalSectors - 34

/-- The new table and its two partitions, with the messages of the caller. -/
def partitionDisk (createFailed addFailed : String) (totalSectors : UInt64) :
    Program System Int := do
  if (← gptCreateTable totalSectors none) ≠ 0 then
    text createFailed
    return -1
  if (← gptAddPartition fatStart fatEnd efiSystemType (some bootName)) ≠ 0 then
    text addFailed
    return -1
  if (← gptAddPartition exfatStart (exfatEnd totalSectors)
      microsoftBasicDataType (some dataName)) ≠ 0 then
    text addFailed
    return -1
  return 0

/-- The partitioning in `efi_main` of the installer. -/
def installerPartition : UInt64 → Program System Int :=
  partitionDisk "Installer: GPT creation failed\n"
    "Installer: Failed to add partitions\n"

/-- The partitioning in `bootloader_force_install`. -/
def bootloaderPartition : UInt64 → Program System Int :=
  partitionDisk "Bootloader: gpt_create_table failed\r\n"
    "Bootloader: gpt_add_partition failed\r\n"

/-! ## The layout -/

/--
Two partitions and nothing else are in the table and on the disk, apart from
each other, from the 34 sectors in front and from the last 33.
-/
structure LaidOut (s : System) (totalSectors : UInt64) : Prop where
  boot : (s.gpt.partitions 0).Holds fatStart fatEnd efiSystemType
  data : (s.gpt.partitions 1).Holds exfatStart (exfatEnd totalSectors)
    microsoftBasicDataType
  rest : ∀ i, i ≠ 0 → i ≠ 1 → s.gpt.partitions i = Entry.zero
  stored : ∀ i < 32, s.device.sectors (2 + i) = s.gpt.arraySector i
  disjoint : s.gpt.Disjoint
  inside : ∀ i, (s.gpt.partitions i).InUse →
    34 ≤ (s.gpt.partitions i).firstLba.toNat ∧
    (s.gpt.partitions i).firstLba < (s.gpt.partitions i).lastLba ∧
    (s.gpt.partitions i).lastLba.toNat + 34 ≤ totalSectors.toNat

private theorem exfatEnd_toNat {totalSectors : UInt64}
    (h : 34 ≤ totalSectors.toNat) :
    (exfatEnd totalSectors).toNat = totalSectors.toNat - 34 := by
  have h34 : (34 : UInt64).toNat = 34 := rfl
  rw [exfatEnd, UInt64.toNat_sub_of_le _ _ (by rwa [UInt64.le_iff_toNat_le]), h34]

private theorem laidOut_of_partitions {s : System} {totalSectors : UInt64}
    {boot data : Entry} (hsize : 616483 ≤ totalSectors.toNat)
    (hpartitions : s.gpt.partitions =
      Function.update (Function.update (fun _ => Entry.zero) 0 boot) 1 data)
    (hboot : boot.Holds fatStart fatEnd efiSystemType)
    (hdata : data.Holds exfatStart (exfatEnd totalSectors) microsoftBasicDataType)
    (hstored : ∀ i < 32, s.device.sectors (2 + i) = s.gpt.arraySector i) :
    LaidOut s totalSectors := by
  have hend := exfatEnd_toNat (show 34 ≤ totalSectors.toNat by omega)
  have hzero : s.gpt.partitions 0 = boot := by
    rw [hpartitions, Function.update_of_ne (by decide), Function.update_self]
  have hone : s.gpt.partitions 1 = data := by
    rw [hpartitions, Function.update_self]
  have hrest : ∀ i, i ≠ 0 → i ≠ 1 → s.gpt.partitions i = Entry.zero := by
    intro i hi hi'
    rw [hpartitions, Function.update_of_ne hi', Function.update_of_ne hi]
  have hused : ∀ i, (s.gpt.partitions i).InUse → i = 0 ∨ i = 1 := by
    intro i hi
    by_contra hne
    obtain ⟨hi0, hi1⟩ := not_or.mp hne
    rw [hrest i hi0 hi1] at hi
    exact Entry.zero_not_inUse hi
  have hapart : boot.Apart data := by
    left
    rw [hboot.lastLba, hdata.firstLba]
    decide
  have hfatStart : fatStart.toNat = 2048 := rfl
  have hfatEnd : fatEnd.toNat = 616447 := rfl
  have hexfatStart : exfatStart.toNat = 616448 := rfl
  constructor
  case boot => rwa [hzero]
  case data => rwa [hone]
  case rest => exact hrest
  case stored => exact hstored
  case disjoint =>
    intro i j hne hi hj
    rcases hused i hi with rfl | rfl
    · rcases hused j hj with rfl | rfl
      · exact absurd rfl hne
      · rw [hzero, hone]
        exact hapart
    · rcases hused j hj with rfl | rfl
      · rw [hzero, hone]
        exact hapart.symm
      · exact absurd rfl hne
  case inside =>
    intro i hi
    rcases hused i hi with rfl | rfl
    · rw [hzero, hboot.firstLba, hboot.lastLba, UInt64.lt_iff_toNat_lt]
      omega
    · rw [hone, hdata.firstLba, hdata.lastLba, UInt64.lt_iff_toNat_lt]
      omega

private theorem text_bounded {total : Nat} (message : String) (image : Image) :
    Runs (Bounded total) image (do text message; return (-1 : Int)) (-1) image :=
  fun s hs => ⟨{ s with console := message :: s.console }, rfl, hs⟩

theorem outcome_of_failure {program : Program System Int} {s : System}
    {totalSectors : UInt64} (image' : Image) (hs : s.device.Sized totalSectors.toNat)
    (hsmall : totalSectors.toNat < 616483)
    (hstop : Runs (Bounded totalSectors.toNat) (System.image s) program (-1) image') :
    ∃ status s', program s = some (status, s') ∧
      (status = 0 ↔ 616483 ≤ totalSectors.toNat) ∧
      (status = 0 → LaidOut s' totalSectors) := by
  obtain ⟨s', hrun, -⟩ := hstop s ⟨hs, rfl, rfl⟩
  exact ⟨-1, s', hrun, by omega, fun h => absurd h (by decide)⟩

section Created

variable {s : System} {totalSectors : UInt64} (htable : 34 ≤ totalSectors.toNat)

include htable

theorem table_created :
    Runs (Bounded totalSectors.toNat) (System.image s) (gptCreateTable totalSectors none)
      0 ((System.image s).create totalSectors none) := by
  have hlast : (totalSectors - 1).toNat < totalSectors.toNat := by
    have hone : (1 : UInt64).toNat = 1 := rfl
    rw [UInt64.toNat_sub_of_le _ _ (by rw [UInt64.le_iff_toNat_le]; omega)]
    omega
  exact bounded_backs.gptCreateTable totalSectors none (System.image s)
    (fun lba _ => by omega) hlast

theorem bootPartition_added (hfirst : fatEnd ≤ exfatEnd totalSectors) :
    Runs (Bounded totalSectors.toNat) ((System.image s).create totalSectors none)
      (gptAddPartition fatStart fatEnd efiSystemType (some bootName)) 0
      ((System.image s).createOne totalSectors none fatStart fatEnd efiSystemType
        (some bootName)) := by
  have hboot : 34 ≤ fatStart ∧ fatStart < fatEnd := by decide
  exact bounded_backs.gptAddPartition_accepts (fun lba _ _ => by omega) rfl
    (Image.create_findFreeSlot totalSectors none (System.image s))
    ((Image.create_admits _ _ _).mpr ⟨hboot.1, hboot.2, hfirst⟩) efiSystemType
    (some bootName)

theorem partitionDisk_succeeds (createFailed addFailed : String)
    (hs : s.device.Sized totalSectors.toNat) (hfirst : fatEnd ≤ exfatEnd totalSectors)
    (hsecond : exfatStart < exfatEnd totalSectors)
    (hsize : 616483 ≤ totalSectors.toNat) :
    ∃ s', partitionDisk createFailed addFailed totalSectors s = some (0, s') ∧
      LaidOut s' totalSectors := by
  have hfits : ∀ lba, 1 ≤ lba → lba < 34 → lba < totalSectors.toNat := by omega
  have hadd := bounded_backs.gptAddPartition_accepts hfits
    (Image.createOne_initialized totalSectors none (System.image s) fatStart
      fatEnd efiSystemType (some bootName))
    (Image.createOne_findFreeSlot totalSectors none (System.image s) fatStart
      fatEnd (some bootName) efiSystemType_not_zero)
    ((Image.createOne_admits _ _ _ _ _ _ _).mpr
      ⟨by decide, hsecond, UInt64.le_refl _⟩)
    microsoftBasicDataType (some dataName)
  have hdone : Runs (Bounded totalSectors.toNat) (System.image s)
      (partitionDisk createFailed addFailed totalSectors) 0 _ :=
    Runs.bind (table_created htable) (Runs.bind (bootPartition_added htable hfirst)
      (Runs.bind hadd (Runs.pure _ 0)))
  obtain ⟨s', hrun, -, hgpt, hdisk⟩ := hdone s ⟨hs, rfl, rfl⟩
  refine ⟨s', hrun, ?_⟩
  have hone := Image.createOne_partitions totalSectors none (System.image s)
    fatStart fatEnd efiSystemType (some bootName)
  generalize (System.image s).createOne totalSectors none fatStart fatEnd
    efiSystemType (some bootName) = one at hone hgpt hdisk
  have hpartitions : s'.gpt.partitions = Function.update one.statics.partitions 1
      ((one.statics.partitions 1).fill microsoftBasicDataType
        (generateGuid one.statics.seed).1 exfatStart (exfatEnd totalSectors)
        (some dataName)) := by
    rw [hgpt, Image.store_statics, Statics.sealTable_partitions]
    simp only [Image.withStatics, Statics.addEntry]
    rfl
  rw [hone] at hpartitions
  refine laidOut_of_partitions hsize hpartitions ⟨rfl, rfl, rfl⟩ ⟨rfl, rfl, rfl⟩ ?_
  intro i hi
  rw [hdisk, hgpt, Image.store_disk_array _ hi, Image.store_statics,
    Statics.sealTable_arraySector]

end Created

/--
On every disk the partitioning comes to an end.  It succeeds from 616483
sectors on, and then both partitions have room.
-/
theorem partitionDisk_outcome (createFailed addFailed : String) {s : System}
    (totalSectors : UInt64) (hs : s.device.Sized totalSectors.toNat) :
    ∃ status s', partitionDisk createFailed addFailed totalSectors s =
        some (status, s') ∧
      (status = 0 ↔ 616483 ≤ totalSectors.toNat) ∧
      (status = 0 → LaidOut s' totalSectors) := by
  have hnonzero : (-1 : Int) ≠ 0 := by decide
  by_cases hsmall : totalSectors.toNat < 34
  · -- the table does not fit
    obtain ⟨image', hcreate⟩ := gptCreateTable_fails hsmall totalSectors none
      (System.image s)
    refine outcome_of_failure image' hs (by omega) (Runs.bind hcreate ?_)
    rw [if_pos hnonzero]
    exact text_bounded createFailed image'
  have htable : 34 ≤ totalSectors.toNat := not_lt.mp hsmall
  have hend := exfatEnd_toNat htable
  have hfits : ∀ lba, 1 ≤ lba → lba < 34 → lba < totalSectors.toNat := by omega
  have hcreate := table_created (s := s) htable
  by_cases hfirst : fatEnd ≤ exfatEnd totalSectors
  swap
  · -- the boot partition does not fit
    rcases bounded_backs.gptAddPartition hfits
      ((System.image s).create totalSectors none) fatStart fatEnd efiSystemType
      (some bootName) with ⟨-, hadd⟩ | ⟨slot, -, -, hadmits, -⟩
    · have hfatEnd : fatEnd.toNat = 616447 := rfl
      rw [UInt64.le_iff_toNat_le] at hfirst
      refine outcome_of_failure ((System.image s).create totalSectors none) hs (by omega)
        (Runs.bind hcreate (Runs.bind hadd ?_))
      rw [if_pos hnonzero]
      exact text_bounded addFailed _
    · exact absurd ((Image.create_admits _ _ _).mp hadmits).2.2 hfirst
  have hexfatStart : exfatStart.toNat = 616448 := rfl
  by_cases hsecond : exfatStart < exfatEnd totalSectors
  swap
  · -- nothing is left for the data partition
    rcases bounded_backs.gptAddPartition hfits
      ((System.image s).createOne totalSectors none fatStart fatEnd efiSystemType
        (some bootName)) exfatStart (exfatEnd totalSectors)
      microsoftBasicDataType (some dataName) with
      ⟨-, hadd⟩ | ⟨slot, -, -, hadmits, -⟩
    · rw [UInt64.lt_iff_toNat_lt] at hsecond
      refine outcome_of_failure ((System.image s).createOne totalSectors none fatStart
        fatEnd efiSystemType (some bootName)) hs (by omega)
        (Runs.bind hcreate (Runs.bind (bootPartition_added htable hfirst)
          (Runs.bind hadd ?_)))
      rw [if_pos hnonzero]
      exact text_bounded addFailed _
    · exact absurd ((Image.createOne_admits _ _ _ _ _ _ _).mp hadmits).2.1 hsecond
  have hsize : 616483 ≤ totalSectors.toNat := by
    rw [UInt64.lt_iff_toNat_lt] at hsecond
    omega
  obtain ⟨s', hrun, hlaid⟩ := partitionDisk_succeeds htable createFailed addFailed hs
    hfirst hsecond hsize
  exact ⟨0, s', hrun, by simpa using hsize, fun _ => hlaid⟩

/-- Both programs that partition a disk do it safely, whatever its size. -/
theorem partitioning_succeeds_iff {s : System} (totalSectors : UInt64)
    (hs : s.device.Sized totalSectors.toNat) :
    ∀ partition ∈ [installerPartition, bootloaderPartition],
      ∃ status s', partition totalSectors s = some (status, s') ∧
        (status = 0 ↔ 616483 ≤ totalSectors.toNat) ∧
        (status = 0 → LaidOut s' totalSectors) := by
  intro partition hmem
  simp only [List.mem_cons, List.not_mem_nil, or_false] at hmem
  rcases hmem with rfl | rfl
  · exact partitionDisk_outcome _ _ totalSectors hs
  · exact partitionDisk_outcome _ _ totalSectors hs

/-- The smallest disk with room for both partitions. -/
theorem smallest_disk_laid_out :
    ∃ s s', s.device.Sized 616483 ∧
      installerPartition 616483 s = some (0, s') ∧ LaidOut s' 616483 := by
  let start := System.startup fun _ => Sector.zero
  let s := { start with device :=
    { start.device with faults := fun _ lba => decide (616483 ≤ lba) } }
  have hs : s.device.Sized (616483 : UInt64).toNat := ⟨rfl, rfl⟩
  obtain ⟨status, s', hrun, hiff, hlaid⟩ :=
    partitioning_succeeds_iff 616483 hs installerPartition (by simp)
  obtain rfl := hiff.mpr le_rfl
  exact ⟨s, s', hs, hrun, hlaid rfl⟩

end EntropyOS.Boot
