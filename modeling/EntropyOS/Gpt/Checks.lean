import EntropyOS.Gpt.Slots

/-!
# The self-check and the backup copy

`gpt_create_table` seals the shared header once for the primary copy and once
for the backup copy, and then puts the primary locations back without sealing
again.  `gpt_verify` notices this until the next edit.  No call writes the
backup array, and no edit writes the backup header.
-/

namespace EntropyOS.Gpt

open EntropyOS.Foundation

/-! ## `gpt_verify` -/

/-- Both checksums in memory match what they cover. -/
def Statics.Verified (g : Statics) : Prop :=
  g.header.headerCrc32 =
      crc32 (Statics.headerBytes { g with header := g.header.withCrc 0 })
        g.header.headerSize.toNat ∧
    g.arrayCrc = g.header.partitionArrayCrc32

theorem gptVerify_returns_zero_iff (s : System) :
    Returns gptVerify s 0 ↔ s.gpt.initialized = true ∧ s.gpt.Verified := by
  unfold Returns gptVerify Statics.Verified
  rw [Program.bind_of_some (getGpt_apply s)]
  by_cases hinit : s.gpt.initialized = true
  swap
  · simp [hinit]
  simp only [hinit, if_true, true_and]
  split_ifs with hheader harray
  · simp [hheader]
  · simp [harray]
  · simp only [ne_eq, not_not] at hheader harray
    exact ⟨fun _ => ⟨hheader, harray⟩, fun _ => ⟨s, rfl⟩⟩

/-- For a header of this module's size, the check is about its 92 bytes. -/
theorem Statics.verified_iff {g : Statics}
    (hsize : g.header.headerSize.toNat = 92) :
    g.Verified ↔ g.header.headerCrc32 = g.header.sealCrc.headerCrc32 ∧
      g.arrayCrc = g.header.partitionArrayCrc32 := by
  have hbytes :
      crc32 (Statics.headerBytes { g with header := g.header.withCrc 0 }) 92 =
        crc32 (g.header.withCrc 0).toBytes 92 :=
    crc32_congr fun k hk => if_pos hk
  rw [Statics.Verified, hsize, hbytes]
  rfl

theorem Header.sealCrc_sealCrc (header : Header) :
    header.sealCrc.sealCrc = header.sealCrc := by
  cases header
  rfl

/-- The primary and the backup header of a new table have one checksum. -/
def HeaderCollision (totalSectors : UInt64) (guid : Guid) : Prop :=
  ((tableHeader totalSectors guid emptyArrayCrc).toBackup
      totalSectors).sealCrc.headerCrc32 =
    (tableHeader totalSectors guid emptyArrayCrc).sealCrc.headerCrc32

/-- Right after creation, memory holds the backup's checksum. -/
theorem verified_of_create_iff (totalSectors : UInt64) (diskGuid : Option Guid)
    (image : Image) :
    (image.create totalSectors diskGuid).statics.Verified ↔
      HeaderCollision totalSectors (newDiskGuid diskGuid image.statics) := by
  have hheader := Image.create_header totalSectors diskGuid image
  have harray := arrayCrc_of_zero
    (Image.create_partitions totalSectors diskGuid image)
  rw [Statics.verified_iff (by rw [hheader]; rfl), harray, hheader,
    Header.sealCrc_withCrc]
  exact ⟨fun h => h.1, fun h => ⟨h, rfl⟩⟩

/--
`gpt_verify` accepts the state a history reaches exactly when the history has
an edit, or the two headers of the new table happen to share a checksum.
-/
theorem gptVerify_after_history_iff {s created s' : System}
    {totalSectors : UInt64} {diskGuid : Option Guid} {edits : List Edit}
    (hs : s.device.FaultFree) (hsize : 68 ≤ totalSectors.toNat)
    (hcreate : gptCreateTable totalSectors diskGuid s = some (0, created))
    (hedits : History created edits s') :
    Returns gptVerify s' 0 ↔
      edits ≠ [] ∨
        HeaderCollision totalSectors (newDiskGuid diskGuid s.gpt) := by
  have hcreated := represents_create hs hcreate
  obtain ⟨-, htable⟩ := hedits.table_of_create hs hsize hcreate
  have hinit : s'.gpt.initialized = true := htable.initialized
  rw [gptVerify_returns_zero_iff, hinit]
  simp only [true_and]
  by_cases hempty : edits = []
  · rw [hedits.eq_start hempty, hcreated.2.1, verified_of_create_iff]
    simp only [ne_eq, hempty, not_true_eq_false, false_or]
    rfl
  · have hsealed := hedits.sealed hcreated.1 hempty
    have hheader : s'.gpt.header = (tableHeader totalSectors
        (newDiskGuid diskGuid s.gpt) s'.gpt.arrayCrc).sealCrc :=
      hsealed.trans htable.sealTable_header
    simp only [ne_eq, hempty, not_false_eq_true, true_or, iff_true]
    rw [Statics.verified_iff (by rw [hheader]; rfl), hheader,
      Header.sealCrc_sealCrc]
    exact ⟨rfl, rfl⟩

/-! ## The checksums of a new table differ -/

private theorem toBytes_setArrayCrc_low (header : Header) (crc : UInt32)
    {k : Nat} (hk : k < 88) :
    { header with partitionArrayCrc32 := crc }.toBytes k =
      header.toBytes k := by
  unfold Header.toBytes
  repeat refine ite_congr rfl (fun _ => rfl) fun hlow => ?_
  omega

private theorem toBytes_setArrayCrc_high (header : Header) (crc : UInt32)
    {k : Nat} (hlow : 88 ≤ k) (hhigh : k < 92) :
    { header with partitionArrayCrc32 := crc }.toBytes k =
      byteOf crc.toNat (k - 88) := by
  simp only [Header.toBytes]
  repeat rw [if_neg (by omega)]
  rw [if_pos hhigh]

private theorem crc32From_setArrayCrc (header : Header) (crc : UInt32) :
    crc32From { header with partitionArrayCrc32 := crc }.toBytes 0 88
      0xFFFFFFFF = crc32From header.toBytes 0 88 0xFFFFFFFF :=
  crc32From_congr _ fun _ _ hk => toBytes_setArrayCrc_low header crc (by omega)

/-- The array checksum comes last, so it cannot make two headers collide. -/
theorem sealCrc_ne_of_bytes {header header' : Header} (crc : UInt32)
    (h : crc32From (header.withCrc 0).toBytes 0 88 0xFFFFFFFF ≠
      crc32From (header'.withCrc 0).toBytes 0 88 0xFFFFFFFF) :
    { header with partitionArrayCrc32 := crc }.sealCrc.headerCrc32 ≠
      { header' with partitionArrayCrc32 := crc }.sealCrc.headerCrc32 := by
  have hseal : ∀ header : Header,
      { header with partitionArrayCrc32 := crc }.sealCrc.headerCrc32 =
        crc32 { header.withCrc 0 with partitionArrayCrc32 := crc }.toBytes 92 := by
    intro header
    cases header
    rfl
  rw [hseal, hseal]
  refine crc32_ne_of_split 4 ?_ fun k hlow hhigh => ?_
  · rw [crc32From_setArrayCrc, crc32From_setArrayCrc]
    exact h
  · rw [toBytes_setArrayCrc_high _ _ hlow hhigh,
      toBytes_setArrayCrc_high _ _ hlow hhigh]

theorem not_headerCollision_startup :
    ¬ HeaderCollision 100 (newDiskGuid none Statics.startup) := by
  have hbytes :
      crc32From (((newHeader 100 (newDiskGuid none Statics.startup)).toBackup
        100).withCrc 0).toBytes 0 88 0xFFFFFFFF ≠
      crc32From ((newHeader 100 (newDiskGuid none Statics.startup)).withCrc
        0).toBytes 0 88 0xFFFFFFFF := by
    decide +kernel
  have hne := sealCrc_ne_of_bytes emptyArrayCrc hbytes
  exact hne

/-- On a blank disk, a new table without edits fails its own check. -/
theorem gptVerify_rejects_new_table :
    ∃ created,
      gptCreateTable 100 none (System.startup fun _ => Sector.zero) =
        some (0, created) ∧
      History created [] created ∧ ¬ Returns gptVerify created 0 := by
  have hs := System.startup_faultFree fun _ => Sector.zero
  obtain ⟨created, hcreate, hcreated⟩ := exists_create hs 100 none
  refine ⟨created, hcreate, .start, ?_⟩
  rw [gptVerify_returns_zero_iff, hcreated.2.1, verified_of_create_iff]
  exact fun h => not_headerCollision_startup h.2

theorem gptVerify_accepts_one_edit :
    ∃ created s',
      gptCreateTable 100 none (System.startup fun _ => Sector.zero) =
        some (0, created) ∧
      History created [.add 34 40 efiSystemType none] s' ∧
      Returns gptVerify s' 0 := by
  have hs := System.startup_faultFree fun _ => Sector.zero
  obtain ⟨created, s', hcreate, hedits, -⟩ := exists_create_add hs 100
    none 34 40 (by decide) (by decide) (by decide) efiSystemType none
  refine ⟨created, s', hcreate, hedits, ?_⟩
  exact (gptVerify_after_history_iff hs (by decide) hcreate hedits).mpr
    (.inl (by simp))

/-! ## The backup copy -/

/-- The copy at the end of the disk is one that recovery could use. -/
structure BackupAgrees (totalSectors : UInt64) (disk : Nat → Sector) : Prop where
  headerCrc : (Header.ofBytes (disk (totalSectors - 1).toNat).toBuf).headerCrc32 =
    (Header.ofBytes (disk (totalSectors - 1).toNat).toBuf).sealCrc.headerCrc32
  arrayCrc :
    (Header.ofBytes (disk (totalSectors - 1).toNat).toBuf).partitionArrayCrc32 =
      (Header.ofBytes (disk 1).toBuf).partitionArrayCrc32
  entriesLba :
    (Header.ofBytes (disk (totalSectors - 1).toNat).toBuf).partitionEntriesLba =
      totalSectors - 33
  array : ∀ i < 32, disk ((totalSectors - 33).toNat + i) = disk (2 + i)

theorem Table.backupHeader {totalSectors : UInt64} {guid : Guid}
    {old : Nat → Sector} {image : Image}
    (h : Table totalSectors guid old image) :
    Header.ofBytes (image.disk (totalSectors - 1).toNat).toBuf =
      ((tableHeader totalSectors guid emptyArrayCrc).toBackup
        totalSectors).sealCrc := by
  rw [h.diskBackup]
  exact Header.ofBytes_of_agree fun _ hk => Sector.toBuf_ofBuf _ (by omega)

theorem Table.primaryHeader {totalSectors : UInt64} {guid : Guid}
    {old : Nat → Sector} {image : Image}
    (h : Table totalSectors guid old image) :
    Header.ofBytes (image.disk 1).toBuf =
      (tableHeader totalSectors guid image.statics.arrayCrc).sealCrc := by
  rw [h.diskHeader, Statics.headerSector, h.sealTable_header]
  exact Header.ofBytes_of_agree fun _ hk => Sector.toBuf_ofBuf _ (by omega)

/-- The sectors of the backup array keep what was there before creation. -/
theorem Table.backupArray {totalSectors : UInt64} {guid : Guid}
    {old : Nat → Sector} {image : Image}
    (h : Table totalSectors guid old image)
    (hsize : 68 ≤ totalSectors.toNat) {i : Nat} (hi : i < 32) :
    image.disk ((totalSectors - 33).toNat + i) =
      old ((totalSectors - 33).toNat + i) := by
  have hfirst : (totalSectors - 33).toNat = totalSectors.toNat - 33 :=
    UInt64.toNat_sub_of_le _ _
      (by rw [UInt64.le_iff_toNat_le]; exact Nat.le_trans (by decide) hsize)
  have hlast : (totalSectors - 1).toNat = totalSectors.toNat - 1 :=
    UInt64.toNat_sub_of_le _ _
      (by rw [UInt64.le_iff_toNat_le]; exact Nat.le_trans (by decide) hsize)
  exact h.diskOther _ (by omega) (by omega)

/-- The backup agrees as long as the array has the checksum and the bytes it
had when it was empty. -/
theorem Table.backupAgrees_iff {totalSectors : UInt64} {guid : Guid}
    {old : Nat → Sector} {image : Image}
    (h : Table totalSectors guid old image)
    (hsize : 68 ≤ totalSectors.toNat) :
    BackupAgrees totalSectors image.disk ↔
      emptyArrayCrc = image.statics.arrayCrc ∧
      ∀ i < 32, old ((totalSectors - 33).toNat + i) =
        image.statics.arraySector i := by
  have harray : (∀ i < 32, image.disk ((totalSectors - 33).toNat + i) =
      image.disk (2 + i)) ↔ ∀ i < 32, old ((totalSectors - 33).toNat + i) =
        image.statics.arraySector i := by
    refine forall₂_congr fun i hi => ?_
    rw [h.backupArray hsize hi, h.diskArray i hi]
  constructor
  · intro hagrees
    refine ⟨?_, harray.mp hagrees.array⟩
    have hcrc := hagrees.arrayCrc
    rw [h.backupHeader, h.primaryHeader] at hcrc
    exact hcrc
  · rintro ⟨hcrc, hold⟩
    refine ⟨?_, ?_, ?_, harray.mpr hold⟩
    · rw [h.backupHeader, Header.sealCrc_sealCrc]
    · rw [h.backupHeader, h.primaryHeader]
      exact hcrc
    · rw [h.backupHeader]
      rfl

/-! ## Histories without additions -/

def Edit.IsDelete : Edit → Prop
  | .add _ _ _ _ => False
  | .delete _ => True

theorem History.partitions_zero {s s' : System} {edits : List Edit}
    (hs : s.device.FaultFree) (hstart : ∀ i, s.gpt.partitions i = Entry.zero)
    (h : History s edits s') (hdeletes : ∀ edit ∈ edits, edit.IsDelete)
    (i : Fin 128) : s'.gpt.partitions i = Entry.zero := by
  induction h generalizing i with
  | start => exact hstart i
  | edit hprevious hrun ih =>
      have hbefore := ih fun edit hedit => hdeletes edit (by simp [hedit])
      obtain ⟨f, heffect, hafter⟩ := Edit.effect_of_run _
        (represents_image (hprevious.faultFree hs)) hrun
      rw [hafter.2.1, Image.store_statics, Statics.sealTable_partitions]
      cases heffect with
      | @add firstLba lastLba typeGuid name =>
          have hdelete := hdeletes (.add firstLba lastLba typeGuid name) (by simp)
          exact False.elim hdelete
      | @delete index =>
          by_cases hi : i = Fin.ofNat 128 index.toNat
          · subst hi
            exact Function.update_self _ _ _
          · exact (Function.update_of_ne hi _ _).trans (hbefore i)

theorem Statics.arraySector_of_zero {g : Statics}
    (h : ∀ i, g.partitions i = Entry.zero) {i : Nat} (hi : i < 32) :
    g.arraySector i = Sector.zero := by
  funext k
  have hk : 512 * i + (k : Nat) < 16384 := by omega
  simp only [Statics.arraySector, Sector.ofBuf, Statics.partitionBytes, hk,
    dite_true, h, Entry.zero_toBytes]
  rfl

/-- Conversely, an array of zero bytes has no entry. -/
theorem Statics.partitions_of_arraySector {g : Statics}
    (h : ∀ i < 32, g.arraySector i = Sector.zero) (i : Fin 128) :
    g.partitions i = Entry.zero := by
  have hbytes : ∀ k < 128, (g.partitions i).toBytes k = 0 := by
    intro k hk
    have hsector := congrFun (h ((128 * i + k) / 512) (by omega))
      ⟨(128 * i + k) % 512, by omega⟩
    have hoffset : 512 * ((128 * (i : Nat) + k) / 512) +
        (128 * i + k) % 512 = 128 * i + k := by omega
    simp only [Statics.arraySector, Sector.ofBuf, hoffset,
      g.partitionBytes_entry i hk] at hsector
    exact hsector
  calc g.partitions i
      = Entry.ofBytes (fun _ => 0) :=
        (Entry.ofBytes_of_agree fun k hk => (hbytes k hk).symm).symm
    _ = Entry.zero :=
        Entry.ofBytes_of_agree fun k _ => (Entry.zero_toBytes k).symm

/-- Right after an addition, a backup array of zeros is out of date. -/
theorem not_backupAgrees_of_add {totalSectors : UInt64} {guid : Guid}
    {old : Nat → Sector} {s s' : System} (hs : s.device.FaultFree)
    (htable : Table totalSectors guid old (System.image s))
    (hsize : 68 ≤ totalSectors.toNat)
    (hold : ∀ i < 32, old ((totalSectors - 33).toNat + i) = Sector.zero)
    {firstLba lastLba : UInt64} {typeGuid : Guid} {name : Option (List UInt8)}
    (hrun : gptAddPartition firstLba lastLba typeGuid name s = some (0, s')) :
    ¬ BackupAgrees totalSectors s'.device.sectors := by
  intro hagrees
  obtain ⟨f, heffect, hafter⟩ := Edit.effect_of_run
    (.add firstLba lastLba typeGuid name) (represents_image hs) hrun
  have htable' := htable.edit (Table.last_ge hsize) heffect
  rw [hafter.2.2] at hagrees
  have harray := ((htable'.backupAgrees_iff hsize).mp hagrees).2
  have hzero := Statics.partitions_of_arraySector fun i hi =>
    (harray i hi).symm.trans (hold i hi)
  cases heffect with
  | @add _ _ _ _ slot _ hadmits =>
      obtain ⟨crc, hheader⟩ := htable.header
      have hentry := hzero (Fin.ofNat 128 slot)
      rw [Image.store_statics, Statics.sealTable_partitions] at hentry
      have hfirst : firstLba = 0 := by
        have hfill := (Function.update_self _ _ _).symm.trans hentry
        exact congrArg Entry.firstLba hfill
      have hlow := hadmits.1
      rw [hheader, hfirst] at hlow
      change (34 : UInt64) ≤ 0 at hlow
      exact absurd hlow (by decide)

/--
The backup agrees with the primary in every state a run goes through exactly
when its array sectors were blank before and the run adds no partition.
-/
theorem backupAgrees_throughout_iff {s created s' : System}
    {totalSectors : UInt64} {diskGuid : Option Guid} {edits : List Edit}
    (hs : s.device.FaultFree) (hsize : 68 ≤ totalSectors.toNat)
    (hcreate : gptCreateTable totalSectors diskGuid s = some (0, created))
    (hrun : History created edits s') :
    (∀ past now, past <+: edits → History created past now →
      BackupAgrees totalSectors now.device.sectors) ↔
    (∀ i < 32, s.device.sectors ((totalSectors - 33).toNat + i) =
      Sector.zero) ∧
    ∀ edit ∈ edits, edit.IsDelete := by
  have hcreated := represents_create hs hcreate
  have hempty : ∀ i, created.gpt.partitions i = Entry.zero := by
    intro i
    rw [hcreated.2.1, Image.create_partitions]
  constructor
  · intro hthroughout
    obtain ⟨-, htable⟩ := History.start.table_of_create hs hsize hcreate
    have hnew := hthroughout [] created (List.nil_prefix) .start
    have hold : ∀ i < 32, s.device.sectors ((totalSectors - 33).toNat + i) =
        Sector.zero := by
      intro i hi
      rw [((htable.backupAgrees_iff hsize).mp hnew).2 i hi]
      exact Statics.arraySector_of_zero hempty hi
    refine ⟨hold, ?_⟩
    induction hrun with
    | start => simp
    | @edit edits before after edit hprevious hedit ih =>
        have hbefore := ih fun past now hpast =>
          hthroughout past now (hpast.trans (List.prefix_append _ _))
        rw [List.forall_mem_append]
        refine ⟨hbefore, ?_⟩
        cases edit with
        | delete => simp [Edit.IsDelete]
        | add firstLba lastLba typeGuid name =>
            obtain ⟨hfree, htable'⟩ :=
              hprevious.table_of_create hs hsize hcreate
            have hagrees := hthroughout _ _ List.prefix_rfl
              (.edit hprevious hedit)
            exact absurd hagrees
              (not_backupAgrees_of_add hfree htable' hsize hold hedit)
  · rintro ⟨hold, hdeletes⟩ past now hpast hhistory
    obtain ⟨-, htable⟩ := hhistory.table_of_create hs hsize hcreate
    have hzero := hhistory.partitions_zero hcreated.1 hempty
      fun edit hedit => hdeletes edit (hpast.subset hedit)
    refine (htable.backupAgrees_iff hsize).mpr ⟨?_, fun i hi => ?_⟩
    · exact (arrayCrc_of_zero hzero).symm
    · rw [hold i hi]
      exact (Statics.arraySector_of_zero hzero hi).symm

/-- One addition on a blank disk, and the backup is out of date. -/
theorem backup_disagrees_after_add :
    ∃ created s',
      gptCreateTable 100 none (System.startup fun _ => Sector.zero) =
        some (0, created) ∧
      History created [.add 34 40 efiSystemType none] s' ∧
      ¬ BackupAgrees 100 s'.device.sectors := by
  have hs := System.startup_faultFree fun _ => Sector.zero
  obtain ⟨created, s', hcreate, hedits, -⟩ := exists_create_add hs 100
    none 34 40 (by decide) (by decide) (by decide) efiSystemType none
  refine ⟨created, s', hcreate, hedits, ?_⟩
  obtain ⟨before, hprevious, hadd⟩ := hedits.last [] rfl
  obtain ⟨hfree, htable⟩ := hprevious.table_of_create hs (by decide) hcreate
  exact not_backupAgrees_of_add hfree htable (by decide) (fun _ _ => rfl) hadd

/-- Deleting from an empty table on a blank disk leaves the backup right. -/
theorem backup_agrees_after_delete :
    ∃ created s',
      gptCreateTable 100 none (System.startup fun _ => Sector.zero) =
        some (0, created) ∧
      History created [.delete 0] s' ∧
      BackupAgrees 100 s'.device.sectors := by
  have hs := System.startup_faultFree fun _ => Sector.zero
  obtain ⟨created, hcreate, hrep⟩ := exists_create hs 100 none
  have hinit : created.gpt.initialized = true := by
    rw [hrep.2.1]
    rfl
  obtain ⟨s', hdelete, -⟩ :=
    exists_delete hrep.1 hinit (show 0 < 128 by decide)
  have hrun : History created [.delete 0] s' := .edit .start hdelete
  refine ⟨created, s', hcreate, hrun, ?_⟩
  exact (backupAgrees_throughout_iff hs (by decide) hcreate hrun).mpr
    ⟨fun _ _ => rfl, by simp [Edit.IsDelete]⟩ _ s' List.prefix_rfl hrun

end EntropyOS.Gpt
