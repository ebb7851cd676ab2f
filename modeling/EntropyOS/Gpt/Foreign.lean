import EntropyOS.Gpt.Checks
import EntropyOS.Gpt.Loading

/-!
# Tables of other systems

`gpt_init` follows the geometry that a header gives, while `gpt_verify` and the
edits take 128 entries from sector 2 on for granted.  This file is about tables
with any number of entries anywhere, and says which of them survive an edit.
-/

namespace EntropyOS.Gpt

open EntropyOS.Foundation

/-! ## The primary table on a disk -/

def primaryHeader (disk : Nat → Sector) : Header :=
  Header.ofBytes (disk 1).toBuf

/-- The bytes from sector `lba` on. -/
def arrayBytes (disk : Nat → Sector) (lba : Nat) : Buf := fun k =>
  (disk (u64 (lba + k / 512))).toBuf (k % 512)

def entryAt (disk : Nat → Sector) (lba i : Nat) : Entry :=
  Entry.ofBytes fun k => arrayBytes disk lba (128 * i + k)

def storedEntry (disk : Nat → Sector) (i : Nat) : Entry :=
  entryAt disk (primaryHeader disk).partitionEntriesLba.toNat i

/-- The primary table is one that any system accepts. -/
structure ValidPrimary (disk : Nat → Sector) : Prop where
  recognised : (primaryHeader disk).Recognised
  headerSize : (primaryHeader disk).headerSize.toNat = 92
  headerCrc : (primaryHeader disk).headerCrc32 =
    crc32 ((primaryHeader disk).withCrc 0).toBytes 92
  entrySize : (primaryHeader disk).partitionEntrySize.toNat = 128
  entryCount : 1 ≤ (primaryHeader disk).numPartitionEntries.toNat ∧
    (primaryHeader disk).numPartitionEntries.toNat ≤ 128
  arrayCrc : (primaryHeader disk).partitionArrayCrc32 =
    crc32 (arrayBytes disk (primaryHeader disk).partitionEntriesLba.toNat)
      ((primaryHeader disk).numPartitionEntries.toNat * 128)

/-- What an edit makes of a table with `count` entries. -/
def Edit.Rewrites (count : Nat) (before after : Nat → Entry) : Edit → Prop
  | .add firstLba lastLba typeGuid _ => ∃ slot < count,
      (before slot).typeGuid.IsZero ∧
      (after slot).Holds firstLba lastLba typeGuid ∧
      ∀ i < count, i ≠ slot → after i = before i
  | .delete index => ∀ i < count,
      after i = if i = index.toNat then Entry.zero else before i

/-- Nothing but the edited entry and the checksums has changed. -/
structure OneEntryChanged (edit : Edit) (before after : Nat → Sector) :
    Prop where
  header : ∃ arrayCrc crc, primaryHeader after =
    { primaryHeader before with partitionArrayCrc32 := arrayCrc }.withCrc crc
  entries : edit.Rewrites (primaryHeader before).numPartitionEntries.toNat
    (storedEntry before) (storedEntry after)

/-- Every edit that returns 0, after others that did, keeps the table valid. -/
def EditsKeepTable (loaded : System) : Prop :=
  ∀ edits before edit after, History loaded edits before →
    edit.run before = some (0, after) →
    ValidPrimary after.device.sectors ∧
    OneEntryChanged edit before.device.sectors after.device.sectors

/--
The table on the disk is loaded and verified, shows no entry past its last one,
and survives every edit.
-/
def SurvivesEdits (s : System) : Prop :=
  ∃ loaded, gptInit s = some (0, loaded) ∧
    Returns gptVerify loaded 0 ∧
    (∀ index info,
      (primaryHeader s.device.sectors).numPartitionEntries.toNat ≤ index.toNat →
      ∃ info', Returns (gptGetPartition index info) loaded (-1, info')) ∧
    EditsKeepTable loaded

/-! ## Entries and bytes -/

section Entries

variable (disk : Nat → Sector) (lba : Nat)

theorem arrayBytes_eq (k : Nat) :
    arrayBytes disk lba k = (entryAt disk lba (k / 128)).toBytes (k % 128) := by
  rw [entryAt, Entry.ofBytes_toBytes _ (Nat.mod_lt _ (by decide)),
    Nat.div_add_mod]

theorem crc32_arrayBytes {g : Statics}
    (h : ∀ i < 128, entryAt disk lba i = g.partitions (Fin.ofNat 128 i)) :
    crc32 (arrayBytes disk lba) (128 * 128) = g.arrayCrc := by
  apply crc32_congr
  intro k hk
  have hk' : k < 16384 := hk
  have hslot : (Fin.ofNat 128 (k / 128) : Fin 128) = ⟨k / 128, by omega⟩ :=
    Fin.ext (Nat.mod_eq_of_lt (by omega))
  rw [arrayBytes_eq, h _ (by omega), Statics.partitionBytes, dif_pos hk', hslot]

theorem crc32_arrayBytes_of_zero {count : Nat}
    (h : ∀ i < count, entryAt disk lba i = Entry.zero) :
    crc32 (arrayBytes disk lba) (count * 128) =
      crc32 (fun _ => 0) (count * 128) := by
  apply crc32_congr
  intro k hk
  rw [arrayBytes_eq, h _ (by omega), Entry.zero_toBytes]

theorem entryAt_eq_sector (i : Nat) : entryAt disk lba i =
    Entry.ofBytes fun k => (disk (u64 (lba + i / 4))).toBuf (i % 4 * 128 + k) := by
  apply Entry.ofBytes_of_agree
  intro k hk
  have hsector : (128 * i + k) / 512 = i / 4 := by omega
  have hoffset : (128 * i + k) % 512 = i % 4 * 128 + k := by omega
  rw [Entry.ofBytes_toBytes _ hk, arrayBytes, hsector, hoffset]

theorem entryAt_congr {disk disk' : Nat → Sector} {i : Nat}
    (h : disk (u64 (lba + i / 4)) = disk' (u64 (lba + i / 4))) :
    entryAt disk lba i = entryAt disk' lba i := by
  rw [entryAt_eq_sector, entryAt_eq_sector, h]

end Entries

/-! ## Where a stored array lands -/

@[simp] theorem primaryHeader_tableDisk (g : Statics) (disk : Nat → Sector) :
    primaryHeader (Image.tableDisk g disk) = g.header := by
  rw [primaryHeader, Image.tableDisk, if_neg (by omega), if_pos rfl,
    Statics.ofBytes_headerSector]

section Sectors

variable (g : Statics) (disk : Nat → Sector) {lba i : Nat}

theorem entryAt_tableDisk_array (hlow : 2 ≤ u64 (lba + i / 4))
    (hhigh : u64 (lba + i / 4) < 34) :
    entryAt (Image.tableDisk g disk) lba i =
      g.partitions (Fin.ofNat 128 (4 * (u64 (lba + i / 4) - 2) + i % 4)) := by
  have hindex : (4 * (u64 (lba + i / 4) - 2) + i % 4) / 4 = u64 (lba + i / 4) - 2 ∧
      (4 * (u64 (lba + i / 4) - 2) + i % 4) % 4 = i % 4 := by omega
  rw [← g.ofBytes_arraySector (by omega), hindex.1, hindex.2, entryAt_eq_sector,
    Image.tableDisk, if_pos ⟨hlow, hhigh⟩]

theorem entryAt_tableDisk_other (hheader : u64 (lba + i / 4) ≠ 1)
    (harray : ¬ (2 ≤ u64 (lba + i / 4) ∧ u64 (lba + i / 4) < 34)) :
    entryAt (Image.tableDisk g disk) lba i = entryAt disk lba i := by
  apply entryAt_congr
  rw [Image.tableDisk, if_neg harray, if_neg hheader]

variable {disk}

/-- The first entry in the header's sector begins with its signature. -/
theorem entryAt_header_ne_zero (h : (primaryHeader disk).Recognised)
    (hheader : u64 (lba + i / 4) = 1) (hfirst : i % 4 = 0) :
    entryAt disk lba i ≠ Entry.zero := by
  intro hzero
  have hsignature : (disk 1).toBuf 0 = 0x45 := congrFun h.signature 0
  have hbyte : arrayBytes disk lba (128 * i) = 0 :=
    congrFun (congrArg Entry.typeGuid hzero) 0
  have hsector : 128 * i / 512 = i / 4 := by omega
  have hoffset : 128 * i % 512 = 0 := by omega
  rw [arrayBytes, hsector, hoffset, hheader, hsignature] at hbyte
  exact absurd hbyte (by decide)

end Sectors

/-- A call that returned 0 stored its change and nothing else. -/
theorem Edit.stores {edit : Edit} {s s' : System} (hs : s.device.FaultFree)
    (hrun : edit.run s = some (0, s')) :
    ∃ f, edit.Effect s.gpt f ∧ s'.device.FaultFree ∧
      s'.gpt = (f s.gpt).sealTable ∧
      s'.device.sectors =
        Image.tableDisk (f s.gpt).sealTable s.device.sectors := by
  obtain ⟨f, heffect, hfree, hgpt, hdisk⟩ :=
    edit.effect_of_run (represents_image hs) hrun
  exact ⟨f, heffect, hfree, hgpt, hdisk⟩

/-! ## Loading -/

theorem loadSectors_executes_loaded (header : Header) (memory : Statics)
    (disk : Nat → Sector) {count i : Nat}
    (hcount : i + count = header.sectorsNeeded) :
    Executes ⟨{ memory with partitions := memory.loaded disk header i }, disk⟩
      (loadSectors header.entriesToRead header.partitionEntrySize.toNat
        header.partitionEntriesLba.toNat count i) 0
      ⟨{ memory with
          partitions := memory.loaded disk header header.sectorsNeeded },
        disk⟩ := by
  induction count generalizing i with
  | zero =>
      cases hcount
      exact Runs.pure _ 0
  | succ count ih =>
      have hbase : u32 (i * (512 / header.partitionEntrySize.toNat)) =
          i * header.perSector :=
        Nat.mod_eq_of_lt (header.base_lt (by omega))
      rw [loadSectors]
      refine Runs.bind (blockReadSector_executes _ _) ?_
      simp only [hbase]
      refine Runs.bind (modifyGpt_executes _ _) ?_
      have hrest := ih (i := i + 1) (by omega)
      rw [← memory.loaded_succ disk header i] at hrest
      exact hrest

namespace ValidPrimary

variable {disk : Nat → Sector} (h : ValidPrimary disk)

include h

theorem perSector : (primaryHeader disk).perSector = 4 := by
  rw [Header.perSector, h.entrySize]

theorem entriesToRead : (primaryHeader disk).entriesToRead =
    (primaryHeader disk).numPartitionEntries.toNat :=
  if_neg (Nat.not_lt.mpr h.entryCount.2)

theorem arrayEntry (memory : Statics) (k : Nat) :
    memory.arrayEntry disk (primaryHeader disk) k = storedEntry disk k := by
  apply Entry.ofBytes_of_agree
  intro b hb
  rw [storedEntry, entryAt, Entry.ofBytes_toBytes _ hb, h.perSector, h.entrySize,
    Statics.sectorBytes, if_pos (by omega), Header.arrayLba, arrayBytes]
  have hsector : (128 * k + b) / 512 = k / 4 := by omega
  have hoffset : (128 * k + b) % 512 = k % 4 * 128 + b := by omega
  rw [hsector, hoffset]

theorem gptInit_executes (memory : Statics) :
    Executes ⟨memory, disk⟩ gptInit 0
      ⟨{ memory with
          header := primaryHeader disk
          partitions := fun i =>
            if (i : Nat) < (primaryHeader disk).numPartitionEntries.toNat then
              storedEntry disk i
            else memory.partitions i
          initialized := true }, disk⟩ := by
  have hload := loadSectors_executes_loaded (primaryHeader disk)
    { memory with header := primaryHeader disk } disk
    (Nat.zero_add (primaryHeader disk).sectorsNeeded)
  rw [Statics.loaded_zero] at hload
  have hall : (Statics.loaded { memory with header := primaryHeader disk } disk
      (primaryHeader disk) (primaryHeader disk).sectorsNeeded) = fun i : Fin 128 =>
        if (i : Nat) < (primaryHeader disk).numPartitionEntries.toNat then
          storedEntry disk i
        else memory.partitions i := by
    have hcount := h.entryCount.2
    have hneeded : (primaryHeader disk).sectorsNeeded =
        ((primaryHeader disk).numPartitionEntries.toNat * 128 + 511) / 512 := by
      rw [Header.sectorsNeeded, h.entriesToRead, h.entrySize, u32_of_lt (by omega)]
    funext i
    rw [Statics.loaded, h.perSector, h.entriesToRead, h.arrayEntry]
    exact if_congr (by omega) rfl rfl
  rw [hall] at hload
  refine gptInit_executes_of_load rfl h.recognised.signature
    h.recognised.revision ?_ hload
  rw [h.headerCrc, h.headerSize]
  exact crc32_congr fun k hk => (if_pos hk).symm

end ValidPrimary

/-! ## Tables of 128 entries -/

/-- An edit does to the slots what it does to a table of 128 entries. -/
theorem Edit.Effect.rewrites {g : Statics} {edit : Edit} {f : Statics → Statics}
    (h : edit.Effect g f) :
    edit.Rewrites 128 (fun i => g.partitions (Fin.ofNat 128 i))
      (fun i => (f g).partitions (Fin.ofNat 128 i)) := by
  cases h with
  | @add firstLba lastLba typeGuid name slot hslot _ =>
      have hfree := lowestFree_of_find hslot
      refine ⟨slot, hfree.lt, hfree.free, ?_, fun i hi hne => ?_⟩
      · simp only [Statics.addEntry, Function.update_self]
        exact ⟨rfl, rfl, rfl⟩
      · exact Function.update_of_ne (ofNat_ne hi hfree.lt hne) _ _
  | @delete index hindex =>
      intro i hi
      by_cases hsame : i = index.toNat
      · rw [if_pos hsame, hsame]
        exact Function.update_self _ _ _
      · rw [if_neg hsame]
        exact Function.update_of_ne (ofNat_ne hi hindex hsame) _ _

theorem Edit.Rewrites.congr {edit : Edit} {count : Nat}
    {before before' after after' : Nat → Entry}
    (h : edit.Rewrites count before after)
    (hbefore : ∀ i < count, before' i = before i)
    (hafter : ∀ i < count, after' i = after i) :
    edit.Rewrites count before' after' := by
  cases edit with
  | add firstLba lastLba typeGuid name =>
      obtain ⟨slot, hslot, hfree, hholds, hothers⟩ := h
      refine ⟨slot, hslot, ?_, ?_, fun i hi hne => ?_⟩
      · rwa [hbefore slot hslot]
      · rwa [hafter slot hslot]
      · rw [hafter i hi, hbefore i hi, hothers i hi hne]
  | delete index =>
      intro i hi
      rw [hafter i hi, hbefore i hi, h i hi]

/-- Memory and disk hold the same valid table of 128 entries. -/
structure Loaded (s : System) : Prop where
  faultFree : s.device.FaultFree
  initialized : s.gpt.initialized = true
  valid : ValidPrimary s.device.sectors
  header : s.gpt.header = primaryHeader s.device.sectors
  count : (primaryHeader s.device.sectors).numPartitionEntries.toNat = 128
  entries : ∀ i < 128, storedEntry s.device.sectors i =
    s.gpt.partitions (Fin.ofNat 128 i)

theorem Loaded.verifies {s : System} (h : Loaded s) : Returns gptVerify s 0 := by
  have hsize : s.gpt.header.headerSize.toNat = 92 := by
    rw [h.header]
    exact h.valid.headerSize
  rw [gptVerify_returns_zero_iff, Statics.verified_iff hsize]
  refine ⟨h.initialized, ?_, ?_⟩
  · rw [h.header]
    exact h.valid.headerCrc
  · rw [h.header, h.valid.arrayCrc, h.count]
    exact (crc32_arrayBytes _ _ h.entries).symm

/-- An edit keeps a table whose array is where it is stored. -/
theorem Loaded.edit {s s' : System} (h : Loaded s) {edit : Edit}
    (hrun : edit.run s = some (0, s'))
    (hentries : ∀ i < 128, storedEntry s'.device.sectors i =
      s'.gpt.partitions (Fin.ofNat 128 i)) :
    Loaded s' ∧ OneEntryChanged edit s.device.sectors s'.device.sectors := by
  obtain ⟨f, heffect, hfree, hgpt, hdisk⟩ := edit.stores h.faultFree hrun
  have hdiskHeader : primaryHeader s'.device.sectors = s'.gpt.header := by
    rw [hdisk, primaryHeader_tableDisk, hgpt]
  have hheader : s'.gpt.header =
      { primaryHeader s.device.sectors with
        partitionArrayCrc32 := s'.gpt.arrayCrc }.sealCrc := by
    rw [hgpt, Statics.sealTable_arrayCrc, Statics.sealTable_header,
      heffect.header_eq, h.header]
  have hcount : (primaryHeader s'.device.sectors).numPartitionEntries.toNat =
      128 := by
    rw [hdiskHeader, hheader]
    exact h.count
  have hvalid : ValidPrimary s'.device.sectors := by
    constructor
    case recognised =>
      rw [hdiskHeader, hheader]
      exact ⟨h.valid.recognised.signature, h.valid.recognised.revision⟩
    case headerSize =>
      rw [hdiskHeader, hheader]
      exact h.valid.headerSize
    case headerCrc =>
      rw [hdiskHeader, hheader]
      exact Header.sealCrc_headerCrc32 _
    case entrySize =>
      rw [hdiskHeader, hheader]
      exact h.valid.entrySize
    case entryCount =>
      rw [hcount]
      exact ⟨by decide, le_rfl⟩
    case arrayCrc =>
      rw [hcount, crc32_arrayBytes _ _ hentries, hdiskHeader, hheader]
      rfl
  refine ⟨⟨hfree, ?_, hvalid, hdiskHeader.symm, hcount, hentries⟩, ⟨?_, ?_⟩⟩
  · rw [hgpt, Statics.sealTable_initialized, heffect.initialized_eq, h.initialized]
  · rw [hdiskHeader, hheader]
    exact ⟨_, _, rfl⟩
  · rw [h.count]
    refine heffect.rewrites.congr h.entries fun i hi => ?_
    rw [hentries i hi, hgpt, Statics.sealTable_partitions]

/-! ## Two kinds of tables that survive -/

section Geometry

variable {s s' : System}

theorem ValidPrimary.loaded (hs : s.device.FaultFree)
    (h : ValidPrimary s.device.sectors)
    (hcount : (primaryHeader s.device.sectors).numPartitionEntries.toNat = 128) :
    ∃ loaded, gptInit s = some (0, loaded) ∧ Loaded loaded ∧
      loaded.device.sectors = s.device.sectors := by
  obtain ⟨loaded, hrun, hfree, hgpt, hdisk⟩ :=
    h.gptInit_executes s.gpt s (represents_image hs)
  simp only at hgpt hdisk
  have hheader : loaded.gpt.header = primaryHeader s.device.sectors := by
    rw [hgpt]
  refine ⟨loaded, hrun, ⟨hfree, ?_, ?_, ?_, ?_, fun i hi => ?_⟩, hdisk⟩
  · rw [hgpt]
  · rw [hdisk]
    exact h
  · rw [hheader, hdisk]
  · rw [hdisk]
    exact hcount
  · have hslot : ((Fin.ofNat 128 i : Fin 128) : Nat) = i := Nat.mod_eq_of_lt hi
    rw [hdisk, hgpt]
    simp only [hslot, hcount, if_pos hi]

theorem Loaded.edit_standard (h : Loaded s)
    (hlba : (primaryHeader s.device.sectors).partitionEntriesLba.toNat = 2)
    {edit : Edit} (hrun : edit.run s = some (0, s')) :
    Loaded s' ∧ OneEntryChanged edit s.device.sectors s'.device.sectors := by
  refine h.edit hrun fun i hi => ?_
  obtain ⟨f, heffect, -, hgpt, hdisk⟩ := edit.stores h.faultFree hrun
  have hlba' : (primaryHeader s'.device.sectors).partitionEntriesLba.toNat =
      2 := by
    rw [hdisk, primaryHeader_tableDisk, Statics.sealTable_header,
      heffect.header_eq, h.header]
    exact hlba
  have hsector : u64 (2 + i / 4) = 2 + i / 4 := Nat.mod_eq_of_lt (by omega)
  have hslot : 4 * (2 + i / 4 - 2) + i % 4 = i := by omega
  rw [storedEntry, hlba', hdisk, entryAt_tableDisk_array _ _ (by omega) (by omega),
    hgpt, hsector, hslot]

def Blank (disk : Nat → Sector) : Prop :=
  ∀ i < 128, storedEntry disk i = Entry.zero

theorem entryAt_blank {disk : Nat → Sector} {g : Statics} {lba : Nat}
    (hknown : (primaryHeader disk).Recognised)
    (hblank : ∀ i < 128, entryAt disk lba i = Entry.zero)
    (hslots : ∀ i, g.partitions i = Entry.zero) :
    ∀ i < 128, entryAt (Image.tableDisk g disk) lba i = Entry.zero := by
  intro i hi
  by_cases hheader : u64 (lba + i / 4) = 1
  · have hfirst : u64 (lba + 4 * (i / 4) / 4) = 1 := by
      rwa [Nat.mul_div_cancel_left _ (by decide)]
    exact absurd (hblank _ (by omega))
      (entryAt_header_ne_zero hknown hfirst (by omega))
  · by_cases harray : 2 ≤ u64 (lba + i / 4) ∧ u64 (lba + i / 4) < 34
    · rw [entryAt_tableDisk_array _ _ harray.1 harray.2, hslots]
    · rw [entryAt_tableDisk_other _ _ hheader harray, hblank i hi]

theorem Loaded.slots_zero (h : Loaded s) (hblank : Blank s.device.sectors)
    (i : Fin 128) : s.gpt.partitions i = Entry.zero := by
  have hentry := h.entries i i.isLt
  rw [hblank i i.isLt] at hentry
  rw [hentry]
  exact congrArg s.gpt.partitions (Fin.ofNat_val_eq_self i).symm

/-- Nothing can be added, and nothing is there to be deleted. -/
theorem Loaded.edit_blank (h : Loaded s) (hblank : Blank s.device.sectors)
    (hrange : (primaryHeader s.device.sectors).lastUsableLba ≤
      (primaryHeader s.device.sectors).firstUsableLba)
    {edit : Edit} (hrun : edit.run s = some (0, s')) :
    Blank s'.device.sectors ∧
      Loaded s' ∧ OneEntryChanged edit s.device.sectors s'.device.sectors := by
  obtain ⟨f, heffect, -, hgpt, hdisk⟩ := edit.stores h.faultFree hrun
  have hzero := h.slots_zero hblank
  have hslots : ∀ i, (f s.gpt).sealTable.partitions i = Entry.zero := by
    intro i
    rw [Statics.sealTable_partitions]
    cases heffect with
    | add _ hadmits =>
        rw [Header.Admits, h.header] at hadmits
        simp only [UInt64.le_iff_toNat_le, UInt64.lt_iff_toNat_lt] at hadmits hrange
        omega
    | @delete index _ =>
        simp only [Statics.clearEntry, Function.update_apply, hzero, ite_self]
  have hlba : (primaryHeader s'.device.sectors).partitionEntriesLba =
      (primaryHeader s.device.sectors).partitionEntriesLba := by
    rw [hdisk, primaryHeader_tableDisk, Statics.sealTable_header,
      heffect.header_eq, h.header]
    rfl
  have hafter : Blank s'.device.sectors := by
    intro i hi
    rw [storedEntry, hlba, hdisk]
    exact entryAt_blank h.valid.recognised hblank hslots i hi
  refine ⟨hafter, h.edit hrun fun i hi => ?_⟩
  rw [hafter i hi, hgpt, hslots]

end Geometry

/-! ## Tables that do not survive -/

section Failing

variable {loaded : System}

theorem OneEntryChanged.lba_eq {edit : Edit} {before after : Nat → Sector}
    (h : OneEntryChanged edit before after) :
    (primaryHeader after).partitionEntriesLba =
      (primaryHeader before).partitionEntriesLba := by
  obtain ⟨arrayCrc, crc, hheader⟩ := h.header
  rw [hheader]
  rfl

theorem OneEntryChanged.count_eq {edit : Edit} {before after : Nat → Sector}
    (h : OneEntryChanged edit before after) :
    (primaryHeader after).numPartitionEntries =
      (primaryHeader before).numPartitionEntries := by
  obtain ⟨arrayCrc, crc, hheader⟩ := h.header
  rw [hheader]
  rfl

/-- An array elsewhere cannot follow deletions, so it had better be blank. -/
theorem EditsKeepTable.blank (hkeep : EditsKeepTable loaded) (h : Loaded loaded)
    (hlba : (primaryHeader loaded.device.sectors).partitionEntriesLba.toNat ≠ 2) :
    Blank loaded.device.sectors := by
  have hlt := (primaryHeader loaded.device.sectors).partitionEntriesLba.toNat_lt
  generalize hstart : (primaryHeader
    loaded.device.sectors).partitionEntriesLba.toNat = lba at hlba hlt
  have hdelete : ∀ j < 128, ∃ disk', ValidPrimary disk' ∧
      disk' = Image.tableDisk (Statics.clearEntry j loaded.gpt).sealTable
        loaded.device.sectors ∧
      ∀ i < 128, entryAt disk' lba i =
        if i = j then Entry.zero else entryAt loaded.device.sectors lba i := by
    intro j hj
    obtain ⟨after, hrun, -, -, hdisk⟩ :=
      exists_delete h.faultFree h.initialized hj
    obtain ⟨hvalid, hchange⟩ := hkeep _ _ _ after .start hrun
    have hentries := hchange.entries
    have hword : (UInt32.ofNat j).toNat = j := by
      rw [UInt32.toNat_ofNat']
      omega
    refine ⟨_, hvalid, hdisk, fun i hi => ?_⟩
    rw [h.count] at hentries
    have hentry := hentries i hi
    simp only [storedEntry, hchange.lba_eq, hstart, hword] at hentry
    exact hentry
  intro i hi
  rw [storedEntry, hstart]
  by_cases hheader : u64 (lba + i / 4) = 1
  · -- the header starts the entry at the start of its sector
    obtain ⟨disk', hvalid, -, hentries⟩ := hdelete (4 * (i / 4)) (by omega)
    have hfirst : u64 (lba + 4 * (i / 4) / 4) = 1 := by
      rwa [Nat.mul_div_cancel_left _ (by decide)]
    refine absurd ?_
      (entryAt_header_ne_zero hvalid.recognised hfirst (by omega))
    rw [hentries _ (by omega), if_pos rfl]
  by_cases harray : 2 ≤ u64 (lba + i / 4) ∧ u64 (lba + i / 4) < 34
  · -- the slot that is stored over the entry is another one
    have hslot : 4 * (u64 (lba + i / 4) - 2) + i % 4 < 128 := by omega
    have hother : i ≠ 4 * (u64 (lba + i / 4) - 2) + i % 4 := by
      intro hsame
      apply hlba
      unfold u64 at hsame harray
      omega
    obtain ⟨disk', -, hdisk, hentries⟩ := hdelete _ hslot
    have hentry := hentries i hi
    rw [if_neg hother, hdisk, entryAt_tableDisk_array _ _ harray.1 harray.2,
      Statics.sealTable_partitions] at hentry
    exact hentry.symm.trans (Function.update_self _ _ _)
  · obtain ⟨disk', -, hdisk, hentries⟩ := hdelete i hi
    have hentry := hentries i hi
    rwa [if_pos rfl, hdisk, entryAt_tableDisk_other _ _ hheader harray] at hentry

/-- A blank array elsewhere cannot take a partition either. -/
theorem EditsKeepTable.range (hkeep : EditsKeepTable loaded) (h : Loaded loaded)
    (hlba : (primaryHeader loaded.device.sectors).partitionEntriesLba.toNat ≠ 2)
    (hblank : Blank loaded.device.sectors) :
    (primaryHeader loaded.device.sectors).lastUsableLba ≤
      (primaryHeader loaded.device.sectors).firstUsableLba := by
  by_contra hroom
  have hadmits : loaded.gpt.header.Admits
      (primaryHeader loaded.device.sectors).firstUsableLba
      (primaryHeader loaded.device.sectors).lastUsableLba := by
    rw [h.header]
    exact ⟨UInt64.le_refl _, UInt64.not_le.mp hroom, UInt64.le_refl _⟩
  have hzero : ∀ i, loaded.gpt.partitions i = Entry.zero := h.slots_zero hblank
  have hfree : findFreeSlot loaded.gpt.partitions maxPartitions 0 = some 0 := by
    rw [show maxPartitions = 127 + 1 from rfl, findFreeSlot, hzero,
      if_pos (by decide)]
  obtain ⟨after, hrun, -, hgpt, hdisk⟩ :=
    represents_backs.gptAddPartition_accepts (fun _ _ _ => trivial)
      h.initialized hfree hadmits efiSystemType none loaded
      (represents_image h.faultFree)
  obtain ⟨-, hchange⟩ := hkeep _ _ (.add _ _ efiSystemType none) after .start hrun
  obtain ⟨slot, hslot, -, hholds, -⟩ := hchange.entries
  rw [h.count] at hslot
  have hlt := (primaryHeader loaded.device.sectors).partitionEntriesLba.toNat_lt
  rw [storedEntry, hchange.lba_eq] at hholds
  unfold Blank storedEntry at hblank
  generalize (primaryHeader
    loaded.device.sectors).partitionEntriesLba.toNat = lba at hlba hlt hholds hblank
  have hnotHeader : ∀ i < 128, u64 (lba + i / 4) ≠ 1 := by
    intro i hi hheader
    have hfirst : u64 (lba + 4 * (i / 4) / 4) = 1 := by
      rwa [Nat.mul_div_cancel_left _ (by decide)]
    exact entryAt_header_ne_zero h.valid.recognised hfirst (by omega)
      (hblank _ (by omega))
  have hunused : entryAt after.device.sectors lba slot = Entry.zero := by
    rw [hdisk]
    by_cases harray : 2 ≤ u64 (lba + slot / 4) ∧ u64 (lba + slot / 4) < 34
    · have hother : (Fin.ofNat 128 (4 * (u64 (lba + slot / 4) - 2) + slot % 4) :
          Fin 128) ≠ Fin.ofNat 128 0 := by
        intro hsame
        have hval := congrArg Fin.val hsame
        simp only [Fin.ofNat] at hval
        -- the first sector of the edits is behind that of the header
        refine hnotHeader (slot - 4) (by omega) ?_
        unfold u64 at hval harray ⊢
        omega
      refine (entryAt_tableDisk_array _ _ harray.1 harray.2).trans ?_
      rw [Statics.sealTable_partitions]
      exact (Function.update_of_ne hother _ _).trans (hzero _)
    · exact (entryAt_tableDisk_other _ _ (hnotHeader _ hslot) harray).trans
        (hblank _ hslot)
  have htype := hholds.typeGuid
  rw [hunused] at htype
  exact efiSystemType_not_zero fun i => (congrFun htype i).symm

/-- The first `n` slots are deleted one after the other. -/
structure Cleared (loaded : System) (n : Nat) (s : System) : Prop where
  history : ∃ edits, History loaded edits s
  faultFree : s.device.FaultFree
  initialized : s.gpt.initialized = true
  count : (primaryHeader s.device.sectors).numPartitionEntries =
    (primaryHeader loaded.device.sectors).numPartitionEntries
  slots : ∀ i : Fin 128, (i : Nat) < n → s.gpt.partitions i = Entry.zero
  stored : ∀ i < n,
    i < (primaryHeader loaded.device.sectors).numPartitionEntries.toNat →
    storedEntry s.device.sectors i = Entry.zero
  sealed : n ≠ 0 → ValidPrimary s.device.sectors ∧
    (primaryHeader s.device.sectors).partitionArrayCrc32 = s.gpt.arrayCrc

theorem EditsKeepTable.exists_cleared (hkeep : EditsKeepTable loaded)
    (hs : loaded.device.FaultFree) (hinit : loaded.gpt.initialized = true)
    {n : Nat} (hn : n ≤ 128) : ∃ s, Cleared loaded n s := by
  induction n with
  | zero =>
      exact ⟨loaded, ⟨[], .start⟩, hs, hinit, rfl, fun i hi => absurd hi (by omega),
        fun i hi => absurd hi (by omega), fun h => absurd rfl h⟩
  | succ n ih =>
      obtain ⟨s, hcleared⟩ := ih (by omega)
      obtain ⟨edits, hedits⟩ := hcleared.history
      obtain ⟨after, hrun, hfree, hgpt, hdisk⟩ :=
        exists_delete hcleared.faultFree hcleared.initialized
          (show n < 128 by omega)
      obtain ⟨hvalid, hchange⟩ := hkeep _ _ _ after hedits hrun
      have hword : (UInt32.ofNat n).toNat = n := by
        rw [UInt32.toNat_ofNat']
        omega
      refine ⟨after, ⟨_, hedits.edit hrun⟩, hfree, ?_,
        hchange.count_eq.trans hcleared.count, ?_, ?_, fun _ => ⟨hvalid, ?_⟩⟩
      · rw [hgpt, Statics.sealTable_initialized]
        exact hcleared.initialized
      · intro i hi
        rw [hgpt, Statics.sealTable_partitions]
        by_cases hlast : i = Fin.ofNat 128 n
        · rw [hlast]
          exact Function.update_self _ _ _
        · have hval : (i : Nat) ≠ n := by
            intro heq
            apply hlast
            apply Fin.ext
            simp only [Fin.ofNat]
            omega
          exact (Function.update_of_ne hlast _ _).trans
            (hcleared.slots i (by omega))
      · intro i hi hcount
        have hentry := hchange.entries i (by rwa [hcleared.count])
        rw [hword] at hentry
        by_cases hlast : i = n
        · rwa [if_pos hlast] at hentry
        · rw [if_neg hlast] at hentry
          exact hentry.trans (hcleared.stored i (by omega) hcount)
      · rw [hdisk, primaryHeader_tableDisk, hgpt, Statics.sealTable_arrayCrc]
        rfl

/-- A table with fewer entries ends up with the checksum of another array. -/
theorem EditsKeepTable.count (hkeep : EditsKeepTable loaded)
    (hs : loaded.device.FaultFree) (hinit : loaded.gpt.initialized = true)
    (hvalid : ValidPrimary loaded.device.sectors) :
    (primaryHeader loaded.device.sectors).numPartitionEntries.toNat = 128 := by
  by_contra hcount
  have hmax := hvalid.entryCount.2
  obtain ⟨s, hcleared⟩ := hkeep.exists_cleared hs hinit le_rfl
  obtain ⟨hvalid', hcrc⟩ := hcleared.sealed (by decide)
  have hzeros := hvalid'.arrayCrc
  rw [hcrc, arrayCrc_of_zero fun i => hcleared.slots i i.isLt, hcleared.count,
    crc32_arrayBytes_of_zero _ _ fun i hi => hcleared.stored i (by omega) hi]
    at hzeros
  exact crc32_zeros_ne (by omega) hzeros.symm

end Failing

/-! ## Which tables survive -/

theorem Statics.partitionInfo_beyond (g : Statics) {index : UInt32}
    (hindex : maxPartitions ≤ index.toNat) (info : Option PartitionInfo) :
    g.partitionInfo index info = (-1, info) := by
  cases info with
  | none => rfl
  | some info => exact if_pos (.inr hindex)

theorem History.keeps {P : System → Prop} {s s' : System} {edits : List Edit}
    (h : History s edits s') (hstart : P s)
    (hstep : ∀ s s' (edit : Edit), P s → edit.run s = some (0, s') → P s') :
    P s' := by
  induction h with
  | start => exact hstart
  | edit _ hrun ih => exact hstep _ _ _ ih hrun

/-- A loaded table survives as long as its edits keep it loaded. -/
theorem Loaded.survives {s loaded : System} {P : System → Prop}
    (hrun : gptInit s = some (0, loaded)) (h : Loaded loaded)
    (hdisk : loaded.device.sectors = s.device.sectors)
    (hstart : P loaded)
    (hstep : ∀ s s' (edit : Edit), Loaded s → P s → edit.run s = some (0, s') →
      P s' ∧ Loaded s' ∧ OneEntryChanged edit s.device.sectors s'.device.sectors) :
    SurvivesEdits s := by
  refine ⟨loaded, hrun, h.verifies, fun index info hindex => ?_, ?_⟩
  · rw [← hdisk, h.count] at hindex
    refine ⟨info, ?_⟩
    rw [← loaded.gpt.partitionInfo_beyond hindex info]
    exact (gptGetPartition_executes (System.image loaded) index info).returns
      (represents_image h.faultFree)
  · intro edits before edit after hedits hedit
    obtain ⟨hbefore, hp⟩ := hedits.keeps (P := fun s => Loaded s ∧ P s) ⟨h, hstart⟩
      fun s s' edit hs hrun =>
        ⟨(hstep s s' edit hs.1 hs.2 hrun).2.1, (hstep s s' edit hs.1 hs.2 hrun).1⟩
    obtain ⟨-, hafter, hchange⟩ := hstep _ _ _ hbefore hp hedit
    exact ⟨hafter.valid, hchange⟩

/--
A valid table survives exactly if it has 128 entries, and these start at sector
2 or are blank and stay so because no range is left for a partition.
-/
theorem survivesEdits_iff {s : System} (hs : s.device.FaultFree)
    (h : ValidPrimary s.device.sectors) :
    SurvivesEdits s ↔
      (primaryHeader s.device.sectors).numPartitionEntries.toNat = 128 ∧
      ((primaryHeader s.device.sectors).partitionEntriesLba.toNat = 2 ∨
        (primaryHeader s.device.sectors).lastUsableLba ≤
            (primaryHeader s.device.sectors).firstUsableLba ∧
          Blank s.device.sectors) := by
  constructor
  · rintro ⟨loaded, hrun, -, -, hkeep⟩
    have hcount : (primaryHeader
        s.device.sectors).numPartitionEntries.toNat = 128 := by
      obtain ⟨-, hfree, hgpt, hdisk⟩ :=
        (h.gptInit_executes s.gpt).deterministic (represents_image hs) hrun
      simp only at hgpt hdisk
      have hvalid := h
      rw [← hdisk] at hvalid ⊢
      exact hkeep.count hfree (by rw [hgpt]) hvalid
    refine ⟨hcount, ?_⟩
    obtain ⟨loaded', hrun', hloaded, hdisk⟩ := h.loaded hs hcount
    rw [hrun] at hrun'
    cases hrun'
    rw [← hdisk]
    by_cases hlba :
        (primaryHeader loaded.device.sectors).partitionEntriesLba.toNat = 2
    · exact .inl hlba
    · have hblank := hkeep.blank hloaded hlba
      exact .inr ⟨hkeep.range hloaded hlba hblank, hblank⟩
  · rintro ⟨hcount, hplace⟩
    obtain ⟨loaded, hrun, hloaded, hdisk⟩ := h.loaded hs hcount
    rw [← hdisk] at hplace
    rcases hplace with hlba | ⟨hrange, hblank⟩
    · refine hloaded.survives hrun hdisk
        (P := fun s => (primaryHeader
          s.device.sectors).partitionEntriesLba.toNat = 2) hlba ?_
      intro s s' edit hs hp hedit
      have hstep := hs.edit_standard hp hedit
      refine ⟨?_, hstep⟩
      rw [hstep.2.lba_eq]
      exact hp
    · refine hloaded.survives hrun hdisk
        (P := fun s => Blank s.device.sectors ∧
          (primaryHeader s.device.sectors).lastUsableLba ≤
            (primaryHeader s.device.sectors).firstUsableLba)
        ⟨hblank, hrange⟩ ?_
      rintro s s' edit hs ⟨hp, hrange⟩ hedit
      obtain ⟨hblank', hloaded', hchange⟩ := hs.edit_blank hp hrange hedit
      refine ⟨⟨hblank', ?_⟩, hloaded', hchange⟩
      obtain ⟨arrayCrc, crc, hheader⟩ := hchange.header
      rw [hheader]
      exact hrange

/-- The header of a blank table of 1000 sectors with its array at `lba`. -/
def foreignHeader (lba : UInt64) : Header :=
  { tableHeader 1000 (fun _ => 0) emptyArrayCrc with
    partitionEntriesLba := lba
    firstUsableLba := 72 }.sealCrc

def foreignDisk (lba : UInt64) : Nat → Sector := fun k =>
  if k = 1 then Sector.ofBuf (foreignHeader lba).toBytes else Sector.zero

theorem primaryHeader_foreignDisk (lba : UInt64) :
    primaryHeader (foreignDisk lba) = foreignHeader lba := by
  rw [primaryHeader, foreignDisk, if_pos rfl]
  exact Header.ofBytes_of_agree fun _ hk => Sector.toBuf_ofBuf _ (by omega)

theorem foreignDisk_valid {lba : UInt64} (hlow : 2 ≤ lba.toNat)
    (hhigh : lba.toNat ≤ 40) : ValidPrimary (foreignDisk lba) := by
  have harray : ∀ k < 128 * 128, arrayBytes (foreignDisk lba) lba.toNat k = 0 := by
    intro k hk
    have hother : u64 (lba.toNat + k / 512) ≠ 1 := by
      unfold u64
      omega
    rw [arrayBytes, foreignDisk, if_neg hother]
    exact Sector.toBuf_ofBuf (fun _ => 0) (Nat.mod_lt _ (by decide))
  constructor
  case recognised =>
    rw [primaryHeader_foreignDisk]
    exact ⟨rfl, rfl⟩
  case headerCrc =>
    rw [primaryHeader_foreignDisk]
    exact Header.sealCrc_headerCrc32 _
  case entryCount =>
    rw [primaryHeader_foreignDisk]
    exact ⟨(by decide : 1 ≤ 128), le_rfl⟩
  case arrayCrc =>
    rw [primaryHeader_foreignDisk]
    exact (crc32_congr harray).symm
  all_goals
    rw [primaryHeader_foreignDisk]
    rfl

/-- A blank table with its array at sector 40 takes a partition and is lost. -/
theorem array_elsewhere_not_updated :
    ValidPrimary (foreignDisk 40) ∧
      ¬ SurvivesEdits (System.startup (foreignDisk 40)) := by
  have hvalid := @foreignDisk_valid 40 (by decide) (by decide)
  refine ⟨hvalid, ?_⟩
  rintro ⟨loaded, hrun, -, -, hkeep⟩
  have hs := System.startup_faultFree (foreignDisk 40)
  have hheader : primaryHeader (System.startup (foreignDisk 40)).device.sectors =
      foreignHeader 40 := primaryHeader_foreignDisk 40
  obtain ⟨loaded', hrun', hloaded, hdisk⟩ :=
    hvalid.loaded hs (by rw [hheader]; rfl)
  rw [hrun] at hrun'
  cases hrun'
  rw [← hdisk] at hheader
  have hlba : (primaryHeader
      loaded.device.sectors).partitionEntriesLba.toNat ≠ 2 := by
    rw [hheader]
    decide
  have hrange := hkeep.range hloaded hlba (hkeep.blank hloaded hlba)
  rw [hheader] at hrange
  exact absurd hrange (by decide)

/-- With its array at sector 2, the same table survives. -/
theorem array_in_place_survives :
    SurvivesEdits (System.startup (foreignDisk 2)) := by
  have hheader : primaryHeader (System.startup (foreignDisk 2)).device.sectors =
      foreignHeader 2 := primaryHeader_foreignDisk 2
  refine (survivesEdits_iff (System.startup_faultFree (foreignDisk 2))
    (foreignDisk_valid (by decide) (by decide))).mpr ?_
  rw [hheader]
  exact ⟨rfl, .inl rfl⟩

end EntropyOS.Gpt
