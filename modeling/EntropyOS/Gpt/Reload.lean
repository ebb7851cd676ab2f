import EntropyOS.Gpt.Slots

/-!
# Reloading a table

Whatever the module's memory holds, `gpt_init` on the disk of a table brings
back the partitions that the table has.  The decoder goes through the header
checksum and the sector split of the array.
-/

namespace EntropyOS.Gpt

open EntropyOS.Foundation

/-! ## The header and the array, sector by sector -/

theorem Statics.ofBytes_headerSector (g : Statics) :
    Header.ofBytes g.headerSector.toBuf = g.header :=
  Header.ofBytes_of_agree fun _ hk => Sector.toBuf_ofBuf _ (by omega)

theorem Statics.sectorBytes_arraySector (g memory : Statics) {i k : Nat}
    (hk : k < 512) :
    memory.sectorBytes (g.arraySector i) k = g.partitionBytes (512 * i + k) := by
  rw [Statics.sectorBytes, if_pos hk, Statics.arraySector,
    Sector.toBuf_ofBuf _ hk]

theorem loadEntries_eq (buf : Buf) {entriesToRead entrySize base : Nat}
    {count j : Nat} (partitions : Fin 128 → Entry) (hmax : entriesToRead ≤ 128)
    (k : Fin 128) :
    loadEntries buf entriesToRead entrySize base count j partitions k =
      if base + j ≤ k ∧ (k : Nat) < base + j + count ∧ (k : Nat) < entriesToRead
      then Entry.ofBytes fun b => buf ((k - base) * entrySize + b)
      else partitions k := by
  induction count generalizing j partitions with
  | zero =>
      rw [if_neg (by omega)]
      rfl
  | succ count ih =>
      rw [loadEntries]
      by_cases hstop : base + j ≥ entriesToRead
      · rw [if_pos hstop, if_neg (by omega)]
      · rw [if_neg hstop, ih]
        by_cases hfirst : (k : Nat) = base + j
        · have hk : k = Fin.ofNat 128 (base + j) := by
            apply Fin.ext
            simp only [Fin.ofNat]
            omega
          have hj : (k : Nat) - base = j := by omega
          rw [if_neg (by omega), if_pos (by omega), hj, hk, Function.update_self]
        · have hk : k ≠ Fin.ofNat 128 (base + j) := by
            intro heq
            apply hfirst
            rw [heq]
            simp only [Fin.ofNat]
            omega
          have hiff : (base + (j + 1) ≤ (k : Nat) ∧
              (k : Nat) < base + (j + 1) + count ∧ (k : Nat) < entriesToRead) ↔
              (base + j ≤ (k : Nat) ∧ (k : Nat) < base + j + (count + 1) ∧
                (k : Nat) < entriesToRead) := by
            omega
          simp only [hiff, Function.update_of_ne hk]

theorem loadEntries_arraySector (g memory : Statics) (i : Nat)
    (partitions : Fin 128 → Entry) (k : Fin 128) :
    loadEntries (memory.sectorBytes (g.arraySector i)) 128 128 (4 * i) 4 0
      partitions k =
      if 4 * i ≤ k ∧ (k : Nat) < 4 * i + 4 then g.partitions k
      else partitions k := by
  have hlast : (k : Nat) < 128 := k.isLt
  rw [loadEntries_eq _ _ (by omega)]
  simp only [Nat.add_zero, hlast, and_true]
  split
  · apply Entry.ofBytes_of_agree
    intro b hb
    rw [Statics.sectorBytes_arraySector _ _ (by omega),
      show 512 * i + ((k - 4 * i) * 128 + b) = 128 * (k : Nat) + b by omega,
      Statics.partitionBytes_entry g k hb]
  · rfl

/-- The partitions after array sectors `0` to `i - 1` have been read. -/
def mergedPartitions (g : Statics) (i : Nat) (partitions : Fin 128 → Entry) :
    Fin 128 → Entry :=
  fun k => if (k : Nat) < 4 * i then g.partitions k else partitions k

theorem loadSectors_executes (g memory : Statics) (disk : Nat → Sector)
    (hdisk : ∀ i < 32, disk (2 + i) = g.arraySector i)
    (partitions : Fin 128 → Entry) {count i : Nat} (hcount : i + count = 32) :
    Executes ⟨{ memory with partitions := mergedPartitions g i partitions },
        disk⟩ (loadSectors 128 128 2 count i) 0
      ⟨{ memory with partitions := g.partitions }, disk⟩ := by
  induction count generalizing i with
  | zero =>
      have hall : mergedPartitions g i partitions = g.partitions := by
        funext k
        rw [mergedPartitions, if_pos (by omega)]
      rw [hall]
      exact Runs.pure _ 0
  | succ count ih =>
      have haddress : u64 (2 + i) = 2 + i := by
        unfold u64
        omega
      have hbase : u32 (i * (512 / 128)) = 4 * i := by
        unfold u32
        omega
      rw [loadSectors, haddress]
      refine Runs.bind (blockReadSector_executes _ _) ?_
      simp only [hdisk i (by omega), hbase]
      refine Runs.bind (modifyGpt_executes _ _) ?_
      have hnext : mergedPartitions g (i + 1) partitions =
          loadEntries (memory.sectorBytes (g.arraySector i)) 128 128 (4 * i) 4
            0 (mergedPartitions g i partitions) := by
        funext k
        rw [loadEntries_arraySector g memory i]
        simp only [mergedPartitions]
        split_ifs <;> first | rfl | omega
      have hrest := ih (i := i + 1) (by omega)
      rw [hnext] at hrest
      exact hrest

/-! ## `gpt_init` on the disk of a table -/

structure Header.Standard (header : Header) : Prop where
  signature : header.signature = signatureBytes
  revision : header.revision = gptRevision
  headerSize : header.headerSize.toNat = 92
  entriesLba : header.partitionEntriesLba.toNat = 2
  entryCount : header.numPartitionEntries.toNat = 128
  entrySize : header.partitionEntrySize.toNat = 128

theorem tableHeader_standard (totalSectors : UInt64) (guid : Guid)
    (arrayCrc : UInt32) :
    (tableHeader totalSectors guid arrayCrc).sealCrc.Standard :=
  ⟨rfl, rfl, rfl, rfl, rfl, rfl⟩

theorem Header.Standard.loadArray_eq {header : Header} (h : header.Standard) :
    loadArray header = loadSectors 128 128 2 32 0 := by
  simp only [loadArray, h.entriesLba, h.entryCount, h.entrySize]
  rfl

/-- Once the header is accepted, `gpt_init` does what the array loop does. -/
theorem gptInit_executes_of_load {header : Header} {memory : Statics}
    {disk : Nat → Sector} {partitions : Fin 128 → Entry}
    (hread : Header.ofBytes (disk 1).toBuf = header)
    (hsignature : header.signature = signatureBytes)
    (hrevision : header.revision = gptRevision)
    (hcrc : header.headerCrc32 =
      crc32 (Statics.headerBytes { memory with header := header.withCrc 0 })
        header.headerSize.toNat)
    (hload : Executes ⟨{ memory with header := header }, disk⟩
      (loadArray header) 0
      ⟨{ memory with header := header, partitions := partitions }, disk⟩) :
    Executes ⟨memory, disk⟩ gptInit 0
      ⟨{ memory with
          header := header
          partitions := partitions
          initialized := true }, disk⟩ := by
  have hrestore : (header.withCrc 0).withCrc header.headerCrc32 = header := by
    cases header
    rfl
  refine Runs.bind (blockIsPresent_executes _) (Runs.if_pos rfl ?_)
  refine Runs.bind (blockReadSector_executes _ 1) ?_
  simp only [hread]
  refine Runs.bind (modifyGpt_executes _ _) ?_
  refine Runs.bind (getGpt_executes _) ?_
  refine Runs.if_neg (not_not.mpr hsignature)
    (Runs.if_neg (not_not.mpr hrevision) ?_)
  refine Runs.bind (modifyGpt_executes _ _) ?_
  refine Runs.bind (getGpt_executes _) (Runs.if_neg (not_not.mpr hcrc) ?_)
  refine Runs.bind (modifyGpt_executes _ _) ?_
  simp only [Image.withStatics, hrestore]
  refine Runs.bind hload (Runs.if_neg (by decide) ?_)
  exact Runs.bind (modifyGpt_executes _ _) (Runs.pure _ 0)

theorem gptInit_executes {header : Header} (h : header.Standard)
    (hcrc : header.headerCrc32 = crc32 (header.withCrc 0).toBytes 92)
    (g memory : Statics) (disk : Nat → Sector)
    (hread : Header.ofBytes (disk 1).toBuf = header)
    (harray : ∀ i < 32, disk (2 + i) = g.arraySector i) :
    Executes ⟨memory, disk⟩ gptInit 0
      ⟨{ memory with
          header := header
          partitions := g.partitions
          initialized := true }, disk⟩ := by
  refine gptInit_executes_of_load hread h.signature h.revision ?_ ?_
  · rw [hcrc, h.headerSize]
    refine crc32_congr fun k hk => ?_
    rw [Statics.headerBytes, if_pos hk]
  · rw [h.loadArray_eq]
    have hsectors := loadSectors_executes g { memory with header := header }
      disk harray memory.partitions (show 0 + 32 = 32 from rfl)
    have hnone : mergedPartitions g 0 memory.partitions =
        memory.partitions := by
      funext k
      rw [mergedPartitions, if_neg (by omega)]
    rwa [hnone] at hsectors

theorem Table.gptInit_executes {totalSectors : UInt64} {guid : Guid}
    {old : Nat → Sector} {image : Image}
    (h : Table totalSectors guid old image) (memory : Statics) :
    Executes ⟨memory, image.disk⟩ gptInit 0
      ⟨{ memory with
          header := image.statics.sealTable.header
          partitions := image.statics.partitions
          initialized := true }, image.disk⟩ := by
  rw [h.sealTable_header]
  refine Gpt.gptInit_executes (tableHeader_standard _ _ _)
    (Header.sealCrc_headerCrc32 _) image.statics memory image.disk ?_
    h.diskArray
  rw [← h.sealTable_header, h.diskHeader, Statics.ofBytes_headerSector]

/-! ## Persistence of every history -/

theorem add_reads_back {s s' : System} {image : Image}
    (hs : Represents s image) (hok : ∀ i, (image.statics.partitions i).Ok)
    (hinit : image.statics.initialized = true)
    {firstLba lastLba : UInt64} {typeGuid : Guid} {name : Option (List UInt8)}
    (htype : ¬ typeGuid.IsZero)
    (hrun : gptAddPartition firstLba lastLba typeGuid name s = some (0, s')) :
    ∃ slot : UInt32, LowestFree s.gpt slot.toNat ∧
      (∀ info, ∃ info',
        Returns (gptGetPartition slot (some info)) s' (0, some info') ∧
        Describes info' firstLba lastLba typeGuid name) ∧
      ∀ index, index ≠ slot → ∀ info,
        SameResult (gptGetPartition index info) s s' := by
  obtain ⟨f, heffect, hs'⟩ := Edit.effect_of_run
    (.add firstLba lastLba typeGuid name) hs hrun
  have hinit' : (image.withStatics f).store.statics.initialized = true := by
    rw [Image.store_statics, Statics.sealTable_initialized]
    exact heffect.initialized_eq.trans hinit
  cases heffect with
  | @add _ _ _ _ slot hslot _ =>
      have hfree := lowestFree_of_find hslot
      have hlt : slot < 128 := hfree.lt
      have hword : (UInt32.ofNat slot).toNat = slot := by
        rw [UInt32.toNat_ofNat']
        omega
      refine ⟨UInt32.ofNat slot, ?_, fun info => ?_, fun index hne info => ?_⟩
      · rw [hword, hs.2.1]
        exact hfree
      · have hclear : (image.statics.partitions (Fin.ofNat 128 slot)).name =
            fun _ => 0 := by
          rw [(hok _).free hfree.free]
          rfl
        obtain ⟨info', hread, hinfo⟩ := Statics.partitionInfo_of_fill
          (UInt32.ofNat slot) hinit'
          (by rw [hword]; exact hfree.lt) htype
          (by
            rw [hword, Image.store_statics, Statics.sealTable_partitions]
            exact Function.update_self _ _ _)
          hclear info
        refine ⟨info', ?_, hinfo⟩
        rw [← hread]
        exact (gptGetPartition_executes _ _ _).returns hs'
      · by_cases hindex : index.toNat < maxPartitions
        · have hother : Fin.ofNat 128 index.toNat ≠ Fin.ofNat 128 slot := by
            intro heq
            apply hne
            apply UInt32.toNat.inj
            have hval := congrArg Fin.val heq
            simp only [Fin.ofNat, maxPartitions] at hval hindex
            omega
          refine sameResult_gptGetPartition hs hs' ?_ ?_ (hok _) info
          · rw [hinit, hinit']
          · rw [Image.store_statics, Statics.sealTable_partitions]
            exact (Function.update_of_ne hother _ _).symm
        · refine ⟨_, (gptGetPartition_executes _ _ _).returns hs, ?_⟩
          have hsame : image.statics.partitionInfo index info =
              (Image.store (image.withStatics (Statics.addEntry slot firstLba
                lastLba typeGuid name))).statics.partitionInfo index info := by
            cases info with
            | none => rfl
            | some info =>
                simp only [Statics.partitionInfo]
                rw [if_pos (.inr (by omega)), if_pos (.inr (by omega))]
          rw [hsame]
          exact (gptGetPartition_executes _ _ _).returns hs'

/--
After a history, `gpt_init` succeeds from any memory and every slot reads as
before; and a further addition reads back from the lowest free slot.
-/
theorem history_survives_reload {s created s' : System} {totalSectors : UInt64}
    {diskGuid : Option Guid} {edits : List Edit} (hs : s.device.FaultFree)
    (hsize : 68 ≤ totalSectors.toNat)
    (hcreate : gptCreateTable totalSectors diskGuid s = some (0, created))
    (hedits : History created edits s')
    (htyped : ∀ edit ∈ edits, edit.Typed) :
    (∀ memory : Statics, ∃ reloaded,
      gptInit { s' with gpt := memory } = some (0, reloaded) ∧
      ∀ index info, SameResult (gptGetPartition index info) s' reloaded) ∧
    (∀ firstLba lastLba typeGuid name s'', ¬ typeGuid.IsZero →
      gptAddPartition firstLba lastLba typeGuid name s' = some (0, s'') →
      ∃ slot : UInt32, LowestFree s'.gpt slot.toNat ∧
        (∀ info, ∃ info',
          Returns (gptGetPartition slot (some info)) s'' (0, some info') ∧
          Describes info' firstLba lastLba typeGuid name) ∧
        ∀ index, index ≠ slot → ∀ info,
          SameResult (gptGetPartition index info) s' s'') := by
  have hcreated := represents_create hs hcreate
  obtain ⟨hfree, htable⟩ := hedits.table_of_create hs hsize hcreate
  have hempty : ∀ i, (created.gpt.partitions i).Ok := by
    intro i
    rw [hcreated.2.1, Image.create_partitions]
    exact Entry.zero_ok
  have hok := hedits.entries_ok hcreated.1 hempty htyped
  have hs' := represents_image hfree
  refine ⟨fun memory => ?_, ?_⟩
  · have hmemory : Represents { s' with gpt := memory }
        ⟨memory, s'.device.sectors⟩ := ⟨hfree, rfl, rfl⟩
    obtain ⟨reloaded, hrun, hreloaded⟩ :=
      htable.gptInit_executes memory _ hmemory
    refine ⟨reloaded, hrun, fun index info => ?_⟩
    exact sameResult_gptGetPartition hs' hreloaded htable.initialized rfl
      (hok _) info
  · intro firstLba lastLba typeGuid name s'' htype hadd
    exact add_reads_back hs' hok htable.initialized htype hadd

/-- One partition named `BOOT` on a blank disk of 100 sectors. -/
theorem boot_partition_survives_reload :
    ∃ created s',
      gptCreateTable 100 none (System.startup fun _ => Sector.zero) =
        some (0, created) ∧
      History created
        [.add 34 40 efiSystemType (some [0x42, 0x4F, 0x4F, 0x54])] s' ∧
      ∀ memory : Statics, ∃ reloaded,
        gptInit { s' with gpt := memory } = some (0, reloaded) ∧
        ∀ index info, SameResult (gptGetPartition index info) s' reloaded := by
  have hs := System.startup_faultFree fun _ => Sector.zero
  obtain ⟨created, s', hcreate, hedits, -⟩ := exists_create_add hs 100
    none 34 40 (by decide) (by decide) (by decide) efiSystemType
    (some [0x42, 0x4F, 0x4F, 0x54])
  have htyped : ∀ edit ∈ [Edit.add 34 40 efiSystemType
      (some [0x42, 0x4F, 0x4F, 0x54])], edit.Typed := by
    simpa [Edit.Typed] using efiSystemType_not_zero
  exact ⟨created, s', hcreate, hedits,
    (history_survives_reload hs (by decide) hcreate hedits htyped).1⟩

end EntropyOS.Gpt
