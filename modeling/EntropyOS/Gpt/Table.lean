import EntropyOS.Gpt.Image

/-!
# Histories of a partition table

A history is `gpt_create_table` followed by calls of `gpt_add_partition` and
`gpt_delete_partition` that succeed.  `Table` is the invariant of every state
a history reaches: what the header holds, which sectors agree with memory, and
which sectors nobody touches after creation.
-/

namespace EntropyOS.Gpt

open EntropyOS.Foundation

inductive Edit where
  | add (firstLba lastLba : UInt64) (typeGuid : Guid)
      (name : Option (List UInt8))
  | delete (index : UInt32)

namespace Edit

def run : Edit → Program System Int
  | .add firstLba lastLba typeGuid name =>
      gptAddPartition firstLba lastLba typeGuid name
  | .delete index => gptDeletePartition index

/-- Additions name a type; a zero type GUID would leave the slot free. -/
def Typed : Edit → Prop
  | .add _ _ typeGuid _ => ¬ typeGuid.IsZero
  | .delete _ => True

end Edit

inductive History (start : System) : List Edit → System → Prop
  | start : History start [] start
  | edit {edits : List Edit} {s s' : System} {edit : Edit} :
      History start edits s → edit.run s = some (0, s') →
        History start (edits ++ [edit]) s'

theorem History.eq_start {s s' : System} {edits : List Edit}
    (h : History s edits s') (hedits : edits = []) : s' = s := by
  cases h with
  | start => rfl
  | edit => simp at hedits

theorem History.last {s s' : System} {edits : List Edit}
    (h : History s edits s') (past : List Edit) {edit : Edit}
    (hedits : edits = past ++ [edit]) :
    ∃ before, History s past before ∧ edit.run before = some (0, s') := by
  cases h with
  | start => simp at hedits
  | edit hprevious hrun =>
      obtain ⟨rfl, hlast⟩ := List.append_inj' hedits rfl
      cases List.singleton_inj.mp hlast
      exact ⟨_, hprevious, hrun⟩

/-! ## Facts about names and headers -/

theorem exists_utf8ToUtf16le_eq_zero (maxChars : Nat) (name : List UInt8)
    (i : Nat) (utf16 : Fin 36 → UInt16) :
    ∃ k, utf8ToUtf16le maxChars name i utf16 k = 0 := by
  induction name generalizing i utf16 with
  | nil => exact ⟨Fin.ofNat 36 i, by simp [utf8ToUtf16le]⟩
  | cons c rest ih =>
      rw [utf8ToUtf16le]
      split
      · exact ih _ _
      · exact ⟨Fin.ofNat 36 i, by simp⟩

def tableHeader (totalSectors : UInt64) (guid : Guid) (arrayCrc : UInt32) :
    Header :=
  { newHeader totalSectors guid with partitionArrayCrc32 := arrayCrc }

theorem Header.sealCrc_withCrc (header : Header) (crc : UInt32) :
    (header.withCrc crc).sealCrc = header.sealCrc := by
  cases header
  rfl

theorem Header.sealCrc_headerCrc32 (header : Header) :
    header.sealCrc.headerCrc32 =
      crc32 (header.sealCrc.withCrc 0).toBytes 92 := by
  cases header
  rfl

/-! ## The invariant -/

/-- A slot is either all zero or in use, and its name has an end. -/
structure Entry.Ok (entry : Entry) : Prop where
  free : entry.typeGuid.IsZero → entry = Entry.zero
  name : ∃ k, entry.name k = 0

theorem Entry.zero_ok : Entry.zero.Ok := ⟨fun _ => rfl, 0, rfl⟩

theorem Entry.fill_ok {entry : Entry} (h : entry.Ok) {typeGuid : Guid}
    (htype : ¬ typeGuid.IsZero) (guid : Guid) (firstLba lastLba : UInt64)
    (name : Option (List UInt8)) :
    (entry.fill typeGuid guid firstLba lastLba name).Ok := by
  refine ⟨fun hzero => absurd hzero htype, ?_⟩
  cases name with
  | none => exact h.name
  | some name => exact exists_utf8ToUtf16le_eq_zero 36 name 0 entry.name

def emptyArrayCrc : UInt32 := crc32 (fun _ => 0) (maxPartitions * 128)

def backupSector (totalSectors : UInt64) (guid : Guid) : Sector :=
  Sector.ofBuf
    ((tableHeader totalSectors guid emptyArrayCrc).toBackup
      totalSectors).sealCrc.toBytes

/--
What holds after `gpt_create_table` and any successful edits, where `old` is
the disk before.  The header in memory is right except, perhaps, for its own
checksum.
-/
structure Table (totalSectors : UInt64) (guid : Guid) (old : Nat → Sector)
    (image : Image) : Prop where
  initialized : image.statics.initialized = true
  header : ∃ crc, image.statics.header =
    (tableHeader totalSectors guid image.statics.arrayCrc).withCrc crc
  diskHeader : image.disk 1 = image.statics.sealTable.headerSector
  diskArray : ∀ i < 32, image.disk (2 + i) = image.statics.arraySector i
  diskBackup : image.disk (totalSectors - 1).toNat =
    backupSector totalSectors guid
  diskOther : ∀ lba, 34 ≤ lba → lba ≠ (totalSectors - 1).toNat →
    image.disk lba = old lba

namespace Table

variable {totalSectors : UInt64} {guid : Guid} {old : Nat → Sector}
  {image : Image}

theorem sealTable_header (h : Table totalSectors guid old image) :
    image.statics.sealTable.header =
      (tableHeader totalSectors guid image.statics.arrayCrc).sealCrc := by
  obtain ⟨crc, hheader⟩ := h.header
  rw [Statics.sealTable_header, hheader]
  rfl

theorem last_ge (hsize : 68 ≤ totalSectors.toNat) :
    34 ≤ (totalSectors - 1).toNat := by
  have hone : (1 : UInt64).toNat = 1 := rfl
  rw [UInt64.toNat_sub_of_le _ _ (by rw [UInt64.le_iff_toNat_le]; omega)]
  omega

/-- One edit: new slots, the same geometry, then the table stored. -/
theorem store (h : Table totalSectors guid old image)
    (hlast : 34 ≤ (totalSectors - 1).toNat) {f : Statics → Statics}
    (hheader : (f image.statics).header = image.statics.header)
    (hinit : (f image.statics).initialized = image.statics.initialized) :
    Table totalSectors guid old (image.withStatics f).store := by
  obtain ⟨crc, hold⟩ := h.header
  have hsealed : (f image.statics).sealTable.header =
      (tableHeader totalSectors guid (f image.statics).arrayCrc).sealCrc := by
    rw [Statics.sealTable_header, hheader, hold]
    rfl
  constructor
  case initialized =>
    rw [Image.store_statics, Statics.sealTable_initialized]
    exact hinit.trans h.initialized
  case header =>
    rw [Image.store_statics, Statics.sealTable_arrayCrc]
    exact ⟨_, hsealed⟩
  case diskHeader =>
    rw [Image.store_disk_header, Image.store_statics]
    simp only [Statics.headerSector]
    rw [Statics.sealTable_sealTable_header]
  case diskArray =>
    intro i hi
    rw [Image.store_disk_array _ hi, Image.store_statics,
      Statics.sealTable_arraySector]
  case diskBackup =>
    rw [Image.store_disk_other _ (.inr hlast)]
    exact h.diskBackup
  case diskOther =>
    intro lba hlba hne
    rw [Image.store_disk_other _ (.inr hlba)]
    exact h.diskOther lba hlba hne

end Table

/-! ## Creation -/

def newDiskGuid (diskGuid : Option Guid) (g : Statics) : Guid :=
  match diskGuid with
  | some guid => guid
  | none => (generateGuid g.seed).1

theorem startTable_header (totalSectors : UInt64) (diskGuid : Option Guid)
    (g : Statics) :
    (g.startTable totalSectors diskGuid).header =
      newHeader totalSectors (newDiskGuid diskGuid g) := by
  cases diskGuid <;> rfl

theorem startTable_partitions (totalSectors : UInt64) (diskGuid : Option Guid)
    (g : Statics) (i : Fin 128) :
    (g.startTable totalSectors diskGuid).partitions i = Entry.zero := by
  cases diskGuid <;> rfl

theorem arrayCrc_of_zero {g : Statics} (h : ∀ i, g.partitions i = Entry.zero) :
    g.arrayCrc = emptyArrayCrc := by
  apply crc32_congr
  intro k hk
  have hk' : k < 16384 := hk
  simp only [Statics.partitionBytes, hk', dite_true, h, Entry.zero_toBytes]

section Create

variable (totalSectors : UInt64) (diskGuid : Option Guid) (image : Image)

/-- The state once the primary copy is on disk. -/
def Image.createPrimary : Image :=
  ((image.put 0 (protectiveMbr totalSectors)).withStatics
    (Statics.startTable totalSectors diskGuid)).store

theorem Image.createPrimary_header :
    (image.createPrimary totalSectors diskGuid).statics.header =
      (tableHeader totalSectors (newDiskGuid diskGuid image.statics)
        emptyArrayCrc).sealCrc := by
  have hcrc := arrayCrc_of_zero
    (startTable_partitions totalSectors diskGuid image.statics)
  change (Statics.sealTable _).header = _
  rw [Statics.sealTable_header]
  simp only [Image.withStatics, Image.put]
  rw [hcrc, startTable_header]
  rfl

theorem Image.createPrimary_partitions (i : Fin 128) :
    (image.createPrimary totalSectors diskGuid).statics.partitions i =
      Entry.zero := by
  change (Statics.sealTable _).partitions i = _
  rw [Statics.sealTable_partitions]
  exact startTable_partitions totalSectors diskGuid image.statics i

/-- The header that stays in memory: primary locations, backup checksum. -/
theorem Image.create_header :
    (image.create totalSectors diskGuid).statics.header =
      (tableHeader totalSectors (newDiskGuid diskGuid image.statics)
        emptyArrayCrc).withCrc
        ((tableHeader totalSectors (newDiskGuid diskGuid image.statics)
          emptyArrayCrc).toBackup totalSectors).sealCrc.headerCrc32 := by
  change (Header.sealCrc (Header.toBackup
    (image.createPrimary totalSectors diskGuid).statics.header
      totalSectors)).toPrimary totalSectors = _
  rw [Image.createPrimary_header]
  rfl

theorem Image.create_partitions (i : Fin 128) :
    (image.create totalSectors diskGuid).statics.partitions i = Entry.zero :=
  Image.createPrimary_partitions totalSectors diskGuid image i

theorem Image.create_table (hlast : 34 ≤ (totalSectors - 1).toNat) :
    Table totalSectors (newDiskGuid diskGuid image.statics) image.disk
      (image.create totalSectors diskGuid) := by
  have harray := arrayCrc_of_zero
    (Image.create_partitions totalSectors diskGuid image)
  have hdisk : (image.create totalSectors diskGuid).disk =
      Function.update (image.createPrimary totalSectors diskGuid).disk
        (totalSectors - 1).toNat
        (Sector.ofBuf (Header.sealCrc (Header.toBackup
          (image.createPrimary totalSectors diskGuid).statics.header
          totalSectors)).toBytes) := rfl
  constructor
  case initialized => rfl
  case header =>
    rw [harray]
    exact ⟨_, Image.create_header totalSectors diskGuid image⟩
  case diskHeader =>
    rw [hdisk, Function.update_of_ne (by omega)]
    have hprimary := Image.createPrimary_header totalSectors diskGuid image
    rw [Image.createPrimary, Image.store_disk_header, Statics.headerSector,
      Statics.headerSector, ← Image.store_statics]
    rw [Image.createPrimary] at hprimary
    rw [hprimary, Statics.sealTable_header, Image.create_header, harray]
    rfl
  case diskArray =>
    intro i hi
    rw [hdisk, Function.update_of_ne (by omega), Image.createPrimary,
      Image.store_disk_array _ hi]
    rfl
  case diskBackup =>
    rw [hdisk, Function.update_self, Image.createPrimary_header]
    rfl
  case diskOther =>
    intro lba hlba hne
    rw [hdisk, Function.update_of_ne hne, Image.createPrimary,
      Image.store_disk_other _ (.inr hlba)]
    exact Function.update_of_ne (by omega) _ _

end Create

/-! ## Every history keeps the table -/

inductive Edit.Effect (g : Statics) : Edit → (Statics → Statics) → Prop
  | add {firstLba lastLba : UInt64} {typeGuid : Guid}
      {name : Option (List UInt8)} {slot : Nat} :
      findFreeSlot g.partitions maxPartitions 0 = some slot →
      g.header.Admits firstLba lastLba →
      Effect g (.add firstLba lastLba typeGuid name)
        (Statics.addEntry slot firstLba lastLba typeGuid name)
  | delete {index : UInt32} : index.toNat < maxPartitions →
      Effect g (.delete index) (Statics.clearEntry index.toNat)

theorem Edit.executes (edit : Edit) (image : Image) :
    Executes image edit.run (-1) image ∨
    ∃ f, edit.Effect image.statics f ∧ image.statics.initialized = true ∧
      Executes image edit.run 0 (image.withStatics f).store := by
  cases edit with
  | add firstLba lastLba typeGuid name =>
      rcases represents_backs.gptAddPartition (fun _ _ _ => trivial) image firstLba
        lastLba typeGuid name with
        ⟨-, hrefuse⟩ | ⟨slot, hinit, hslot, hrange, hrun⟩
      · exact .inl hrefuse
      · exact .inr ⟨_, .add hslot hrange, hinit, hrun⟩
  | delete index =>
      rcases represents_backs.gptDeletePartition (fun _ _ _ => trivial) image
        index with
        hrefuse | ⟨hinit, hindex, hrun⟩
      · exact .inl hrefuse
      · exact .inr ⟨_, .delete hindex, hinit, hrun⟩

theorem Edit.effect_of_run (edit : Edit) {image : Image} {s s' : System}
    (hs : Represents s image) (hrun : edit.run s = some (0, s')) :
    ∃ f, edit.Effect image.statics f ∧
      Represents s' (image.withStatics f).store := by
  rcases edit.executes image with hrefuse | ⟨f, heffect, -, hdone⟩
  · have hstatus := (hrefuse.deterministic hs hrun).1
    exact absurd hstatus (by decide)
  · exact ⟨f, heffect, (hdone.deterministic hs hrun).2⟩

theorem Edit.Effect.entries_ok {g : Statics} {edit : Edit}
    {f : Statics → Statics} (h : edit.Effect g f) (htyped : edit.Typed)
    (hok : ∀ i, (g.partitions i).Ok) (i : Fin 128) :
    ((f g).partitions i).Ok := by
  cases h with
  | @add _ _ _ _ slot _ _ =>
      by_cases hi : i = Fin.ofNat 128 slot
      · subst hi
        simp only [Statics.addEntry, Function.update_self]
        exact Entry.fill_ok (hok _) htyped _ _ _ _
      · simp only [Statics.addEntry, Function.update_of_ne hi]
        exact hok i
  | @delete index _ =>
      by_cases hi : i = Fin.ofNat 128 index.toNat
      · subst hi
        simp only [Statics.clearEntry, Function.update_self]
        exact Entry.zero_ok
      · simp only [Statics.clearEntry, Function.update_of_ne hi]
        exact hok i

theorem Edit.Effect.header_eq {g : Statics} {edit : Edit}
    {f : Statics → Statics} (h : edit.Effect g f) :
    (f g).header = g.header := by
  cases h <;> rfl

theorem Edit.Effect.initialized_eq {g : Statics} {edit : Edit}
    {f : Statics → Statics} (h : edit.Effect g f) :
    (f g).initialized = g.initialized := by
  cases h <;> rfl

theorem Table.edit {totalSectors : UInt64} {guid : Guid} {old : Nat → Sector}
    {image : Image} (h : Table totalSectors guid old image)
    (hlast : 34 ≤ (totalSectors - 1).toNat) {edit : Edit}
    {f : Statics → Statics}
    (heffect : edit.Effect image.statics f) :
    Table totalSectors guid old (image.withStatics f).store :=
  h.store hlast heffect.header_eq heffect.initialized_eq

theorem represents_create {s s' : System} {totalSectors : UInt64}
    {diskGuid : Option Guid} (hs : s.device.FaultFree)
    (hrun : gptCreateTable totalSectors diskGuid s = some (0, s')) :
    Represents s' ((System.image s).create totalSectors diskGuid) :=
  ((gptCreateTable_executes totalSectors diskGuid _).deterministic
    (represents_image hs) hrun).2

theorem exists_create {s : System} (hs : s.device.FaultFree)
    (totalSectors : UInt64) (diskGuid : Option Guid) :
    ∃ s', gptCreateTable totalSectors diskGuid s = some (0, s') ∧
      Represents s' ((System.image s).create totalSectors diskGuid) :=
  gptCreateTable_executes totalSectors diskGuid _ s (represents_image hs)

theorem exists_delete {s : System} (hs : s.device.FaultFree)
    (hinit : s.gpt.initialized = true) {index : Nat} (hindex : index < 128) :
    ∃ s', (Edit.delete (UInt32.ofNat index)).run s = some (0, s') ∧
      s'.device.FaultFree ∧
      s'.gpt = (Statics.clearEntry index s.gpt).sealTable ∧
      s'.device.sectors = Image.tableDisk
        (Statics.clearEntry index s.gpt).sealTable s.device.sectors := by
  have hword : (UInt32.ofNat index).toNat = index := by
    rw [UInt32.toNat_ofNat']
    omega
  obtain ⟨s', hrun, hfree, hgpt, hdisk⟩ :=
    represents_backs.gptDeletePartition_accepts (fun _ _ _ => trivial) hinit
      (show (UInt32.ofNat index).toNat < maxPartitions by rwa [hword]) s
      (represents_image hs)
  rw [hword] at hgpt hdisk
  exact ⟨s', hrun, hfree, hgpt, hdisk⟩

private theorem findFreeSlot_one {entry : Entry} (h : ¬ entry.typeGuid.IsZero) :
    findFreeSlot (Function.update (fun _ => Entry.zero) 0 entry) maxPartitions 0 =
      some 1 := by
  have hzero : (Fin.ofNat 128 0 : Fin 128) = 0 := by decide
  have hone : (Fin.ofNat 128 1 : Fin 128) ≠ 0 := by decide
  rw [show maxPartitions = 126 + 1 + 1 from rfl, findFreeSlot, hzero,
    Function.update_self, if_neg h, findFreeSlot, Function.update_of_ne hone,
    if_pos (by decide)]

section NewTable

variable (totalSectors : UInt64) (diskGuid : Option Guid) (image : Image)
  (firstLba lastLba : UInt64) (typeGuid : Guid) (name : Option (List UInt8))

theorem Image.create_admits {firstLba lastLba : UInt64} :
    (image.create totalSectors diskGuid).statics.header.Admits firstLba lastLba ↔
      34 ≤ firstLba ∧ firstLba < lastLba ∧ lastLba ≤ totalSectors - 34 := by
  rw [Image.create_header]
  exact Iff.rfl

theorem Image.create_findFreeSlot :
    findFreeSlot (image.create totalSectors diskGuid).statics.partitions
      maxPartitions 0 = some 0 := by
  rw [show maxPartitions = 127 + 1 from rfl, findFreeSlot,
    Image.create_partitions, if_pos (by decide)]

def Image.createOne : Image :=
  ((image.create totalSectors diskGuid).withStatics
    (Statics.addEntry 0 firstLba lastLba typeGuid name)).store

theorem Image.createOne_admits {firstLba' lastLba' : UInt64} :
    (image.createOne totalSectors diskGuid firstLba lastLba typeGuid
      name).statics.header.Admits firstLba' lastLba' ↔
      34 ≤ firstLba' ∧ firstLba' < lastLba' ∧ lastLba' ≤ totalSectors - 34 := by
  rw [Image.createOne, Image.store_statics, Statics.sealTable_header]
  simp only [Image.withStatics, Statics.addEntry, Image.create_header]
  exact Iff.rfl

theorem Image.createOne_initialized :
    (image.createOne totalSectors diskGuid firstLba lastLba typeGuid
      name).statics.initialized = true := by
  rw [Image.createOne, Image.store_statics, Statics.sealTable_initialized]
  rfl

theorem Image.createOne_partitions :
    (image.createOne totalSectors diskGuid firstLba lastLba typeGuid
      name).statics.partitions = Function.update (fun _ => Entry.zero) 0
        (Entry.zero.fill typeGuid (generateGuid
          (image.create totalSectors diskGuid).statics.seed).1
          firstLba lastLba name) := by
  have hzero : (image.create totalSectors diskGuid).statics.partitions =
      fun _ => Entry.zero :=
    funext (Image.create_partitions totalSectors diskGuid image)
  rw [Image.createOne, Image.store_statics, Statics.sealTable_partitions]
  simp only [Image.withStatics, Statics.addEntry, hzero]
  rfl

theorem Image.createOne_findFreeSlot {typeGuid : Guid} (htype : ¬ typeGuid.IsZero) :
    findFreeSlot (image.createOne totalSectors diskGuid firstLba lastLba typeGuid
      name).statics.partitions maxPartitions 0 = some 1 := by
  rw [Image.createOne_partitions]
  refine findFreeSlot_one ?_
  simpa only [Entry.fill] using htype

end NewTable

theorem exists_create_add {s : System} (hs : s.device.FaultFree)
    (totalSectors : UInt64) (diskGuid : Option Guid)
    (firstLba lastLba : UInt64) (hfirst : 34 ≤ firstLba)
    (hrange : firstLba < lastLba) (hlast : lastLba ≤ totalSectors - 34)
    (typeGuid : Guid) (name : Option (List UInt8)) :
    ∃ created s', gptCreateTable totalSectors diskGuid s = some (0, created) ∧
      History created [.add firstLba lastLba typeGuid name] s' ∧
      Represents s' ((System.image s).createOne totalSectors diskGuid firstLba
        lastLba typeGuid name) := by
  obtain ⟨created, hcreate, hcreated⟩ := exists_create hs totalSectors diskGuid
  obtain ⟨s', hadd, hs'⟩ := represents_backs.gptAddPartition_accepts
    (fun _ _ _ => trivial) rfl (Image.create_findFreeSlot _ _ _)
    ((Image.create_admits _ _ _).mpr ⟨hfirst, hrange, hlast⟩) typeGuid name
    created hcreated
  exact ⟨created, s', hcreate, .edit .start hadd, hs'⟩

structure Entry.Holds (entry : Entry) (firstLba lastLba : UInt64)
    (typeGuid : Guid) : Prop where
  typeGuid : entry.typeGuid = typeGuid
  firstLba : entry.firstLba = firstLba
  lastLba : entry.lastLba = lastLba

theorem exists_create_two {s : System} (hs : s.device.FaultFree)
    (totalSectors : UInt64) (diskGuid : Option Guid)
    (firstLba lastLba firstLba' lastLba' : UInt64) (hfirst : 34 ≤ firstLba)
    (hrange : firstLba < lastLba) (hlast : lastLba ≤ totalSectors - 34)
    (hfirst' : 34 ≤ firstLba') (hrange' : firstLba' < lastLba')
    (hlast' : lastLba' ≤ totalSectors - 34) {typeGuid : Guid}
    (htype : ¬ typeGuid.IsZero) (typeGuid' : Guid)
    (name name' : Option (List UInt8)) :
    ∃ created once twice,
      gptCreateTable totalSectors diskGuid s = some (0, created) ∧
      (Edit.add firstLba lastLba typeGuid name).run created =
        some (0, once) ∧
      (Edit.add firstLba' lastLba' typeGuid' name').run once =
        some (0, twice) ∧
      (∀ i, i ≠ 0 → once.gpt.partitions i = Entry.zero) ∧
      (once.gpt.partitions 0).Holds firstLba lastLba typeGuid ∧
      twice.gpt.partitions 0 = once.gpt.partitions 0 ∧
      (twice.gpt.partitions 1).Holds firstLba' lastLba' typeGuid' := by
  obtain ⟨created, once, hcreate, hedits, honce⟩ := exists_create_add hs
    totalSectors diskGuid firstLba lastLba hfirst hrange hlast typeGuid name
  obtain ⟨before, hprevious, hadd⟩ := hedits.last [] rfl
  cases hprevious.eq_start rfl
  have hpartitions := Image.createOne_partitions totalSectors diskGuid
    (System.image s) firstLba lastLba typeGuid name
  rw [← honce.2.1] at hpartitions
  obtain ⟨twice, hadd', htwice⟩ := represents_backs.gptAddPartition_accepts
    (fun _ _ _ => trivial)
    (Image.createOne_initialized totalSectors diskGuid _ firstLba lastLba typeGuid
      name)
    (Image.createOne_findFreeSlot totalSectors diskGuid _ firstLba lastLba name
      htype)
    ((Image.createOne_admits _ _ _ _ _ _ _).mpr ⟨hfirst', hrange', hlast'⟩)
    typeGuid' name' once honce
  have hpartitions' : twice.gpt.partitions = Function.update
      once.gpt.partitions 1 ((once.gpt.partitions 1).fill typeGuid'
        (generateGuid once.gpt.seed).1 firstLba' lastLba' name') := by
    rw [htwice.2.1, Image.store_statics, Statics.sealTable_partitions, honce.2.1]
    simp only [Image.withStatics, Statics.addEntry]
    rfl
  refine ⟨created, once, twice, hcreate, hadd, hadd', fun i hi => ?_, ?_, ?_, ?_⟩
  · rw [hpartitions, Function.update_of_ne hi]
  · rw [hpartitions, Function.update_self]
    exact ⟨rfl, rfl, rfl⟩
  · rw [hpartitions', Function.update_of_ne (by decide)]
  · rw [hpartitions', Function.update_self]
    exact ⟨rfl, rfl, rfl⟩

section History

variable {s s' : System} {edits : List Edit}

theorem History.faultFree (hs : s.device.FaultFree) (h : History s edits s') :
    s'.device.FaultFree := by
  induction h with
  | start => exact hs
  | edit _ hrun ih =>
      obtain ⟨f, -, hafter⟩ := Edit.effect_of_run _ (represents_image ih) hrun
      exact hafter.1

theorem History.table {totalSectors : UInt64} {guid : Guid}
    {old : Nat → Sector} (hsize : 68 ≤ totalSectors.toNat)
    (hs : s.device.FaultFree)
    (htable : Table totalSectors guid old (System.image s))
    (h : History s edits s') :
    Table totalSectors guid old (System.image s') := by
  induction h with
  | start => exact htable
  | edit hprevious hrun ih =>
      obtain ⟨f, heffect, hafter⟩ := Edit.effect_of_run _
        (represents_image (hprevious.faultFree hs)) hrun
      rw [hafter.eq_image]
      exact ih.edit (Table.last_ge hsize) heffect

theorem History.entries_ok (hs : s.device.FaultFree)
    (hstart : ∀ i, (s.gpt.partitions i).Ok) (h : History s edits s')
    (htyped : ∀ edit ∈ edits, edit.Typed) (i : Fin 128) :
    (s'.gpt.partitions i).Ok := by
  induction h generalizing i with
  | start => exact hstart i
  | edit hprevious hrun ih =>
      have hbefore := ih fun edit hedit => htyped edit (by simp [hedit])
      obtain ⟨f, heffect, hafter⟩ := Edit.effect_of_run _
        (represents_image (hprevious.faultFree hs)) hrun
      rw [hafter.2.1, Image.store_statics, Statics.sealTable_partitions]
      exact heffect.entries_ok (htyped _ (by simp)) hbefore i

theorem History.sealed (hs : s.device.FaultFree) (h : History s edits s')
    (hedits : edits ≠ []) :
    s'.gpt.header = s'.gpt.sealTable.header := by
  cases h with
  | start => exact absurd rfl hedits
  | edit hprevious hrun =>
      obtain ⟨f, -, hafter⟩ := Edit.effect_of_run _
        (represents_image (hprevious.faultFree hs)) hrun
      rw [hafter.2.1, Image.store_statics, Statics.sealTable_sealTable_header]

theorem History.table_of_create {created : System} {totalSectors : UInt64}
    {diskGuid : Option Guid} (hs : s.device.FaultFree)
    (hsize : 68 ≤ totalSectors.toNat)
    (hcreate : gptCreateTable totalSectors diskGuid s = some (0, created))
    (h : History created edits s') :
    s'.device.FaultFree ∧
    Table totalSectors (newDiskGuid diskGuid s.gpt) s.device.sectors
      (System.image s') := by
  have hcreated := represents_create hs hcreate
  have hstart := Image.create_table totalSectors diskGuid (System.image s)
    (Table.last_ge hsize)
  rw [← hcreated.eq_image] at hstart
  exact ⟨h.faultFree hcreated.1, h.table hsize hcreated.1 hstart⟩

end History

end EntropyOS.Gpt
