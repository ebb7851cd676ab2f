import EntropyOS.Gpt.Operations

/-!
# The table and its disk, without the machinery

An image is the state of the GPT module together with the contents of a
fault-free disk.  Every function of the module acts on images; this file says
how, one theorem per function, and later files reason about images only.
-/

namespace EntropyOS.Gpt

open EntropyOS.Foundation

structure Image where
  statics : Statics
  disk : Nat → Sector

def Represents (s : System) (image : Image) : Prop :=
  s.device.FaultFree ∧ s.gpt = image.statics ∧ s.device.sectors = image.disk

/-- The program acts on images of fault-free systems as stated. -/
abbrev Executes {α : Type} (image : Image) (program : Program System α)
    (a : α) (image' : Image) : Prop :=
  Runs Represents image program a image'

def System.image (s : System) : Image := ⟨s.gpt, s.device.sectors⟩

theorem represents_image {s : System} (h : s.device.FaultFree) :
    Represents s (System.image s) := ⟨h, rfl, rfl⟩

theorem Represents.eq_image {s : System} {image : Image}
    (h : Represents s image) : System.image s = image := by
  cases image
  simp only [System.image, h.2.1, h.2.2]

namespace Image

def withStatics (image : Image) (f : Statics → Statics) : Image :=
  { image with statics := f image.statics }

def put (image : Image) (lba : Nat) (sector : Sector) : Image :=
  { image with disk := Function.update image.disk lba sector }

/-- Array sectors `i` to `i + count - 1` written to their place on disk. -/
def putArray (image : Image) (count i : Nat) : Image :=
  { image with disk := fun lba =>
      if 2 + i ≤ lba ∧ lba < 2 + i + count then
        image.statics.arraySector (lba - 2)
      else image.disk lba }

def tableDisk (g : Statics) (disk : Nat → Sector) : Nat → Sector := fun lba =>
  if 2 ≤ lba ∧ lba < 34 then g.arraySector (lba - 2)
  else if lba = 1 then g.headerSector
  else disk lba

/-- Checksums brought up to date, header and array written. -/
def store (image : Image) : Image where
  statics := image.statics.sealTable
  disk := tableDisk image.statics.sealTable image.disk

end Image

/-! ## What sealing leaves alone -/

theorem Header.setArrayCrc_sealCrc (header : Header) (crc : UInt32) :
    { header.sealCrc with partitionArrayCrc32 := crc }.sealCrc =
      { header with partitionArrayCrc32 := crc }.sealCrc := by
  cases header
  rfl

namespace Statics

variable (g : Statics)

-- `rfl` is stated over a taken-apart record: otherwise the checker compares
-- the sealed record with the old one and starts to compute checksums

@[simp] theorem sealTable_partitions :
    g.sealTable.partitions = g.partitions := by
  cases g
  rfl

@[simp] theorem sealTable_initialized :
    g.sealTable.initialized = g.initialized := by
  cases g
  rfl

@[simp] theorem sealTable_behindPartitions :
    g.sealTable.behindPartitions = g.behindPartitions := by
  cases g
  rfl

@[simp] theorem sealTable_partitionBytes :
    g.sealTable.partitionBytes = g.partitionBytes := by
  funext k
  simp only [partitionBytes, sealTable_partitions, sealTable_behindPartitions]

@[simp] theorem sealTable_arraySector (i : Nat) :
    g.sealTable.arraySector i = g.arraySector i := by
  simp only [arraySector, sealTable_partitionBytes]

@[simp] theorem sealTable_arrayCrc : g.sealTable.arrayCrc = g.arrayCrc := by
  simp only [arrayCrc, sealTable_partitionBytes]

theorem sealTable_header : g.sealTable.header =
    { g.header with partitionArrayCrc32 := g.arrayCrc }.sealCrc := by
  cases g
  rfl

theorem sealTable_sealTable_header :
    g.sealTable.sealTable.header = g.sealTable.header := by
  rw [sealTable_header g.sealTable, sealTable_arrayCrc, sealTable_header,
    Header.setArrayCrc_sealCrc]

end Statics

/-! ## Primitive steps -/

theorem getGpt_executes (image : Image) :
    Executes image getGpt image.statics image :=
  Runs.of_reads fun s hs => by
    change some (s.gpt, s) = _
    rw [hs.2.1]

theorem modifyGpt_executes (image : Image) (f : Statics → Statics) :
    Executes image (modifyGpt f) () (image.withStatics f) := by
  intro s hs
  refine ⟨{ s with gpt := f s.gpt }, rfl, hs.1, ?_, hs.2.2⟩
  simp only [hs.2.1]
  rfl

theorem blockIsPresent_executes (image : Image) :
    Executes image blockIsPresent true image :=
  Runs.of_reads fun _ hs => blockIsPresent_eq hs.1

theorem blockReadSector_executes (image : Image) (lba : Nat) :
    Executes image (blockReadSector lba) (some (image.disk lba)) image :=
  Runs.of_reads fun s hs => by rw [blockReadSector_eq hs.1, hs.2.2]

theorem blockWriteSector_executes (image : Image) (lba : Nat)
    (sector : Sector) :
    Executes image (blockWriteSector lba sector) 0 (image.put lba sector) := by
  intro s hs
  refine ⟨_, blockWriteSector_eq hs.1 lba sector, hs.1.put lba sector,
    hs.2.1, ?_⟩
  rw [System.put_sectors, hs.2.2]
  rfl

/--
What the editing calls need to know of the states that stand for images: they
run on the image, and writes succeed wherever the disk reaches.
-/
structure Backs (R : System → Image → Prop) (fits : Nat → Prop) : Prop where
  isPresent : ∀ image, Runs R image blockIsPresent true image
  get : ∀ image, Runs R image getGpt image.statics image
  modify : ∀ image f, Runs R image (modifyGpt f) () (image.withStatics f)
  write : ∀ image lba sector, fits lba →
    Runs R image (blockWriteSector lba sector) 0 (image.put lba sector)

theorem represents_backs : Backs Represents fun _ => True where
  isPresent := blockIsPresent_executes
  get := getGpt_executes
  modify := modifyGpt_executes
  write := fun image lba sector _ => blockWriteSector_executes image lba sector

/-! ## Storing -/

theorem Image.putArray_succ (image : Image) (count i : Nat) :
    (image.put (2 + i) (image.statics.arraySector i)).putArray count (i + 1) =
      image.putArray (count + 1) i := by
  simp only [putArray, put, Image.mk.injEq, true_and]
  funext lba
  by_cases hfirst : lba = 2 + i
  · subst hfirst
    simp
  · rw [Function.update_of_ne hfirst]
    have hiff : (2 + (i + 1) ≤ lba ∧ lba < 2 + (i + 1) + count) ↔
        (2 + i ≤ lba ∧ lba < 2 + i + (count + 1)) := by omega
    simp only [hiff]

section Storing

variable {R : System → Image → Prop} {fits : Nat → Prop} (h : Backs R fits)

include h

theorem Backs.storeArray (image : Image) {count i : Nat}
    (hfits : ∀ k, i ≤ k → k < i + count → fits (2 + k)) :
    Runs R image (storeArray count i) 0 (image.putArray count i) := by
  induction count generalizing image i with
  | zero =>
      have hsame : image.putArray 0 i = image := by
        simp only [Image.putArray]
        congr 1
        funext lba
        rw [if_neg (by omega)]
      rw [hsame]
      exact Runs.pure image 0
  | succ count ih =>
      rw [Gpt.storeArray, ← Image.putArray_succ]
      refine Runs.bind (h.get image) ?_
      refine Runs.bind (h.write image _ _ (hfits i le_rfl (by omega))) ?_
      exact ih _ fun k hlow hhigh => hfits k (by omega) (by omega)

omit h

theorem Image.put_putArray (g : Statics) (disk : Nat → Sector) :
    ((Image.mk g disk).put 1 g.headerSector).putArray 32 0 =
      ⟨g, tableDisk g disk⟩ := by
  simp only [putArray, put, Function.update_apply, Nat.add_zero, Nat.reduceAdd]
  rfl

include h

theorem Backs.storeTable (image : Image)
    (hfits : ∀ lba, 1 ≤ lba → lba < 34 → fits lba) :
    Runs R image storeTable 0 image.store := by
  refine Runs.bind (h.modify image Statics.sealTable) ?_
  refine Runs.bind (h.get _) ?_
  refine Runs.bind (h.write _ _ _ (hfits 1 le_rfl (by decide))) ?_
  have harray : ∀ k, 0 ≤ k → k < 0 + 32 → fits (2 + k) :=
    fun k _ hk => hfits _ (by omega) (by omega)
  have hstore := h.storeArray
    ((Image.mk image.statics.sealTable image.disk).put 1
      image.statics.sealTable.headerSector) harray
  rw [Image.put_putArray] at hstore
  exact hstore

end Storing

@[simp] theorem Image.store_statics (image : Image) :
    image.store.statics = image.statics.sealTable := rfl

theorem Image.store_disk_header (image : Image) :
    image.store.disk 1 = image.statics.sealTable.headerSector := by
  simp only [store, tableDisk]
  rw [if_neg (by omega), if_pos trivial]

theorem Image.store_disk_array (image : Image) {i : Nat} (h : i < 32) :
    image.store.disk (2 + i) = image.statics.arraySector i := by
  simp only [store, tableDisk]
  rw [if_pos (by omega), show 2 + i - 2 = i by omega,
    Statics.sealTable_arraySector]

theorem Image.store_disk_other (image : Image) {lba : Nat}
    (h : lba = 0 ∨ 34 ≤ lba) : image.store.disk lba = image.disk lba := by
  simp only [store, tableDisk]
  rw [if_neg (by omega), if_neg (by omega)]

/-! ## The three editing calls -/

def Image.create (totalSectors : UInt64) (diskGuid : Option Guid)
    (image : Image) : Image :=
  let stored := ((image.put 0 (protectiveMbr totalSectors)).withStatics
    (Statics.startTable totalSectors diskGuid)).store
  let backup := stored.withStatics fun g =>
    { g with header := (g.header.toBackup totalSectors).sealCrc }
  (backup.put (totalSectors - 1).toNat
      backup.statics.headerSector).withStatics fun g =>
    { g with header := g.header.toPrimary totalSectors, initialized := true }

theorem Backs.gptCreateTable {R : System → Image → Prop} {fits : Nat → Prop}
    (h : Backs R fits) (totalSectors : UInt64) (diskGuid : Option Guid)
    (image : Image) (hfits : ∀ lba, lba < 34 → fits lba)
    (hlast : fits (totalSectors - 1).toNat) :
    Runs R image (gptCreateTable totalSectors diskGuid) 0
      (image.create totalSectors diskGuid) := by
  refine Runs.bind (h.isPresent image) ?_
  rw [if_pos rfl]
  refine Runs.bind (h.write _ _ _ (hfits 0 (by decide))) ?_
  refine Runs.bind (h.modify _ _) ?_
  refine Runs.bind (h.storeTable _ fun lba _ hlba => hfits lba hlba) ?_
  refine Runs.bind (h.modify _ _) ?_
  refine Runs.bind (h.get _) ?_
  refine Runs.bind (h.write _ _ _ hlast) ?_
  refine Runs.bind (h.modify _ _) ?_
  exact Runs.pure _ 0

theorem gptCreateTable_executes (totalSectors : UInt64)
    (diskGuid : Option Guid) (image : Image) :
    Executes image (gptCreateTable totalSectors diskGuid) 0
      (image.create totalSectors diskGuid) :=
  represents_backs.gptCreateTable totalSectors diskGuid image
    (fun _ _ => trivial) trivial

/-- The range test of `gpt_add_partition`. -/
def Header.Admits (header : Header) (firstLba lastLba : UInt64) : Prop :=
  header.firstUsableLba ≤ firstLba ∧ firstLba < lastLba ∧
    lastLba ≤ header.lastUsableLba

theorem Header.admits_iff (header : Header) (firstLba lastLba : UInt64) :
    header.Admits firstLba lastLba ↔
      ¬ (firstLba < header.firstUsableLba ∨ lastLba > header.lastUsableLba ∨
        firstLba ≥ lastLba) := by
  simp only [Header.Admits, UInt64.lt_iff_toNat_lt, UInt64.le_iff_toNat_le,
    gt_iff_lt, ge_iff_le]
  omega

section Editing

variable {R : System → Image → Prop} {fits : Nat → Prop} (h : Backs R fits)
  (hfits : ∀ lba, 1 ≤ lba → lba < 34 → fits lba)

include h hfits

theorem Backs.gptAddPartition_accepts {image : Image} {slot : Nat}
    {firstLba lastLba : UInt64} (hinit : image.statics.initialized = true)
    (hslot : findFreeSlot image.statics.partitions maxPartitions 0 = some slot)
    (hrange : image.statics.header.Admits firstLba lastLba)
    (typeGuid : Guid) (name : Option (List UInt8)) :
    Runs R image (gptAddPartition firstLba lastLba typeGuid name) 0
      (image.withStatics
        (Statics.addEntry slot firstLba lastLba typeGuid name)).store := by
  refine Runs.bind (h.get image) (Runs.if_pos hinit ?_)
  rw [hslot]
  refine Runs.if_neg ((Header.admits_iff _ _ _).mp hrange) ?_
  exact Runs.bind (h.modify _ _) (h.storeTable _ hfits)

/--
`gpt_add_partition` either refuses and changes nothing, or stores the entry in
the first free slot.
-/
theorem Backs.gptAddPartition (image : Image) (firstLba lastLba : UInt64)
    (typeGuid : Guid) (name : Option (List UInt8)) :
    (¬ image.statics.header.Admits firstLba lastLba ∨
        image.statics.initialized ≠ true ∨
        findFreeSlot image.statics.partitions maxPartitions 0 = none) ∧
      Runs R image (gptAddPartition firstLba lastLba typeGuid name) (-1) image ∨
    ∃ slot, image.statics.initialized = true ∧
      findFreeSlot image.statics.partitions maxPartitions 0 = some slot ∧
      image.statics.header.Admits firstLba lastLba ∧
      Runs R image (gptAddPartition firstLba lastLba typeGuid name) 0
        (image.withStatics
          (Statics.addEntry slot firstLba lastLba typeGuid name)).store := by
  by_cases hinit : image.statics.initialized = true
  swap
  · exact .inl ⟨.inr (.inl hinit),
      Runs.bind (h.get image) (Runs.if_neg hinit (Runs.pure _ _))⟩
  cases hslot : findFreeSlot image.statics.partitions maxPartitions 0 with
  | none =>
      refine .inl ⟨.inr (.inr rfl),
        Runs.bind (h.get image) (Runs.if_pos hinit ?_)⟩
      rw [hslot]
      exact Runs.pure _ _
  | some slot =>
      by_cases hrange : image.statics.header.Admits firstLba lastLba
      · exact .inr ⟨slot, hinit, rfl, hrange,
          h.gptAddPartition_accepts hfits hinit hslot hrange typeGuid name⟩
      · refine .inl ⟨.inl hrange,
          Runs.bind (h.get image) (Runs.if_pos hinit ?_)⟩
        rw [hslot]
        refine Runs.if_pos ?_ (Runs.pure _ _)
        exact not_not.mp ((Header.admits_iff _ _ _).not.mp hrange)

theorem Backs.gptDeletePartition_accepts {image : Image} {index : UInt32}
    (hinit : image.statics.initialized = true)
    (hindex : index.toNat < maxPartitions) :
    Runs R image (gptDeletePartition index) 0
      (image.withStatics (Statics.clearEntry index.toNat)).store := by
  have haccept : ¬ (!image.statics.initialized ∨
      index.toNat ≥ maxPartitions) := by
    simpa [hinit] using hindex
  refine Runs.bind (h.get image) (Runs.if_neg haccept ?_)
  exact Runs.bind (h.modify _ _) (h.storeTable _ hfits)

theorem Backs.gptDeletePartition (image : Image) (index : UInt32) :
    Runs R image (gptDeletePartition index) (-1) image ∨
    (image.statics.initialized = true ∧ index.toNat < maxPartitions ∧
      Runs R image (gptDeletePartition index) 0
        (image.withStatics (Statics.clearEntry index.toNat)).store) := by
  by_cases hrefuse : !image.statics.initialized ∨ index.toNat ≥ maxPartitions
  · exact .inl (Runs.bind (h.get image) (Runs.if_pos hrefuse (Runs.pure _ _)))
  · have hinit : image.statics.initialized = true := by
      simpa using (not_or.mp hrefuse).1
    have hindex : index.toNat < maxPartitions := by
      simpa using (not_or.mp hrefuse).2
    exact .inr ⟨hinit, hindex, h.gptDeletePartition_accepts hfits hinit hindex⟩

end Editing

end EntropyOS.Gpt
