import EntropyOS.Drivers.Block
import EntropyOS.Gpt.Crc32

/-!
# The GPT module

The functions of `gpt.c` over the shared header and partition array.  The
module's state changes in the same steps as in the source, so that a call that
fails half-way leaves what the source leaves.
-/

namespace EntropyOS.Gpt

open EntropyOS.Foundation

namespace Statics

/-- The memory from the start of `g_gpt_header` on. -/
def headerBytes (g : Statics) : Buf := fun k =>
  if k < 92 then g.header.toBytes k else g.behindHeader (k - 92)

/-- The memory from the start of `g_partitions` on. -/
def partitionBytes (g : Statics) : Buf := fun k =>
  if h : k < 16384 then (g.partitions ⟨k / 128, by omega⟩).toBytes (k % 128)
  else g.behindPartitions (k - 16384)

/-- The memory from the start of `sector_buffer` on, once a sector is in it. -/
def sectorBytes (g : Statics) (sector : Sector) : Buf := fun k =>
  if k < 512 then sector.toBuf k else g.behindSector (k - 512)

def headerSector (g : Statics) : Sector := Sector.ofBuf g.header.toBytes

/-- The sector buffer that holds bytes `512 * i` to `512 * i + 511` of the array. -/
def arraySector (g : Statics) (i : Nat) : Sector :=
  Sector.ofBuf fun k => g.partitionBytes (512 * i + k)

/-- `crc32(g_partitions, GPT_MAX_PARTITIONS * 128)`. -/
def arrayCrc (g : Statics) : UInt32 :=
  crc32 g.partitionBytes (maxPartitions * 128)

end Statics

def Header.withCrc (header : Header) (crc : UInt32) : Header :=
  { header with headerCrc32 := crc }

/-- `header_crc32 = 0; header_crc32 = crc32(&g_gpt_header, 92)`. -/
def Header.sealCrc (header : Header) : Header :=
  header.withCrc (crc32 (header.withCrc 0).toBytes 92)

/-- Both checksums brought up to date, array first. -/
def Statics.sealTable (g : Statics) : Statics :=
  { g with header :=
    { g.header with partitionArrayCrc32 := g.arrayCrc }.sealCrc }

def getGpt : Program System Statics := do
  return (← get).gpt

theorem getGpt_apply (s : System) : getGpt s = some (s.gpt, s) := rfl

def modifyGpt (f : Statics → Statics) : Program System Unit :=
  modify fun s => { s with gpt := f s.gpt }

/-! ## Identifiers and names -/

/-- The byte loop of `generate_guid`, with the seed it leaves. -/
def guidBytes : Nat → UInt32 → List UInt8 × UInt32
  | 0, seed => ([], seed)
  | count + 1, seed =>
      let seed := seed * 1103515245 + 12345
      let (rest, final) := guidBytes count seed
      (((seed >>> 16) &&& 0xFF).toUInt8 :: rest, final)

/-- `generate_guid`: the identifier and the next seed. -/
def generateGuid (seed : UInt32) : Guid × UInt32 :=
  let (bytes, seed) := guidBytes 16 seed
  (fun i =>
    if i = 6 then (bytes.getD 6 0 &&& 0x0F) ||| 0x40
    else if i = 8 then (bytes.getD 8 0 &&& 0x3F) ||| 0x80
    else bytes.getD i 0, seed)

/-- `(uint16_t)c` for a signed `char`. -/
def charToUnit (c : UInt8) : UInt16 :=
  if c < 0x80 then c.toUInt16 else c.toUInt16 + 0xFF00

/-- `utf8_to_utf16le` from code unit `i` on. -/
def utf8ToUtf16le (maxChars : Nat) : List UInt8 → Nat → (Fin 36 → UInt16) →
    Fin 36 → UInt16
  | [], i, utf16 => Function.update utf16 (Fin.ofNat 36 i) 0
  | c :: rest, i, utf16 =>
      if c ≠ 0 ∧ i < maxChars - 1 then
        utf8ToUtf16le maxChars rest (i + 1)
          (Function.update utf16 (Fin.ofNat 36 i) (charToUnit c))
      else
        Function.update utf16 (Fin.ofNat 36 i) 0

/-- `utf16le_to_utf8` from byte `i` on, with `room` characters still allowed. -/
def utf16leToUtf8 (units : Nat → UInt16) : (room i : Nat) → (Fin 73 → UInt8) →
    Fin 73 → UInt8
  | 0, i, utf8 => Function.update utf8 (Fin.ofNat 73 i) 0
  | room + 1, i, utf8 =>
      if units i ≠ 0 then
        utf16leToUtf8 units room (i + 1)
          (Function.update utf8 (Fin.ofNat 73 i) (units i).toUInt8)
      else
        Function.update utf8 (Fin.ofNat 73 i) 0

/-! ## Loading a table -/

/-- The entry loop of `gpt_init` over one sector, from entry `j` on. -/
def loadEntries (buf : Buf) (entriesToRead entrySize baseEntry : Nat) :
    (count j : Nat) → (Fin 128 → Entry) → Fin 128 → Entry
  | 0, _, partitions => partitions
  | count + 1, j, partitions =>
      if baseEntry + j ≥ entriesToRead then partitions
      else
        loadEntries buf entriesToRead entrySize baseEntry count (j + 1)
          (Function.update partitions (Fin.ofNat 128 (baseEntry + j))
            (Entry.ofBytes fun k => buf (j * entrySize + k)))

def loadSectors (entriesToRead entrySize entriesLba : Nat) :
    (count i : Nat) → Program System Int
  | 0, _ => return 0
  | count + 1, i => do
      let some sector ← blockReadSector (u64 (entriesLba + i)) | return -1
      let entriesThisSector := 512 / entrySize
      let baseEntry := u32 (i * entriesThisSector)
      modifyGpt fun g => { g with
        partitions := loadEntries (g.sectorBytes sector) entriesToRead
          entrySize baseEntry entriesThisSector 0 g.partitions }
      loadSectors entriesToRead entrySize entriesLba count (i + 1)

/-- The part of `gpt_init` that follows the header checks. -/
def loadArray (header : Header) : Program System Int :=
  let entriesToRead :=
    if header.numPartitionEntries.toNat > maxPartitions then maxPartitions
    else header.numPartitionEntries.toNat
  let entrySize := header.partitionEntrySize.toNat
  let sectorsNeeded := u32 (entriesToRead * entrySize + 511) / 512
  loadSectors entriesToRead entrySize header.partitionEntriesLba.toNat
    sectorsNeeded 0

def gptInit : Program System Int := do
  unless ← blockIsPresent do
    return -1
  let some sector ← blockReadSector 1 | return -1
  modifyGpt fun g => { g with header := .ofBytes sector.toBuf }
  let g ← getGpt
  if g.header.signature ≠ signatureBytes then
    return -1
  if g.header.revision ≠ gptRevision then
    return -1
  let savedCrc := g.header.headerCrc32
  modifyGpt fun g => { g with header := g.header.withCrc 0 }
  let cleared ← getGpt
  if savedCrc ≠ crc32 cleared.headerBytes cleared.header.headerSize.toNat then
    return -1
  modifyGpt fun g => { g with header := g.header.withCrc savedCrc }
  if (← loadArray g.header) ≠ 0 then
    return -1
  modifyGpt fun g => { g with initialized := true }
  return 0

/-! ## Storing a table -/

/-- The array loop: sectors `2 + i` on. -/
def storeArray : (count i : Nat) → Program System Int
  | 0, _ => return 0
  | count + 1, i => do
      let g ← getGpt
      if (← blockWriteSector (2 + i) (g.arraySector i)) ≠ 0 then
        return -1
      storeArray count (i + 1)

/--
The common end of every update: bring both checksums up to date, then write
the header to sector 1 and the array to sectors 2 to 33.
-/
def storeTable : Program System Int := do
  modifyGpt Statics.sealTable
  let g ← getGpt
  if (← blockWriteSector 1 g.headerSector) ≠ 0 then
    return -1
  storeArray ((maxPartitions * 128 + 511) / 512) 0

def protectiveMbr (totalSectors : UInt64) : Sector :=
  let numSectors :=
    if totalSectors.toNat > 0xFFFFFFFF then 0xFFFFFFFF
    else u32 (totalSectors.toNat + 4294967295)
  Sector.ofBuf fun k =>
    if k = 450 then 0xEE
    else if 454 ≤ k ∧ k < 458 then byteOf 1 (k - 454)
    else if 458 ≤ k ∧ k < 462 then byteOf numSectors (k - 458)
    else if 510 ≤ k ∧ k < 512 then byteOf 0xAA55 (k - 510)
    else 0

def newHeader (totalSectors : UInt64) (diskGuid : Guid) : Header :=
  { Header.zero with
    signature := signatureBytes
    revision := gptRevision
    headerSize := 92
    currentLba := 1
    backupLba := totalSectors - 1
    firstUsableLba := 34
    lastUsableLba := totalSectors - 34
    diskGuid := diskGuid
    partitionEntriesLba := 2
    numPartitionEntries := UInt32.ofNat maxPartitions
    partitionEntrySize := 128 }

def Header.toBackup (header : Header) (totalSectors : UInt64) : Header :=
  { header with
    currentLba := totalSectors - 1
    backupLba := 1
    partitionEntriesLba := totalSectors - 33 }

/-- The location fields put back after the backup copy is written. -/
def Header.toPrimary (header : Header) (totalSectors : UInt64) : Header :=
  { header with
    currentLba := 1
    backupLba := totalSectors - 1
    partitionEntriesLba := 2 }

/-- The cleared table of `gpt_create_table`; `none` is a null `disk_guid`. -/
def Statics.startTable (totalSectors : UInt64) (diskGuid : Option Guid)
    (g : Statics) : Statics :=
  let (guid, seed) :=
    match diskGuid with
    | some guid => (guid, g.seed)
    | none => generateGuid g.seed
  { g with
    header := newHeader totalSectors guid
    seed := seed
    partitions := fun _ => Entry.zero }

def gptCreateTable (totalSectors : UInt64) (diskGuid : Option Guid) :
    Program System Int := do
  unless ← blockIsPresent do
    return -1
  if (← blockWriteSector 0 (protectiveMbr totalSectors)) ≠ 0 then
    return -1
  modifyGpt (Statics.startTable totalSectors diskGuid)
  if (← storeTable) ≠ 0 then
    return -1
  modifyGpt fun g =>
    { g with header := (g.header.toBackup totalSectors).sealCrc }
  let backup ← getGpt
  -- the result of this write is not looked at
  let _ ← blockWriteSector (totalSectors - 1).toNat backup.headerSector
  modifyGpt fun g => { g with
    header := g.header.toPrimary totalSectors
    initialized := true }
  return 0

/-! ## Editing and inspecting -/

def findFreeSlot (partitions : Fin 128 → Entry) : (count i : Nat) → Option Nat
  | 0, _ => none
  | count + 1, i =>
      if (partitions (Fin.ofNat 128 i)).typeGuid.IsZero then some i
      else findFreeSlot partitions count (i + 1)

/-- The entry `gpt_add_partition` builds over the slot's old contents. -/
def Entry.fill (entry : Entry) (typeGuid partitionGuid : Guid)
    (firstLba lastLba : UInt64) (name : Option (List UInt8)) : Entry where
  typeGuid := typeGuid
  partitionGuid := partitionGuid
  firstLba := firstLba
  lastLba := lastLba
  attributes := 0
  name :=
    match name with
    | some name => utf8ToUtf16le 36 name 0 entry.name
    | none => entry.name

/-- The new entry stored in slot `slot`, with a fresh partition GUID. -/
def Statics.addEntry (slot : Nat) (firstLba lastLba : UInt64) (typeGuid : Guid)
    (name : Option (List UInt8)) (g : Statics) : Statics :=
  let (guid, seed) := generateGuid g.seed
  let index := Fin.ofNat 128 slot
  { g with
    partitions := Function.update g.partitions index
      ((g.partitions index).fill typeGuid guid firstLba lastLba name)
    seed := seed }

/-- `gpt_add_partition`; `none` is a null `name`. -/
def gptAddPartition (firstLba lastLba : UInt64) (typeGuid : Guid)
    (name : Option (List UInt8)) : Program System Int := do
  let g ← getGpt
  unless g.initialized do
    return -1
  let some slot := findFreeSlot g.partitions maxPartitions 0 | return -1
  if firstLba < g.header.firstUsableLba ∨ lastLba > g.header.lastUsableLba ∨
      firstLba ≥ lastLba then
    return -1
  modifyGpt (Statics.addEntry slot firstLba lastLba typeGuid name)
  storeTable

def Statics.clearEntry (slot : Nat) (g : Statics) : Statics :=
  { g with partitions :=
    Function.update g.partitions (Fin.ofNat 128 slot) Entry.zero }

def gptDeletePartition (index : UInt32) : Program System Int := do
  let g ← getGpt
  if !g.initialized ∨ index.toNat ≥ maxPartitions then
    return -1
  modifyGpt (Statics.clearEntry index.toNat)
  storeTable

/-- The code units `gpt_get_partition` finds from the name field of a slot on. -/
def Statics.nameUnits (g : Statics) (index : Nat) : Nat → UInt16 := fun k =>
  UInt16.ofNat (readLe g.partitionBytes (128 * index + 56 + 2 * k) 2)

def Statics.partitionInfo (g : Statics) (index : UInt32) :
    Option PartitionInfo → Int × Option PartitionInfo
  | none => (-1, none)
  | some info =>
      let entry := g.partitions (Fin.ofNat 128 index.toNat)
      if !g.initialized ∨ index.toNat ≥ maxPartitions then
        (-1, some info)
      else if entry.typeGuid.IsZero then
        (-1, some { info with valid := 0 })
      else
        (0, some {
          typeGuid := entry.typeGuid
          partitionGuid := entry.partitionGuid
          firstLba := entry.firstLba
          lastLba := entry.lastLba
          attributes := entry.attributes
          name := utf16leToUtf8 (g.nameUnits index.toNat) 72 0 info.name
          valid := 1 })

/-- `gpt_get_partition`; `none` is a null `info`. -/
def gptGetPartition (index : UInt32) (info : Option PartitionInfo) :
    Program System (Int × Option PartitionInfo) := do
  return (← getGpt).partitionInfo index info

def gptVerify : Program System Int := do
  let g ← getGpt
  unless g.initialized do
    return -1
  let cleared := { g with header := g.header.withCrc 0 }
  if g.header.headerCrc32 ≠
      crc32 cleared.headerBytes g.header.headerSize.toNat then
    return -1
  if g.arrayCrc ≠ g.header.partitionArrayCrc32 then
    return -1
  return 0

end EntropyOS.Gpt
