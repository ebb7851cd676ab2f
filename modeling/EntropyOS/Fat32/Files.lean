import EntropyOS.Fat32.Operations

/-!
# Formatting, mounting, and the calls on files and directories

The public functions of `fat32.c` that the system uses, with their messages.
File names are C strings: the list of the bytes before the NUL.
-/

namespace EntropyOS.Fat32

open EntropyOS.Foundation

/-! ## `fat32_format` and `fat32_init` -/

/-- The layout `fat32_format` computes from `(uint32_t)total_sectors`. -/
def formatFatSize (totalSectors : Nat) : Nat :=
  u32 (u32 (totalSectors + 4294967264) + 1025) / 1026

def formatDataSectors (totalSectors : Nat) : Nat :=
  u32 (totalSectors + 4294967296 - u32 (32 + 2 * formatFatSize totalSectors))

def formatClusters (totalSectors : Nat) : Nat :=
  formatDataSectors totalSectors / 8

/-- The eleven label bytes; `none` is a null `volume_label`. -/
def labelBytes : Option (List UInt8) → Nat → UInt8
  | none, k => [0x4E, 0x4F, 0x20, 0x4E, 0x41, 0x4D, 0x45].getD k 0x20
  | some label, k => ((label.takeWhile (· ≠ 0)).map upcase).getD k 0x20

def bootSector (totalSectors : Nat) (label : Option (List UInt8)) : Sector :=
  Sector.ofBuf fun k =>
    if k < 3 then [0xEB, 0x58, 0x90].getD k 0
    -- "MSWIN4.1"
    else if k < 11 then
      [0x4D, 0x53, 0x57, 0x49, 0x4E, 0x34, 0x2E, 0x31].getD (k - 3) 0
    else if k < 13 then byteOf 512 (k - 11)
    else if k = 13 then 8
    else if k < 16 then byteOf 32 (k - 14)
    else if k = 16 then 2
    else if k < 21 then 0
    else if k = 21 then 0xF8
    else if k < 24 then 0
    else if k < 26 then byteOf 63 (k - 24)
    else if k < 28 then byteOf 255 (k - 26)
    else if k < 32 then 0
    else if k < 36 then byteOf (u32 totalSectors) (k - 32)
    else if k < 40 then byteOf (formatFatSize totalSectors) (k - 36)
    else if k < 44 then 0
    else if k < 48 then byteOf 2 (k - 44)
    else if k < 50 then byteOf 1 (k - 48)
    else if k < 52 then byteOf 6 (k - 50)
    else if k < 64 then 0
    else if k = 64 then 0x80
    else if k = 65 then 0
    else if k = 66 then 0x29
    else if k < 71 then byteOf 0x12345678 (k - 67)
    else if k < 82 then labelBytes label (k - 71)
    -- "FAT32   "
    else if k < 90 then
      [0x46, 0x41, 0x54, 0x33, 0x32].getD (k - 82) 0x20
    else if k = 510 then 0x55
    else if k = 511 then 0xAA
    else 0

def newInfoSector (totalSectors : Nat) : Sector :=
  Sector.ofBuf fun k =>
    if k < 4 then [0x52, 0x52, 0x61, 0x41].getD k 0
    else if 484 ≤ k ∧ k < 488 then [0x72, 0x72, 0x41, 0x61].getD (k - 484) 0
    else if 488 ≤ k ∧ k < 492 then
      byteOf (u32 (formatClusters totalSectors + 4294967295)) (k - 488)
    else if 492 ≤ k ∧ k < 496 then byteOf 3 (k - 492)
    else if k = 510 then 0x55
    else if k = 511 then 0xAA
    else 0

/-- The buffer both copies of the FAT are to start with. -/
def firstFatSector : Sector :=
  Sector.ofBuf fun k =>
    if k < 4 then byteOf 0x0FFFFFF8 k
    else if k < 8 then byteOf 0x0FFFFFFF (k - 4)
    else if k < 12 then byteOf 0x0FFFFFFF (k - 8)
    else 0

def clearSectors (message : String) (lba : Nat) : (count j : Nat) → Program System Int
  | 0, _ => return 0
  | count + 1, j => do
      if (← writeSector (lba + j) Sector.zero) ≠ 0 then
        text message
        return -1
      clearSectors message lba count (j + 1)

/-- The loop over the copies of the FAT, with the shared sector buffer. -/
def writeFats (fatSize : Nat) : (count i : Nat) → Sector → Program System Int
  | 0, _, _ => return 0
  | count + 1, i, buffer => do
      let fatStart := u32 (32 + i * fatSize)
      if (← writeSector fatStart buffer) ≠ 0 then
        text "FAT32: Failed to write FAT\n"
        return -1
      -- the buffer is cleared here, for this copy's other sectors
      if (← clearSectors "FAT32: Failed to clear FAT\n" fatStart
          (fatSize - 1) 1) ≠ 0 then
        return -1
      writeFats fatSize count (i + 1) Sector.zero

/-- The writes of `fat32_format`, once the layout is computed. -/
def writeFormat (boot info : Sector) (fatSize freeClusters : Nat) :
    Program System Int := do
  if (← writeSector 0 boot) ≠ 0 then
    text "FAT32: Failed to write boot sector\n"
    return -1
  if (← writeSector 6 boot) ≠ 0 then
    text "FAT32: Failed to write backup boot\n"
    return -1
  if (← writeSector 1 info) ≠ 0 then
    text "FAT32: Failed to write FSInfo\n"
    return -1
  let _ ← writeSector 7 info
  if (← writeFats fatSize 2 0 firstFatSector) ≠ 0 then
    return -1
  if (← clearSectors "FAT32: Failed to write root dir\n"
      (u32 (32 + 2 * fatSize)) 8 0) ≠ 0 then
    return -1
  modifyFat32 fun st => { st with freeClusters := freeClusters }
  flushIfSata "FAT32: warning — sata_flush_cache failed during format\n"
  text "FAT32: Format complete\n"
  return 0

def format (totalSectors : UInt64) (label : Option (List UInt8)) :
    Program System Int := do
  unless ← blockIsPresent do
    text "FAT32: Block device not initialized\n"
    return -1
  text "FAT32: Formatting partition...\n"
  let sectors := u32 totalSectors.toNat
  writeFormat (bootSector sectors label) (newInfoSector sectors)
    (formatFatSize sectors) (u32 (formatClusters sectors + 4294967295))

def Fs.ofBoot (boot : Buf) : Fs :=
  let clusterBeginLba :=
    u32 (readLe boot 14 2 + (boot 16).toNat * readLe boot 36 4)
  { fatBeginLba := readLe boot 14 2
    clusterBeginLba := clusterBeginLba
    sectorsPerCluster := (boot 13).toNat
    rootDirCluster := readLe boot 44 4
    fatSize := readLe boot 36 4
    numFats := (boot 16).toNat
    totalClusters :=
      u32 (readLe boot 32 4 + 4294967296 - clusterBeginLba) / (boot 13).toNat
    initialized := true }

def init : Program System Int := do
  unless ← blockIsPresent do
    text "FAT32: Block device not initialized\n"
    return -1
  let some sector ← readSector 0 | do
    text "FAT32: Failed to read boot sector\n"
    return -1
  let boot := sector.toBuf
  if boot 510 ≠ 0x55 ∨ boot 511 ≠ 0xAA then
    text "FAT32: Invalid boot signature\n"
    return -1
  if boot 13 = 0 then
    trap
  modifyFat32 fun st => { st with fs := .ofBoot boot }
  let freeClusters ←
    match ← readSector 1 with
    | some info =>
        if signatureAt info then pure (readLe info.toBuf 488 4)
        else pure unknownCount
    | none => pure unknownCount
  modifyFat32 fun st => { st with freeClusters := freeClusters }
  text "FAT32: Filesystem initialized\n"
  return 0

/-! ## Reading -/

/-- What `fat32_read_file_in` hands back: the caller's buffer and count. -/
structure ReadResult where
  status : Int
  out : Buf
  bytesRead : Nat

/-- `memcpy(dest + offset, src, size)`. -/
def copyInto (dest : Buf) (offset : Nat) (src : Buf) (size : Nat) : Buf :=
  fun k => if offset ≤ k ∧ k < offset + size then src (k - offset) else dest k

/-- The loop of `fat32_read_file_in`; `none` is a failed cluster read. -/
def readChain (cluster remaining offset : Nat) (out : Buf) :
    Program System (Bool × Buf) := do
  if Live cluster ∧ remaining > 0 then
    let some buf ← readCluster cluster | do
      text "FAT32: Failed to read cluster\n"
      return (false, out)
    let fs ← getFs
    let chunk := min remaining fs.clusterBytes
    let next ← getNextCluster cluster
    by
      apply readChain
      exacts [next, remaining - chunk, offset + chunk,
        copyInto out offset buf chunk]
  else
    return (true, out)
partial_fixpoint

def readFileIn (parent : Nat) (filename : List UInt8) (out : Buf)
    (maxSize bytesRead : Nat) : Program System ReadResult := do
  unless (← getFs).initialized do
    text "FAT32: Not initialized\n"
    return ⟨-1, out, bytesRead⟩
  let some found ← findEntry parent (nameToFat filename) | do
    text "FAT32: File not found\n"
    return ⟨-1, out, bytesRead⟩
  let toRead := min found.entry.fileSize.toNat maxSize
  let (ok, out) ← readChain found.entry.firstCluster toRead 0 out
  if ok then
    return ⟨0, out, toRead⟩
  return ⟨-1, out, bytesRead⟩

/-- `fat32_get_file_size_in`: the status and the caller's `size`. -/
def getFileSizeIn (parent : Nat) (filename : List UInt8) (size : Nat) :
    Program System (Int × Nat) := do
  unless (← getFs).initialized do
    text "FAT32: Not initialized\n"
    return (-1, size)
  let some found ← findEntry parent (nameToFat filename) | do
    text "FAT32: File not found\n"
    return (-1, size)
  return (0, found.entry.fileSize.toNat)

/-- `fat32_find_directory`; 0 is "no such directory". -/
def findDirectory (parent : Nat) (dirname : List UInt8) : Program System Nat := do
  let some found ← findEntry parent (nameToFat dirname) | return 0
  if found.entry.HasAttr attrDirectory then
    return found.entry.firstCluster
  return 0

/-! ## Choosing a directory slot -/

/-- A slot of a directory, with the copy of its cluster that is kept. -/
structure Slot where
  cluster : Nat
  index : Nat
  buffer : Buf

/-- The entry loop of the two creating functions, from entry `i` on. -/
def scanIn (skip : Nat → DirEntry → Bool) (name : Name) (cluster : Nat)
    (buf : Buf) : (count i : Nat) → Option Slot → Scan (Option Slot)
  | 0, _, slot => .more slot
  | count + 1, i, slot =>
      let entry := entryAt buf i
      if skip i entry then scanIn skip name cluster buf count (i + 1) slot
      else if entry.IsEnd ∨ entry.IsDeleted then
        -- the first free slot is kept
        let slot := slot.or (some ⟨cluster, i, buf⟩)
        if entry.IsEnd then .stop slot
        else scanIn skip name cluster buf count (i + 1) slot
      else if entry.name = name then .found i
      else scanIn skip name cluster buf count (i + 1) slot

/-- What the walk over a directory comes back with. -/
inductive SlotSearch where
  | unreadable
  | existing (slot : Slot)
  | free (slot : Option Slot)

def findSlot (skip : Nat → Nat → DirEntry → Bool) (name : Name) (cluster : Nat)
    (slot : Option Slot) : Program System SlotSearch := do
  if Live cluster then
    let some buf ← readCluster cluster | do
      text "FAT32: Failed to read directory cluster\n"
      return .unreadable
    let fs ← getFs
    match scanIn (skip cluster) name cluster buf fs.entriesPerCluster 0 slot with
    | .found i => return .existing ⟨cluster, i, buf⟩
    | .stop slot => return .free slot
    | .more slot =>
        let next ← getNextCluster cluster
        by apply findSlot; exacts [skip, name, next, slot]
  else
    return .free slot
partial_fixpoint

/-- `fat32_write_file_in` skips nothing. -/
def skipNone (_cluster _index : Nat) (_entry : DirEntry) : Bool := false

/-- `fat32_create_directory_in` skips `.` and `..` below the root. -/
def skipDots (root cluster index : Nat) (entry : DirEntry) : Bool :=
  cluster ≠ root ∧ ((index = 0 ∧ entry.name = dotName) ∨
    (index = 1 ∧ entry.name = dotDotName))

/-! ## Writing -/

def writeVerified (cluster : Nat) (block : Buf) : Program System Bool := do
  if (← writeCluster cluster block) ≠ 0 then
    text "FAT32: Failed to write cluster\n"
    return false
  let some verify ← readCluster cluster | do
    text "FAT32: Read-back failed on cluster\n"
    return false
  if ¬ ∀ k < (← getFs).clusterBytes, verify k = block k then
    text "FAT32: Write verification failed on cluster\n"
    return false
  return true

/-- The data loop of `fat32_write_file_in`: the first and the last cluster. -/
def writeData (data : List UInt8) (first prev : Nat) :
    Program System (Option (Nat × Nat)) := do
  if data.length > 0 then
    let cluster ← allocateCluster
    if cluster < 2 then
      text "FAT32: Disk full or allocation error\n"
      return none
    let first := if first = 0 then cluster else first
    if prev ≠ 0 then
      let _ ← setNextCluster prev cluster
    let fs ← getFs
    let chunk := min data.length fs.clusterBytes
    if ! (← writeVerified cluster (Buf.ofList (data.take chunk))) then
      return none
    by apply writeData; exacts [data.drop chunk, first, cluster]
  else
    return some (first, prev)
partial_fixpoint

/-- The part of `fat32_write_file_in` after the directory scan. -/
def storeFile (name : Name) (data : List UInt8) (slot : Slot) :
    Program System Int := do
  let some (first, prev) ← writeData data 0 0 | return -1
  let entry := DirEntry.make name attrArchive first data.length
  if (← writeCluster slot.cluster
      (setEntry slot.buffer slot.index entry)) ≠ 0 then
    text "FAT32: Failed to update directory\n"
    return -1
  updateFsinfoIfKnown (u32 (prev + 1))
  flushIfSata "FAT32: warning — sata_flush_cache failed after write\n"
  return 0

def writeFileIn (parent : Nat) (filename data : List UInt8) :
    Program System Int := do
  unless (← getFs).initialized do
    text "FAT32: Not initialized\n"
    return -1
  let name := nameToFat filename
  match ← findSlot skipNone name parent none with
  | .unreadable => return -1
  | .existing slot =>
      freeChain (entryAt slot.buffer slot.index).firstCluster
      storeFile name data slot
  | .free none =>
      text "FAT32: Directory full\n"
      return -1
  | .free (some slot) => storeFile name data slot

/-! ## Directories -/

def dotEntries (cluster dotDotCluster : Nat) : Buf :=
  setEntry (setEntry (fun _ => 0) 0
    (DirEntry.make dotName attrDirectory cluster 0)) 1
    (DirEntry.make dotDotName attrDirectory dotDotCluster 0)

/-- The part of `fat32_create_directory_in` after the directory scan. -/
def storeDirectory (name : Name) (parent : Nat) (slot : Slot) :
    Program System Int := do
  let cluster ← allocateCluster
  if cluster < 2 then
    text "FAT32: Failed to allocate cluster for directory\n"
    return -1
  let fs ← getFs
  let dotDotCluster := if parent = fs.rootDirCluster then 0 else parent
  if (← writeCluster cluster (dotEntries cluster dotDotCluster)) ≠ 0 then
    text "FAT32: Failed to write new directory cluster\n"
    let _ ← freeCluster cluster
    return -1
  let entry := DirEntry.make name attrDirectory cluster 0
  if (← writeCluster slot.cluster
      (setEntry slot.buffer slot.index entry)) ≠ 0 then
    text "FAT32: Failed to update parent directory\n"
    return -1
  updateFsinfoIfKnown (u32 (cluster + 1))
  flushIfSata "FAT32: warning — sata_flush_cache failed after mkdir\n"
  return 0

def createDirectoryIn (parent : Nat) (dirname : List UInt8) :
    Program System Int := do
  let fs ← getFs
  unless fs.initialized do
    text "FAT32: Not initialized\n"
    return -1
  let name := nameToFat dirname
  match ← findSlot (skipDots fs.rootDirCluster) name parent none with
  | .unreadable => return -1
  | .existing _ =>
      text "FAT32: Directory already exists\n"
      return -1
  | .free none =>
      text "FAT32: Directory full\n"
      return -1
  | .free (some slot) => storeDirectory name parent slot

/-- The entry loop of `fat32_is_directory_empty`: `some` is its result. -/
def emptyIn (buf : Buf) : (count i : Nat) → Option Int
  | 0, _ => none
  | count + 1, i =>
      let entry := entryAt buf i
      if entry.IsEnd then some 1
      else if entry.IsDeleted then emptyIn buf count (i + 1)
      else if entry.name = dotName then emptyIn buf count (i + 1)
      else if entry.name = dotDotName then emptyIn buf count (i + 1)
      else some 0

def isDirectoryEmpty (cluster : Nat) : Program System Int := do
  if Live cluster then
    let some buf ← readCluster cluster | return -1
    let fs ← getFs
    match emptyIn buf fs.entriesPerCluster 0 with
    | some result => return result
    | none =>
        let next ← getNextCluster cluster
        by apply isDirectoryEmpty; exact next
  else
    return 1
partial_fixpoint

/-- The common end of the two deleting functions. -/
def removeEntry (cluster index : Nat) : Program System Int := do
  let some buf ← readCluster cluster | return -1
  if (← writeCluster cluster (markDeleted buf index)) ≠ 0 then
    return -1
  updateFsinfoIfKnown unknownCount
  return 0

def deleteDirectoryIn (parent : Nat) (dirname : List UInt8) :
    Program System Int := do
  unless (← getFs).initialized do
    return -1
  let some found ← findEntry parent (nameToFat dirname) | do
    text "FAT32: Directory not found\n"
    return -1
  if ¬ found.entry.HasAttr attrDirectory then
    text "FAT32: Not a directory\n"
    return -1
  if (← isDirectoryEmpty found.entry.firstCluster) = 0 then
    text "FAT32: Directory not empty\n"
    return -1
  let _ ← freeCluster found.entry.firstCluster
  removeEntry found.cluster found.index

def deleteFile (filename : List UInt8) : Program System Int := do
  let fs ← getFs
  unless fs.initialized do
    return -1
  let some found ← findEntry fs.rootDirCluster (nameToFat filename) | return -1
  freeChain found.entry.firstCluster
  removeEntry found.cluster found.index

end EntropyOS.Fat32
