import EntropyOS.Drivers.Block

/-!
# The FAT32 driver

The functions of `fat32.c`, in its order.  Loops that follow the FAT are
written as the source has them and need not end on a damaged disk.  A buffer
that a caller passes in is the list of its bytes; the cluster buffers of the
driver are byte buffers that hold zeros from the cluster size on.
-/

namespace EntropyOS.Fat32

open EntropyOS.Foundation

/-- `sectors_per_cluster * 512`. -/
def Fs.clusterBytes (fs : Fs) : Nat := fs.sectorsPerCluster * 512

def Fs.entriesPerCluster (fs : Fs) : Nat := fs.clusterBytes / 32

def getFat32 : Program System Statics := do
  return (← get).fat32

def getFs : Program System Fs := do
  return (← get).fat32.fs

theorem getFs_apply (s : System) : getFs s = some (s.fat32.fs, s) := rfl

def modifyFat32 (f : Statics → Statics) : Program System Unit :=
  modify fun s => { s with fat32 := f s.fat32 }

def setPartitionOffset (offset : Nat) : Program System Unit :=
  modifyFat32 fun st => { st with partitionOffset := offset }

/-- `block_read_sector(g_partition_offset + lba, ..)`. -/
def readSector (lba : Nat) : Program System (Option Sector) := do
  blockReadSector (u64 ((← getFat32).partitionOffset + lba))

/-- `block_write_sector(g_partition_offset + lba, ..)`. -/
def writeSector (lba : Nat) (sector : Sector) : Program System Int := do
  blockWriteSector (u64 ((← getFat32).partitionOffset + lba)) sector

/-! ## Clusters -/

def Fs.clusterToLba (fs : Fs) (cluster : Nat) : Nat :=
  u32 (fs.clusterBeginLba +
    u32 (cluster + 4294967294) * fs.sectorsPerCluster)

/-- The buffer with a sector stored at byte `512 * i`. -/
def putSector (buf : Buf) (i : Nat) (sector : Sector) : Buf := fun k =>
  if 512 * i ≤ k ∧ k < 512 * i + 512 then sector.toBuf (k - 512 * i) else buf k

def readSectors (lba : Nat) : (count i : Nat) → Buf → Program System (Option Buf)
  | 0, _, buf => return some buf
  | count + 1, i, buf => do
      let some sector ← readSector (lba + i) | return none
      readSectors lba count (i + 1) (putSector buf i sector)

/-- `fat32_read_cluster`; `none` is the result -1. -/
def readCluster (cluster : Nat) : Program System (Option Buf) := do
  let fs ← getFs
  readSectors (fs.clusterToLba cluster) fs.sectorsPerCluster 0 fun _ => 0

def writeSectors (lba : Nat) (buf : Buf) : (count i : Nat) → Program System Int
  | 0, _ => return 0
  | count + 1, i => do
      let sector := Sector.ofBuf fun k => buf (512 * i + k)
      if (← writeSector (lba + i) sector) ≠ 0 then
        return -1
      writeSectors lba buf count (i + 1)

def writeCluster (cluster : Nat) (buf : Buf) : Program System Int := do
  let fs ← getFs
  writeSectors (fs.clusterToLba cluster) buf fs.sectorsPerCluster 0

/-! ## The allocation table -/

def Fs.fatSector (fs : Fs) (cluster : Nat) : Nat :=
  u32 (fs.fatBeginLba + u32 (cluster * 4) / 512)

def entryOffset (cluster : Nat) : Nat := u32 (cluster * 4) % 512

def getNextCluster (cluster : Nat) : Program System Nat := do
  let fs ← getFs
  let some sector ← readSector (fs.fatSector cluster) | return eoc
  return readLe sector.toBuf (entryOffset cluster) 4 % 268435456

/-- The FAT sector with a new link; the high four bits of the entry stay. -/
def linkedSector (sector : Sector) (cluster next : Nat) : Sector :=
  let old := readLe sector.toBuf (entryOffset cluster) 4
  Sector.ofBuf (storeLe sector.toBuf (entryOffset cluster) 4
    (old / 268435456 * 268435456 + next % 268435456))

def setNextCluster (cluster next : Nat) : Program System Int := do
  let fs ← getFs
  let some sector ← readSector (fs.fatSector cluster) | return -1
  let linked := linkedSector sector cluster next
  if (← writeSector (fs.fatSector cluster) linked) ≠ 0 then
    return -1
  if fs.numFats > 1 then
    if (← writeSector (u32 (fs.fatSector cluster + fs.fatSize)) linked) ≠ 0 then
      return -1
  return 0

def signatureAt (sector : Sector) : Prop :=
  sector 0 = 0x52 ∧ sector 1 = 0x52 ∧ sector 2 = 0x61 ∧ sector 3 = 0x41

instance (sector : Sector) : Decidable (signatureAt sector) :=
  inferInstanceAs (Decidable (_ ∧ _ ∧ _ ∧ _))

def infoSector (sector : Sector) (freeCount nextFree : Nat) : Sector :=
  let buf := sector.toBuf
  let buf := if freeCount ≠ unknownCount then storeLe buf 488 4 freeCount else buf
  let buf := if nextFree ≠ unknownCount then storeLe buf 492 4 nextFree else buf
  Sector.ofBuf buf

def updateFsinfo (freeCount nextFree : Nat) : Program System Int := do
  let some sector ← readSector 1 | return -1
  if ¬ signatureAt sector then
    return -1
  let info := infoSector sector freeCount nextFree
  if (← writeSector 1 info) ≠ 0 then
    return -1
  let _ ← writeSector 7 info
  return 0

/-- The update that follows a change, unless the count is not known. -/
def updateFsinfoIfKnown (nextFree : Nat) : Program System Unit := do
  let st ← getFat32
  if st.freeClusters ≠ unknownCount then
    let _ ← updateFsinfo st.freeClusters nextFree

/-- The search of `fat32_allocate_cluster` over `count` clusters. -/
def allocateFrom : (count cluster : Nat) → Program System Nat
  | 0, _ => return 0
  | count + 1, cluster => do
      if (← getNextCluster cluster) = free then
        if (← setNextCluster cluster eoc) = 0 then
          modifyFat32 fun st =>
            if st.freeClusters ≠ unknownCount ∧ st.freeClusters > 0 then
              { st with freeClusters := st.freeClusters - 1 }
            else st
          return cluster
      allocateFrom count (cluster + 1)

/-- `fat32_allocate_cluster`; 0 is a full disk. -/
def allocateCluster : Program System Nat := do
  let fs ← getFs
  allocateFrom (u32 (fs.totalClusters + 2) - 2) 2

def freeCluster (cluster : Nat) : Program System Int := do
  let result ← setNextCluster cluster free
  if result = 0 then
    modifyFat32 fun st =>
      if st.freeClusters ≠ unknownCount then
        { st with freeClusters := u32 (st.freeClusters + 1) }
      else st
  return result

/-- A cluster number the chain loops go on with. -/
def Live (cluster : Nat) : Prop := 2 ≤ cluster ∧ cluster < eoc

instance (cluster : Nat) : Decidable (Live cluster) :=
  inferInstanceAs (Decidable (_ ∧ _))

def freeChain (cluster : Nat) : Program System Unit := do
  if Live cluster then
    let next ← getNextCluster cluster
    let _ ← freeCluster cluster
    by apply freeChain; exact next
partial_fixpoint

/-! ## Looking a name up -/

inductive Scan (α : Type) where
  | found (index : Nat)
  | stop (state : α)
  | more (state : α)

/-- The entry loop of `fat32_find_entry`, from entry `i` on. -/
def findIn (name : Name) (buf : Buf) : (count i : Nat) → Scan Unit
  | 0, _ => .more ()
  | count + 1, i =>
      let entry := entryAt buf i
      if entry.IsEnd then .stop ()
      else if entry.IsDeleted then findIn name buf count (i + 1)
      else if entry.HasAttr attrVolumeId then findIn name buf count (i + 1)
      else if entry.name = name then .found i
      else findIn name buf count (i + 1)

/-- An entry with the cluster and the index where it is stored. -/
structure Located where
  entry : DirEntry
  cluster : Nat
  index : Nat

/-- `fat32_find_entry`; `none` is the result -1. -/
def findEntry (cluster : Nat) (name : Name) : Program System (Option Located) := do
  if Live cluster then
    let some buf ← readCluster cluster | return none
    let fs ← getFs
    match findIn name buf fs.entriesPerCluster 0 with
    | .found i => return some ⟨entryAt buf i, cluster, i⟩
    | .stop _ => return none
    | .more _ =>
        let next ← getNextCluster cluster
        by apply findEntry; exacts [next, name]
  else
    return none
partial_fixpoint

end EntropyOS.Fat32
