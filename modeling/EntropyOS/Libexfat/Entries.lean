import EntropyOS.Libexfat.BootRegion
import EntropyOS.Libexfat.Flushing
import EntropyOS.Libexfat.Times
import EntropyOS.Libexfat.Unicode

/-!
# Directory entries

The part of `node.c` that reads the entries of a file, makes a node of them, and
writes them back.  An entry has 32 bytes; the first two of a file hold its
attributes and its place, and the others its name.
-/

namespace EntropyOS.Libexfat

open EntropyOS.Foundation

/-! ## Types of entries -/

def entryNone : Int := -1

def entryFile : Int := 0x85

def entryFileInfo : Int := 0xc0

def entryFileName : Int := 0xc1

def entryFileTail : Int := 0xe0

/-- The `switch` of `check_entries`. -/
def MayFollow (previous current : Int) : Prop :=
  if previous = entryNone then current = entryFile
  else if previous = entryFile then current = entryFileInfo
  else if previous = entryFileInfo then current = entryFileName
  else if previous = entryFileName then
    current = entryFileName ∨ current = entryNone ∨ current ≥ entryFileTail
  else if entryFileTail ≤ previous ∧ previous ≤ 0xff then
    current ≥ entryFileTail ∨ current = entryNone
  else False
  deriving Decidable

/-- The type of entry `i` of `n`. -/
def entryType (entries : Buf) (n i : Nat) : Int :=
  if i < n then (entries (32 * i)).toNat else entryNone

def checkEntriesLoop (entries : Buf) (n : Nat) :
    (rounds i : Nat) → (previous : Int) → Program Volume Bool
  | 0, _, _ => return true
  | rounds + 1, i, previous => do
      let current := entryType entries n i
      if MayFollow previous current then
        checkEntriesLoop entries n rounds (i + 1) current
      else
        exfatError "unexpected entry type %#x after %#x at %d/%d"
        return false

def checkEntries (entries : Buf) (n : Nat) : Program Volume Bool :=
  checkEntriesLoop entries n (n + 1) 0 entryNone

/-! ## Reading and writing -/

def readEntries (dir n offset : Nat) : Program Volume (Int × Buf) := do
  unlessBug ((← getNode dir).IsDir)
  let (size, entries) ← genericPread dir (fun _ => 0) (32 * n) offset
  if size = (32 * n : Nat) then
    return (0, entries)
  if size = 0 then
    return (-enoent, entries)
  if size < 0 then
    return (-eio, entries)
  exfatError "read %zd bytes instead of %zu bytes"
  return (-eio, entries)

def writeEntries (dir : Nat) (entries : Buf) (n offset : Nat) : Program Volume Int := do
  unlessBug ((← getNode dir).IsDir)
  let size ← genericPwrite dir entries (32 * n) offset
  if size = (32 * n : Nat) then
    return 0
  if size < 0 then
    return -eio
  exfatError "wrote %zd bytes instead of %zu bytes"
  return -eio

/-! ## A node of entries -/

def enameMax : Nat := 15

/-- The node of a `memset`. -/
def Node.zero : Node := { emptyNode with references := 0 }

/-- `allocate_node`; a node is known by its address. -/
def allocateNode : Program Volume (Option Nat) := do
  match ← malloc 608 with
  | none =>
      exfatError "failed to allocate node"
      return none
  | some n =>
      modifyNode n fun _ => Node.zero
      return some n

def initNodeMeta1 (n : Nat) (entries : Buf) : Program Volume Unit := do
  let mtime ← exfat2unix (readLe entries 14 2) (readLe entries 12 2) (readLe entries 21 1)
    (readLe entries 23 1)
  -- there is no centiseconds field for atime
  let atime ← exfat2unix (readLe entries 18 2) (readLe entries 16 2) 0 (readLe entries 24 1)
  modifyNode n fun node => { node with
    attrib := readLe entries 4 2
    continuations := readLe entries 1 1
    mtime := mtime
    atime := atime }

def flagAlways1 : Nat := 1

def flagContiguous : Nat := 2

def initNodeMeta2 (n : Nat) (entries : Buf) : Program Volume Unit :=
  modifyNode n fun node => { node with
    validSize := readLe entries 40 8
    size := readLe entries 56 8
    startCluster := readLe entries 52 4
    fptrCluster := readLe entries 52 4
    isContiguous := decide (readLe entries 33 1 &&& flagContiguous ≠ 0) }

def nameUnit (entries : Buf) (k : Nat) : UInt16 :=
  UInt16.ofNat (readLe entries (32 * (2 + k / enameMax) + 2 + 2 * (k % enameMax)) 2)

def initNodeName (n : Nat) (entries : Buf) (count : Nat) : Program Volume Unit :=
  modifyNode n fun node => { node with
    name := fun k => if k < count * enameMax then nameUnit entries k else node.name k }

/-- One of the checks of `check_node`, all of which print the name of the node. -/
def checkNodeFor (n : Nat) (bad : Prop) [Decidable bad] (message : String) :
    Program Volume Bool := do
  if bad then
    let _name ← getName n
    exfatError message
    return false
  else
    return true

def fixInvalidNodeChecksum (n : Nat) : Program Volume Bool := do
  modifyNode n fun node => { node with isDirty := true }
  countFixed
  return true

def checkNodeChecksum (n : Nat) (actual : UInt16) (stored : Nat) : Program Volume Bool := do
  if ← checkNodeFor n (actual.toNat ≠ stored)
      "'%s' has invalid checksum (%#hx != %#hx)" then
    return true
  else if ← askToFix then
    fixInvalidNodeChecksum n
  else
    return false

def checkNode (n : Nat) (actual : UInt16) (entries : Buf) : Program Volume Bool := do
  let sb := (← get).sb
  let heapSize := sb.clusterCount * sb.clusterSize
  let valid ← checkNodeChecksum n actual (readLe entries 2 2)
  let node ← getNode n
  let sizes ← checkNodeFor n (node.validSize > node.size)
    "'%s' has valid size (%llu) greater than size (%llu)"
  let empty ← checkNodeFor n (node.size = 0 ∧ node.startCluster ≠ clusterFree)
    "'%s' is empty but start cluster is %#x"
  let start ← checkNodeFor n (node.size > 0 ∧ sb.ClusterInvalid node.startCluster)
    "'%s' points to invalid cluster %#x"
  let fits ← checkNodeFor n (node.size > heapSize)
    "'%s' is larger than clusters heap: %llu > %llu"
  let scattered ← checkNodeFor n (node.size = 0 ∧ node.isContiguous)
    "'%s' is empty but marked as contiguous (%#hx)"
  let aligned ← checkNodeFor n (node.IsDir ∧ node.size % sb.clusterSize ≠ 0)
    "'%s' directory size %llu is not divisible by %d"
  return valid && sizes && empty && start && fits && scattered && aligned

/-- The entries of a file that the name of this length needs. -/
def mandatoryEntries (nameLength : Nat) : Nat := 2 + (nameLength + enameMax - 1) / enameMax

/-- The end of `parse_file_entries`, after its checks. -/
def initNode (n : Nat) (entries : Buf) (count : Nat) : Program Volume Int := do
  initNodeMeta1 n entries
  initNodeMeta2 n entries
  initNodeName n entries (mandatoryEntries (readLe entries 35 1) - 2)
  if ← checkNode n (calcChecksum entries count) entries then
    return 0
  else
    return -eio

def parseFileEntries (n : Nat) (entries : Buf) (count : Nat) : Program Volume Int := do
  if ← checkEntries entries count then
    if readLe entries 1 1 < 2 then
      exfatError "too few continuations (%hhu)"
      return -eio
    if readLe entries 33 1 &&& (0xff - (flagAlways1 ||| flagContiguous)) ≠ 0 then
      exfatError "unknown flags in meta2 (%#hhx)"
      return -eio
    if readLe entries 1 1 < mandatoryEntries (readLe entries 35 1) - 1 then
      exfatError "too few continuations (%hhu < %d)"
      return -eio
    initNode n entries count
  else
    return -eio

/-- `parse_file_entry`, with the new node. -/
def parseFileEntry (parent count offset : Nat) : Program Volume (Int × Option Nat) := do
  let (rc, entries) ← readEntries parent count offset
  if rc ≠ 0 then
    return (rc, none)
  match ← allocateNode with
  | none => return (-enomem, none)
  | some n =>
      modifyNode n fun node => { node with entryOffset := offset }
      let rc ← parseFileEntries n entries count
      if rc ≠ 0 then
        return (rc, none)
      return (0, some n)

/-! ## Entries of a node -/

/-- What `exfat_flush_node` writes over the first two entries, but for the checksum. -/
def stampEntries (node : Node) (entries : Buf) : Buf :=
  let mtime := unix2exfat node.mtime
  let atime := unix2exfat node.atime
  let entries := storeLe entries 4 2 node.attrib
  let entries := storeLe (storeLe entries 14 2 mtime.date) 12 2 mtime.time
  let entries := storeLe (storeLe entries 21 1 mtime.centisec) 23 1 mtime.tzoffset
  let entries := storeLe (storeLe entries 18 2 atime.date) 16 2 atime.time
  let entries := storeLe entries 24 1 atime.tzoffset
  let entries := storeLe (storeLe entries 40 8 node.validSize) 56 8 node.size
  let entries := storeLe entries 52 4 node.startCluster
  -- empty files must not be marked as contiguous
  storeLe entries 33 1 (if node.size ≠ 0 ∧ node.isContiguous then
    flagAlways1 ||| flagContiguous else flagAlways1)

/-- The entries that `exfat_flush_node` writes. -/
def patchEntries (node : Node) (entries : Buf) (count : Nat) : Buf :=
  let entries := stampEntries node entries
  storeLe entries 2 2 (calcChecksum entries count).toNat

def flushNode (n : Nat) : Program Volume Int := do
  let node ← getNode n
  if node.isDirty then
    unlessBug (¬ (← get).ro)
    match node.parent with
    | none => return 0
    | some parent =>
        let count := 1 + node.continuations
        let (rc, entries) ← readEntries parent count node.entryOffset
        if rc ≠ 0 then
          return rc
        if ← checkEntries entries count then
          let entries := patchEntries (← getNode n) entries count
          let rc ← writeEntries parent entries count node.entryOffset
          if rc ≠ 0 then
            return rc
          modifyNode n fun node => { node with isDirty := false }
          flush
        else
          return -eio
  else
    return 0

end EntropyOS.Libexfat
