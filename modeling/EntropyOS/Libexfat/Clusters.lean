import EntropyOS.Libexfat.Volume

/-!
# Clusters of a volume

`cluster.c` up to `exfat_truncate`, in the order of the source.
-/

namespace EntropyOS.Libexfat

open EntropyOS.Foundation

namespace SuperBlock

variable (sb : SuperBlock)

def s2o (sector : Nat) : Nat := u64 (sector * sb.sectorSize)

/-- Cluster to sector, for a cluster that is not below the first one. -/
def c2s (cluster : Nat) : Nat :=
  u64 (sb.clusterSectorStart + (cluster - firstDataCluster) * 2 ^ sb.spcBits)

def fatOffset (cluster : Nat) : Nat :=
  u64 (sb.s2o sb.fatSectorStart + cluster * 4)

end SuperBlock

def c2o (cluster : Nat) : Program Volume Nat := do
  unlessBug (firstDataCluster ≤ cluster)
  let ef ← get
  return ef.sb.s2o (ef.sb.c2s cluster)

def nextCluster (node cluster : Nat) : Program Volume Nat := do
  unlessBug (firstDataCluster ≤ cluster)
  let ef ← get
  if (ef.nodes node).isContiguous then
    return u32 (cluster + 1)
  let (r, next) ← pread (fun _ => 0) 4 (ef.sb.fatOffset cluster)
  if r < 0 then
    return clusterBad
  return readLe next 0 4

/-- The start of `exfat_advance_cluster`, which goes back if it has to. -/
def rewind (node count : Nat) : Program Volume Unit := do
  if (← getNode node).fptrIndex > count then
    modifyNode node fun n => { n with fptrIndex := 0, fptrCluster := n.startCluster }

def advanceLoop (node : Nat) : (rounds : Nat) → Program Volume Unit
  | 0 => return ()
  | rounds + 1 => do
      let ef ← get
      let next ← nextCluster node (ef.nodes node).fptrCluster
      modifyNode node fun n => { n with fptrCluster := next }
      if ef.sb.ClusterInvalid next then
        return ()
      advanceLoop node rounds

def advanceCluster (node count : Nat) : Program Volume Nat := do
  rewind node count
  advanceLoop node (count - (← getNode node).fptrIndex)
  modifyNode node fun n => { n with fptrIndex := count }
  return (← getNode node).fptrCluster

def findBitAndSet (bitmap : Bitmap 64) (start last : Nat) : Nat × Bitmap 64 :=
  match bitmap.find start last with
  | some c => (u32 (c + firstDataCluster), bitmap.set c)
  | none => (clusterEnd, bitmap)

/-- `set_next_cluster`; the result says whether the entry was written. -/
def setNextCluster (contiguous : Bool) (current next : Nat) : Program Volume Bool := do
  if contiguous then
    return true
  let ef ← get
  if (← pwrite (storeLe (fun _ => 0) 0 4 next) 4 (ef.sb.fatOffset current)) < 0 then
    exfatError "failed to write the next cluster %#x after %#x"
    return false
  return true

def hintIndex (count hint : Nat) : Nat :=
  let hint := u32 (hint + 4294967296 - firstDataCluster)
  if hint ≥ count then 0 else hint

/-- The searches of `allocate_cluster`: from the hint on, and up to it. -/
def findFrom (bitmap : Bitmap 64) (hint count : Nat) : Nat × Bitmap 64 :=
  let found := findBitAndSet bitmap hint count
  if found.1 = clusterEnd then findBitAndSet found.2 0 hint else found

def allocateCluster (hint : Nat) : Program Volume Nat := do
  let ef ← get
  let count := ef.cmap.chunkSize
  let (cluster, chunk) := findFrom ef.cmap.chunk (hintIndex count hint) count
  if cluster = clusterEnd then
    exfatError "no free space left"
    return clusterEnd
  modify fun ef => ef.setChunk chunk
  return cluster

def freeCluster (cluster : Nat) : Program Volume Unit := do
  let ef ← get
  unlessBug (u32 (cluster + 4294967296 - firstDataCluster) < ef.cmap.size)
  modify fun ef => ef.setChunk (ef.cmap.chunk.clear (cluster - firstDataCluster))

/-- `make_noncontiguous` for the clusters from `c` on. -/
def makeNoncontiguous : (rounds c : Nat) → Program Volume Bool
  | 0, _ => return true
  | rounds + 1, c => do
      if !(← setNextCluster false c (c + 1)) then
        return false
      makeNoncontiguous rounds (c + 1)

def shrinkLoop (node : Nat) : (difference previous : Nat) → Program Volume Int
  | 0, _ => return 0
  | difference + 1, previous => do
      let ef ← get
      if ef.sb.ClusterInvalid previous then
        exfatError "invalid cluster 0x%x while freeing after shrink"
        return -eio
      let next ← nextCluster node previous
      if !(← setNextCluster (ef.nodes node).isContiguous previous clusterFree) then
        return -eio
      freeCluster previous
      shrinkLoop node difference next

/-- The first cluster to be freed, or the error, once the file is cropped. -/
def cropFile (node current difference : Nat) : Program Volume (Except Int Nat) := do
  if current > difference then
    let last ← advanceCluster node (current - difference - 1)
    let ef ← get
    if ef.sb.ClusterInvalid last then
      exfatError "invalid cluster 0x%x while shrinking"
      return .error (-eio)
    let previous ← nextCluster node last
    if !(← setNextCluster (ef.nodes node).isContiguous last clusterEnd) then
      return .error (-eio)
    return .ok previous
  let previous := (← getNode node).startCluster
  modifyNode node fun n => { n with startCluster := clusterFree, isDirty := true }
  return .ok previous

def shrinkFile (node current difference : Nat) : Program Volume Int := do
  unlessBug (difference ≠ 0)
  unlessBug ((← getNode node).startCluster ≠ clusterFree)
  unlessBug (difference ≤ current)
  match ← cropFile node current difference with
  | .error rc => return rc
  | .ok previous =>
      modifyNode node fun n => { n with fptrIndex := 0, fptrCluster := n.startCluster }
      shrinkLoop node difference previous

/-- The cluster that the next one is linked to, or the error. -/
def lastCluster (node current : Nat) : Program Volume (Except Int (Nat × Nat)) := do
  let n ← getNode node
  if n.startCluster ≠ clusterFree then
    -- get the last cluster of the file
    let previous ← advanceCluster node (u32 (current + 4294967296 - 1))
    if (← get).sb.ClusterInvalid previous then
      exfatError "invalid cluster 0x%x while growing"
      return .error (-eio)
    return .ok (previous, 0)
  unlessBug (n.fptrIndex = 0)
  -- the file is empty: allocate the first cluster for it
  let previous ← allocateCluster 0
  if (← get).sb.ClusterInvalid previous then
    return .error (-enospc)
  modifyNode node fun n => { n with
    fptrCluster := previous
    startCluster := previous
    isContiguous := true }
  return .ok (previous, 1)

/-- Write the links of a file that is not contiguous any more, if it is so. -/
def leaveContiguity (node previous next : Nat) : Program Volume Bool := do
  let n ← getNode node
  if next ≠ u32 (previous + 1) ∧ n.isContiguous = true then
    if !(← makeNoncontiguous (previous - n.startCluster) n.startCluster) then
      return false
    modifyNode node fun n => { n with isContiguous := false, isDirty := true }
  return true

/-- Link a cluster that was allocated to the last one of the file. -/
def appendCluster (node previous next : Nat) : Program Volume Bool := do
  if !(← leaveContiguity node previous next) then
    return false
  setNextCluster (← getNode node).isContiguous previous next

/-- Give back what was allocated; the result of `shrink_file` is not looked at. -/
def giveBack (node current allocated : Nat) : Program Volume Unit := do
  if allocated ≠ 0 then
    let _rc ← shrinkFile node (u32 (current + allocated)) allocated

def growLoop (node current : Nat) :
    (rounds allocated previous : Nat) → Program Volume (Except Int Nat)
  | 0, _, previous => return .ok previous
  | rounds + 1, allocated, previous => do
      let next ← allocateCluster (u32 (previous + 1))
      if (← get).sb.ClusterInvalid next then
        giveBack node current allocated
        return .error (-enospc)
      if !(← appendCluster node previous next) then
        return .error (-eio)
      growLoop node current rounds (allocated + 1) next

def growFile (node current difference : Nat) : Program Volume Int := do
  unlessBug (difference ≠ 0)
  match ← lastCluster node current with
  | .error rc => return rc
  | .ok (previous, allocated) =>
      match ← growLoop node current (difference - allocated) allocated previous with
      | .error rc => return rc
      | .ok previous =>
          if !(← setNextCluster (← getNode node).isContiguous previous clusterEnd) then
            return -eio
          return 0

def eraseRaw (size offset : Nat) : Program Volume Bool := do
  if (← pwrite (← get).zeroCluster size offset) < 0 then
    exfatError "failed to erase %zu bytes at %lld"
    return false
  return true

/-- Erase whole clusters up to `last`, from the one behind `cluster` on. -/
def eraseClusters (node size last : Nat) (hsize : 0 < size) (cluster boundary : Nat) :
    Program Volume Int := do
  if boundary < last then
    let cluster ← nextCluster node cluster
    unlessBug (¬ (← get).sb.ClusterInvalid cluster)
    if !(← eraseRaw size (← c2o cluster)) then
      return -eio
    eraseClusters node size last hsize cluster (boundary + size)
  else
    return 0
termination_by last - boundary

def eraseRange (node first last : Nat) : Program Volume Int := do
  if first ≥ last then
    return 0
  let sb := (← get).sb
  let boundary := (first ||| (sb.clusterSize - 1)) + 1
  let cluster ← advanceCluster node (u32 (first / sb.clusterSize))
  if sb.ClusterInvalid cluster then
    exfatError "invalid cluster 0x%x while erasing"
    return -eio
  -- erase from the beginning to the closest cluster boundary
  if !(← eraseRaw (min boundary last - first)
      (u64 ((← c2o cluster) + first % sb.clusterSize))) then
    return -eio
  eraseClusters node sb.clusterSize last sb.clusterSize_pos cluster boundary

def resize (node c1 c2 : Nat) : Program Volume Int :=
  if c1 < c2 then growFile node c1 (c2 - c1)
  else if c1 > c2 then shrinkFile node c1 (c1 - c2)
  else pure 0

def setValidSize (node size : Nat) (erase : Bool) : Program Volume Int := do
  if erase then
    let rc ← eraseRange node (← getNode node).validSize size
    if rc ≠ 0 then
      return rc
    modifyNode node fun n => { n with validSize := size }
    return 0
  modifyNode node fun n => { n with validSize := min n.validSize size }
  return 0

def truncate (node size : Nat) (erase : Bool) : Program Volume Int := do
  let ef ← get
  let n := ef.nodes node
  let c1 := ef.sb.bytes2clusters n.size
  let c2 := ef.sb.bytes2clusters size
  unlessBug (¬ (n.references = 0 ∧ n.parent.isSome = true))
  if n.size = size then
    return 0
  let rc ← resize node c1 c2
  if rc ≠ 0 then
    return rc
  let rc ← setValidSize node size erase
  if rc ≠ 0 then
    return rc
  updateMtime node
  modifyNode node fun n => { n with size := size, isDirty := true }
  return 0

/-- `exfat_count_free_clusters`, with `rounds` clusters to look at. -/
def countFree (chunk : Bitmap 64) : (rounds i free : Nat) → Nat
  | 0, _, free => free
  | rounds + 1, i, free =>
      countFree chunk rounds (i + 1)
        (if chunk.get i = 0#64 then u32 (free + 1) else free)

def countFreeClusters : Program Volume Nat := do
  let ef ← get
  return countFree ef.cmap.chunk ef.cmap.size 0 0

end EntropyOS.Libexfat
